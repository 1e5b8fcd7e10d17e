import CpuMinerSv2.Primitives

/-!
Accounts of a run: what its steps emit, read off state by state, what they
cost against a potential that the state holds, and since which label a state
has been as it is. The first gives induction over a history that no state
records; the second bounds how often a step can be taken; the third finds the
label that a fact about the last state comes from.
-/

namespace CpuMinerSv2.Accounts

open Primitives

variable {σ ℓ β : Type}

section Emissions

/-- Concatenate what each step emits, in the state before it. -/
def emitted (next : σ → ℓ → Option σ) (emit : σ → ℓ → List β) : σ → List ℓ → List β
  | _, [] => []
  | s, l :: ls => emit s l ++ ((next s l).map fun s' => emitted next emit s' ls).getD []

/-- The steps of an executable system. -/
abbrev Executes (next : σ → ℓ → Option σ) (s : σ) (l : ℓ) (s' : σ) : Prop := next s l = some s'

variable {next : σ → ℓ → Option σ} {emit : σ → ℓ → List β}

theorem emitted_cons {s s' : σ} {l : ℓ} (h : next s l = some s') (ls : List ℓ) :
    emitted next emit s (l :: ls) = emit s l ++ emitted next emit s' ls := by
  rw [emitted, h]
  rfl

theorem emitted_append {s s' : σ} {ls : List ℓ} (h : Run (Executes next) s ls s')
    (ls' : List ℓ) :
    emitted next emit s (ls ++ ls') = emitted next emit s ls ++ emitted next emit s' ls' := by
  induction h generalizing ls' with
  | nil => rfl
  | @snoc ls l s₁ s₂ _ hstep ih =>
    have hlast : emitted next emit s₁ [l] = emit s₁ l := by
      rw [emitted_cons hstep]
      exact List.append_nil _
    calc
      emitted next emit s (ls ++ [l] ++ ls')
          = emitted next emit s (ls ++ (l :: ls')) := by
        rw [List.append_assoc, List.singleton_append]
      _ = emitted next emit s ls ++ (emit s₁ l ++ emitted next emit s₂ ls') := by
        rw [ih, emitted_cons hstep]
      _ = emitted next emit s (ls ++ [l]) ++ emitted next emit s₂ ls' := by
        rw [ih, hlast, List.append_assoc]

theorem emitted_snoc {s s₁ s₂ : σ} {ls : List ℓ} {l : ℓ} (h : Run (Executes next) s ls s₁)
    (hstep : next s₁ l = some s₂) :
    emitted next emit s (ls ++ [l]) = emitted next emit s ls ++ emit s₁ l := by
  rw [emitted_append h, emitted_cons hstep]
  exact congrArg _ (List.append_nil _)

/-- A relation between the history and the state: it holds at the start, and
every step books what it emits. -/
theorem ledger (next : σ → ℓ → Option σ) (emit : σ → ℓ → List β) {I : List β → σ → Prop}
    (hstep : ∀ log s l s', I log s → next s l = some s' → I (log ++ emit s l) s')
    {s s' : σ} {ls : List ℓ} (hrun : Run (Executes next) s ls s') (hs : I [] s) :
    I (emitted next emit s ls) s' := by
  induction hrun with
  | nil => exact hs
  | snoc hrun h ih =>
    rw [emitted_snoc hrun h]
    exact hstep _ _ _ _ ih h

theorem emitted_filterMap {γ : Type} (f : β → Option γ) (s : σ) (ls : List ℓ) :
    (emitted next emit s ls).filterMap f =
      emitted next (fun s l => (emit s l).filterMap f) s ls := by
  induction ls generalizing s with
  | nil => rfl
  | cons l ls ih =>
    rw [emitted, emitted, List.filterMap_append]
    cases next s l with
    | none => rfl
    | some s' => exact congrArg _ (ih s')

end Emissions

section Charges

/-- The cost of all labels together. -/
def charges (cost : ℓ → ℕ) (ls : List ℓ) : ℕ := (ls.map cost).sum

@[simp] theorem charges_nil (cost : ℓ → ℕ) : charges cost [] = 0 := rfl

@[simp] theorem charges_cons (cost : ℓ → ℕ) (l : ℓ) (ls : List ℓ) :
    charges cost (l :: ls) = cost l + charges cost ls := by
  simp [charges]

@[simp] theorem charges_append (cost : ℓ → ℕ) (ls ls' : List ℓ) :
    charges cost (ls ++ ls') = charges cost ls + charges cost ls' := by
  simp [charges]

/-- Every step pays its cost out of the potential of the state before it. -/
def Pays (I : σ → Prop) (step : σ → ℓ → σ → Prop) (cost : ℓ → ℕ) (potential : σ → ℕ) : Prop :=
  ∀ s l s', I s → step s l s' → I s' ∧ cost l + potential s' ≤ potential s

variable {I : σ → Prop} {step : σ → ℓ → σ → Prop} {cost : ℓ → ℕ} {potential : σ → ℕ}

/-- What a run costs, and what is left, was there at its start. -/
theorem Pays.charges_le (h : Pays I step cost potential) {s s' : σ} {ls : List ℓ}
    (hrun : Run step s ls s') (hs : I s) :
    I s' ∧ charges cost ls + potential s' ≤ potential s := by
  induction hrun with
  | nil =>
    refine ⟨hs, ?_⟩
    rw [charges_nil]
    omega
  | @snoc ls l s₁ s₂ _ hstep ih =>
    obtain ⟨hI, hle⟩ := h s₁ l s₂ ih.1 hstep
    have hbefore := ih.2
    refine ⟨hI, ?_⟩
    rw [charges_append, charges_cons, charges_nil]
    omega

end Charges

section Since

/-- One of the labels satisfies the first property, and all that come after
it the second. -/
def Since (P Q : ℓ → Prop) (ls : List ℓ) : Prop :=
  ∃ before l after, ls = before ++ l :: after ∧ P l ∧ ∀ l' ∈ after, Q l'

variable {P Q : ℓ → Prop}

theorem Since.of_last {ls : List ℓ} {l : ℓ} (h : P l) : Since P Q (ls ++ [l]) := by
  refine ⟨ls, l, [], rfl, h, ?_⟩
  intro l' hl'
  exact absurd hl' List.not_mem_nil

theorem Since.snoc {ls : List ℓ} {l : ℓ} (h : Since P Q ls) (hl : Q l) :
    Since P Q (ls ++ [l]) := by
  obtain ⟨before, start, after, rfl, hP, hQ⟩ := h
  refine ⟨before, start, after ++ [l], by simp, hP, ?_⟩
  intro l' hl'
  rcases List.mem_append.mp hl' with hold | hlast
  · exact hQ l' hold
  · rw [List.mem_singleton.mp hlast]
    exact hl

/-- What does not hold at the start, is brought about by labels of the first
kind only and survives labels of the second kind only, has held since one of
the first kind. -/
theorem since_of_run {step : σ → ℓ → σ → Prop} {I : σ → Prop}
    (hstep : ∀ s l s', step s l s' → I s' → P l ∨ I s ∧ Q l) {s s' : σ} {ls : List ℓ}
    (hrun : Run step s ls s') (hs : ¬ I s) (hs' : I s') : Since P Q ls := by
  induction hrun with
  | nil => exact absurd hs' hs
  | snoc _ hlast ih =>
    rcases hstep _ _ _ hlast hs' with hP | ⟨hI, hQ⟩
    · exact .of_last hP
    · exact (ih hI).snoc hQ

end Since

end CpuMinerSv2.Accounts
