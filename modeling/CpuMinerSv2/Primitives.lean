import Mathlib

/-!
General building blocks: finite maps seen as partial functions, one-way flags
shared by index, a cell guarded by a poisoning lock, and labelled runs of a
transition relation with their invariant rules.
-/

namespace CpuMinerSv2.Primitives

abbrev PartialMap (κ α : Type) := κ → Option α

namespace PartialMap

variable {κ α β : Type}

def empty : PartialMap κ α := fun _ => none

def containsKey (m : PartialMap κ α) (k : κ) : Bool := (m k).isSome

/-- Keep the entries whose value passes the test. -/
def retain (m : PartialMap κ α) (p : α → Bool) : PartialMap κ α := fun k => (m k).filter p

def mapValues (m : PartialMap κ α) (f : α → β) : PartialMap κ β := fun k => (m k).map f

theorem retain_eq_some_iff (m : PartialMap κ α) (p : α → Bool) (k : κ) (a : α) :
    m.retain p k = some a ↔ m k = some a ∧ p a = true := by
  simp [retain, Option.filter_eq_some_iff]

theorem mapValues_eq_some_iff (m : PartialMap κ α) (f : α → β) (k : κ) (b : β) :
    m.mapValues f k = some b ↔ ∃ a, m k = some a ∧ f a = b := by
  simp [mapValues]

variable [DecidableEq κ]

def insert (m : PartialMap κ α) (k : κ) (a : α) : PartialMap κ α :=
  Function.update m k (some a)

def remove (m : PartialMap κ α) (k : κ) : PartialMap κ α := Function.update m k none

@[simp] theorem insert_self (m : PartialMap κ α) (k : κ) (a : α) : m.insert k a k = some a := by
  simp [insert]

@[simp] theorem insert_of_ne (m : PartialMap κ α) {k j : κ} (a : α) (h : j ≠ k) :
    m.insert k a j = m j := by
  simp [insert, h]

@[simp] theorem remove_self (m : PartialMap κ α) (k : κ) : m.remove k k = none := by
  simp [remove]

@[simp] theorem remove_of_ne (m : PartialMap κ α) {k j : κ} (h : j ≠ k) :
    m.remove k j = m j := by
  simp [remove, h]

theorem remove_eq_some_iff (m : PartialMap κ α) (k j : κ) (a : α) :
    m.remove k j = some a ↔ j ≠ k ∧ m j = some a := by
  by_cases h : j = k
  · subst h
    simp
  · simp [h]

end PartialMap

structure Flags where
  raised : List Bool

namespace Flags

/-- The index of the next flag to be made. -/
def next (f : Flags) : ℕ := f.raised.length

def make (f : Flags) : Flags := ⟨f.raised ++ [false]⟩

def raise (f : Flags) (i : ℕ) : Flags := ⟨f.raised.set i true⟩

def isRaised (f : Flags) (i : ℕ) : Bool := f.raised.getD i false

@[simp] theorem next_make (f : Flags) : f.make.next = f.next + 1 := by
  simp [next, make]

@[simp] theorem next_raise (f : Flags) (i : ℕ) : (f.raise i).next = f.next := by
  simp [next, raise]

theorem isRaised_raise_self (f : Flags) {i : ℕ} (h : i < f.next) :
    (f.raise i).isRaised i = true := by
  have hi : i < f.raised.length := h
  simp [isRaised, raise, hi]

theorem isRaised_raise_of_ne (f : Flags) {i j : ℕ} (h : i ≠ j) :
    (f.raise i).isRaised j = f.isRaised j := by
  simp [isRaised, raise, List.getElem?_set_ne h]

theorem isRaised_raise_mono (f : Flags) (i j : ℕ) (h : f.isRaised j = true) :
    (f.raise i).isRaised j = true := by
  by_cases hij : i = j
  · subst i
    apply isRaised_raise_self
    by_contra hn
    have hlen : f.raised.length ≤ j := Nat.le_of_not_lt hn
    simp [isRaised, List.getElem?_eq_none hlen] at h
  · rw [isRaised_raise_of_ne f hij]
    exact h

@[simp] theorem isRaised_make (f : Flags) (j : ℕ) : f.make.isRaised j = f.isRaised j := by
  rcases Nat.lt_trichotomy j f.raised.length with h | h | h
  · simp [isRaised, make, List.getElem?_append_left h]
  · subst h
    simp [isRaised, make]
  · have h₁ : f.raised.length ≤ j := by omega
    have h₂ : (f.raised ++ [false]).length ≤ j := by
      simp only [List.length_append, List.length_singleton]
      omega
    simp [isRaised, make, List.getElem?_eq_none h₁, List.getElem?_eq_none h₂]

theorem isRaised_of_next_le (f : Flags) {j : ℕ} (h : f.next ≤ j) : f.isRaised j = false := by
  have hlen : f.raised.length ≤ j := h
  simp [isRaised, List.getElem?_eq_none hlen]

end Flags

structure RwCell (α : Type) where
  value : α
  poisoned : Bool

namespace RwCell

variable {α β : Type}

def new (a : α) : RwCell α := ⟨a, false⟩

/-- Reading fails on a poisoned lock. -/
def read (c : RwCell α) (f : α → β) : Option β := if c.poisoned then none else some (f c.value)

/-- The new value a writer leaves; a poisoned lock is not entered. -/
def write (c : RwCell α) (f : α → α) : RwCell α :=
  if c.poisoned then c else ⟨f c.value, false⟩

/-- Replace the value and leave the lock as it is. -/
def withValue (c : RwCell α) (a : α) : RwCell α := ⟨a, c.poisoned⟩

/-- A writer has panicked. -/
def poison (c : RwCell α) : RwCell α := ⟨c.value, true⟩

end RwCell

/-- Perform the labels in order. -/
inductive Run {σ ℓ : Type} (step : σ → ℓ → σ → Prop) (s : σ) : List ℓ → σ → Prop
  | nil : Run step s [] s
  | snoc {ls : List ℓ} {l : ℓ} {s₁ s₂ : σ} :
      Run step s ls s₁ → step s₁ l s₂ → Run step s (ls ++ [l]) s₂

/-- Take a step only when the guard allows it in the state before. -/
def Guarded {σ ℓ : Type} (guard : σ → ℓ → Prop) (step : σ → ℓ → σ → Prop) : σ → ℓ → σ → Prop :=
  fun s l s' => guard s l ∧ step s l s'

/-- Execute the labels in order. -/
def play {σ ℓ : Type} (f : σ → ℓ → Option σ) (s : σ) : List ℓ → Option σ
  | [] => some s
  | l :: ls => (f s l).bind fun s₁ => play f s₁ ls

section Runs

variable {σ ℓ : Type} {step : σ → ℓ → σ → Prop}

theorem Run.cons {s s₁ s' : σ} {l : ℓ} {ls : List ℓ} (h : step s l s₁)
    (hrun : Run step s₁ ls s') : Run step s (l :: ls) s' := by
  induction hrun with
  | nil => exact .snoc .nil h
  | snoc _ hstep ih => exact .snoc ih hstep

theorem Run.append {s s₁ s₂ : σ} {ls ls' : List ℓ} (h : Run step s ls s₁)
    (h' : Run step s₁ ls' s₂) : Run step s (ls ++ ls') s₂ := by
  induction h' with
  | nil =>
    rw [List.append_nil]
    exact h
  | snoc _ hstep ih =>
    rw [← List.append_assoc]
    exact .snoc ih hstep

theorem Run.mono {step' : σ → ℓ → σ → Prop} (h : ∀ s l s', step s l s' → step' s l s') {s s' : σ}
    {ls : List ℓ} (hrun : Run step s ls s') : Run step' s ls s' := by
  induction hrun with
  | nil => exact .nil
  | snoc _ hstep ih => exact .snoc ih (h _ _ _ hstep)

theorem Run.guarded {guard : σ → ℓ → Prop} {s s' : σ} {ls : List ℓ} (hrun : Run step s ls s')
    (hls : ∀ l ∈ ls, ∀ a, guard a l) : Run (Guarded guard step) s ls s' := by
  induction hrun with
  | nil => exact .nil
  | snoc _ hstep ih =>
    refine .snoc (ih fun l hl => hls l (List.mem_append_left _ hl)) ⟨?_, hstep⟩
    exact hls _ (List.mem_append_right _ List.mem_cons_self) _

/-- What holds at the start and is kept by every step holds after the run. -/
theorem Run.invariant {I : σ → Prop} (hstep : ∀ s l s', I s → step s l s' → I s')
    {s s' : σ} {ls : List ℓ} (hrun : Run step s ls s') (hs : I s) : I s' := by
  induction hrun with
  | nil => exact hs
  | snoc _ h ih => exact hstep _ _ _ ih h

/-- An invariant that also depends on what has been done so far. -/
theorem Run.history {I : List ℓ → σ → Prop} {s s' : σ} {ls : List ℓ} (h₀ : I [] s)
    (hstep : ∀ ls s₁ l s₂, Run step s ls s₁ → I ls s₁ → step s₁ l s₂ → I (ls ++ [l]) s₂)
    (hrun : Run step s ls s') : I ls s' := by
  induction hrun with
  | nil => exact h₀
  | snoc hrun h ih => exact hstep _ _ _ _ hrun ih h

/-- An execution whose every step is a step of the relation is a run. -/
theorem run_of_play {f : σ → ℓ → Option σ} (hf : ∀ s l s', f s l = some s' → step s l s')
    {s s' : σ} {ls : List ℓ} (h : play f s ls = some s') : Run step s ls s' := by
  induction ls generalizing s with
  | nil =>
    cases h
    exact .nil
  | cons l rest ih =>
    obtain ⟨s₁, h₁, h₂⟩ := Option.bind_eq_some_iff.mp h
    exact .cons (hf s l s₁ h₁) (ih h₂)

theorem guardedRun_of_play {f : σ → ℓ → Option σ} {check : σ → ℓ → Bool} {guard : σ → ℓ → Prop}
    (hcheck : ∀ s l, check s l = true → guard s l)
    (hf : ∀ s l s', f s l = some s' → step s l s') {s s' : σ} {ls : List ℓ}
    (h : play (fun s l => if check s l then f s l else none) s ls = some s') :
    Run (Guarded guard step) s ls s' := by
  refine run_of_play ?_ h
  intro a l b hab
  simp only [Option.ite_none_right_eq_some] at hab
  exact ⟨hcheck a l hab.1, hf a l b hab.2⟩

end Runs

end CpuMinerSv2.Primitives
