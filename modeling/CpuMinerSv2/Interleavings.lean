import CpuMinerSv2.Accounts

/-!
Systems made of components that do not look at each other. A label concerns
some of the components; each of these moves by its own label, and the label is
enabled when all of them can. What such a system does, and what it emits for
each component, depends on the order of the labels within each component only.
-/

namespace CpuMinerSv2.Interleavings

open Primitives Accounts

variable {σ ℓ : Type}

theorem play_append (f : σ → ℓ → Option σ) (s : σ) (ls ls' : List ℓ) :
    play f s (ls ++ ls') = (play f s ls).bind fun s₁ => play f s₁ ls' := by
  induction ls generalizing s with
  | nil => rfl
  | cons l rest ih =>
    simp only [List.cons_append, play, Option.bind_assoc]
    congr 1
    funext s₁
    exact ih s₁

variable {ι ρ : Type} {τ κ : ι → Type}

/-- What a component sees of a step is a step of its own, or nothing. -/
def Follows (next : σ → ℓ → Option σ) (view : (i : ι) → σ → τ i)
    (own : (i : ι) → ℓ → Option (κ i)) (step : (i : ι) → τ i → κ i → Option (τ i)) : Prop :=
  ∀ s l s', next s l = some s' → ∀ i,
    play (step i) (view i s) (own i l).toList = some (view i s')

/-- How a system is made of components: the part of the state that each one
sees, the label it takes part with, and its own step. What no component sees
is left alone. -/
structure Composed (next : σ → ℓ → Option σ) (view : (i : ι) → σ → τ i)
    (own : (i : ι) → ℓ → Option (κ i)) (step : (i : ι) → τ i → κ i → Option (τ i))
    (rest : σ → ρ) : Prop where
  moves : Follows next view own step
  enabled : ∀ s l, (∀ i, (play (step i) (view i s) (own i l).toList).isSome = true) →
    (next s l).isSome = true
  kept : ∀ s l s', next s l = some s' → rest s' = rest s
  determined : ∀ s s', (∀ i, view i s = view i s') → rest s = rest s' → s = s'

variable {next : σ → ℓ → Option σ} {view : (i : ι) → σ → τ i} {own : (i : ι) → ℓ → Option (κ i)}
  {step : (i : ι) → τ i → κ i → Option (τ i)} {rest : σ → ρ}

theorem filterMap_own_snoc (i : ι) (ls : List ℓ) (l : ℓ) :
    (ls ++ [l]).filterMap (own i) = ls.filterMap (own i) ++ (own i l).toList := by
  rw [List.filterMap_append]
  cases hown : own i l <;> simp [hown]

/-- A component moves by its own labels, in their order. -/
theorem Follows.run_view (h : Follows next view own step) {s s' : σ} {ls : List ℓ}
    (hrun : Run (Executes next) s ls s') (i : ι) :
    play (step i) (view i s) (ls.filterMap (own i)) = some (view i s') := by
  induction hrun with
  | nil => rfl
  | @snoc ls l s₁ s₂ _ hstep ih =>
    rw [filterMap_own_snoc, play_append, ih]
    exact h s₁ l s₂ hstep i

theorem Follows.emitted_view (h : Follows next view own step) {β γ : Type} {i : ι}
    {emit : σ → ℓ → List β} {emitOwn : τ i → κ i → List γ} {pick : β → Option γ}
    (hemit : ∀ s l, (emit s l).filterMap pick =
      ((own i l).map (emitOwn (view i s))).getD [])
    {s s' : σ} {ls : List ℓ} (hrun : Run (Executes next) s ls s') :
    (emitted next emit s ls).filterMap pick =
      emitted (step i) emitOwn (view i s) (ls.filterMap (own i)) := by
  induction hrun with
  | nil => rfl
  | @snoc ls l s₁ s₂ hrun hstep ih =>
    have hown : Run (Executes (step i)) (view i s) (ls.filterMap (own i)) (view i s₁) :=
      run_of_play (fun _ _ _ hs => hs) (h.run_view hrun i)
    rw [emitted_snoc hrun hstep, List.filterMap_append, ih, hemit, filterMap_own_snoc,
      emitted_append hown]
    congr 1
    cases own i l with
    | none => rfl
    | some k =>
      change emitOwn (view i s₁) k =
        emitOwn (view i s₁) k ++ ((step i (view i s₁) k).map fun _ => []).getD []
      cases step i (view i s₁) k <;> exact (List.append_nil _).symm

theorem Composed.run_kept (h : Composed next view own step rest) {s s' : σ} {ls : List ℓ}
    (hrun : Run (Executes next) s ls s') : rest s' = rest s := by
  induction hrun with
  | nil => rfl
  | snoc _ hstep ih => exact (h.kept _ _ _ hstep).trans ih

/-- Labels that every component can follow by itself are a run of the system. -/
theorem Composed.run_of_components (h : Composed next view own step rest) {s : σ} {ls : List ℓ}
    (hplay : ∀ i, (play (step i) (view i s) (ls.filterMap (own i))).isSome = true) :
    ∃ s', Run (Executes next) s ls s' := by
  induction ls using List.reverseRecOn with
  | nil => exact ⟨s, .nil⟩
  | append_singleton ls l ih =>
    have hsplit : ∀ i, play (step i) (view i s) ((ls ++ [l]).filterMap (own i)) =
        (play (step i) (view i s) (ls.filterMap (own i))).bind fun t =>
          play (step i) t (own i l).toList := by
      intro i
      rw [filterMap_own_snoc, play_append]
    have hbefore : ∀ i, (play (step i) (view i s) (ls.filterMap (own i))).isSome = true := by
      intro i
      have hsome := hplay i
      rw [hsplit i] at hsome
      cases hp : play (step i) (view i s) (ls.filterMap (own i)) with
      | some t => rfl
      | none =>
        rw [hp] at hsome
        exact hsome
    obtain ⟨s₁, hrun⟩ := ih hbefore
    have hlast : (next s₁ l).isSome = true := by
      apply h.enabled
      intro i
      have hsome := hplay i
      rw [hsplit i, h.moves.run_view hrun i] at hsome
      exact hsome
    obtain ⟨s₂, hstep⟩ := Option.isSome_iff_exists.mp hlast
    exact ⟨s₂, hrun.snoc hstep⟩

/-- Labels reordered across the components, not within one, can be taken as
well and lead to the same state. -/
theorem Composed.reorder (h : Composed next view own step rest) {s s' : σ} {ls ls' : List ℓ}
    (hrun : Run (Executes next) s ls s')
    (hsame : ∀ i, ls'.filterMap (own i) = ls.filterMap (own i)) :
    Run (Executes next) s ls' s' := by
  have hplay : ∀ i, play (step i) (view i s) (ls'.filterMap (own i)) = some (view i s') := by
    intro i
    rw [hsame i]
    exact h.moves.run_view hrun i
  obtain ⟨s₁, hrun₁⟩ := h.run_of_components fun i => by rw [hplay i]; rfl
  have heq : s₁ = s' := by
    apply h.determined
    · intro i
      exact Option.some.inj ((h.moves.run_view hrun₁ i).symm.trans (hplay i))
    · rw [h.run_kept hrun₁, h.run_kept hrun]
  exact heq ▸ hrun₁

/-- Lists that agree on the entries of every key have the same entries. -/
theorem perm_of_filter_eq {β : Type} [DecidableEq ι] (key : β → ι) {log log' : List β}
    (h : ∀ i, log'.filter (key · = i) = log.filter (key · = i)) : log'.Perm log := by
  classical
  refine List.perm_iff_count.mpr fun b => ?_
  have hcount := congrArg (List.count b) (h (key b))
  rw [List.count_filter (by simp), List.count_filter (by simp)] at hcount
  exact hcount

end CpuMinerSv2.Interleavings
