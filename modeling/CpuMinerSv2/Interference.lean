import Mathlib

/-!
Programs made of atomic actions on a shared state, and their runs under an
environment that may act before every one of these actions. A program is run
alone by `eval`; `Runs` lets the environment interfere. The rules below say
what a run can do to a relation and to one component of the state, without
unfolding the interleaving again.
-/

namespace CpuMinerSv2.Interference

/-- Finish, fail, or update the state in one atomic action and go on with the
program chosen by the state which that action observed. -/
inductive Prog (σ ε α : Type) where
  | done (a : α)
  | fail (e : ε)
  | act (upd : σ → σ) (next : σ → Prog σ ε α)

namespace Prog

variable {σ τ ε ε' α β : Type}

def bind : Prog σ ε α → (α → Prog σ ε β) → Prog σ ε β
  | done a, f => f a
  | fail e, _ => fail e
  | act upd next, f => act upd (fun s => (next s).bind f)

instance : Monad (Prog σ ε) where
  pure := done
  bind := bind

@[simp] theorem bind_eq (p : Prog σ ε α) (f : α → Prog σ ε β) : p >>= f = p.bind f := rfl

@[simp] theorem done_bind (a : α) (f : α → Prog σ ε β) : (done a).bind f = f a := rfl

@[simp] theorem fail_bind (e : ε) (f : α → Prog σ ε β) : (fail e : Prog σ ε α).bind f = fail e :=
  rfl

@[simp] theorem act_bind (upd : σ → σ) (next : σ → Prog σ ε α) (f : α → Prog σ ε β) :
    (act upd next).bind f = act upd (fun s => (next s).bind f) := rfl

/-- Update the state. -/
def perform (upd : σ → σ) : Prog σ ε Unit := act upd (fun _ => done ())

/-- Observe the state. -/
def observe (f : σ → α) : Prog σ ε α := act id (fun s => done (f s))

/-- Turn a failure into a value, as matching on a returned `Result` does. -/
def attempt : Prog σ ε α → Prog σ ε' (Except ε α)
  | done a => done (.ok a)
  | fail e => done (.error e)
  | act upd next => act upd (fun s => (next s).attempt)

/-- Run the body for each element in turn; the first failure ends the loop. -/
def forEach (body : α → Prog σ ε Unit) : List α → Prog σ ε Unit
  | [] => done ()
  | a :: rest => (body a).bind fun _ => forEach body rest

/-- Run a program on one component of a larger state. The result is `none`
when the component is missing. -/
def focus (view : σ → Option τ) (put : τ → σ → σ) : Prog τ ε α → Prog σ ε (Option α)
  | done a => done (some a)
  | fail e => fail e
  | act upd next =>
      act (fun s => match view s with | some t => put (upd t) s | none => s)
        (fun s => match view s with | some t => focus view put (next t) | none => done none)

/-- The uninterrupted run. -/
def eval : Prog σ ε α → σ → Except ε α × σ
  | done a, s => (.ok a, s)
  | fail e, s => (.error e, s)
  | act upd next, s => (next s).eval (upd s)

end Prog

open Prog Relation

/-- Runs of a program when `env` may take any number of steps before every
atomic action and after the last one. -/
inductive Runs {σ ε α : Type} (env : σ → σ → Prop) : Prog σ ε α → σ → Except ε α → σ → Prop
  | done {a : α} {s s' : σ} : ReflTransGen env s s' → Runs env (.done a) s (.ok a) s'
  | fail {e : ε} {s s' : σ} : ReflTransGen env s s' → Runs env (.fail e) s (.error e) s'
  | act {upd : σ → σ} {next : σ → Prog σ ε α} {s s₁ s' : σ} {r : Except ε α} :
      ReflTransGen env s s₁ → Runs env (next s₁) (upd s₁) r s' → Runs env (.act upd next) s r s'

section Rules

variable {σ τ ε ε' α β : Type} {env : σ → σ → Prop}

@[simp] theorem runs_done_iff {a : α} {s s' : σ} {r : Except ε α} :
    Runs env (.done a) s r s' ↔ r = .ok a ∧ ReflTransGen env s s' := by
  constructor
  · intro hrun
    cases hrun with
    | done h => exact ⟨rfl, h⟩
  · rintro ⟨rfl, h⟩
    exact .done h

@[simp] theorem runs_fail_iff {e : ε} {s s' : σ} {r : Except ε α} :
    Runs env (.fail e) s r s' ↔ r = .error e ∧ ReflTransGen env s s' := by
  constructor
  · intro hrun
    cases hrun with
    | fail h => exact ⟨rfl, h⟩
  · rintro ⟨rfl, h⟩
    exact .fail h

theorem runs_act_iff {upd : σ → σ} {next : σ → Prog σ ε α} {s s' : σ} {r : Except ε α} :
    Runs env (.act upd next) s r s' ↔
      ∃ s₁, ReflTransGen env s s₁ ∧ Runs env (next s₁) (upd s₁) r s' := by
  constructor
  · intro hrun
    cases hrun with
    | act h₁ h₂ => exact ⟨_, h₁, h₂⟩
  · rintro ⟨s₁, h₁, h₂⟩
    exact .act h₁ h₂

theorem runs_perform_iff {upd : σ → σ} {s s' : σ} {r : Except ε Unit} :
    Runs env (perform upd) s r s' ↔
      r = .ok () ∧ ∃ s₁, ReflTransGen env s s₁ ∧ ReflTransGen env (upd s₁) s' := by
  simp only [perform, runs_act_iff, runs_done_iff]
  constructor
  · rintro ⟨s₁, h₁, hr, h₂⟩
    exact ⟨hr, s₁, h₁, h₂⟩
  · rintro ⟨hr, s₁, h₁, h₂⟩
    exact ⟨s₁, h₁, hr, h₂⟩

theorem runs_observe_iff {f : σ → α} {s s' : σ} {r : Except ε α} :
    Runs env (observe f) s r s' ↔
      ∃ s₁, ReflTransGen env s s₁ ∧ r = .ok (f s₁) ∧ ReflTransGen env s₁ s' := by
  simp only [observe, runs_act_iff, runs_done_iff, id]

theorem Runs.prepend {p : Prog σ ε α} {s s₁ s' : σ} {r : Except ε α}
    (h : ReflTransGen env s s₁) (hrun : Runs env p s₁ r s') : Runs env p s r s' := by
  cases hrun with
  | done h₁ => exact .done (h.trans h₁)
  | fail h₁ => exact .fail (h.trans h₁)
  | act h₁ h₂ => exact .act (h.trans h₁) h₂

theorem Runs.append {p : Prog σ ε α} {s s₁ s' : σ} {r : Except ε α}
    (hrun : Runs env p s r s₁) (h : ReflTransGen env s₁ s') : Runs env p s r s' := by
  induction hrun with
  | done h₁ => exact .done (h₁.trans h)
  | fail h₁ => exact .fail (h₁.trans h)
  | act h₁ _ ih => exact .act h₁ (ih h)

theorem runs_bind_iff {p : Prog σ ε α} {f : α → Prog σ ε β} {s s' : σ} {r : Except ε β} :
    Runs env (p.bind f) s r s' ↔
      (∃ a s₁, Runs env p s (.ok a) s₁ ∧ Runs env (f a) s₁ r s') ∨
      (∃ e, r = .error e ∧ Runs env p s (.error e) s') := by
  induction p generalizing s with
  | done a =>
    constructor
    · intro h
      exact .inl ⟨a, s, .done .refl, h⟩
    · rintro (⟨b, s₁, hp, hf⟩ | ⟨e, rfl, hp⟩)
      · obtain ⟨hb, h⟩ := runs_done_iff.mp hp
        cases hb
        exact hf.prepend h
      · simp at hp
  | fail e =>
    constructor
    · intro hrun
      simp only [fail_bind, runs_fail_iff] at hrun
      obtain ⟨rfl, h⟩ := hrun
      exact .inr ⟨e, rfl, .fail h⟩
    · rintro (⟨b, s₁, hp, _⟩ | ⟨e', rfl, hp⟩)
      · simp at hp
      · obtain ⟨he, h⟩ := runs_fail_iff.mp hp
        cases he
        exact runs_fail_iff.mpr ⟨rfl, h⟩
  | act upd next ih =>
    simp only [act_bind, runs_act_iff, ih]
    constructor
    · rintro ⟨s₁, h, ⟨a, s₂, hp, hf⟩ | ⟨e, rfl, hp⟩⟩
      · exact .inl ⟨a, s₂, ⟨s₁, h, hp⟩, hf⟩
      · exact .inr ⟨e, rfl, s₁, h, hp⟩
    · rintro (⟨a, s₂, ⟨s₁, h, hp⟩, hf⟩ | ⟨e, rfl, s₁, h, hp⟩)
      · exact ⟨s₁, h, .inl ⟨a, s₂, hp, hf⟩⟩
      · exact ⟨s₁, h, .inr ⟨e, rfl, hp⟩⟩

theorem runs_attempt_iff {p : Prog σ ε α} {s s' : σ} {r : Except ε' (Except ε α)} :
    Runs env (p.attempt : Prog σ ε' (Except ε α)) s r s' ↔
      ∃ r₀, r = .ok r₀ ∧ Runs env p s r₀ s' := by
  induction p generalizing s with
  | done a =>
    simp only [attempt, runs_done_iff]
    constructor
    · rintro ⟨rfl, h⟩
      exact ⟨_, rfl, rfl, h⟩
    · rintro ⟨_, rfl, rfl, h⟩
      exact ⟨rfl, h⟩
  | fail e =>
    simp only [attempt, runs_done_iff, runs_fail_iff]
    constructor
    · rintro ⟨rfl, h⟩
      exact ⟨_, rfl, rfl, h⟩
    · rintro ⟨_, rfl, rfl, h⟩
      exact ⟨rfl, h⟩
  | act upd next ih =>
    simp only [attempt, runs_act_iff, ih]
    constructor
    · rintro ⟨s₁, h, r₀, rfl, hrun⟩
      exact ⟨r₀, rfl, s₁, h, hrun⟩
    · rintro ⟨r₀, rfl, s₁, h, hrun⟩
      exact ⟨s₁, h, r₀, rfl, hrun⟩

/-- Running alone is running with an environment that never acts. -/
theorem runs_eval (p : Prog σ ε α) (s : σ) : Runs env p s (p.eval s).1 (p.eval s).2 := by
  induction p generalizing s with
  | done a => exact .done .refl
  | fail e => exact .fail .refl
  | act upd next ih => exact .act .refl (ih s (upd s))

theorem eq_of_still {s s' : σ} (h : ReflTransGen (fun _ _ => False) s s') : s' = s := by
  induction h with
  | refl => rfl
  | tail _ hstep => exact hstep.elim

theorem eval_of_runs {p : Prog σ ε α} {s s' : σ} {r : Except ε α}
    (h : Runs (fun _ _ => False) p s r s') : p.eval s = (r, s') := by
  induction p generalizing s with
  | done a =>
    obtain ⟨rfl, h'⟩ := runs_done_iff.mp h
    rw [Prog.eval, eq_of_still h']
  | fail e =>
    obtain ⟨rfl, h'⟩ := runs_fail_iff.mp h
    rw [Prog.eval, eq_of_still h']
  | act upd next ih =>
    obtain ⟨s₁, h₁, hrest⟩ := runs_act_iff.mp h
    rw [← eq_of_still h₁]
    exact ih s₁ hrest

theorem eval_bind_ok {p : Prog σ ε α} {f : α → Prog σ ε β} {s s₁ : σ} {a : α}
    (h : p.eval s = (.ok a, s₁)) : (p.bind f).eval s = (f a).eval s₁ := by
  induction p generalizing s with
  | done b =>
    cases h
    rfl
  | fail e => exact nomatch h
  | act upd next ih => exact ih s h

theorem eval_attempt (p : Prog σ ε α) (s : σ) :
    (p.attempt : Prog σ ε' (Except ε α)).eval s = (.ok (p.eval s).1, (p.eval s).2) := by
  induction p generalizing s with
  | done a => rfl
  | fail e => rfl
  | act upd next ih => exact ih s (upd s)

/-- On a component that can be put back as a whole, a focused program does to
the state what the program does to the component. -/
theorem eval_focus {view : σ → Option τ} {put : τ → σ → σ}
    (hget : ∀ s t t', view s = some t → view (put t' s) = some t')
    (hput : ∀ s t, view s = some t → put t s = s)
    (hputput : ∀ s t t' t'', view s = some t → put t'' (put t' s) = put t'' s)
    (p : Prog τ ε α) {s : σ} {t : τ} (hv : view s = some t) :
    (focus view put p).eval s = ((p.eval t).1.map some, put (p.eval t).2 s) := by
  induction p generalizing s t with
  | done a =>
    simp only [focus, Prog.eval, hput s t hv]
    rfl
  | fail e =>
    simp only [focus, Prog.eval, hput s t hv]
    rfl
  | act upd next ih =>
    simp only [focus, Prog.eval, hv]
    rw [ih t (hget s t (upd t) hv), hputput s t _ _ hv]

/-- Every atomic action of the program, whatever state it observes, stays
within the relation. -/
def Guarantees (R : σ → σ → Prop) : Prog σ ε α → Prop
  | done _ => True
  | fail _ => True
  | act upd next => ∀ s, R s (upd s) ∧ Guarantees R (next s)

@[simp] theorem guarantees_done (R : σ → σ → Prop) (a : α) :
    Guarantees R (.done a : Prog σ ε α) := trivial

@[simp] theorem guarantees_fail (R : σ → σ → Prop) (e : ε) :
    Guarantees R (.fail e : Prog σ ε α) := trivial

theorem guarantees_mono {R S : σ → σ → Prop} (hRS : ∀ s s', R s s' → S s s') {p : Prog σ ε α}
    (hp : Guarantees R p) : Guarantees S p := by
  induction p with
  | done a => trivial
  | fail e => trivial
  | act upd next ih => exact fun s => ⟨hRS _ _ (hp s).1, ih s (hp s).2⟩

theorem guarantees_true (p : Prog σ ε α) : Guarantees (fun _ _ => True) p := by
  induction p with
  | done a => trivial
  | fail e => trivial
  | act upd next ih => exact fun s => ⟨trivial, ih s⟩

theorem guarantees_perform {R : σ → σ → Prop} {upd : σ → σ} (h : ∀ s, R s (upd s)) :
    Guarantees R (perform upd : Prog σ ε Unit) :=
  fun s => ⟨h s, trivial⟩

theorem guarantees_observe {R : σ → σ → Prop} (hR : ∀ s, R s s) (f : σ → α) :
    Guarantees R (observe f : Prog σ ε α) :=
  fun s => ⟨hR s, trivial⟩

theorem guarantees_bind {R : σ → σ → Prop} {p : Prog σ ε α} {f : α → Prog σ ε β}
    (hp : Guarantees R p) (hf : ∀ a, Guarantees R (f a)) : Guarantees R (p.bind f) := by
  induction p with
  | done a => exact hf a
  | fail e => trivial
  | act upd next ih => exact fun s => ⟨(hp s).1, ih s (hp s).2⟩

theorem guarantees_of_bind {R : σ → σ → Prop} {p : Prog σ ε α} {f : α → Prog σ ε β}
    (h : Guarantees R (p.bind f)) : Guarantees R p := by
  induction p with
  | done a => trivial
  | fail e => trivial
  | act upd next ih => exact fun s => ⟨(h s).1, ih s (h s).2⟩

theorem guarantees_attempt {R : σ → σ → Prop} {p : Prog σ ε α} (hp : Guarantees R p) :
    Guarantees R (p.attempt : Prog σ ε' (Except ε α)) := by
  induction p with
  | done a => trivial
  | fail e => trivial
  | act upd next ih => exact fun s => ⟨(hp s).1, ih s (hp s).2⟩

theorem guarantees_forEach {R : σ → σ → Prop} {body : α → Prog σ ε Unit}
    (hbody : ∀ a, Guarantees R (body a)) (as : List α) : Guarantees R (forEach body as) := by
  induction as with
  | nil => trivial
  | cons a rest ih => exact guarantees_bind (hbody a) (fun _ => ih)

theorem guarantees_focus {R : σ → σ → Prop} {S : τ → τ → Prop} {view : σ → Option τ}
    {put : τ → σ → σ} (hR : ∀ s, R s s)
    (hput : ∀ s t t', view s = some t → S t t' → R s (put t' s))
    {p : Prog τ ε α} (hp : Guarantees S p) : Guarantees R (focus view put p) := by
  induction p with
  | done a => trivial
  | fail e => trivial
  | act upd next ih =>
    simp only [focus, Guarantees]
    intro s
    cases hv : view s with
    | none => exact ⟨hR s, trivial⟩
    | some t => exact ⟨hput s t _ hv (hp t).1, ih t (hp t).2⟩

/-- Rely and guarantee: when the environment and every action stay within a
reflexive and transitive relation, so does the whole run. -/
theorem Runs.within {R : σ → σ → Prop} (hrefl : ∀ s, R s s)
    (htrans : ∀ a b c, R a b → R b c → R a c) (henv : ∀ a b, env a b → R a b)
    {p : Prog σ ε α} (hp : Guarantees R p) {s s' : σ} {r : Except ε α}
    (hrun : Runs env p s r s') : R s s' := by
  have hstar : ∀ {a b}, ReflTransGen env a b → R a b := by
    intro a b h
    induction h with
    | refl => exact hrefl a
    | tail _ hstep ih => exact htrans _ _ _ ih (henv _ _ hstep)
  induction hrun with
  | done h => exact hstar h
  | fail h => exact hstar h
  | act h _ ih => exact htrans _ _ _ (htrans _ _ _ (hstar h) (hp _).1) (ih (hp _).2)

/-- A component that the environment changes only by its own steps sees a
focused run as a run of its own. -/
theorem runs_focus {own : τ → τ → Prop} {view : σ → Option τ} {put : τ → σ → σ}
    (hput : ∀ s t t', view s = some t → view (put t' s) = some t')
    (henv : ∀ s s' t, env s s' → view s = some t →
      ∃ t', view s' = some t' ∧ ReflTransGen own t t')
    {p : Prog τ ε α} {s s' : σ} {t : τ} {r : Except ε (Option α)}
    (hrun : Runs env (focus view put p) s r s') (hv : view s = some t) :
    ∃ r₀ t', r = r₀.map some ∧ view s' = some t' ∧ Runs own p t r₀ t' := by
  have hstar : ∀ {a b t}, ReflTransGen env a b → view a = some t →
      ∃ t', view b = some t' ∧ ReflTransGen own t t' := by
    intro a b t h hv
    induction h with
    | refl => exact ⟨t, hv, .refl⟩
    | tail _ hstep ih =>
      obtain ⟨t₁, hv₁, h₁⟩ := ih
      obtain ⟨t₂, hv₂, h₂⟩ := henv _ _ t₁ hstep hv₁
      exact ⟨t₂, hv₂, h₁.trans h₂⟩
  induction p generalizing s t with
  | done a =>
    simp only [focus, runs_done_iff] at hrun
    obtain ⟨rfl, h⟩ := hrun
    obtain ⟨t', hv', ht⟩ := hstar h hv
    exact ⟨.ok a, t', rfl, hv', .done ht⟩
  | fail e =>
    simp only [focus, runs_fail_iff] at hrun
    obtain ⟨rfl, h⟩ := hrun
    obtain ⟨t', hv', ht⟩ := hstar h hv
    exact ⟨.error e, t', rfl, hv', .fail ht⟩
  | act upd next ih =>
    simp only [focus, runs_act_iff] at hrun
    obtain ⟨s₁, h, hrest⟩ := hrun
    obtain ⟨t₁, hv₁, ht₁⟩ := hstar h hv
    simp only [hv₁] at hrest
    obtain ⟨r₀, t', hr, hv', hown⟩ := ih t₁ hrest (hput s₁ t₁ (upd t₁) hv₁)
    exact ⟨r₀, t', hr, hv', .act ht₁ hown⟩

/-- Without the component a focused program that acts first finds nothing and
changes nothing. -/
theorem runs_focus_none {view : σ → Option τ} {put : τ → σ → σ} {upd : τ → τ}
    {next : τ → Prog τ ε α} (henv : ∀ s s', env s s' → view s = none → view s' = none)
    {s s' : σ} {r : Except ε (Option α)}
    (hrun : Runs env (focus view put (.act upd next)) s r s') (hv : view s = none) :
    r = .ok none ∧ ReflTransGen env s s' := by
  simp only [focus, runs_act_iff] at hrun
  obtain ⟨s₁, h, hrest⟩ := hrun
  have hv₁ : view s₁ = none := by
    clear hrest
    induction h with
    | refl => exact hv
    | tail _ hstep ih => exact henv _ _ hstep ih
  simp only [hv₁, runs_done_iff] at hrest
  exact ⟨hrest.1, h.trans hrest.2⟩

end Rules

end CpuMinerSv2.Interference
