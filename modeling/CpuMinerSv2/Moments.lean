import CpuMinerSv2.LiveTask

/-!
The runs of one miner taken apart into moments: an event, the access of a
method to the channel, another of its actions, or its return. Every run is a
sequence of moments, and at each of them, also in the middle of a method, it
is known which job the channel state has made active and since when, and what
each task has found of that.
-/

namespace CpuMinerSv2.Moments

open Messages Channels Primitives Interference MineJob MinerMethods TaskSteps MinerRuns LiveTask
  Relation

variable {K : ClientChannel}

inductive Moment (K : ClientChannel) where
  | event (e : Event)
  /-- a method is called and reaches the channel -/
  | enters (c : Call K)
  /-- the method goes on -/
  | acts
  | returns

/-- A job made active, and when. -/
abbrev Made (K : ClientChannel) := Option (K.Job × Instant)

/-- The miner, what is left of the method that runs, the job made active and
what each task found of it when it took its snapshot. -/
structure Point (K : ClientChannel) where
  rig : Rig K
  running : Option (Prog (Rig K) Sv2CpuMinerError Unit)
  made : Made K
  found : ℕ → Made K

namespace Point

/-- The job of the channel counts as made active now. -/
def initial (r : Rig K) : Point K where
  rig := r
  running := none
  made := (K.getActiveJob r.miner.channel.value).map (·, r.ambient.now)
  found _ := none

/-- What is made active when a call reaches the channel. -/
def madeBy (p : Point K) (c : Call K) : Made K :=
  if c.activating && !p.rig.miner.channel.poisoned then
    match c.outcome p.rig.miner.channel.value with
    | (.ok _, channel) => (K.getActiveJob channel).map (·, p.rig.ambient.now)
    | (.error _, _) => p.made
  else p.made

/-- A task that is about to take its snapshot finds what has been made active. -/
def foundAfter (p : Point K) : Event → ℕ → Made K
  | .task i _ =>
    match p.rig.miner.tasks[i]?.map MiningTask.phase with
    | some .checked => Function.update p.found i p.made
    | _ => p.found
  | _ => p.found

def next (p : Point K) : Moment K → Option (Point K)
  | .event e => (p.rig.advance e).map fun rig => { p with rig := rig, found := p.foundAfter e }
  | .enters c =>
    match p.running, c.program with
    | none, .act upd rest => some { p with
        rig := upd p.rig, running := some (rest p.rig), made := p.madeBy c }
    | _, _ => none
  | .acts =>
    match p.running with
    | some (.act upd rest) => some { p with rig := upd p.rig, running := some (rest p.rig) }
    | _ => none
  | .returns =>
    match p.running with
    | some (.done _) | some (.fail _) => some { p with running := none }
    | _ => none

end Point

/-- One moment. -/
def PointStep (p : Point K) (l : Moment K) (p' : Point K) : Prop := p.next l = some p'

/-- What a method does after its access to the channel: at most it spawns a task. -/
structure Calm (r r' : Rig K) : Prop where
  ambient : r'.ambient = r.ambient
  channel : r'.miner.channel = r.miner.channel
  kept : ∀ (i : ℕ) (task : MiningTask K), r.miner.tasks[i]? = some task →
    r'.miner.tasks[i]? = some task
  spawned : ∀ (i : ℕ) (task : MiningTask K), r'.miner.tasks[i]? = some task →
    r.miner.tasks[i]? = some task ∨ task.phase = .spawned

theorem respawn_calm : Guarantees Calm (respawnMiningTask (K := K)) := by
  refine guarantees_bind (guarantees_perform fun r => ?_)
    (fun _ => guarantees_perform fun r => ?_)
  · refine ⟨rfl, cancelPast_channel _, ?_, ?_⟩
    · intro i task ht
      exact (congrArg (fun tasks => tasks[i]?) (cancelPast_tasks r.miner)).trans ht
    · intro i task ht
      exact .inl ((congrArg (fun tasks => tasks[i]?) (cancelPast_tasks r.miner)).symm.trans ht)
  · refine ⟨rfl, rfl, ?_, ?_⟩
    · intro i task ht
      have hlt : i < r.miner.tasks.length := (List.getElem?_eq_some_iff.mp ht).1
      exact (List.getElem?_append_left hlt).trans ht
    · intro i task ht
      rcases spawn_cases r.miner ht with hold | ⟨_, rfl⟩
      · exact .inl hold
      · exact .inr rfl

/-- The access of a call to the channel. -/
def access (c : Call K) (r : Rig K) : Rig K :=
  { r with miner :=
      r.miner.setChannel (r.miner.channel.write fun channel => (c.outcome channel).2) }

theorem program_acts (c : Call K) :
    ∃ rest, c.program = .act (access c) rest ∧ ∀ r, Guarantees Calm (rest r) := by
  refine ⟨_, program_eq c, ?_⟩
  intro r
  refine guarantees_bind ?_ (fun _ => ?_)
  · dsimp only
    split
    · trivial
    · split <;> trivial
  · split
    · exact respawn_calm
    · trivial

theorem moments_of_others {r r' : Rig K} (h : Others Unrestricted r r') {p : Point K}
    (hp : p.rig = r) : ∃ ms p', Run PointStep p ms p' ∧ p'.rig = r' ∧ p'.running = p.running := by
  induction h with
  | refl => exact ⟨[], p, .nil, hp, rfl⟩
  | @tail _ r₂ _ hstep ih =>
    obtain ⟨ms, p₁, hrun, hrig, hrunning⟩ := ih
    obtain ⟨e, _, he⟩ := hstep
    rw [← hrig] at he
    refine ⟨ms ++ [.event e], { p₁ with rig := r₂, found := p₁.foundAfter e }, hrun.snoc ?_, rfl,
      hrunning⟩
    exact Option.map_eq_some_iff.mpr ⟨r₂, he, rfl⟩

theorem moments_of_runs {prog : Prog (Rig K) Sv2CpuMinerError Unit} {r r' : Rig K}
    {res : Except Sv2CpuMinerError Unit} (h : Runs (Interferes Unrestricted) prog r res r')
    {p : Point K} (hrig : p.rig = r) (hprog : p.running = some prog) :
    ∃ ms p', Run PointStep p ms p' ∧ p'.rig = r' ∧ p'.running = none := by
  induction h generalizing p with
  | done hothers =>
    obtain ⟨ms, p₁, hrun, hrig₁, hrunning⟩ := moments_of_others hothers hrig
    refine ⟨ms ++ [.returns], { p₁ with running := none }, hrun.snoc ?_, hrig₁, rfl⟩
    simp only [PointStep, Point.next, hrunning, hprog]
  | fail hothers =>
    obtain ⟨ms, p₁, hrun, hrig₁, hrunning⟩ := moments_of_others hothers hrig
    refine ⟨ms ++ [.returns], { p₁ with running := none }, hrun.snoc ?_, hrig₁, rfl⟩
    simp only [PointStep, Point.next, hrunning, hprog]
  | @act upd rest _ s₁ _ _ hothers _ ih =>
    obtain ⟨ms, p₁, hrun, hrig₁, hrunning⟩ := moments_of_others hothers hrig
    obtain ⟨ms', p', hrun', hrig', hdone⟩ :=
      ih (p := { p₁ with rig := upd s₁, running := some (rest s₁) }) rfl rfl
    refine ⟨ms ++ .acts :: ms', p', hrun.append (.cons ?_ hrun'), hrig', hdone⟩
    simp only [PointStep, Point.next, hrunning, hprog, hrig₁]

theorem moments_of_call {c : Call K} {r r' : Rig K} {res : Except Sv2CpuMinerError Unit}
    (h : Runs (Interferes Unrestricted) c.program r res r') {p : Point K} (hrig : p.rig = r)
    (hnone : p.running = none) :
    ∃ ms p', Run PointStep p ms p' ∧ p'.rig = r' ∧ p'.running = none := by
  obtain ⟨rest, hprogram, _⟩ := program_acts c
  rw [hprogram] at h
  obtain ⟨s₁, hothers, hrest⟩ := runs_act_iff.mp h
  obtain ⟨ms, p₁, hrun, hrig₁, hrunning⟩ := moments_of_others hothers hrig
  obtain ⟨ms', p', hrun', hrig', hdone⟩ :=
    moments_of_runs (p := { p₁ with
      rig := access c s₁, running := some (rest s₁), made := p₁.madeBy c }) hrest rfl rfl
  refine ⟨ms ++ .enters c :: ms', p', hrun.append (.cons ?_ hrun'), hrig', hdone⟩
  simp only [PointStep, Point.next, hrunning, hnone, hprogram, hrig₁]

/-- Between two calls of a run the miner is at a point of a sequence of moments. -/
theorem moments_of_run {r r' : Rig K} {ls : List (Label K)}
    (h : Run (Step Unrestricted) r ls r') {p : Point K} (hrig : p.rig = r)
    (hnone : p.running = none) :
    ∃ ms p', Run PointStep p ms p' ∧ p'.rig = r' ∧ p'.running = none := by
  induction h with
  | nil => exact ⟨[], p, .nil, hrig, hnone⟩
  | @snoc _ _ _ r₂ _ hstep ih =>
    obtain ⟨ms, p₁, hrun, hrig₁, hnone₁⟩ := ih
    have hlast : ∃ ms' p', Run PointStep p₁ ms' p' ∧ p'.rig = r₂ ∧ p'.running = none := by
      cases hstep with
      | event ha he =>
        obtain ⟨ms', p', hrun', hrig', hrunning⟩ := moments_of_others (.single ⟨_, ha, he⟩) hrig₁
        exact ⟨ms', p', hrun', hrig', hrunning.trans hnone₁⟩
      | call hcall => exact moments_of_call hcall hrig₁ hnone₁
    obtain ⟨ms', p', hrun', hrig', hdone⟩ := hlast
    exact ⟨ms ++ ms', p', hrun.append hrun', hrig', hdone⟩

/-- The four kinds of moments. -/
inductive Goes (p : Point K) : Moment K → Point K → Prop
  | event {e : Event} {rig : Rig K} (h : p.rig.advance e = some rig) :
      Goes p (.event e) { p with rig := rig, found := p.foundAfter e }
  | enters {c : Call K} {rest : Prog (Rig K) Sv2CpuMinerError Unit}
      (hrest : Guarantees Calm rest) :
      Goes p (.enters c)
        { p with rig := access c p.rig, running := some rest, made := p.madeBy c }
  | acts {rig : Rig K} {rest : Prog (Rig K) Sv2CpuMinerError Unit} (hcalm : Calm p.rig rig)
      (hrest : Guarantees Calm rest) : Goes p .acts { p with rig := rig, running := some rest }
  | returns : Goes p .returns { p with running := none }

theorem pointStep_goes {p p' : Point K} {l : Moment K}
    (hrest : ∀ prog, p.running = some prog → Guarantees Calm prog) (h : PointStep p l p') :
    Goes p l p' := by
  cases l with
  | event e =>
    obtain ⟨rig, hrig, rfl⟩ := Option.map_eq_some_iff.mp h
    exact .event hrig
  | enters c =>
    obtain ⟨rest, hprogram, hcalm⟩ := program_acts c
    simp only [PointStep, Point.next, hprogram] at h
    split at h
    · rename_i hshape
      cases hshape
      cases h
      exact .enters (hcalm _)
    · contradiction
  | acts =>
    simp only [PointStep, Point.next] at h
    split at h
    · rename_i upd rest hrunning
      cases h
      have hcalm := hrest _ hrunning p.rig
      exact .acts hcalm.1 hcalm.2
    · contradiction
  | returns =>
    simp only [PointStep, Point.next] at h
    split at h
    · cases h
      exact .returns
    · cases h
      exact .returns
    · contradiction

/-- The method that runs does nothing more but spawn a task. -/
def Calming (p : Point K) : Prop := ∀ prog, p.running = some prog → Guarantees Calm prog

theorem initial_calming (r : Rig K) : Calming (Point.initial r) := by
  intro prog h
  contradiction

theorem Goes.calming {p p' : Point K} {l : Moment K} (h : Goes p l p') (hp : Calming p) :
    Calming p' := by
  cases h with
  | event => exact hp
  | enters hrest =>
    intro prog hprog
    cases hprog
    exact hrest
  | acts _ hrest =>
    intro prog hprog
    cases hprog
    exact hrest
  | returns =>
    intro prog hprog
    contradiction

/-- The method is calm from here on, and the job of the channel is the one
made active. -/
structure Consistent (p : Point K) : Prop where
  rest : ∀ prog, p.running = some prog → Guarantees Calm prog
  active : K.getActiveJob p.rig.miner.channel.value = p.made.map Prod.fst
  past : ∀ made, p.made = some made → made.2 ≤ p.rig.ambient.now

theorem initial_consistent (r : Rig K) : Consistent (Point.initial r) := by
  refine ⟨initial_calming r, ?_, ?_⟩
  · cases hjob : K.getActiveJob r.miner.channel.value <;> simp [Point.initial, hjob]
  · intro made h
    obtain ⟨job, _, rfl⟩ := Option.map_eq_some_iff.mp h
    exact Nat.le_refl _

theorem advance_keeps (hK : ActivationContract K) {r r' : Rig K} {e : Event}
    (h : r.advance e = some r') :
    K.getActiveJob r'.miner.channel.value = K.getActiveJob r.miner.channel.value ∧
      r.ambient.now ≤ r'.ambient.now := by
  rcases advance_cases h with ⟨i, move, m', _, hstep, rfl⟩ | ⟨hm, hnow, _⟩
  · refine ⟨?_, Nat.le_refl _⟩
    cases hstep with
    | rejected => exact (hK.validate _ _).1
    | accepted => exact (hK.validate _ _).1
    | _ => rfl
  · rw [hm]
    exact ⟨rfl, hnow⟩

theorem access_consistent (hK : ActivationContract K) {p : Point K} (h : Consistent p)
    (c : Call K) :
    K.getActiveJob (access c p.rig).miner.channel.value = (p.madeBy c).map Prod.fst ∧
      ∀ made, p.madeBy c = some made → made.2 ≤ p.rig.ambient.now := by
  cases hlock : p.rig.miner.channel.poisoned with
  | true =>
    have hvalue : (access c p.rig).miner.channel.value = p.rig.miner.channel.value := by
      simp [access, ChannelMiner.setChannel, RwCell.write, hlock]
    have hmade : p.madeBy c = p.made := by
      simp [Point.madeBy, hlock]
    rw [hvalue, hmade]
    exact ⟨h.active, h.past⟩
  | false =>
    have hvalue : (access c p.rig).miner.channel.value =
        (c.outcome p.rig.miner.channel.value).2 := by
      simp [access, ChannelMiner.setChannel, RwCell.write, hlock]
    rw [hvalue]
    cases hact : c.activating with
    | false =>
      have hmade : p.madeBy c = p.made := by
        simp [Point.madeBy, hact]
      rw [hmade, (hK.quiet c _ hact).1]
      exact ⟨h.active, h.past⟩
    | true =>
      cases hout : c.outcome p.rig.miner.channel.value with
      | mk result channel =>
        cases result with
        | ok u =>
          have hmade : p.madeBy c =
              (K.getActiveJob channel).map (·, p.rig.ambient.now) := by
            simp [Point.madeBy, hact, hlock, hout]
          rw [hmade]
          refine ⟨?_, ?_⟩
          · cases K.getActiveJob channel <;> rfl
          · intro made hm
            obtain ⟨job, _, rfl⟩ := Option.map_eq_some_iff.mp hm
            exact Nat.le_refl _
        | error e =>
          have hmade : p.madeBy c = p.made := by
            simp [Point.madeBy, hact, hlock, hout]
          have hsame : channel = p.rig.miner.channel.value := by
            have hrefused := hK.refused c p.rig.miner.channel.value e (by rw [hout])
            rw [hout] at hrefused
            exact hrefused
          rw [hmade, hsame]
          exact ⟨h.active, h.past⟩

theorem step_consistent (hK : ActivationContract K) {p p' : Point K} {l : Moment K}
    (h : PointStep p l p') (hp : Consistent p) : Consistent p' := by
  have hgoes := pointStep_goes hp.rest h
  have hrest := hgoes.calming hp.rest
  cases hgoes with
  | event he =>
    obtain ⟨hjob, hnow⟩ := advance_keeps hK he
    refine ⟨hrest, hjob.trans hp.active, ?_⟩
    exact fun made hm => (hp.past made hm).trans hnow
  | @enters c rest _ =>
    obtain ⟨hactive, hpast⟩ := access_consistent hK hp c
    exact ⟨hrest, hactive, hpast⟩
  | acts hcalm _ =>
    refine ⟨hrest, ?_, ?_⟩
    · rw [hcalm.channel]
      exact hp.active
    · rw [hcalm.ambient]
      exact hp.past
  | returns => exact ⟨hrest, hp.active, hp.past⟩

/-- What a method does after its access to the channel: it sends nothing,
lowers no token and keeps the percentage. -/
structure Renews (r r' : Rig K) : Prop extends Calm r r' where
  sent : r'.miner.sent = r.miner.sent
  cpuUsagePercent : r'.miner.cpuUsagePercent = r.miner.cpuUsagePercent
  raised : ∀ token, r.miner.tokens.isRaised token = true →
    r'.miner.tokens.isRaised token = true

theorem respawn_renews : Guarantees Renews (respawnMiningTask (K := K)) := by
  refine guarantees_bind (guarantees_perform fun r => ?_)
    (fun _ => guarantees_perform fun r => ?_)
  · refine ⟨⟨rfl, cancelPast_channel _, ?_, ?_⟩, ?_, ?_, ?_⟩
    · intro i task ht
      exact (congrArg (fun tasks => tasks[i]?) (cancelPast_tasks r.miner)).trans ht
    · intro i task ht
      exact .inl ((congrArg (fun tasks => tasks[i]?) (cancelPast_tasks r.miner)).symm.trans ht)
    · simp only [cancelPastTask]
      split <;> rfl
    · simp only [cancelPastTask]
      split <;> rfl
    · exact fun token htoken => cancelPast_raised r.miner htoken
  · refine ⟨⟨rfl, rfl, ?_, ?_⟩, rfl, rfl, ?_⟩
    · intro i task ht
      have hlt : i < r.miner.tasks.length := (List.getElem?_eq_some_iff.mp ht).1
      exact (List.getElem?_append_left hlt).trans ht
    · intro i task ht
      rcases spawn_cases r.miner ht with hold | ⟨_, hnew⟩
      · exact .inl hold
      · rw [hnew]
        exact .inr rfl
    · intro token htoken
      rw [← htoken]
      exact Flags.isRaised_make _ _

/-- What is left of the method renews the miner at most. -/
def Renewing (p : Point K) : Prop := ∀ prog, p.running = some prog → Guarantees Renews prog

/-- The four kinds of moments, as a miner sees them. -/
inductive RigStep (r : Rig K) : Moment K → Rig K → Prop
  | event {e : Event} {r' : Rig K} (h : r.advance e = some r') : RigStep r (.event e) r'
  | enters {c : Call K} : RigStep r (.enters c) (access c r)
  | acts {r' : Rig K} (h : Renews r r') : RigStep r .acts r'
  | returns : RigStep r .returns r

theorem program_renews (c : Call K) :
    ∃ rest, c.program = .act (access c) rest ∧ ∀ r, Guarantees Renews (rest r) := by
  refine ⟨_, program_eq c, ?_⟩
  intro r
  refine guarantees_bind ?_ (fun _ => ?_)
  · dsimp only
    split
    · trivial
    · split <;> trivial
  · split
    · exact respawn_renews
    · trivial

theorem initial_renewing (r : Rig K) : Renewing (Point.initial r) := by
  intro prog h
  contradiction

theorem pointStep_rig {p p' : Point K} {l : Moment K} (hp : Renewing p) (h : PointStep p l p') :
    RigStep p.rig l p'.rig ∧ Renewing p' := by
  cases l with
  | event e =>
    obtain ⟨rig, hrig, rfl⟩ := Option.map_eq_some_iff.mp h
    exact ⟨.event hrig, hp⟩
  | enters c =>
    obtain ⟨rest, hprogram, hrenews⟩ := program_renews c
    simp only [PointStep, Point.next, hprogram] at h
    split at h
    · rename_i hshape
      cases hshape
      cases h
      refine ⟨.enters, ?_⟩
      intro prog hprog
      cases hprog
      exact hrenews _
    · contradiction
  | acts =>
    simp only [PointStep, Point.next] at h
    split at h
    · rename_i upd rest hrunning
      have hrenews := hp _ hrunning p.rig
      cases h
      refine ⟨.acts hrenews.1, ?_⟩
      intro prog hprog
      cases hprog
      exact hrenews.2
    · contradiction
  | returns =>
    have hdone : p' = { p with running := none } := by
      simp only [PointStep, Point.next] at h
      split at h
      · exact (Option.some.inj h).symm
      · exact (Option.some.inj h).symm
      · contradiction
    rw [hdone]
    refine ⟨.returns, ?_⟩
    intro prog hprog
    contradiction

end CpuMinerSv2.Moments
