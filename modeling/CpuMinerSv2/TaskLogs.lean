import CpuMinerSv2.Accounts
import CpuMinerSv2.Moments

/-!
Logs of one task. A note taken at each of its steps makes a log, read off the
run of its miner; what every step of a task keeps of its log and its phase
holds of every task at every moment, whatever else the miner does.
-/

namespace CpuMinerSv2.TaskLogs

open Messages Channels Primitives MineJob MinerMethods TaskSteps Moments Accounts

variable {K : ClientChannel} {β : Type}

/-- What is noted of a step of a task. -/
abbrev Note (K : ClientChannel) (β : Type) := Rig K → MiningTask K → Move → List β

/-- What is noted of task `i` at a moment. -/
def notedAt (note : Note K β) (i : ℕ) (r : Rig K) : Moment K → List β
  | .event (.task j move) =>
    if j = i then (r.miner.tasks[i]?.map fun task => note r task move).getD [] else []
  | _ => []

/-- The log of task `i` in a run. -/
abbrev taskLog (note : Note K β) (i : ℕ) : Point K → List (Moment K) → List β :=
  emitted Point.next fun p => notedAt note i p.rig

/-- What the steps of a task keep of its log, its phase and the clock, in a
miner with this percentage. -/
structure Keeps (note : Note K β) (cpuUsagePercent : ℕ)
    (Kept : List β → Instant → Phase K → Prop) : Prop where
  born : ∀ now, Kept [] now .spawned
  later : ∀ {log now later phase}, Kept log now phase → now ≤ later → Kept log later phase
  resumes : ∀ {r : Rig K} {i task move m'}, r.miner.cpuUsagePercent = cpuUsagePercent →
    resume r.miner r.ambient i task move = some m' →
    ∃ phase, m'.tasks = (r.miner.setPhase i phase).tasks ∧ ∀ log,
      Kept log r.ambient.now task.phase → Kept (log ++ note r task move) r.ambient.now phase

/-- The log of task `i` is in order, and empty while there is no such task. -/
structure Logged (cpuUsagePercent : ℕ) (Kept : List β → Instant → Phase K → Prop) (i : ℕ)
    (log : List β) (r : Rig K) : Prop where
  percent : r.miner.cpuUsagePercent = cpuUsagePercent
  kept : ∀ task, r.miner.tasks[i]? = some task → Kept log r.ambient.now task.phase
  unborn : r.miner.tasks[i]? = none → log = []

variable {note : Note K β} {cpuUsagePercent : ℕ} {Kept : List β → Instant → Phase K → Prop}

theorem Logged.stays {i : ℕ} {log : List β} {r r' : Rig K}
    (h : Logged cpuUsagePercent Kept i log r) (hK : Keeps note cpuUsagePercent Kept)
    (hpercent : r'.miner.cpuUsagePercent = r.miner.cpuUsagePercent)
    (htask : r'.miner.tasks[i]? = r.miner.tasks[i]?) (hnow : r.ambient.now ≤ r'.ambient.now) :
    Logged cpuUsagePercent Kept i (log ++ []) r' := by
  rw [List.append_nil]
  refine ⟨hpercent.trans h.percent, ?_, ?_⟩
  · intro task ht
    rw [htask] at ht
    exact hK.later (h.kept task ht) hnow
  · intro hnone
    rw [htask] at hnone
    exact h.unborn hnone

theorem taskStep_percent {m m' : ChannelMiner K} {amb : Ambient} {i : ℕ}
    (h : TaskStep m amb i m') : m'.cpuUsagePercent = m.cpuUsagePercent := by
  cases h <;> rfl

theorem event_logged {i : ℕ} {log : List β} {r r' : Rig K} {e : Event}
    (hK : Keeps note cpuUsagePercent Kept) (he : r.advance e = some r')
    (h : Logged cpuUsagePercent Kept i log r) :
    Logged cpuUsagePercent Kept i (log ++ notedAt note i r (.event e)) r' := by
  cases e with
  | task j move =>
    obtain ⟨m', hstep, rfl⟩ := Option.map_eq_some_iff.mp he
    obtain ⟨task, ht, hresume⟩ := Option.bind_eq_some_iff.mp hstep
    have hpercent := taskStep_percent (stepTask_cases hstep)
    obtain ⟨phase, htasks, hkeeps⟩ := hK.resumes h.percent hresume
    by_cases hji : j = i
    · subst hji
      have hnoted : notedAt note j r (.event (.task j move)) = note r task move := by
        simp [notedAt, ht]
      rw [hnoted]
      refine ⟨hpercent.trans h.percent, ?_, ?_⟩
      · intro t htj
        rcases setPhase_cases ht htasks htj with ⟨_, rfl⟩ | ⟨hne, _⟩
        · exact hkeeps log (h.kept task ht)
        · exact absurd rfl hne
      · intro hnone
        have hsome := r.miner.setPhase_at phase ht
        rw [← htasks] at hsome
        cases hsome.symm.trans hnone
    · have hnoted : notedAt note i r (.event (.task j move)) = [] := if_neg hji
      rw [hnoted]
      refine h.stays hK hpercent ?_ (Nat.le_refl _)
      change m'.tasks[i]? = r.miner.tasks[i]?
      rw [htasks]
      exact r.miner.setPhase_at_ne phase hji
  | tick elapsed =>
    cases he
    exact h.stays hK rfl rfl (Nat.le_add_right _ _)
  | shutdown =>
    cases he
    exact h.stays hK rfl rfl (Nat.le_refl _)

theorem moment_logged {i : ℕ} {log : List β} {r r' : Rig K} {l : Moment K}
    (hK : Keeps note cpuUsagePercent Kept) (hstep : RigStep r l r')
    (h : Logged cpuUsagePercent Kept i log r) :
    Logged cpuUsagePercent Kept i (log ++ notedAt note i r l) r' := by
  cases hstep with
  | event he => exact event_logged hK he h
  | enters => exact h.stays hK rfl rfl (Nat.le_refl _)
  | acts hrenews =>
    have hnow : r'.ambient.now = r.ambient.now := congrArg Ambient.now hrenews.ambient
    cases ht : r.miner.tasks[i]? with
    | some task =>
      refine h.stays hK hrenews.cpuUsagePercent ?_ (Nat.le_of_eq hnow.symm)
      exact (hrenews.kept i task ht).trans ht.symm
    | none =>
      -- a task that is there now has just been spawned
      have hempty := h.unborn ht
      refine ⟨hrenews.cpuUsagePercent.trans h.percent, ?_, ?_⟩
      · intro task ht'
        rcases hrenews.spawned i task ht' with hold | hspawned
        · cases ht.symm.trans hold
        · rw [hspawned, hempty]
          exact hK.born _
      · exact fun _ => (List.append_nil log).trans hempty
  | returns => exact h.stays hK rfl rfl (Nat.le_refl _)

theorem run_logged (hK : Keeps note cpuUsagePercent Kept) (i : ℕ) {amb : Ambient}
    {channel : K.Channel} {singleSubmit : Bool} {ms : List (Moment K)} {p : Point K}
    (hrun : Run PointStep (Point.initial ⟨amb, new channel cpuUsagePercent singleSubmit⟩) ms p) :
    Logged cpuUsagePercent Kept i
      (taskLog note i (Point.initial ⟨amb, new channel cpuUsagePercent singleSubmit⟩) ms)
      p.rig := by
  have hledger := ledger Point.next (fun p : Point K => notedAt note i p.rig)
    (I := fun log p => Renewing p ∧ Logged cpuUsagePercent Kept i log p.rig) ?_ hrun
    ⟨initial_renewing _, ?_⟩
  · exact hledger.2
  · intro log q l q' hq hstep
    obtain ⟨hrig, hrenewing⟩ := pointStep_rig hq.1 hstep
    exact ⟨hrenewing, moment_logged hK hrig hq.2⟩
  · refine ⟨rfl, ?_, fun _ => rfl⟩
    intro task ht
    contradiction

end CpuMinerSv2.TaskLogs
