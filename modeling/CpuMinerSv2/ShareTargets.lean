import CpuMinerSv2.Ntime

/-!
Three targets decide about one share. A task compares its hashes with the
target the channel had when the task took its snapshot; the channel then
compares the share with the target of the network, for a block, and with the
target its job has kept since it was made. The first comparison loses no share
as long as no task takes its snapshot while the target of the channel is below
that of the active job, and the second adds none as long as that of the job is
not below both others.
-/

namespace CpuMinerSv2.ShareTargets

open Messages Channels Primitives MineJob MinerMethods TaskSteps MinerRuns Moments Ntime SampleDeps
  SampleMiners

variable {K : ClientChannel}

/-- A job with the chain tip it is mined on. -/
abbrev PlacedJob (K : ClientChannel) := K.Job × Option ChainTip

/-- The snapshot was taken of this job on this chain tip. -/
def Matches (snapshot : Snapshot K) (placed : PlacedJob K) : Prop :=
  placed.1 = snapshot.activeJob ∧ ∃ chainTip, placed.2 = some chainTip ∧
    snapshot.prevhash = chainTip.prevHash ∧ snapshot.nbits = chainTip.nbits

/-- The target that a job has for good, and that of the network which `nbits`
stand for. -/
structure Targets (K : ClientChannel) where
  job : K.Job → Target
  network : UInt32 → Target

/-- What a share with this result met: a block the target of the network, any
other share that of its job. -/
def Targets.met (targets : Targets K) (snapshot : Snapshot K) : ShareValidationResult → Target
  | .valid => targets.job snapshot.activeJob
  | .blockFound _ => targets.network snapshot.nbits

/-- A share is compared with the targets of the job that the channel holds
under the id in the share. -/
structure TargetContract (K : ClientChannel) (targets : Targets K)
    (held : K.Channel → UInt32 → Option (PlacedJob K)) : Prop where
  active : ∀ (channel : K.Channel) (job : K.Job), K.getActiveJob channel = some job →
    held channel (K.jobId job) = some (job, K.getChainTip channel)
  /-- a call, `set_target` among them, leaves the jobs held as they are or
  drops them, unless it makes a job active under that id -/
  call : ∀ (c : Call K) (channel : K.Channel) (jobId : UInt32),
    held (c.outcome channel).2 jobId = held channel jobId ∨
      held (c.outcome channel).2 jobId = none ∨
      (c.outcome channel).1 = .ok () ∧ c.activating = true ∧
        ∃ job, K.getActiveJob (c.outcome channel).2 = some job ∧ K.jobId job = jobId
  validate : ∀ (channel : K.Channel) (share : K.Share) (jobId : UInt32),
    held (K.validateShare channel share).2 jobId = held channel jobId
  accepted : ∀ (channel : K.Channel) (hand : JobInHand K) (roll : Rolling) (ntime : UInt32)
    (share : K.Share) (result : ShareValidationResult), Computed hand →
    buildShare channel hand roll ntime = .ok share →
    (K.validateShare channel share).1 = .ok result →
    ∃ placed, held channel (K.jobId hand.snapshot.activeJob) = some placed ∧
      (Matches hand.snapshot placed →
        K.blockHash (headerOf hand roll.nonce ntime) ≤ targets.met hand.snapshot result)

section Invariant

variable (targets : Targets K) (held : K.Channel → UInt32 → Option (PlacedJob K))

/-- The target of the job is met wherever those of the channel and of the
network are, and that of the channel wherever the job's is. -/
structure Agreed (target : Target) (nbits : UInt32) (job : K.Job) : Prop where
  loose : targets.job job ≤ target
  strict : min target (targets.network nbits) ≤ targets.job job

/-- The targets in the snapshot agree, and its job is what the channel holds
under its id, or nothing is. -/
structure Tracked (channel : K.Channel) (phase : Phase K) : Prop where
  agreed : ∀ snapshot, snapshotOf phase = some snapshot →
    Agreed targets snapshot.channelTarget snapshot.nbits snapshot.activeJob
  known : ∀ snapshot, snapshotOf phase = some snapshot → ∀ placed,
    held channel (K.jobId snapshot.activeJob) = some placed → Matches snapshot placed
  computed : ∀ hand, jobOf phase = some hand → Computed hand

def AllTracked (m : ChannelMiner K) : Prop :=
  ∀ (i : ℕ) (task : MiningTask K), m.tasks[i]? = some task →
    Tracked targets held m.channel.value task.phase

/-- When there is something to mine, the targets of the channel, of its chain
tip and of its active job agree. -/
def TargetsAgree (m : ChannelMiner K) : Prop :=
  m.channel.poisoned = false → ∀ chainTip job, K.getChainTip m.channel.value = some chainTip →
    K.getActiveJob m.channel.value = some job →
      Agreed targets (K.getTarget m.channel.value) chainTip.nbits job

/-- A job made active under the id of a job in hand is that job. -/
def KeepsIds (m : ChannelMiner K) (c : Call K) : Prop :=
  m.channel.poisoned = false → (c.outcome m.channel.value).1 = .ok () → c.activating = true →
    ∀ job, K.getActiveJob (c.outcome m.channel.value).2 = some job →
      ∀ (i : ℕ) (task : MiningTask K) (snapshot : Snapshot K), m.tasks[i]? = some task →
        snapshotOf task.phase = some snapshot →
          K.jobId job = K.jobId snapshot.activeJob →
            Fits (c.outcome m.channel.value).2 snapshot

/-- The moments at which no target is lost: snapshots are taken while the
targets agree, and job ids tell jobs apart. -/
def Careful (p : Point K) : Moment K → Prop
  | .event (.task i _) => ∀ task, p.rig.miner.tasks[i]? = some task → task.phase = .checked →
      TargetsAgree targets p.rig.miner
  | .enters c => KeepsIds p.rig.miner c
  | _ => True

variable {targets held}

theorem tracked_of_snapshotOf_none {channel : K.Channel} {phase : Phase K}
    (h : snapshotOf phase = none) : Tracked targets held channel phase := by
  refine ⟨?_, ?_, ?_⟩
  · intro snapshot hs
    rw [h] at hs
    contradiction
  · intro snapshot hs
    rw [h] at hs
    contradiction
  · intro hand hj
    cases phase <;> contradiction

theorem Tracked.moves {channel : K.Channel} {phase phase' : Phase K}
    (h : Tracked targets held channel phase)
    (hs : ∀ snapshot, snapshotOf phase' = some snapshot → snapshotOf phase = some snapshot)
    (hj : ∀ hand, jobOf phase' = some hand → jobOf phase = some hand ∨ Computed hand) :
    Tracked targets held channel phase' := by
  refine ⟨?_, ?_, ?_⟩
  · intro snapshot hsnapshot
    exact h.agreed snapshot (hs snapshot hsnapshot)
  · intro snapshot hsnapshot
    exact h.known snapshot (hs snapshot hsnapshot)
  · intro hand hhand
    rcases hj hand hhand with hold | hnew
    · exact h.computed hand hold
    · exact hnew

theorem Advance.snapshot_kept {m : ChannelMiner K} {cancelled : Bool} {phase phase' : Phase K}
    (h : Advance m cancelled phase phase') (hne : phase ≠ .checked) {snapshot : Snapshot K}
    (hs : snapshotOf phase' = some snapshot) : snapshotOf phase = some snapshot := by
  cases h with
  | snapshot => exact absurd rfl hne
  | _ => first | contradiction | exact hs

theorem takeSnapshot_tracked (hK : TargetContract K targets held) (m : ChannelMiner K)
    (hagree : TargetsAgree targets m) :
    Tracked targets held m.channel.value (takeSnapshot m.channel) := by
  unfold takeSnapshot RwCell.read
  cases hlock : m.channel.poisoned with
  | true => exact tracked_of_snapshotOf_none rfl
  | false =>
    simp only [Bool.false_eq_true, ↓reduceIte, id]
    cases htip : K.getChainTip m.channel.value with
    | none => exact tracked_of_snapshotOf_none rfl
    | some chainTip =>
      cases hjob : K.getActiveJob m.channel.value with
      | none => exact tracked_of_snapshotOf_none rfl
      | some job =>
        refine ⟨?_, ?_, ?_⟩
        · intro snapshot hs
          cases hs
          exact hagree hlock chainTip job htip hjob
        · intro snapshot hs placed hplaced
          cases hs
          have hheld := hK.active m.channel.value job hjob
          cases hheld.symm.trans hplaced
          exact ⟨rfl, chainTip, htip, rfl, rfl⟩
        · intro hand hj
          contradiction

theorem AllTracked.setPhase {m : ChannelMiner K} (h : AllTracked targets held m) {i : ℕ}
    {task : MiningTask K} {phase : Phase K} (ht : m.tasks[i]? = some task)
    (hphase : Tracked targets held m.channel.value phase) :
    AllTracked targets held (m.setPhase i phase) := by
  apply forall_setPhase (P := fun _ t => Tracked targets held m.channel.value t.phase) ht h
  exact hphase

theorem AllTracked.moves {m m' : ChannelMiner K} (h : AllTracked targets held m) {i : ℕ}
    {task : MiningTask K} {phase : Phase K} (ht : m.tasks[i]? = some task)
    (htasks : m'.tasks = m.tasks)
    (hheld : held m'.channel.value = held m.channel.value)
    (hs : ∀ snapshot, snapshotOf phase = some snapshot → snapshotOf task.phase = some snapshot)
    (hj : ∀ hand, jobOf phase = some hand → jobOf task.phase = some hand) :
    AllTracked targets held (m'.setPhase i phase) := by
  have hall : AllTracked targets held m' := by
    intro j t hjt
    rw [htasks] at hjt
    obtain ⟨hagreed, hknown, hcomputed⟩ := h j t hjt
    refine ⟨hagreed, ?_, hcomputed⟩
    rw [hheld]
    exact hknown
  have ht' : m'.tasks[i]? = some task := htasks ▸ ht
  apply hall.setPhase ht'
  exact (hall i task ht').moves hs (fun hand hhand => .inl (hj hand hhand))

theorem taskStep_tracked (hK : TargetContract K targets held) {m m' : ChannelMiner K}
    {amb : Ambient} {i : ℕ} (hstep : TaskStep m amb i m')
    (hne : ∀ task, m.tasks[i]? = some task → task.phase ≠ .checked)
    (h : AllTracked targets held m) : AllTracked targets held m' := by
  cases hstep with
  | @advance task phase ht ha =>
    apply h.setPhase ht
    apply (h i task ht).moves
    · exact fun snapshot hs => Advance.snapshot_kept ha (hne task ht) hs
    · exact fun hand hj => ha.job_source hj
  | writerPanics ht hp hlock hs =>
    exact h.moves ht rfl rfl (fun _ hnone => by contradiction) (fun _ hnone => by contradiction)
  | rejected ht hp hlock hs hv =>
    refine h.moves ht rfl ?_ ?_ ?_
    · exact funext fun jobId => hK.validate _ _ jobId
    · exact fun _ hs => by rw [hp]; exact hs
    · exact fun _ hj => by rw [hp]; exact hj
  | accepted ht hp hlock hs hv =>
    refine h.moves ht rfl ?_ ?_ ?_
    · exact funext fun jobId => hK.validate _ _ jobId
    · exact fun _ hs => by rw [hp]; exact hs
    · exact fun _ hj => by rw [hp]; exact hj
  | sent ht hp hgate =>
    refine h.moves ht rfl rfl ?_ ?_
    · exact fun _ hs => by rw [hp]; exact hs
    · exact fun _ hj => by rw [hp]; exact hj
  | sentOnce ht hp hgate =>
    exact h.moves ht rfl rfl (fun _ hnone => by contradiction) (fun _ hnone => by contradiction)
  | closeGate ht hp hgate =>
    exact h.moves ht rfl rfl (fun _ hnone => by contradiction) (fun _ hnone => by contradiction)

theorem resume_checked {m m' : ChannelMiner K} {amb : Ambient} {i : ℕ} {task : MiningTask K}
    {move : Move} (hp : task.phase = .checked) (h : resume m amb i task move = some m') :
    m' = m.setPhase i (takeSnapshot m.channel) := by
  unfold resume at h
  rw [hp] at h
  cases move with
  | next => exact (Option.some.inj h).symm
  | breakOff => contradiction
  | sendFails => contradiction

theorem event_tracked (hK : TargetContract K targets held) {p : Point K} {e : Event}
    {rig : Rig K} (hcareful : Careful targets p (.event e)) (h : p.rig.advance e = some rig)
    (hall : AllTracked targets held p.rig.miner) : AllTracked targets held rig.miner := by
  cases e with
  | task i move =>
    obtain ⟨m', hstep, rfl⟩ := Option.map_eq_some_iff.mp h
    by_cases hchecked : ∃ task, p.rig.miner.tasks[i]? = some task ∧ task.phase = .checked
    · obtain ⟨task, ht, hp⟩ := hchecked
      obtain ⟨t, ht', hresume⟩ := Option.bind_eq_some_iff.mp hstep
      cases ht.symm.trans ht'
      have hm := resume_checked hp hresume
      subst hm
      exact hall.setPhase ht (takeSnapshot_tracked hK _ (hcareful task ht hp))
    · apply taskStep_tracked hK (stepTask_cases hstep) _ hall
      exact fun task ht hp => hchecked ⟨task, ht, hp⟩
  | tick elapsed =>
    cases h
    exact hall
  | shutdown =>
    cases h
    exact hall

theorem access_tracked (hK : TargetContract K targets held) {r : Rig K} {c : Call K}
    (hids : KeepsIds r.miner c) (hall : AllTracked targets held r.miner) :
    AllTracked targets held (access c r).miner := by
  cases hlock : r.miner.channel.poisoned with
  | true =>
    have hsame : (access c r).miner = r.miner := by
      simp [access, ChannelMiner.setChannel, RwCell.write, hlock]
    rw [hsame]
    exact hall
  | false =>
    have hvalue : (access c r).miner.channel.value = (c.outcome r.miner.channel.value).2 := by
      simp [access, ChannelMiner.setChannel, RwCell.write, hlock]
    intro i task ht
    have ht' : r.miner.tasks[i]? = some task := ht
    obtain ⟨hagreed, hknown, hcomputed⟩ := hall i task ht'
    refine ⟨hagreed, ?_, hcomputed⟩
    rw [hvalue]
    intro snapshot hs placed hplaced
    rcases hK.call c r.miner.channel.value (K.jobId snapshot.activeJob) with
      hsame | hnone | ⟨hok, hact, job, hjob, hid⟩
    · exact hknown snapshot hs placed (hsame.symm.trans hplaced)
    · rw [hnone] at hplaced
      contradiction
    · obtain ⟨hactive, chainTip, htip, hhash, hbits⟩ :=
        hids hlock hok hact job hjob i task snapshot ht' hs hid
      cases (hK.active _ _ hactive).symm.trans hplaced
      exact ⟨rfl, chainTip, htip, hhash, hbits⟩

theorem step_tracked (hK : TargetContract K targets held) {p p' : Point K} {l : Moment K}
    (hcareful : Careful targets p l) (h : PointStep p l p') (hcalming : Calming p)
    (hall : AllTracked targets held p.rig.miner) : AllTracked targets held p'.rig.miner := by
  cases pointStep_goes hcalming h with
  | event he => exact event_tracked hK hcareful he hall
  | enters => exact access_tracked hK hcareful hall
  | acts hcalm =>
    intro i task ht
    rcases hcalm.spawned i task ht with hold | hspawned
    · have htracked := hall i task hold
      rw [← hcalm.channel] at htracked
      exact htracked
    · apply tracked_of_snapshotOf_none
      rw [hspawned]
      rfl
  | returns => exact hall

/-- What holds at every point of a careful run. -/
def Sound (targets : Targets K) (held : K.Channel → UInt32 → Option (PlacedJob K)) (p : Point K) :
    Prop := Calming p ∧ AllTracked targets held p.rig.miner

theorem run_sound (hK : TargetContract K targets held) {p p' : Point K} {ms : List (Moment K)}
    (h : Run (Guarded (Careful targets) PointStep) p ms p') (hp : Sound targets held p) :
    Sound targets held p' := by
  refine h.invariant ?_ hp
  rintro q l q' ⟨hcalming, hall⟩ ⟨hcareful, hstep⟩
  exact ⟨(pointStep_goes hcalming hstep).calming hcalming,
    step_tracked hK hcareful hstep hcalming hall⟩

end Invariant

section Headers

variable {targets : Targets K} {held : K.Channel → UInt32 → Option (PlacedJob K)}

/-- Task `i` stands in this phase. -/
def At (p : Point K) (i : ℕ) (phase : Phase K) : Prop :=
  ∃ task, p.rig.miner.tasks[i]? = some task ∧ task.phase = phase

/-- Task `i` takes a step, in which no send fails. -/
def Moves (i : ℕ) (p p' : Point K) : Prop :=
  ∃ move, move ≠ .sendFails ∧ PointStep p (.event (.task i move)) p'

/-- Careful moments without a step of task `i`. -/
def Waits (targets : Targets K) (i : ℕ) (p q : Point K) : Prop :=
  ∃ ms, Run (Guarded (fun p l => Careful targets p l ∧ ∀ move, l ≠ .event (.task i move))
    PointStep) p ms q

/-- Three steps of task `i`, from `p`, `q` and `s`, and whatever happens in between. -/
structure Turns (targets : Targets K) (i : ℕ)
    (p p' q q' s s' : Point K) : Prop where
  hashes : Moves i p p'
  waits : Waits targets i p' q
  validates : Moves i q q'
  rests : Waits targets i q' s
  sends : Moves i s s'

/-- The hash that a task computes from its job now. -/
def hashOf (p : Point K) (hand : JobInHand K) (roll : Rolling) : Target :=
  K.blockHash (headerAt hand roll.nonce p.rig.ambient.now)

/-- The channel accepts the share with this nonce and time. -/
def Accepts (channel : RwCell K.Channel) (hand : JobInHand K) (roll : Rolling) (ntime : UInt32) :
    Prop :=
  channel.poisoned = false ∧ ∃ share result,
    buildShare channel.value hand roll ntime = .ok share ∧
      (K.validateShare channel.value share).1 = .ok result

/-- The share with this nonce and time enters the upstream queue. -/
def Sends (s s' : Point K) (hand : JobInHand K) (roll : Rolling) (ntime : UInt32) : Prop :=
  ∃ sequenceNumber share,
    K.submitShares hand.snapshot.channelId sequenceNumber (K.jobId hand.snapshot.activeJob)
      roll.nonce ntime (K.version hand.snapshot.activeJob) hand.snapshot.extranonceSize =
      some share ∧
    s'.rig.miner.sent = s.rig.miner.sent ++ [share]

theorem waits_at {i : ℕ} {p q : Point K} (h : Waits targets i p q) (hcalming : Calming p)
    {phase : Phase K} (hat : At p i phase) : At q i phase := by
  obtain ⟨ms, hrun⟩ := h
  have hboth : Calming q ∧ At q i phase := by
    refine hrun.invariant (I := fun p => Calming p ∧ At p i phase) ?_ ⟨hcalming, hat⟩
    rintro a l b ⟨hcalming, task, ht, hp⟩ ⟨⟨_, hother⟩, hstep⟩
    have hgoes := pointStep_goes hcalming hstep
    refine ⟨hgoes.calming hcalming, ?_⟩
    cases hgoes with
    | @event e rig he =>
      rcases advance_cases he with ⟨j, move, m', rfl, htask, rfl⟩ | ⟨hm, _, _⟩
      · have hij : j ≠ i := fun heq => hother move (by rw [heq])
        obtain ⟨phase', htasks⟩ := htask.tasks_eq
        refine ⟨task, ?_, hp⟩
        change m'.tasks[i]? = some task
        rw [htasks, ChannelMiner.setPhase_at_ne _ _ hij]
        exact ht
      · refine ⟨task, ?_, hp⟩
        change rig.miner.tasks[i]? = some task
        rw [hm]
        exact ht
    | enters => exact ⟨task, ht, hp⟩
    | acts hcalm => exact ⟨task, hcalm.kept i task ht, hp⟩
    | returns => exact ⟨task, ht, hp⟩
  exact hboth.2

theorem waits_sound (hK : TargetContract K targets held) {i : ℕ} {p q : Point K}
    (h : Waits targets i p q) (hp : Sound targets held p) : Sound targets held q := by
  obtain ⟨ms, hrun⟩ := h
  exact run_sound hK (hrun.mono fun _ _ _ hstep => ⟨hstep.1.1, hstep.2⟩) hp

theorem moves_resume {i : ℕ} {p p' : Point K} (h : Moves i p p') {phase : Phase K}
    (hat : At p i phase) : ∃ task move, p.rig.miner.tasks[i]? = some task ∧ task.phase = phase ∧
      move ≠ .sendFails ∧
        resume p.rig.miner p.rig.ambient i task move = some p'.rig.miner := by
  obtain ⟨move, hmove, hstep⟩ := h
  obtain ⟨task, ht, hp⟩ := hat
  obtain ⟨rig, hrig, rfl⟩ := Option.map_eq_some_iff.mp hstep
  obtain ⟨m', hm', rfl⟩ := Option.map_eq_some_iff.mp hrig
  obtain ⟨task', ht', hresume⟩ := Option.bind_eq_some_iff.mp hm'
  cases ht.symm.trans ht'
  exact ⟨task, move, ht, hp, hmove, hresume⟩

theorem moves_taskStep {i : ℕ} {p p' : Point K} (h : Moves i p p') {phase : Phase K}
    (hat : At p i phase) : ∃ task, p.rig.miner.tasks[i]? = some task ∧ task.phase = phase ∧
      TaskStep p.rig.miner p.rig.ambient i p'.rig.miner := by
  obtain ⟨task, move, ht, hp, _, hresume⟩ := moves_resume h hat
  exact ⟨task, ht, hp, stepTask_cases (Option.bind_eq_some_iff.mpr ⟨task, ht, hresume⟩)⟩

theorem moves_next {i : ℕ} {p p' : Point K} (h : Moves i p p') {phase : Phase K}
    (hat : At p i phase) (hphase : ∀ job roll, phase ≠ .yielded job roll) :
    ∃ task, p.rig.miner.tasks[i]? = some task ∧ task.phase = phase ∧
      resume p.rig.miner p.rig.ambient i task .next = some p'.rig.miner := by
  obtain ⟨task, move, ht, hp, hmove, hresume⟩ := moves_resume h hat
  cases move with
  | next => exact ⟨task, ht, hp, hresume⟩
  | breakOff =>
    unfold resume at hresume
    rw [hp] at hresume
    cases phase <;> first | contradiction | exact absurd rfl (hphase _ _)
  | sendFails => exact absurd rfl hmove

theorem at_of_setPhase {m : ChannelMiner K} {p : Point K} {i : ℕ} {task : MiningTask K}
    {phase : Phase K} (ht : m.tasks[i]? = some task) (hm : m.setPhase i phase = p.rig.miner) :
    At p i phase := by
  refine ⟨{ task with phase := phase }, ?_, rfl⟩
  rw [← hm]
  exact ChannelMiner.setPhase_at m phase ht

theorem hashing_moves {i : ℕ} {p p' : Point K} (h : Moves i p p') {hand : JobInHand K}
    {roll : Rolling} (hat : At p i (.hashing hand roll)) :
    At p' i (mineHeader hand roll p.rig.ambient.now) := by
  obtain ⟨task, ht, hp, hresume⟩ := moves_next h hat (by simp)
  unfold resume at hresume
  rw [hp] at hresume
  exact at_of_setPhase ht (Option.some.inj hresume)

theorem hashing_hits {i : ℕ} {p p' : Point K} (h : Moves i p p') {hand : JobInHand K}
    {roll : Rolling} (hat : At p i (.hashing hand roll))
    (hhash : hashOf p hand roll ≤ hand.snapshot.channelTarget) :
    At p' i (.found hand roll (ntimeAt hand p.rig.ambient.now)) := by
  have hmined := hashing_moves h hat
  unfold mineHeader at hmined
  rw [if_pos (show K.blockHash _ ≤ _ from hhash)] at hmined
  exact hmined

theorem hashing_misses {i : ℕ} {p p' : Point K} (h : Moves i p p') {hand : JobInHand K}
    {roll : Rolling} (hat : At p i (.hashing hand roll))
    (hhash : ¬ hashOf p hand roll ≤ hand.snapshot.channelTarget) :
    At p' i (.polling hand roll.nextNonce) := by
  have hmined := hashing_moves h hat
  unfold mineHeader at hmined
  rw [if_neg (show ¬ K.blockHash _ ≤ _ from hhash)] at hmined
  exact hmined

/-- A task that holds an accepted share. -/
def Handing : Phase K → Prop
  | .submitting _ _ _ => True
  | _ => False

theorem polling_moves {i : ℕ} {p p' : Point K} (h : Moves i p p') {hand : JobInHand K}
    {roll : Rolling} (hat : At p i (.polling hand roll)) :
    ∃ phase, At p' i phase ∧ ¬ Handing phase := by
  obtain ⟨task, ht, hp, hresume⟩ := moves_next h hat (by simp)
  unfold resume at hresume
  rw [hp] at hresume
  refine ⟨_, at_of_setPhase ht (Option.some.inj hresume), ?_⟩
  split <;> exact id

theorem found_step {m m' : ChannelMiner K} {amb : Ambient} {i : ℕ} (hstep : TaskStep m amb i m')
    {task : MiningTask K} (ht : m.tasks[i]? = some task) {hand : JobInHand K} {roll : Rolling}
    {ntime : UInt32} (hp : task.phase = .found hand roll ntime) :
    (∃ share, buildShare m.channel.value hand roll ntime = .ok share ∧
      Accepts m.channel hand roll ntime ∧
      m'.tasks[i]? = some { task with phase := .submitting hand roll share }) ∨
    (¬ Accepts m.channel hand roll ntime ∧ ∃ phase, ¬ Handing phase ∧
      m'.tasks[i]? = some { task with phase := phase }) := by
  cases hstep with
  | advance ht' ha =>
    cases ht.symm.trans ht'
    rw [hp] at ha
    cases ha with
    | poisonedWrite hlock =>
      refine .inr ⟨?_, .finished, id, ChannelMiner.setPhase_at _ _ ht⟩
      rintro ⟨hopen, _⟩
      rw [hlock] at hopen
      contradiction
  | writerPanics ht' hp' hlock hs =>
    cases ht.symm.trans ht'
    cases hp.symm.trans hp'
    refine .inr ⟨?_, _, ?_, ChannelMiner.setPhase_at _ _ ht⟩
    · rintro ⟨_, share, _, hbuilt, _⟩
      cases hs.symm.trans hbuilt
    · exact id
  | rejected ht' hp' hlock hs hv =>
    cases ht.symm.trans ht'
    cases hp.symm.trans hp'
    refine .inr ⟨?_, _, ?_, ChannelMiner.setPhase_at _ _ ht⟩
    · rintro ⟨_, share, result, hbuilt, hvalid⟩
      cases hs.symm.trans hbuilt
      cases hv.symm.trans hvalid
    · exact id
  | accepted ht' hp' hlock hs hv =>
    cases ht.symm.trans ht'
    cases hp.symm.trans hp'
    exact .inl ⟨_, hs, ⟨hlock, _, _, hs, hv⟩, ChannelMiner.setPhase_at _ _ ht⟩
  | sent ht' hp' =>
    cases ht.symm.trans ht'
    cases hp.symm.trans hp'
  | sentOnce ht' hp' =>
    cases ht.symm.trans ht'
    cases hp.symm.trans hp'
  | closeGate ht' hp' =>
    cases ht.symm.trans ht'
    cases hp.symm.trans hp'

theorem found_moves {i : ℕ} {q q' : Point K} (h : Moves i q q') {hand : JobInHand K}
    {roll : Rolling} {ntime : UInt32} (hat : At q i (.found hand roll ntime)) :
    (∃ share, buildShare q.rig.miner.channel.value hand roll ntime = .ok share ∧
      Accepts q.rig.miner.channel hand roll ntime ∧ At q' i (.submitting hand roll share)) ∨
    (¬ Accepts q.rig.miner.channel hand roll ntime ∧
      ∃ phase, At q' i phase ∧ ¬ Handing phase) := by
  obtain ⟨task, ht, hp, hstep⟩ := moves_taskStep h hat
  rcases found_step hstep ht hp with
    ⟨share, hbuilt, haccepts, ht'⟩ | ⟨hrefuses, phase, hnot, ht'⟩
  · exact .inl ⟨share, hbuilt, haccepts, _, ht', rfl⟩
  · exact .inr ⟨hrefuses, phase, ⟨_, ht', rfl⟩, hnot⟩

theorem not_sends {i : ℕ} {s s' : Point K} (h : Moves i s s') {phase : Phase K}
    (hat : At s i phase) (hnot : ¬ Handing phase) (hand : JobInHand K) (roll : Rolling)
    (ntime : UInt32) : ¬ Sends s s' hand roll ntime := by
  obtain ⟨task, ht, hp, hstep⟩ := moves_taskStep h hat
  have hsent : s'.rig.miner.sent = s.rig.miner.sent := by
    generalize s'.rig.miner = m' at hstep
    cases hstep with
    | sent ht' hp' =>
      cases ht.symm.trans ht'
      rw [← hp, hp'] at hnot
      exact absurd trivial hnot
    | sentOnce ht' hp' =>
      cases ht.symm.trans ht'
      rw [← hp, hp'] at hnot
      exact absurd trivial hnot
    | _ => rfl
  rintro ⟨_, share, _, happend⟩
  rw [hsent] at happend
  have hlength := congrArg List.length happend
  rw [List.length_append, List.length_singleton] at hlength
  omega

theorem submitting_moves {i : ℕ} {s s' : Point K} (h : Moves i s s') {hand : JobInHand K}
    {roll : Rolling} {share : K.Share} (hat : At s i (.submitting hand roll share)) :
    s'.rig.miner.sent = s.rig.miner.sent ++ [share] := by
  obtain ⟨task, ht, hp, hresume⟩ := moves_next h hat (by simp)
  unfold resume at hresume
  rw [hp] at hresume
  have hm := Option.some.inj hresume
  rw [← hm]
  unfold submitShare
  split <;> rfl

theorem moves_sound (hK : TargetContract K targets held) {i : ℕ} {p p' : Point K}
    (h : Moves i p p') {phase : Phase K} (hat : At p i phase) (hne : phase ≠ .checked)
    (hp : Sound targets held p) : Sound targets held p' := by
  obtain ⟨move, _, hstep⟩ := h
  have hcareful : Careful targets p (.event (.task i move)) := by
    intro task ht hchecked
    obtain ⟨task', ht', hphase⟩ := hat
    cases ht.symm.trans ht'
    exact absurd (hphase.symm.trans hchecked) hne
  exact run_sound hK (.snoc .nil ⟨hcareful, hstep⟩) hp

theorem hand_loose {i : ℕ} {p : Point K} (hp : Sound targets held p) {hand : JobInHand K}
    {roll : Rolling} (hat : At p i (.hashing hand roll)) :
    targets.job hand.snapshot.activeJob ≤ hand.snapshot.channelTarget := by
  obtain ⟨task, ht, hphase⟩ := hat
  refine ((hp.2 i task ht).agreed hand.snapshot ?_).loose
  rw [hphase]
  rfl

/-- Where the targets agree, a hash that met that of the channel and makes a
share or a block meets that of the job. -/
theorem Agreed.meets {snapshot : Snapshot K} {hash : Target} {result : ShareValidationResult}
    (h : Agreed targets snapshot.channelTarget snapshot.nbits snapshot.activeJob)
    (hchannel : hash ≤ snapshot.channelTarget) (hmet : hash ≤ targets.met snapshot result) :
    hash ≤ targets.job snapshot.activeJob := by
  cases result with
  | valid => exact hmet
  | blockFound _ => exact (le_min hchannel hmet).trans h.strict

/-- The share of a job in hand is accepted only for a hash that meets the
target of this job. -/
theorem accepts_meets (hK : TargetContract K targets held) {i : ℕ} {q : Point K}
    (hq : Sound targets held q) {hand : JobInHand K} {roll : Rolling} {ntime : UInt32}
    (hat : At q i (.found hand roll ntime))
    (hhash : K.blockHash (headerOf hand roll.nonce ntime) ≤ hand.snapshot.channelTarget)
    (h : Accepts q.rig.miner.channel hand roll ntime) :
    K.blockHash (headerOf hand roll.nonce ntime) ≤ targets.job hand.snapshot.activeJob := by
  obtain ⟨task, ht, hphase⟩ := hat
  obtain ⟨_, share, result, hbuilt, hvalid⟩ := h
  have htracked := hq.2 i task ht
  rw [hphase] at htracked
  obtain ⟨placed, hplaced, hmet⟩ := hK.accepted _ hand roll ntime share result
    (htracked.computed hand rfl) hbuilt hvalid
  have hmatches := htracked.known hand.snapshot rfl placed hplaced
  exact (htracked.agreed hand.snapshot rfl).meets hhash (hmet hmatches)

/-- The header is submitted when its hash meets the target of its job and the
channel accepts it, and only then. -/
theorem header_submitted_iff (hK : TargetContract K targets held) {i : ℕ}
    {p p' q q' s s' : Point K} (hp : Sound targets held p) {hand : JobInHand K} {roll : Rolling}
    (hat : At p i (.hashing hand roll)) (h : Turns targets i p p' q q' s s') :
    Sends s s' hand roll (ntimeAt hand p.rig.ambient.now) ↔
      hashOf p hand roll ≤ targets.job hand.snapshot.activeJob ∧
        Accepts q.rig.miner.channel hand roll (ntimeAt hand p.rig.ambient.now) := by
  have hp' : Sound targets held p' := moves_sound hK h.hashes hat (by simp) hp
  have hq : Sound targets held q := waits_sound hK h.waits hp'
  by_cases hhash : hashOf p hand roll ≤ hand.snapshot.channelTarget
  · have hfound := waits_at h.waits hp'.1 (hashing_hits h.hashes hat hhash)
    have hq' : Sound targets held q' := moves_sound hK h.validates hfound (by simp) hq
    rcases found_moves h.validates hfound with
      ⟨share, hbuilt, haccepts, hat'⟩ | ⟨hrefuses, phase, hat', hnot⟩
    · have hsent := submitting_moves h.sends (waits_at h.rests hq'.1 hat')
      obtain ⟨sequenceNumber, _, hshare⟩ := buildShare_ok hbuilt
      constructor
      · exact fun _ => ⟨accepts_meets hK hq hfound hhash haccepts, haccepts⟩
      · exact fun _ => ⟨sequenceNumber, share, hshare, hsent⟩
    · have hsilent := not_sends h.sends (waits_at h.rests hq'.1 hat') hnot hand roll
        (ntimeAt hand p.rig.ambient.now)
      exact ⟨fun hsends => absurd hsends hsilent, fun hboth => absurd hboth.2 hrefuses⟩
  · have hpolling := waits_at h.waits hp'.1 (hashing_misses h.hashes hat hhash)
    have hq' : Sound targets held q' := moves_sound hK h.validates hpolling (by simp) hq
    obtain ⟨phase, hat', hnot⟩ := polling_moves h.validates hpolling
    have hsilent := not_sends h.sends (waits_at h.rests hq'.1 hat') hnot hand roll
      (ntimeAt hand p.rig.ambient.now)
    exact ⟨fun hsends => absurd hsends hsilent,
      fun hboth => absurd (hboth.1.trans (hand_loose hp hat)) hhash⟩

/-- Whatever came before, for both kinds of channels and in every order of new
targets, activations and steps of the tasks that is careful at the snapshots: a
task that hashes a header never discards a hash that meets the target of its
job, and submits the header exactly when the hash meets this target and the
channel accepts the share, as a block or not. -/
theorem submitted_iff_meets_job_target (D : Deps) (kind : Kind)
    (targets : Targets (D.client kind))
    (held : (D.client kind).Channel → UInt32 → Option (PlacedJob (D.client kind)))
    (hK : TargetContract (D.client kind) targets held) (amb : Ambient)
    (channel : (D.client kind).Channel) (cpuUsagePercent : ℕ) (singleSubmit : Bool)
    (ms : List (Moment (D.client kind))) (p : Point (D.client kind))
    (hrun : Run (Guarded (Careful targets) PointStep)
      (Point.initial ⟨amb, new channel cpuUsagePercent singleSubmit⟩) ms p)
    (i : ℕ) (hand : JobInHand (D.client kind)) (roll : Rolling)
    (hat : At p i (.hashing hand roll)) :
    (hashOf p hand roll ≤ targets.job hand.snapshot.activeJob →
      ∀ p', Moves i p p' → At p' i (.found hand roll (ntimeAt hand p.rig.ambient.now))) ∧
    ∀ p' q q' s s', Turns targets i p p' q q' s s' →
      (Sends s s' hand roll (ntimeAt hand p.rig.ambient.now) ↔
        hashOf p hand roll ≤ targets.job hand.snapshot.activeJob ∧
          Accepts q.rig.miner.channel hand roll (ntimeAt hand p.rig.ambient.now)) := by
  have hsound : Sound targets held p := by
    refine run_sound hK hrun ⟨initial_calming _, ?_⟩
    intro i task ht
    contradiction
  constructor
  · intro hmeets p' hmoves
    exact hashing_hits hmoves hat (hmeets.trans (hand_loose hsound hat))
  · intro p' q q' s s' hturns
    exact header_submitted_iff hK hsound hat hturns

end Headers

/-- A sample channel holds its active job only. -/
def sampleHeld (channel : SampleChannel SampleStandardJob) (jobId : UInt32) :
    Option (PlacedJob (sampleDeps.client .standard)) :=
  channel.activeJob.bind fun job =>
    if job.jobMessage.jobId = jobId then some (job, channel.chainTip) else none

theorem sampleHeld_congr {a b : SampleChannel SampleStandardJob}
    (hjob : a.activeJob = b.activeJob) (htip : a.chainTip = b.chainTip) (jobId : UInt32) :
    sampleHeld a jobId = sampleHeld b jobId := by
  unfold sampleHeld
  rw [hjob, htip]

/-- The `nbits` of the sample chain are met by no hash but zero. -/
def sampleTargets : Targets (sampleDeps.client .standard) where
  job := SampleStandardJob.target
  network _ := 0

theorem sample_targetContract :
    TargetContract (sampleDeps.client .standard) sampleTargets sampleHeld := by
  refine ⟨?_, ?_, ?_, ?_⟩
  · intro channel job hjob
    have hactive : channel.activeJob = some job := hjob
    unfold sampleHeld
    rw [hactive]
    exact if_pos rfl
  · intro c channel jobId
    rcases sample_outcome .standard c channel with ⟨e, h⟩ | ⟨channel', h, hkeeps⟩
    · rw [h]
      exact .inl rfl
    · rw [h]
      cases hact : c.activating with
      | false =>
        exact .inl (sampleHeld_congr (hkeeps.activeJob hact) (hkeeps.chainTip hact) jobId)
      | true =>
        cases hheld : sampleHeld channel' jobId with
        | none => exact .inr (.inl rfl)
        | some placed =>
          obtain ⟨job, hjob, hid⟩ := Option.bind_eq_some_iff.mp hheld
          simp only [Option.ite_none_right_eq_some] at hid
          exact .inr (.inr ⟨rfl, rfl, job, hjob, hid.1⟩)
  · intro channel share jobId
    rcases sample_validate .standard channel share with ⟨e, h⟩ | ⟨channel', h, _, hkeeps⟩
    · rw [h]
    · rw [h]
      exact sampleHeld_congr hkeeps.activeJob hkeeps.chainTip jobId
  · intro channel hand roll ntime share result _ hbuilt hvalid
    obtain ⟨sequenceNumber, _, hshare⟩ := buildShare_ok hbuilt
    cases hshare
    obtain ⟨rfl, job, hjob, hid, hmeets⟩ := validate_ok hvalid
    refine ⟨(job, channel.chainTip), ?_, ?_⟩
    · unfold sampleHeld
      rw [hjob]
      exact if_pos hid
    · intro hmatches
      change _ ≤ sampleTargets.job hand.snapshot.activeJob
      rw [← hmatches.1]
      exact hmeets

/-- A check that the moment is careful. -/
def isCareful (p : Point (sampleDeps.client .standard)) :
    Moment (sampleDeps.client .standard) → Bool
  | .event (.task i _) =>
    match p.rig.miner.tasks[i]?.map MiningTask.phase, p.rig.miner.channel.value with
    | some .checked, channel =>
      (SampleChannel.activeJob channel).all fun job =>
        decide (SampleStandardJob.target job ≤ SampleChannel.target channel)
    | _, _ => true
  | .enters c => !c.activating || p.rig.miner.tasks.all fun task => (snapshotOf task.phase).isNone
  | _ => true

theorem careful_of_isCareful (p : Point (sampleDeps.client .standard))
    (l : Moment (sampleDeps.client .standard)) (h : isCareful p l = true) :
    Careful sampleTargets p l := by
  cases l with
  | event e =>
    cases e with
    | task i move =>
      intro task ht hp _ _ job _ hjob
      have hactive : SampleChannel.activeJob p.rig.miner.channel.value = some job := hjob
      simp only [isCareful, ht, Option.map_some, hp, hactive] at h
      exact ⟨of_decide_eq_true h, (min_le_right _ _).trans (Nat.zero_le _)⟩
    | tick elapsed => trivial
    | shutdown => trivial
  | enters c =>
    intro _ _ hact job _ i task snapshot ht hs
    simp only [isCareful, hact, Bool.not_true, Bool.false_or, List.all_eq_true] at h
    have hnone := h task (List.mem_of_getElem? ht)
    rw [hs] at hnone
    contradiction
  | acts => trivial
  | returns => trivial

/-- A future job is activated and a new target set before its task starts. -/
def sampleNewTarget (target : Target) : List (Moment (sampleDeps.client .standard)) :=
  [.enters (sampleJob 5 none), .returns, .enters (samplePrevHash 5), .acts, .acts, .returns,
    .enters (.setTarget target), .returns]

def sampleSteps (steps : ℕ) : List (Moment (sampleDeps.client .standard)) :=
  List.replicate steps (.event (.task 0 .next))

/-- The target is relaxed before the snapshot and made as hard as can be after
it, and the task goes on to its second header. -/
def sampleRetargeted : List (Moment (sampleDeps.client .standard)) :=
  sampleNewTarget 4294967296 ++ sampleSteps 2 ++ [.enters (.setTarget 1), .returns] ++ sampleSteps 8

theorem sample_submitted :
    ∃ (p p' q s : Point (sampleDeps.client .standard))
      (hand : JobInHand (sampleDeps.client .standard)) (roll : Rolling),
      At p 0 (.hashing hand roll) ∧
      Turns sampleTargets 0 p p' p' q q s ∧
      (Sends q s hand roll (ntimeAt hand p.rig.ambient.now) ↔
        hashOf p hand roll ≤ sampleTargets.job hand.snapshot.activeJob ∧
          Accepts p'.rig.miner.channel hand roll (ntimeAt hand p.rig.ambient.now)) := by
  have hplay : ((play (fun p l => if isCareful p l then Point.next p l else none)
      (Point.initial (sampleRig false)) sampleRetargeted).bind fun p =>
        (p.rig.miner.tasks[0]?).bind fun task => (inHand task.phase).bind fun _ =>
          (p.next (.event (.task 0 .next))).bind fun p' =>
            (p'.next (.event (.task 0 .next))).bind fun q =>
              q.next (.event (.task 0 .next))).isSome = true := by decide +kernel
  obtain ⟨s, hs⟩ := Option.isSome_iff_exists.mp hplay
  obtain ⟨p, hp, hrest⟩ := Option.bind_eq_some_iff.mp hs
  obtain ⟨task, ht, hrest⟩ := Option.bind_eq_some_iff.mp hrest
  obtain ⟨⟨hand, roll⟩, hhand, hrest⟩ := Option.bind_eq_some_iff.mp hrest
  obtain ⟨p', hp', hrest⟩ := Option.bind_eq_some_iff.mp hrest
  obtain ⟨q, hq, hsend⟩ := Option.bind_eq_some_iff.mp hrest
  have hrun : Run (Guarded (Careful sampleTargets) PointStep)
      (Point.initial (sampleRig false)) sampleRetargeted p :=
    guardedRun_of_play careful_of_isCareful (fun _ _ _ h => h) hp
  have hat : At p 0 (.hashing hand roll) := ⟨task, ht, inHand_eq_some hhand⟩
  have hturns : Turns sampleTargets 0 p p' p' q q s := by
    refine ⟨⟨.next, ?_, hp'⟩, ⟨[], .nil⟩, ⟨.next, ?_, hq⟩, ⟨[], .nil⟩, ⟨.next, ?_, hsend⟩⟩
    all_goals exact Move.noConfusion
  exact ⟨p, p', q, s, hand, roll, hat, hturns,
    (submitted_iff_meets_job_target sampleDeps .standard sampleTargets sampleHeld
      sample_targetContract _ _ _ _ _ p hrun 0 hand roll hat).2 p' p' q q s hturns⟩

/-- Whether the channel accepts the share, computed. -/
def isAccepted (channel : RwCell (SampleChannel SampleStandardJob))
    (hand : JobInHand (sampleDeps.client .standard)) (roll : Rolling) (ntime : UInt32) : Bool :=
  !channel.poisoned &&
    match buildShare (K := sampleDeps.client .standard) channel.value hand roll ntime with
    | .error _ => false
    | .ok share => ((sampleDeps.client .standard).validateShare channel.value share).1.isOk

theorem accepts_of_isAccepted {channel : RwCell (SampleChannel SampleStandardJob)}
    {hand : JobInHand (sampleDeps.client .standard)} {roll : Rolling} {ntime : UInt32}
    (h : isAccepted channel hand roll ntime = true) :
    Accepts (K := sampleDeps.client .standard) channel hand roll ntime := by
  simp only [isAccepted, Bool.and_eq_true, Bool.not_eq_true'] at h
  obtain ⟨hlock, hvalid⟩ := h
  refine ⟨hlock, ?_⟩
  split at hvalid
  · contradiction
  · rename_i share hbuilt
    cases hresult : ((sampleDeps.client .standard).validateShare channel.value share).1 with
    | error e =>
      rw [hresult] at hvalid
      contradiction
    | ok result => exact ⟨share, result, hbuilt, hresult⟩

/-- The target is lowered after the activation and before the task starts: a
hash that meets the target of its job, and a share the channel would accept,
are discarded. -/
theorem tightened_target_discards_share :
    TargetContract (sampleDeps.client .standard) sampleTargets sampleHeld ∧
    ∃ (p : Point (sampleDeps.client .standard))
      (hand : JobInHand (sampleDeps.client .standard)) (roll : Rolling),
      Run PointStep (Point.initial (sampleRig false)) (sampleNewTarget 1 ++ sampleSteps 15) p ∧
      At p 0 (.hashing hand roll) ∧
      hashOf p hand roll ≤ sampleTargets.job hand.snapshot.activeJob ∧
      Accepts p.rig.miner.channel hand roll (ntimeAt hand p.rig.ambient.now) ∧
      ∀ p', Moves 0 p p' → At p' 0 (.polling hand roll.nextNonce) := by
  have hplay : ((play Point.next (Point.initial (sampleRig false))
      (sampleNewTarget 1 ++ sampleSteps 15)).bind fun p =>
        (p.rig.miner.tasks[0]?).bind fun task => (inHand task.phase).map fun x =>
          (decide (hashOf p x.1 x.2 ≤ SampleStandardJob.target x.1.snapshot.activeJob),
            decide (hashOf p x.1 x.2 ≤ x.1.snapshot.channelTarget),
            isAccepted p.rig.miner.channel x.1 x.2 (ntimeAt x.1 p.rig.ambient.now))) =
      some (true, false, true) := by decide +kernel
  obtain ⟨p, hp, hrest⟩ := Option.bind_eq_some_iff.mp hplay
  obtain ⟨task, ht, hrest⟩ := Option.bind_eq_some_iff.mp hrest
  obtain ⟨⟨hand, roll⟩, hhand, hchecks⟩ := Option.map_eq_some_iff.mp hrest
  simp only [Prod.mk.injEq, decide_eq_true_eq, decide_eq_false_iff_not] at hchecks
  obtain ⟨hmeets, hmisses, haccepted⟩ := hchecks
  have hat : At p 0 (.hashing hand roll) := ⟨task, ht, inHand_eq_some hhand⟩
  refine ⟨sample_targetContract, p, hand, roll, run_of_play (fun _ _ _ h => h) hp, hat, hmeets,
    accepts_of_isAccepted haccepted, ?_⟩
  exact fun p' hmoves => hashing_misses hmoves hat hmisses

end CpuMinerSv2.ShareTargets
