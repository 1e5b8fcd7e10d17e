import CpuMinerSv2.MineJob

/-!
What one step of a mining task can do, said once: either the task moves on
and nothing else changes, or it writes to the channel, to the upstream queue
or to the single-submit token. The facts that every invariant of a miner
needs follow from this list.
-/

namespace CpuMinerSv2.TaskSteps

open Messages Channels Primitives MineJob

variable {K : ClientChannel}

/-- The steps that change nothing but where the task stands. -/
inductive Advance (m : ChannelMiner K) (cancelled : Bool) : Phase K → Phase K → Prop
  | stopAtGate (h : m.singleSubmitCancelled = true) : Advance m cancelled .spawned .finished
  | passGate (h : m.singleSubmitCancelled = false) : Advance m cancelled .spawned .checked
  | poisonedRead (h : m.channel.poisoned = true) : Advance m cancelled .checked .finished
  | noChainTip (h : K.getChainTip m.channel.value = none) :
      Advance m cancelled .checked (.panicked "channel must have chain tip")
  | noActiveJob (h : K.getActiveJob m.channel.value = none) :
      Advance m cancelled .checked (.panicked "channel must have active job")
  | snapshot {snapshot : Snapshot K} {chainTip : ChainTip}
      (hjob : K.getActiveJob m.channel.value = some snapshot.activeJob)
      (htip : K.getChainTip m.channel.value = some chainTip)
      (hhash : snapshot.prevhash = chainTip.prevHash) (hbits : snapshot.nbits = chainTip.nbits)
      (hsize : snapshot.extranonceSize = K.getRollableExtranonceSize m.channel.value) :
      Advance m cancelled .checked (.read snapshot)
  | noMinNtime {snapshot : Snapshot K} (h : K.minNtime snapshot.activeJob = none) :
      Advance m cancelled (.read snapshot) (.panicked "only active jobs allowed")
  | sleepOverflow {snapshot : Snapshot K}
      (h : sleepDurationMs K.overflowChecks m.cpuUsagePercent = none) :
      Advance m cancelled (.read snapshot) (.panicked "attempt to subtract with overflow")
  | noMerkleRoot {snapshot : Snapshot K}
      (h : K.merkleRoot snapshot.activeJob snapshot.extranonceSize = none) :
      Advance m cancelled (.read snapshot) (.panicked "merkle root must be valid")
  | enter {job : JobInHand K} {roll : Rolling}
      (hntime : K.minNtime job.snapshot.activeJob = some job.jobMinNtime)
      (hroot : K.merkleRoot job.snapshot.activeJob job.snapshot.extranonceSize =
        some job.merkleRoot) :
      Advance m cancelled (.read job.snapshot) (.polling job roll)
  | leave {job : JobInHand K} {roll : Rolling} (h : cancelled = true) :
      Advance m cancelled (.polling job roll) .finished
  | yield {job : JobInHand K} {roll : Rolling} (h : cancelled = false) :
      Advance m cancelled (.polling job roll) (.yielded job roll)
  | breakOff {job : JobInHand K} {roll : Rolling} (h : cancelled = true) :
      Advance m cancelled (.yielded job roll) .finished
  | sleep {job : JobInHand K} {roll : Rolling} {wakeAt : Instant} :
      Advance m cancelled (.yielded job roll) (.sleeping job roll wakeAt)
  | work {job : JobInHand K} {roll : Rolling} :
      Advance m cancelled (.yielded job roll) (.hashing job roll)
  | wake {job : JobInHand K} {roll roll' : Rolling} {wakeAt : Instant} :
      Advance m cancelled (.sleeping job roll wakeAt) (.hashing job roll')
  | miss {job : JobInHand K} {roll roll' : Rolling} :
      Advance m cancelled (.hashing job roll) (.polling job roll')
  | hit {job : JobInHand K} {roll : Rolling} {ntime : UInt32} :
      Advance m cancelled (.hashing job roll) (.found job roll ntime)
  | poisonedWrite {job : JobInHand K} {roll : Rolling} {ntime : UInt32}
      (h : m.channel.poisoned = true) : Advance m cancelled (.found job roll ntime) .finished
  | sendFailed {job : JobInHand K} {roll roll' : Rolling} {share : K.Share} :
      Advance m cancelled (.submitting job roll share) (.polling job roll')
  | noGate (h : m.singleSubmitCancellationToken = none) :
      Advance m cancelled .submitted .finished

/-- One step of task `i`. -/
inductive TaskStep (m : ChannelMiner K) (amb : Ambient) (i : ℕ) : ChannelMiner K → Prop
  | advance {task : MiningTask K} {phase : Phase K} (ht : m.tasks[i]? = some task)
      (h : Advance m (m.cancelled amb task) task.phase phase) :
      TaskStep m amb i (m.setPhase i phase)
  | writerPanics {task : MiningTask K} {job : JobInHand K} {roll : Rolling} {ntime : UInt32}
      {reason : String} (ht : m.tasks[i]? = some task) (hp : task.phase = .found job roll ntime)
      (hlock : m.channel.poisoned = false)
      (h : buildShare m.channel.value job roll ntime = .error reason) :
      TaskStep m amb i
        ((m.setChannel m.channel.poison).setPhase i (.panicked reason))
  | rejected {task : MiningTask K} {job : JobInHand K} {roll : Rolling} {ntime : UInt32}
      {share : K.Share} {e : ChannelError}
      (ht : m.tasks[i]? = some task) (hp : task.phase = .found job roll ntime)
      (hlock : m.channel.poisoned = false)
      (hs : buildShare m.channel.value job roll ntime = .ok share)
      (hv : (K.validateShare m.channel.value share).1 = .error e) :
      TaskStep m amb i
        ((m.setChannel (m.channel.withValue (K.validateShare m.channel.value share).2)).setPhase i
          (.polling job roll.nextNonce))
  | accepted {task : MiningTask K} {job : JobInHand K} {roll : Rolling} {ntime : UInt32}
      {share : K.Share} {result : ShareValidationResult}
      (ht : m.tasks[i]? = some task) (hp : task.phase = .found job roll ntime)
      (hlock : m.channel.poisoned = false)
      (hs : buildShare m.channel.value job roll ntime = .ok share)
      (hv : (K.validateShare m.channel.value share).1 = .ok result) :
      TaskStep m amb i
        ((m.setChannel (m.channel.withValue (K.validateShare m.channel.value share).2)).setPhase i
          (.submitting job roll share))
  | sent {task : MiningTask K} {job : JobInHand K} {roll : Rolling} {share : K.Share}
      (ht : m.tasks[i]? = some task) (hp : task.phase = .submitting job roll share)
      (h : m.singleSubmitCancellationToken = none) :
      TaskStep m amb i ((m.enqueue share).setPhase i (.polling job roll.nextNonce))
  | sentOnce {task : MiningTask K} {job : JobInHand K} {roll : Rolling} {share : K.Share}
      {token : ℕ}
      (ht : m.tasks[i]? = some task) (hp : task.phase = .submitting job roll share)
      (h : m.singleSubmitCancellationToken = some token) :
      TaskStep m amb i ((m.enqueue share).setPhase i .submitted)
  | closeGate {task : MiningTask K} {token : ℕ}
      (ht : m.tasks[i]? = some task) (hp : task.phase = .submitted)
      (h : m.singleSubmitCancellationToken = some token) :
      TaskStep m amb i ((m.cancelToken token).setPhase i .finished)

theorem takeSnapshot_advance (m : ChannelMiner K) (cancelled : Bool) :
    Advance m cancelled .checked (takeSnapshot m.channel) := by
  unfold takeSnapshot RwCell.read
  cases hlock : m.channel.poisoned with
  | true => exact .poisonedRead hlock
  | false =>
    simp only [Bool.false_eq_true, ↓reduceIte, id]
    cases htip : K.getChainTip m.channel.value with
    | none => exact .noChainTip htip
    | some chainTip =>
      cases hjob : K.getActiveJob m.channel.value with
      | none => exact .noActiveJob hjob
      | some activeJob => exact .snapshot hjob htip rfl rfl rfl

theorem enterLoop_advance (m : ChannelMiner K) (cancelled : Bool) (snapshot : Snapshot K)
    (now : Instant) :
    Advance m cancelled (.read snapshot) (enterLoop m.cpuUsagePercent snapshot now) := by
  unfold enterLoop
  cases hntime : K.minNtime snapshot.activeJob with
  | none => exact .noMinNtime hntime
  | some jobMinNtime =>
    simp only
    cases hsleep : sleepDurationMs K.overflowChecks m.cpuUsagePercent with
    | none => exact .sleepOverflow hsleep
    | some duration =>
      simp only
      cases hroot : K.merkleRoot snapshot.activeJob snapshot.extranonceSize with
      | none => exact .noMerkleRoot hroot
      | some merkleRoot =>
        let job : JobInHand K := ⟨snapshot, jobMinNtime, merkleRoot, now⟩
        have hjob : K.minNtime job.snapshot.activeJob = some job.jobMinNtime := hntime
        exact .enter hjob hroot

theorem throttle_advance (m : ChannelMiner K) (cancelled : Bool) (cpuUsagePercent : ℕ)
    (now : Instant) (job : JobInHand K) (roll : Rolling) :
    Advance m cancelled (.yielded job roll) (throttle cpuUsagePercent now job roll) := by
  unfold throttle
  split
  · dsimp only
    split
    · exact .sleep
    · exact .work
  · exact .work

theorem mineHeader_advance (m : ChannelMiner K) (cancelled : Bool) (job : JobInHand K)
    (roll : Rolling) (now : Instant) :
    Advance m cancelled (.hashing job roll) (mineHeader job roll now) := by
  unfold mineHeader
  split
  · exact .hit
  · exact .miss

theorem logShare_step (m : ChannelMiner K) (amb : Ambient) (i : ℕ) (task : MiningTask K)
    (ht : m.tasks[i]? = some task) (job : JobInHand K) (roll : Rolling) (ntime : UInt32)
    (hp : task.phase = .found job roll ntime) :
    TaskStep m amb i (logShare m i job roll ntime) := by
  unfold logShare
  cases hlock : m.channel.poisoned with
  | true =>
    have h : Advance m (m.cancelled amb task) task.phase .finished := by
      rw [hp]
      exact .poisonedWrite hlock
    exact .advance ht h
  | false =>
    simp only [Bool.false_eq_true, ↓reduceIte]
    cases hs : buildShare m.channel.value job roll ntime with
    | error reason =>
      exact .writerPanics ht hp hlock hs
    | ok share =>
      simp only
      cases hv : (K.validateShare m.channel.value share).1 with
      | error e =>
        have h : TaskStep m amb i _ := .rejected ht hp hlock hs hv
        rw [show K.validateShare m.channel.value share =
          (.error e, (K.validateShare m.channel.value share).2) by rw [← hv]]
        exact h
      | ok result =>
        have h : TaskStep m amb i _ := .accepted ht hp hlock hs hv
        rw [show K.validateShare m.channel.value share =
          (.ok result, (K.validateShare m.channel.value share).2) by rw [← hv]]
        exact h

/-- The values a task loops with. -/
def jobOf : Phase K → Option (JobInHand K)
  | .polling job _ | .yielded job _ | .sleeping job _ _ | .hashing job _ | .found job _ _
  | .submitting job _ _ => some job
  | _ => none

/-- The snapshot a task works from, once it has taken it. -/
def snapshotOf : Phase K → Option (Snapshot K)
  | .read snapshot => some snapshot
  | phase => (jobOf phase).map JobInHand.snapshot

/-- A snapshot of the channel as it is: its active job and its chain tip. -/
def Fits (channel : K.Channel) (snapshot : Snapshot K) : Prop :=
  K.getActiveJob channel = some snapshot.activeJob ∧
    ∃ chainTip, K.getChainTip channel = some chainTip ∧
      snapshot.prevhash = chainTip.prevHash ∧ snapshot.nbits = chainTip.nbits

/-- The loop values follow from the job of the snapshot. -/
def Computed (job : JobInHand K) : Prop :=
  K.minNtime job.snapshot.activeJob = some job.jobMinNtime ∧
    K.merkleRoot job.snapshot.activeJob job.snapshot.extranonceSize = some job.merkleRoot

theorem Advance.snapshot_source {m : ChannelMiner K} {cancelled : Bool} {p p' : Phase K}
    (h : Advance m cancelled p p') {snapshot : Snapshot K} (hs : snapshotOf p' = some snapshot) :
    snapshotOf p = some snapshot ∨ Fits m.channel.value snapshot := by
  cases h with
  | snapshot hjob htip hhash hbits hsize =>
    cases hs
    exact .inr ⟨hjob, _, htip, hhash, hbits⟩
  | _ => first | contradiction | exact .inl hs

theorem Advance.snapshot_size {m : ChannelMiner K} {cancelled : Bool} {p p' : Phase K}
    (h : Advance m cancelled p p') {snapshot : Snapshot K} (hs : snapshotOf p' = some snapshot) :
    snapshotOf p = some snapshot ∨
      snapshot.extranonceSize = K.getRollableExtranonceSize m.channel.value := by
  cases h with
  | snapshot hjob htip hhash hbits hsize =>
    cases hs
    exact .inr hsize
  | _ => first | contradiction | exact .inl hs

theorem Advance.job_source {m : ChannelMiner K} {cancelled : Bool} {p p' : Phase K}
    (h : Advance m cancelled p p') {job : JobInHand K} (hj : jobOf p' = some job) :
    jobOf p = some job ∨ Computed job := by
  cases h with
  | enter hntime hroot =>
    cases hj
    exact .inr ⟨hntime, hroot⟩
  | _ => first | contradiction | exact .inl hj

theorem setPhase_cases {m m' : ChannelMiner K} {i j : ℕ} {task t : MiningTask K} {phase : Phase K}
    (ht : m.tasks[i]? = some task) (htasks : m'.tasks = (m.setPhase i phase).tasks)
    (hj : m'.tasks[j]? = some t) :
    j = i ∧ t = { task with phase := phase } ∨ j ≠ i ∧ m.tasks[j]? = some t := by
  rw [htasks] at hj
  by_cases hij : i = j
  · subst hij
    rw [m.setPhase_at phase ht] at hj
    exact .inl ⟨rfl, (Option.some.inj hj).symm⟩
  · rw [m.setPhase_at_ne phase hij] at hj
    exact .inr ⟨Ne.symm hij, hj⟩

theorem forall_setPhase {P : ℕ → MiningTask K → Prop} {m : ChannelMiner K} {i : ℕ}
    {task : MiningTask K} {phase : Phase K} (ht : m.tasks[i]? = some task)
    (hall : ∀ j t, m.tasks[j]? = some t → P j t) (hnew : P i { task with phase := phase })
    (j : ℕ) (t : MiningTask K) (hj : (m.setPhase i phase).tasks[j]? = some t) : P j t := by
  rcases setPhase_cases ht rfl hj with ⟨rfl, rfl⟩ | ⟨_, hj'⟩
  · exact hnew
  · exact hall j t hj'

theorem snapshotOf_of_jobOf {phase : Phase K} {job : JobInHand K} (h : jobOf phase = some job) :
    snapshotOf phase = some job.snapshot := by
  cases phase <;> cases h <;> rfl

def AllPhases (P : Phase K → Prop) (m : ChannelMiner K) : Prop :=
  ∀ (i : ℕ) (task : MiningTask K), m.tasks[i]? = some task → P task.phase

theorem AllPhases.setPhase {P : Phase K → Prop} {m : ChannelMiner K} (h : AllPhases P m) {i : ℕ}
    {task : MiningTask K} {phase : Phase K} (ht : m.tasks[i]? = some task) (hnew : P phase) :
    AllPhases P (m.setPhase i phase) := by
  apply forall_setPhase (P := fun _ t => P t.phase) ht h
  exact hnew

/-- The task that moves on ends up in a phase with the property, and the
others keep it. -/
theorem taskStep_phases {P : Phase K → Prop} {m m' : ChannelMiner K} {amb : Ambient} {i : ℕ}
    (h : TaskStep m amb i m') (hall : AllPhases P m)
    (hadvance : ∀ task phase, m.tasks[i]? = some task →
      Advance m (m.cancelled amb task) task.phase phase → P phase)
    (hpanic : ∀ job roll ntime reason, P (.found job roll ntime) →
      buildShare m.channel.value job roll ntime = .error reason → P (.panicked reason))
    (hkeep : ∀ phase phase' job, P phase → jobOf phase = some job → jobOf phase' = some job →
      P phase')
    (hend : P .submitted ∧ P .finished) : AllPhases P m' := by
  cases h with
  | advance ht ha => exact hall.setPhase ht (hadvance _ _ ht ha)
  | @writerPanics task job roll ntime reason ht hp hlock hs =>
    have hfound := hall i task ht
    rw [hp] at hfound
    exact AllPhases.setPhase (m := m.setChannel _) hall ht (hpanic _ _ _ _ hfound hs)
  | @rejected task job roll ntime share e ht hp hlock hs hv =>
    have hfound := hall i task ht
    rw [hp] at hfound
    exact AllPhases.setPhase (m := m.setChannel _) hall ht
      (hkeep _ _ job hfound rfl rfl)
  | @accepted task job roll ntime share result ht hp hlock hs hv =>
    have hfound := hall i task ht
    rw [hp] at hfound
    exact AllPhases.setPhase (m := m.setChannel _) hall ht
      (hkeep _ _ job hfound rfl rfl)
  | @sent task job roll share ht hp hgate =>
    have hsubmitting := hall i task ht
    rw [hp] at hsubmitting
    exact AllPhases.setPhase (m := m.enqueue _) hall ht
      (hkeep _ _ job hsubmitting rfl rfl)
  | sentOnce ht hp hgate => exact AllPhases.setPhase (m := m.enqueue _) hall ht hend.1
  | closeGate ht hp hgate => exact AllPhases.setPhase (m := m.cancelToken _) hall ht hend.2

/-- Every step the code takes is in the list. -/
theorem stepTask_cases {m m' : ChannelMiner K} {amb : Ambient} {i : ℕ} {move : Move}
    (hstep : stepTask m amb i move = some m') : TaskStep m amb i m' := by
  obtain ⟨task, ht, h⟩ := Option.bind_eq_some_iff.mp hstep
  clear hstep
  have hadvance : ∀ phase, Advance m (m.cancelled amb task) task.phase phase →
      TaskStep m amb i (m.setPhase i phase) := fun phase hp => .advance ht hp
  unfold resume at h
  split at h
  case h_1 hp =>
    cases h
    apply hadvance
    rw [hp]
    cases hgate : m.singleSubmitCancelled with
    | true => exact .stopAtGate hgate
    | false => exact .passGate hgate
  case h_2 hp =>
    cases h
    exact hadvance _ (hp ▸ takeSnapshot_advance m _)
  case h_3 hp =>
    cases h
    exact hadvance _ (hp ▸ enterLoop_advance m _ _ _)
  case h_4 hp =>
    cases h
    apply hadvance
    rw [hp]
    cases hc : m.cancelled amb task with
    | true => exact .leave rfl
    | false => exact .yield rfl
  case h_5 hp =>
    cases h
    exact hadvance _ (hp ▸ throttle_advance m _ _ _ _ _)
  case h_6 hp =>
    split at h
    · rename_i hc
      cases h
      exact hadvance _ (hp ▸ .breakOff hc)
    · contradiction
  case h_7 hp =>
    split at h
    · cases h
      exact hadvance _ (hp ▸ .wake)
    · contradiction
  case h_8 hp =>
    cases h
    exact hadvance _ (hp ▸ mineHeader_advance m _ _ _ _)
  case h_9 hp =>
    cases h
    exact logShare_step m amb i task ht _ _ _ hp
  case h_10 hp =>
    cases h
    unfold submitShare
    cases hgate : m.singleSubmitCancellationToken with
    | none => exact .sent ht hp hgate
    | some token => exact .sentOnce ht hp hgate
  case h_11 hp =>
    cases h
    exact hadvance _ (hp ▸ .sendFailed)
  case h_12 hp =>
    cases h
    unfold endSingleSubmit
    cases hgate : m.singleSubmitCancellationToken with
    | none => exact hadvance _ (hp ▸ .noGate hgate)
    | some token => exact .closeGate ht hp hgate
  case h_13 => contradiction

theorem TaskStep.tasks_eq {m m' : ChannelMiner K} {amb : Ambient} {i : ℕ}
    (h : TaskStep m amb i m') : ∃ phase, m'.tasks = (m.setPhase i phase).tasks := by
  cases h <;> exact ⟨_, rfl⟩

/-- What the steps of the tasks leave alone: which tasks there are, the tokens
they hold and the tokens of the miner. Only the single-submit token can become
cancelled. -/
structure TaskFrame (m m' : ChannelMiner K) : Prop where
  minerToken : m'.minerCancellationToken = m.minerCancellationToken
  singleSubmit : m'.singleSubmitCancellationToken = m.singleSubmitCancellationToken
  taskTokens : m'.tasks.map MiningTask.minerCancellationToken =
    m.tasks.map MiningTask.minerCancellationToken
  next : m'.tokens.next = m.tokens.next
  raised : ∀ token, m.tokens.isRaised token = true → m'.tokens.isRaised token = true
  raised_other : ∀ token, m.singleSubmitCancellationToken ≠ some token →
    m'.tokens.isRaised token = m.tokens.isRaised token

namespace TaskFrame

theorem refl (m : ChannelMiner K) : TaskFrame m m :=
  ⟨rfl, rfl, rfl, rfl, fun _ h => h, fun _ _ => rfl⟩

theorem trans {a b c : ChannelMiner K} (hab : TaskFrame a b) (hbc : TaskFrame b c) :
    TaskFrame a c where
  minerToken := hbc.minerToken.trans hab.minerToken
  singleSubmit := hbc.singleSubmit.trans hab.singleSubmit
  taskTokens := hbc.taskTokens.trans hab.taskTokens
  next := hbc.next.trans hab.next
  raised token h := hbc.raised token (hab.raised token h)
  raised_other token h :=
    (hbc.raised_other token (hab.singleSubmit ▸ h)).trans (hab.raised_other token h)

theorem setPhase {m m' : ChannelMiner K} (i : ℕ) (phase : Phase K) (h : TaskFrame m m') :
    TaskFrame m (m'.setPhase i phase) where
  minerToken := h.minerToken
  singleSubmit := h.singleSubmit
  taskTokens := (m'.setPhase_taskTokens i phase).trans h.taskTokens
  next := h.next
  raised := h.raised
  raised_other := h.raised_other

theorem length_eq {m m' : ChannelMiner K} (h : TaskFrame m m') :
    m'.tasks.length = m.tasks.length := by
  simpa only [List.length_map] using congrArg List.length h.taskTokens

theorem task_before {m m' : ChannelMiner K} (h : TaskFrame m m') {i : ℕ} {task' : MiningTask K}
    (ht : m'.tasks[i]? = some task') :
    ∃ task, m.tasks[i]? = some task ∧
      task.minerCancellationToken = task'.minerCancellationToken := by
  have hmap := congrArg (fun l => l[i]?) h.taskTokens
  simp only [List.getElem?_map, ht, Option.map_some] at hmap
  obtain ⟨task, htask, htoken⟩ := Option.map_eq_some_iff.mp hmap.symm
  exact ⟨task, htask, htoken⟩

end TaskFrame

/-- A step only touches what the frame lets it touch. -/
theorem TaskStep.frame {m m' : ChannelMiner K} {amb : Ambient} {i : ℕ}
    (h : TaskStep m amb i m') : TaskFrame m m' := by
  cases h with
  | advance => exact (TaskFrame.refl m).setPhase _ _
  | writerPanics =>
    exact TaskFrame.setPhase _ _ ⟨rfl, rfl, rfl, rfl, fun _ h => h, fun _ _ => rfl⟩
  | rejected =>
    exact TaskFrame.setPhase _ _ ⟨rfl, rfl, rfl, rfl, fun _ h => h, fun _ _ => rfl⟩
  | accepted =>
    exact TaskFrame.setPhase _ _ ⟨rfl, rfl, rfl, rfl, fun _ h => h, fun _ _ => rfl⟩
  | sent =>
    exact TaskFrame.setPhase _ _ ⟨rfl, rfl, rfl, rfl, fun _ h => h, fun _ _ => rfl⟩
  | sentOnce =>
    exact TaskFrame.setPhase _ _ ⟨rfl, rfl, rfl, rfl, fun _ h => h, fun _ _ => rfl⟩
  | @closeGate task token ht hp hgate =>
    apply TaskFrame.setPhase
    refine ⟨rfl, rfl, rfl, ?_, ?_, ?_⟩
    · exact Flags.next_raise m.tokens token
    · exact fun t h => Flags.isRaised_raise_mono m.tokens token t h
    · intro t hne
      apply Flags.isRaised_raise_of_ne
      rintro rfl
      exact hne hgate

end CpuMinerSv2.TaskSteps
