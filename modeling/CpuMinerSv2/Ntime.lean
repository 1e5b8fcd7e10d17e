import CpuMinerSv2.Moments

/-!
The time in the headers. A task counts the seconds from the instant it enters
its loop, which is no earlier than the one at which the channel made its job
active, so a header is never ahead of the clock, however late the task started
and however long it slept. The addition saturates instead of wrapping.
-/

namespace CpuMinerSv2.Ntime

open Messages Channels Primitives Interference MineJob MinerMethods TaskSteps MinerRuns LiveTask
  Moments SampleDeps SampleMiners

variable {K : ClientChannel}

theorem toNat_saturatingAdd (a b : UInt32) :
    (saturatingAdd a b).toNat = min (a.toNat + b.toNat) (2 ^ 32 - 1) := by
  have ha := a.toNat_lt
  have hb := b.toNat_lt
  unfold saturatingAdd
  by_cases h : a.toNat + b.toNat < 2 ^ 32
  · rw [if_pos h, UInt32.toNat_add, Nat.mod_eq_of_lt h]
    omega
  · rw [if_neg h]
    change 4294967295 = _
    omega

theorem toNat_elapsedSeconds (job : JobInHand K) (now : Instant) :
    (elapsedSeconds job now).toNat =
      min ((now - job.jobActivatedAt) / 1000000000) (2 ^ 32 - 1) := by
  unfold elapsedSeconds
  rw [UInt32.toNat_ofNat', Nat.mod_eq_of_lt]
  omega

theorem toNat_ntimeAt (job : JobInHand K) (now : Instant) :
    (ntimeAt job now).toNat = min (job.jobMinNtime.toNat +
      min ((now - job.jobActivatedAt) / 1000000000) (2 ^ 32 - 1)) (2 ^ 32 - 1) := by
  rw [ntimeAt, toNat_saturatingAdd, toNat_elapsedSeconds]

/-- Neither before `min_ntime`, by wrapping or otherwise, nor ahead of the clock. -/
theorem ntimeAt_bounds (job : JobInHand K) (now : Instant) :
    job.jobMinNtime ≤ ntimeAt job now ∧
      (ntimeAt job now).toNat ≤
        job.jobMinNtime.toNat + (now - job.jobActivatedAt) / 1000000000 := by
  have hmin := job.jobMinNtime.toNat_lt
  rw [UInt32.le_iff_toNat_le, toNat_ntimeAt]
  omega

theorem ntimeAt_mono (job : JobInHand K) {now later : Instant} (h : now ≤ later) :
    ntimeAt job now ≤ ntimeAt job later := by
  have helapsed :=
    Nat.div_le_div_right (c := 1000000000) (Nat.sub_le_sub_right h job.jobActivatedAt)
  rw [UInt32.le_iff_toNat_le, toNat_ntimeAt, toNat_ntimeAt]
  omega

/-- The share was built for this job with this time. -/
def BuiltFor (job : JobInHand K) (ntime : UInt32) (share : K.Share) : Prop :=
  ∃ sequenceNumber nonce, K.submitShares job.snapshot.channelId sequenceNumber
    (K.jobId job.snapshot.activeJob) nonce ntime (K.version job.snapshot.activeJob)
    job.snapshot.extranonceSize = some share

/-- The task hashes no more. -/
def Over : Phase K → Prop
  | .submitted | .finished | .panicked _ => True
  | _ => False

/-- The time in hand is that of a header hashed by now. -/
def Stamped (now : Instant) : Phase K → Prop
  | .found job _ ntime =>
    ∃ instant, job.jobActivatedAt ≤ instant ∧ instant ≤ now ∧ ntime = ntimeAt job instant
  | .submitting job _ share =>
    ∃ instant, job.jobActivatedAt ≤ instant ∧ instant ≤ now ∧
      BuiltFor job (ntimeAt job instant) share
  | _ => True

/-- No header is hashed and not yet discarded or submitted. -/
def Bare : Phase K → Prop
  | .found _ _ _ | .submitting _ _ _ => False
  | _ => True

/-- What a step of a task has to do with the clock. -/
inductive Paced (m : ChannelMiner K) (now : Instant) : Phase K → Phase K → Prop
  | passGate : Paced m now .spawned .checked
  | stop {phase phase' : Phase K} (h : Over phase') : Paced m now phase phase'
  | snapshot {snapshot : Snapshot K}
      (h : K.getActiveJob m.channel.value = some snapshot.activeJob) :
      Paced m now .checked (.read snapshot)
  | enter {job : JobInHand K} {roll : Rolling}
      (hntime : K.minNtime job.snapshot.activeJob = some job.jobMinNtime)
      (hnow : job.jobActivatedAt = now) : Paced m now (.read job.snapshot) (.polling job roll)
  | turn {phase phase' : Phase K} {job : JobInHand K} (h : jobOf phase = some job)
      (h' : jobOf phase' = some job) (hbare : Bare phase') : Paced m now phase phase'
  | hit {job : JobInHand K} {roll : Rolling} :
      Paced m now (.hashing job roll) (.found job roll (ntimeAt job now))
  | number {job : JobInHand K} {roll : Rolling} {ntime : UInt32} {share : K.Share}
      (h : BuiltFor job ntime share) :
      Paced m now (.found job roll ntime) (.submitting job roll share)

/-- How a task goes from one phase to the next, with its nonce and the clock. -/
inductive Proceeds (m : ChannelMiner K) (now : Instant) : Phase K → Phase K → Prop
  | passGate : Proceeds m now .spawned .checked
  | stop {phase phase' : Phase K} (h : Over phase') : Proceeds m now phase phase'
  | snapshot {snapshot : Snapshot K}
      (h : K.getActiveJob m.channel.value = some snapshot.activeJob) :
      Proceeds m now .checked (.read snapshot)
  | enter {job : JobInHand K} {roll : Rolling}
      (hntime : K.minNtime job.snapshot.activeJob = some job.jobMinNtime)
      (hnow : job.jobActivatedAt = now) (hnonce : roll.nonce = 0) :
      Proceeds m now (.read job.snapshot) (.polling job roll)
  | yield {job : JobInHand K} {roll : Rolling} :
      Proceeds m now (.polling job roll) (.yielded job roll)
  | sleep {job : JobInHand K} {roll : Rolling} {wakeAt : Instant} :
      Proceeds m now (.yielded job roll) (.sleeping job roll wakeAt)
  | work {job : JobInHand K} {roll : Rolling} :
      Proceeds m now (.yielded job roll) (.hashing job roll)
  | wake {job : JobInHand K} {roll : Rolling} {wakeAt : Instant} :
      Proceeds m now (.sleeping job roll wakeAt) (.hashing job { roll with windowStart := now })
  | miss {job : JobInHand K} {roll : Rolling} :
      Proceeds m now (.hashing job roll) (.polling job roll.nextNonce)
  | hit {job : JobInHand K} {roll : Rolling} :
      Proceeds m now (.hashing job roll) (.found job roll (ntimeAt job now))
  | reject {job : JobInHand K} {roll : Rolling} {ntime : UInt32} :
      Proceeds m now (.found job roll ntime) (.polling job roll.nextNonce)
  | number {job : JobInHand K} {roll : Rolling} {ntime sequenceNumber : UInt32} {share : K.Share}
      (h : K.submitShares job.snapshot.channelId sequenceNumber (K.jobId job.snapshot.activeJob)
        roll.nonce ntime (K.version job.snapshot.activeJob) job.snapshot.extranonceSize =
          some share) : Proceeds m now (.found job roll ntime) (.submitting job roll share)
  | submit {job : JobInHand K} {roll : Rolling} {share : K.Share} :
      Proceeds m now (.submitting job roll share) (.polling job roll.nextNonce)

theorem takeSnapshot_proceeds (m : ChannelMiner K) (now : Instant) :
    Proceeds m now .checked (takeSnapshot m.channel) := by
  unfold takeSnapshot
  cases hread : m.channel.read id with
  | none => exact .stop trivial
  | some channel =>
    have hvalue : m.channel.value = channel := by
      unfold RwCell.read at hread
      split at hread
      · contradiction
      · exact Option.some.inj hread
    subst hvalue
    dsimp only
    cases K.getChainTip m.channel.value with
    | none => exact .stop trivial
    | some chainTip =>
      cases hjob : K.getActiveJob m.channel.value with
      | none => exact .stop trivial
      | some job => exact .snapshot hjob

theorem enterLoop_proceeds (m : ChannelMiner K) (snapshot : Snapshot K) (now : Instant) :
    Proceeds m now (.read snapshot) (enterLoop m.cpuUsagePercent snapshot now) := by
  unfold enterLoop
  cases hntime : K.minNtime snapshot.activeJob with
  | none => exact .stop trivial
  | some minNtime =>
    cases sleepDurationMs K.overflowChecks m.cpuUsagePercent with
    | none => exact .stop trivial
    | some duration =>
      cases K.merkleRoot snapshot.activeJob snapshot.extranonceSize with
      | none => exact .stop trivial
      | some merkleRoot =>
        let job : JobInHand K := ⟨snapshot, minNtime, merkleRoot, now⟩
        have hjob : K.minNtime job.snapshot.activeJob = some job.jobMinNtime := hntime
        exact .enter hjob rfl rfl

theorem throttle_proceeds (m : ChannelMiner K) (now : Instant) (cpuUsagePercent : ℕ)
    (job : JobInHand K) (roll : Rolling) :
    Proceeds m now (.yielded job roll) (throttle cpuUsagePercent now job roll) := by
  unfold throttle
  split
  · dsimp only
    split
    · exact .sleep
    · exact .work
  · exact .work

theorem mineHeader_proceeds (m : ChannelMiner K) (now : Instant) (job : JobInHand K)
    (roll : Rolling) : Proceeds m now (.hashing job roll) (mineHeader job roll now) := by
  unfold mineHeader
  split
  · exact .hit
  · exact .miss

/-- Every step of a task, seen with the clock. -/
theorem resume_proceeds {m m' : ChannelMiner K} {amb : Ambient} {i : ℕ} {task : MiningTask K}
    {move : Move} (h : resume m amb i task move = some m') :
    ∃ phase, m'.tasks = (m.setPhase i phase).tasks ∧ Proceeds m amb.now task.phase phase := by
  unfold resume at h
  split at h
  case h_1 hp =>
    cases h
    rw [hp]
    refine ⟨_, rfl, ?_⟩
    split
    · exact .stop trivial
    · exact .passGate
  case h_2 hp =>
    cases h
    rw [hp]
    exact ⟨_, rfl, takeSnapshot_proceeds m amb.now⟩
  case h_3 hp =>
    cases h
    rw [hp]
    exact ⟨_, rfl, enterLoop_proceeds m _ amb.now⟩
  case h_4 hp =>
    cases h
    rw [hp]
    refine ⟨_, rfl, ?_⟩
    split
    · exact .stop trivial
    · exact .yield
  case h_5 hp =>
    cases h
    rw [hp]
    exact ⟨_, rfl, throttle_proceeds m amb.now _ _ _⟩
  case h_6 hp =>
    split at h
    · cases h
      exact ⟨_, rfl, .stop trivial⟩
    · contradiction
  case h_7 hp =>
    split at h
    · cases h
      rw [hp]
      exact ⟨_, rfl, .wake⟩
    · contradiction
  case h_8 hp =>
    cases h
    rw [hp]
    exact ⟨_, rfl, mineHeader_proceeds m amb.now _ _⟩
  case h_9 job roll ntime hp =>
    cases h
    rw [hp]
    unfold logShare
    split
    · exact ⟨_, rfl, .stop trivial⟩
    · split
      · exact ⟨_, rfl, .stop trivial⟩
      · rename_i share hshare
        obtain ⟨sequenceNumber, _, hbuilt⟩ := buildShare_ok hshare
        split
        · exact ⟨_, rfl, .reject⟩
        · exact ⟨_, rfl, .number hbuilt⟩
  case h_10 hp =>
    cases h
    rw [hp]
    unfold submitShare
    split
    · exact ⟨_, rfl, .stop trivial⟩
    · exact ⟨_, rfl, .submit⟩
  case h_11 hp =>
    cases h
    rw [hp]
    exact ⟨_, rfl, .submit⟩
  case h_12 hp =>
    cases h
    unfold endSingleSubmit
    split
    · exact ⟨_, rfl, .stop trivial⟩
    · exact ⟨_, rfl, .stop trivial⟩
  case h_13 => contradiction

theorem Proceeds.paced {m : ChannelMiner K} {now : Instant} {phase phase' : Phase K}
    (h : Proceeds m now phase phase') : Paced m now phase phase' := by
  cases h with
  | passGate => exact .passGate
  | stop hover => exact .stop hover
  | snapshot hjob => exact .snapshot hjob
  | enter hntime hnow => exact .enter hntime hnow
  | hit => exact .hit
  | number hbuilt => exact .number ⟨_, _, hbuilt⟩
  | _ => exact .turn rfl rfl trivial

/-- The job was found made active, the loop was entered later, and the time in
hand is no later than the clock. -/
structure Timed (found : Made K) (now : Instant) (phase : Phase K) : Prop where
  snapshot : ∀ snapshot, snapshotOf phase = some snapshot →
    ∃ since, found = some (snapshot.activeJob, since) ∧ since ≤ now
  entered : ∀ job, jobOf phase = some job →
    K.minNtime job.snapshot.activeJob = some job.jobMinNtime ∧ job.jobActivatedAt ≤ now ∧
      ∀ made, found = some made → made.2 ≤ job.jobActivatedAt
  stamped : Stamped now phase

theorem Timed.later {found : Made K} {now later : Instant} {phase : Phase K}
    (h : Timed found now phase) (hle : now ≤ later) : Timed found later phase := by
  refine ⟨?_, ?_, ?_⟩
  · intro snapshot hs
    obtain ⟨since, hfound, hsince⟩ := h.snapshot snapshot hs
    exact ⟨since, hfound, hsince.trans hle⟩
  · intro job hj
    obtain ⟨hntime, hentered, hmade⟩ := h.entered job hj
    exact ⟨hntime, hentered.trans hle, hmade⟩
  · have hstamped := h.stamped
    cases phase with
    | found job roll ntime =>
      obtain ⟨instant, hfrom, hto, heq⟩ := hstamped
      exact ⟨instant, hfrom, hto.trans hle, heq⟩
    | submitting job roll share =>
      obtain ⟨instant, hfrom, hto, hbuilt⟩ := hstamped
      exact ⟨instant, hfrom, hto.trans hle, hbuilt⟩
    | _ => trivial

theorem timed_of_snapshotOf_none {found : Made K} {now : Instant} {phase : Phase K}
    (h : snapshotOf phase = none) : Timed found now phase := by
  refine ⟨?_, ?_, ?_⟩
  · intro snapshot hs
    rw [h] at hs
    contradiction
  · intro job hj
    cases phase <;> contradiction
  · cases phase <;> trivial

theorem stamped_of_bare {now : Instant} {phase : Phase K} (h : Bare phase) :
    Stamped now phase := by
  cases phase <;> first | exact h.elim | trivial

/-- What a task finds is what has been made active, when it takes its snapshot. -/
def foundIn (phase : Phase K) (found made : Made K) : Made K :=
  match phase with
  | .checked => made
  | _ => found

theorem Paced.timed {m : ChannelMiner K} {now : Instant} {phase phase' : Phase K}
    (h : Paced m now phase phase') {found made : Made K}
    (hactive : K.getActiveJob m.channel.value = made.map Prod.fst)
    (hpast : ∀ x, made = some x → x.2 ≤ now) (hp : Timed found now phase) :
    Timed (foundIn phase found made) now phase' := by
  cases h with
  | passGate => exact timed_of_snapshotOf_none rfl
  | stop hover =>
    apply timed_of_snapshotOf_none
    cases phase' <;> first | rfl | exact hover.elim
  | @snapshot snapshot hjob =>
    refine ⟨?_, (fun _ hj => nomatch hj), trivial⟩
    intro s hs
    cases hs
    obtain ⟨⟨job, since⟩, hmade, hfst⟩ := Option.map_eq_some_iff.mp (hactive.symm.trans hjob)
    refine ⟨since, ?_, hpast _ hmade⟩
    rw [← hfst]
    exact hmade
  | @enter job roll hntime hnow =>
    refine ⟨?_, ?_, trivial⟩
    · intro snapshot hs
      cases hs
      exact hp.snapshot _ rfl
    · intro job' hj
      cases hj
      refine ⟨hntime, Nat.le_of_eq hnow, ?_⟩
      intro x hx
      obtain ⟨since, hfound, hsince⟩ := hp.snapshot _ rfl
      cases hfound.symm.trans hx
      rw [hnow]
      exact hsince
  | @turn _ _ job hj hj' hbare =>
    have hkept : foundIn phase found made = found := by
      cases phase <;> first | rfl | contradiction
    have hsnapshot : ∀ {p : Phase K}, jobOf p = some job → snapshotOf p = some job.snapshot := by
      intro p hjob
      cases p <;> first | contradiction | (cases hjob; rfl)
    rw [hkept]
    refine ⟨?_, ?_, stamped_of_bare hbare⟩
    · intro snapshot hs
      rw [hsnapshot hj'] at hs
      exact hp.snapshot snapshot ((hsnapshot hj).trans hs)
    · intro job' hjob
      cases hj'.symm.trans hjob
      exact hp.entered job hj
  | @hit job roll =>
    refine ⟨fun s hs => hp.snapshot s hs, fun j hj => hp.entered j hj, now, ?_, Nat.le_refl _, rfl⟩
    exact (hp.entered job rfl).2.1
  | @number job roll ntime share hbuilt =>
    obtain ⟨instant, hfrom, hto, rfl⟩ := hp.stamped
    exact ⟨fun s hs => hp.snapshot s hs, fun j hj => hp.entered j hj, instant, hfrom, hto, hbuilt⟩

/-- Every task is timed. -/
def AllTimed (p : Point K) : Prop :=
  ∀ (i : ℕ) (task : MiningTask K), p.rig.miner.tasks[i]? = some task →
    Timed (p.found i) p.rig.ambient.now task.phase

theorem foundAfter_self {p : Point K} {i : ℕ} {task : MiningTask K} {move : Move}
    (ht : p.rig.miner.tasks[i]? = some task) :
    p.foundAfter (.task i move) i = foundIn task.phase (p.found i) p.made := by
  simp only [Point.foundAfter, ht, Option.map_some]
  cases task.phase <;> simp [foundIn]

theorem foundAfter_of_ne {p : Point K} {i j : ℕ} {move : Move} (hne : j ≠ i) :
    p.foundAfter (.task i move) j = p.found j := by
  simp only [Point.foundAfter]
  cases p.rig.miner.tasks[i]?.map MiningTask.phase with
  | none => rfl
  | some phase => cases phase <;> first | rfl | exact Function.update_of_ne hne _ _

theorem event_timed {p : Point K} (hp : Consistent p) (hall : AllTimed p) {e : Event}
    {rig : Rig K} (h : p.rig.advance e = some rig) :
    AllTimed { p with rig := rig, found := p.foundAfter e } := by
  cases e with
  | task i move =>
    obtain ⟨m', hstep, rfl⟩ := Option.map_eq_some_iff.mp h
    obtain ⟨task, ht, hresume⟩ := Option.bind_eq_some_iff.mp hstep
    obtain ⟨phase, htasks, hproceeds⟩ := resume_proceeds hresume
    intro j t hj
    rcases setPhase_cases ht htasks hj with ⟨rfl, rfl⟩ | ⟨hne, hold⟩
    · change Timed (p.foundAfter (.task j move) j) _ _
      rw [foundAfter_self ht]
      exact hproceeds.paced.timed hp.active hp.past (hall j task ht)
    · change Timed (p.foundAfter (.task i move) j) _ _
      rw [foundAfter_of_ne hne]
      exact hall j t hold
  | tick elapsed =>
    cases h
    exact fun i task ht => (hall i task ht).later (Nat.le_add_right _ _)
  | shutdown =>
    cases h
    exact hall

theorem step_timed {p p' : Point K} {l : Moment K} (h : PointStep p l p') (hp : Consistent p)
    (hall : AllTimed p) : AllTimed p' := by
  cases pointStep_goes hp.rest h with
  | event he => exact event_timed hp hall he
  | enters => exact hall
  | acts hcalm =>
    intro i task ht
    rcases hcalm.spawned i task ht with hold | hspawned
    · have htimed := hall i task hold
      rw [← hcalm.ambient] at htimed
      exact htimed
    · apply timed_of_snapshotOf_none
      rw [hspawned]
      rfl
  | returns => exact hall

theorem run_timed (hK : ActivationContract K) {amb : Ambient} {channel : K.Channel}
    {cpuUsagePercent : ℕ} {singleSubmit : Bool} {ms : List (Moment K)} {p : Point K}
    (h : Run PointStep (Point.initial ⟨amb, new channel cpuUsagePercent singleSubmit⟩) ms p) :
    Consistent p ∧ AllTimed p := by
  refine h.invariant (I := fun p => Consistent p ∧ AllTimed p) ?_ ⟨initial_consistent _, ?_⟩
  · exact fun _ _ _ hp hstep =>
      ⟨step_consistent hK hstep hp.1, step_timed hstep hp.1 hp.2⟩
  · exact fun _ _ ht => nomatch ht

/-- A task mines on the job it has, until it is over. -/
def Works (job : JobInHand K) (phase : Phase K) : Prop := jobOf phase = some job ∨ Over phase

theorem Paced.works {m : ChannelMiner K} {now : Instant} {phase phase' : Phase K}
    (h : Paced m now phase phase') {job : JobInHand K} (hp : Works job phase) :
    Works job phase' := by
  rcases hp with hjob | hover
  · cases h with
    | stop hover => exact .inr hover
    | turn hj hj' =>
      cases hjob.symm.trans hj
      exact .inl hj'
    | hit => exact .inl hjob
    | number => exact .inl hjob
    | _ => contradiction
  · cases h with
    | stop hover' => exact .inr hover'
    | turn hj =>
      cases phase <;> first | exact hover.elim | contradiction
    | _ => exact hover.elim

/-- The task with this index works on the job, and the clock has reached this instant. -/
def WorksAt (i : ℕ) (job : JobInHand K) (instant : Instant) (p : Point K) : Prop :=
  instant ≤ p.rig.ambient.now ∧
    ∃ task, p.rig.miner.tasks[i]? = some task ∧ Works job task.phase

theorem step_worksAt {p p' : Point K} {l : Moment K} (h : PointStep p l p') (hp : Consistent p)
    {i : ℕ} {job : JobInHand K} {instant : Instant} (hw : WorksAt i job instant p) :
    WorksAt i job instant p' := by
  obtain ⟨hnow, task, ht, hworks⟩ := hw
  cases pointStep_goes hp.rest h with
  | @event e rig he =>
    cases e with
    | task j move =>
      obtain ⟨m', hstep, rfl⟩ := Option.map_eq_some_iff.mp he
      obtain ⟨moved, hmoved, hresume⟩ := Option.bind_eq_some_iff.mp hstep
      obtain ⟨phase, htasks, hproceeds⟩ := resume_proceeds hresume
      refine ⟨hnow, ?_⟩
      change ∃ t, m'.tasks[i]? = some t ∧ Works job t.phase
      rw [htasks]
      by_cases hij : i = j
      · subst hij
        cases hmoved.symm.trans ht
        exact ⟨_, ChannelMiner.setPhase_at _ phase ht, hproceeds.paced.works hworks⟩
      · exact ⟨task, (ChannelMiner.setPhase_at_ne _ phase (Ne.symm hij)).trans ht, hworks⟩
    | tick elapsed =>
      cases he
      exact ⟨hnow.trans (Nat.le_add_right _ _), task, ht, hworks⟩
    | shutdown =>
      cases he
      exact ⟨hnow, task, ht, hworks⟩
  | enters => exact ⟨hnow, task, ht, hworks⟩
  | acts hcalm =>
    refine ⟨?_, task, hcalm.kept i task ht, hworks⟩
    rw [hcalm.ambient]
    exact hnow
  | returns => exact ⟨hnow, task, ht, hworks⟩

theorem ntimes_ordered (hK : ActivationContract K) {p p' : Point K} {ms : List (Moment K)}
    (hp : Consistent p) (h : Run PointStep p ms p') {i : ℕ} {task task' : MiningTask K}
    {job job' : JobInHand K} {roll roll' : Rolling} (ht : p.rig.miner.tasks[i]? = some task)
    (hphase : task.phase = .hashing job roll) (ht' : p'.rig.miner.tasks[i]? = some task')
    (hphase' : task'.phase = .hashing job' roll') :
    ntimeAt job p.rig.ambient.now ≤ ntimeAt job' p'.rig.ambient.now := by
  have hworks : Consistent p' ∧ WorksAt i job p.rig.ambient.now p' := by
    refine h.invariant (I := fun q => Consistent q ∧ WorksAt i job p.rig.ambient.now q) ?_ ⟨hp, ?_⟩
    · exact fun _ _ _ hq hstep =>
        ⟨step_consistent hK hstep hq.1, step_worksAt hstep hq.1 hq.2⟩
    · refine ⟨Nat.le_refl _, task, ht, .inl ?_⟩
      rw [hphase]
      rfl
  obtain ⟨_, hnow, found, hfound, hjob⟩ := hworks
  cases ht'.symm.trans hfound
  rw [hphase'] at hjob
  rcases hjob with hjob | hover
  · cases hjob
    exact ntimeAt_mono _ hnow
  · exact hover.elim

section Kinds

variable {D : Deps}

def shareNtime : (kind : Kind) → (D.client kind).Share → UInt32
  | .standard, share => SubmitSharesStandard.ntime share
  | .extended, share => SubmitSharesExtended.ntime share

def shareJobId : (kind : Kind) → (D.client kind).Share → UInt32
  | .standard, share => SubmitSharesStandard.jobId share
  | .extended, share => SubmitSharesExtended.jobId share

theorem BuiltFor.fields {kind : Kind} {job : JobInHand (D.client kind)} {ntime : UInt32}
    {share : (D.client kind).Share} (h : BuiltFor job ntime share) :
    shareNtime kind share = ntime ∧
      shareJobId kind share = (D.client kind).jobId job.snapshot.activeJob := by
  obtain ⟨sequenceNumber, nonce, hshare⟩ := h
  cases kind with
  | standard =>
    cases hshare
    exact ⟨rfl, rfl⟩
  | extended =>
    simp only [Deps.client, extendedClient] at hshare
    split at hshare
    · cases hshare
      exact ⟨rfl, rfl⟩
    · contradiction

/-- The time lies between the `min_ntime` of the job and that plus the whole
seconds since the channel state made the job active. -/
def KeepsTime {K : ClientChannel} (p : Point K) (i : ℕ) (job : K.Job) (ntime : UInt32) : Prop :=
  ∃ since minNtime, p.found i = some (job, since) ∧ since ≤ p.rig.ambient.now ∧
    K.minNtime job = some minNtime ∧ minNtime ≤ ntime ∧
      ntime.toNat ≤ minNtime.toNat + (p.rig.ambient.now - since) / 1000000000

theorem Timed.keepsTime {K : ClientChannel} {p : Point K} {i : ℕ} {phase : Phase K}
    {job : JobInHand K} {instant : Instant}
    (h : Timed (p.found i) p.rig.ambient.now phase)
    (hsnapshot : snapshotOf phase = some job.snapshot)
    (hjob : jobOf phase = some job) (hto : instant ≤ p.rig.ambient.now) :
    KeepsTime p i job.snapshot.activeJob (ntimeAt job instant) := by
  obtain ⟨since, hfound, hsince⟩ := h.snapshot _ hsnapshot
  obtain ⟨hntime, _, hentered⟩ := h.entered job hjob
  obtain ⟨hlower, hupper⟩ := ntimeAt_bounds job instant
  refine ⟨since, job.jobMinNtime, hfound, hsince, hntime, hlower, hupper.trans ?_⟩
  have helapsed : instant - job.jobActivatedAt ≤ p.rig.ambient.now - since :=
    (Nat.sub_le_sub_right hto _).trans (Nat.sub_le_sub_left (hentered _ hfound) _)
  exact Nat.add_le_add_left (Nat.div_le_div_right helapsed) _

/-- The task is about to hash this header for this job. -/
def Hashes {K : ClientChannel} (p : Point K) (i : ℕ) (job : K.Job) (header : Header) : Prop :=
  ∃ (task : MiningTask K) (hand : JobInHand K) (roll : Rolling),
    p.rig.miner.tasks[i]? = some task ∧ task.phase = .hashing hand roll ∧
      hand.snapshot.activeJob = job ∧
        header = headerAt hand roll.nonce p.rig.ambient.now

/-- The task is about to submit this share for this job. -/
def Submits {K : ClientChannel} (p : Point K) (i : ℕ) (job : K.Job) (share : K.Share) : Prop :=
  ∃ (task : MiningTask K) (hand : JobInHand K) (roll : Rolling),
    p.rig.miner.tasks[i]? = some task ∧ task.phase = .submitting hand roll share ∧
      hand.snapshot.activeJob = job

/-- At every moment, for both kinds of channels and whatever calls, ticks and
steps of tasks came before: the header a task is about to hash and the share
it is about to submit carry a time between the `min_ntime` of the job it found
active and that plus the whole seconds since the channel state made this job
active. Later iterations of one task carry no earlier times. -/
theorem ntimes_follow_clock (D : Deps) (kind : Kind) (hK : ActivationContract (D.client kind))
    (amb : Ambient) (channel : (D.client kind).Channel) (cpuUsagePercent : ℕ)
    (singleSubmit : Bool) (ms : List (Moment (D.client kind))) (p : Point (D.client kind))
    (hrun : Run PointStep (Point.initial ⟨amb, new channel cpuUsagePercent singleSubmit⟩) ms p) :
    (D.client kind).getActiveJob p.rig.miner.channel.value = p.made.map Prod.fst ∧
    (∀ i job header, Hashes p i job header → KeepsTime p i job header.time) ∧
    (∀ i job share, Submits p i job share →
      shareJobId kind share = (D.client kind).jobId job ∧
        KeepsTime p i job (shareNtime kind share)) ∧
    ∀ ms' p', Run PointStep p ms' p' → ∀ i job header job' header', Hashes p i job header →
      Hashes p' i job' header' → header.time ≤ header'.time := by
  obtain ⟨hconsistent, htimed⟩ := run_timed hK hrun
  refine ⟨hconsistent.active, ?_, ?_, ?_⟩
  · intro i job header hhashes
    obtain ⟨task, hand, roll, ht, hphase, rfl, rfl⟩ := hhashes
    have htask := htimed i task ht
    rw [hphase] at htask
    exact htask.keepsTime rfl rfl (Nat.le_refl _)
  · intro i job share hsubmits
    obtain ⟨task, hand, roll, ht, hphase, rfl⟩ := hsubmits
    have htask := htimed i task ht
    rw [hphase] at htask
    obtain ⟨instant, _, hto, hbuilt⟩ := htask.stamped
    obtain ⟨hntime, hjobId⟩ := hbuilt.fields
    refine ⟨hjobId, ?_⟩
    rw [hntime]
    exact htask.keepsTime rfl rfl hto
  · intro ms' p' hrun' i job header job' header' hhashes hhashes'
    obtain ⟨task, hand, roll, ht, hphase, _, rfl⟩ := hhashes
    obtain ⟨task', hand', roll', ht', hphase', _, rfl⟩ := hhashes'
    exact ntimes_ordered hK hconsistent hrun' ht hphase ht' hphase'

end Kinds

/-- The task starts late on an activated job and then waits for its turn. -/
def sampleMoments : List (Moment (sampleDeps.client .standard)) :=
  [.enters (sampleJob 5 none), .returns, .enters (samplePrevHash 5), .acts, .acts, .returns,
    .event (.tick 2500000000)] ++ List.replicate 5 (.event (.task 0 .next)) ++
    [.event (.tick 4000000000)]

/-- The job and the nonce of the header to be hashed. -/
def inHand {K : ClientChannel} : Phase K → Option (JobInHand K × Rolling)
  | .hashing job roll => some (job, roll)
  | _ => none

theorem inHand_eq_some {K : ClientChannel} {phase : Phase K} {job : JobInHand K} {roll : Rolling}
    (h : inHand phase = some (job, roll)) : phase = .hashing job roll := by
  cases phase <;> cases h
  rfl

/-- Four seconds after the task entered its loop. -/
theorem sample_ntime :
    ∃ p job header, play Point.next (Point.initial (sampleRig false)) sampleMoments = some p ∧
      Hashes p 0 job header ∧ header.time = 54 ∧ KeepsTime p 0 job header.time := by
  have hplay : (play Point.next (Point.initial (sampleRig false)) sampleMoments).bind (fun p =>
      (p.rig.miner.tasks[0]?).bind fun task => (inHand task.phase).map fun x =>
        ntimeAt x.1 p.rig.ambient.now) = some 54 := by decide +kernel
  obtain ⟨p, hp, htask⟩ := Option.bind_eq_some_iff.mp hplay
  obtain ⟨task, ht, hphase⟩ := Option.bind_eq_some_iff.mp htask
  obtain ⟨⟨hand, roll⟩, hhand, hntime⟩ := Option.map_eq_some_iff.mp hphase
  have hhashes : Hashes p 0 hand.snapshot.activeJob
      (headerAt hand roll.nonce p.rig.ambient.now) :=
    ⟨task, hand, roll, ht, inHand_eq_some hhand, rfl, rfl⟩
  have hrun : Run PointStep (Point.initial (sampleRig false)) sampleMoments p :=
    run_of_play (fun _ _ _ h => h) hp
  have hkeeps := (ntimes_follow_clock sampleDeps .standard (sample_activationContract _) _ _ _ _
    sampleMoments p hrun).2.1 0 _ _ hhashes
  exact ⟨p, _, _, hp, hhashes, hntime, hkeeps⟩

end CpuMinerSv2.Ntime
