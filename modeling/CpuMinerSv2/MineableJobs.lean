import CpuMinerSv2.LiveTask

/-!
What a mining task expects of its channel, and which calls provide it. A task
spawned by an activating call takes its snapshot at some later time, so the
channel has to stay mineable from the call on; only the next activating call
can change that.
-/

namespace CpuMinerSv2.MineableJobs

open Messages Channels Interference MineJob MinerMethods TaskSteps MinerRuns LiveTask

/-- The messages of the expectations in `mine_job`. -/
def expectations : List String :=
  ["channel must have chain tip", "channel must have active job", "only active jobs allowed",
    "merkle root must be valid", "extranonce must be serializable"]

section Needs

variable {K : ClientChannel}

/-- Every share with this many rollable extranonce bytes can be built. -/
def Serializable (K : ClientChannel) (extranonceSize : ℕ) : Prop :=
  ∀ channelId sequenceNumber jobId nonce ntime version,
    (K.submitShares channelId sequenceNumber jobId nonce ntime version extranonceSize).isSome = true

structure Usable (K : ClientChannel) (job : K.Job) (extranonceSize : ℕ) : Prop where
  minNtime : (K.minNtime job).isSome = true
  merkleRoot : (K.merkleRoot job extranonceSize).isSome = true
  serializable : Serializable K extranonceSize

/-- A task could take its snapshot of the channel now and mine on it. -/
def Mineable (channel : K.Channel) : Prop :=
  (K.getChainTip channel).isSome = true ∧ ∃ job, K.getActiveJob channel = some job ∧
    Usable K job (K.getRollableExtranonceSize channel)

/-- No expectation has failed, and none will fail on the snapshot taken. -/
structure Expected (phase : Phase K) : Prop where
  met : ∀ reason ∈ expectations, phase ≠ .panicked reason
  usable : ∀ snapshot, snapshotOf phase = some snapshot →
    Usable K snapshot.activeJob snapshot.extranonceSize

/-- Whatever snapshot is taken from now on, it is usable. -/
structure Sound (m : ChannelMiner K) : Prop where
  ready : m.tasks ≠ [] → Mineable m.channel.value
  phases : AllPhases Expected m

theorem expected_of_snapshotOf_none {phase : Phase K} (hnone : snapshotOf phase = none)
    (h : ∀ reason ∈ expectations, phase ≠ .panicked reason) : Expected phase := by
  refine ⟨h, ?_⟩
  intro snapshot hs
  rw [hnone] at hs
  contradiction

theorem new_sound (channel : K.Channel) (cpuUsagePercent : ℕ) (singleSubmit : Bool) :
    Sound (new channel cpuUsagePercent singleSubmit : ChannelMiner K) := by
  refine ⟨?_, ?_⟩
  · intro h
    exact absurd rfl h
  · intro i task ht
    simp [new] at ht

theorem Mineable.of_sameWork {a b : K.Channel} (h : Mineable a) (hw : SameWork a b)
    (hsize : K.getRollableExtranonceSize b = K.getRollableExtranonceSize a) : Mineable b := by
  obtain ⟨htip, job, hjob, husable⟩ := h
  refine ⟨?_, job, hw.1.trans hjob, ?_⟩
  · rw [hw.2]
    exact htip
  · rw [hsize]
    exact husable

theorem Advance.expected {m : ChannelMiner K} {cancelled : Bool} {p p' : Phase K}
    (h : Advance m cancelled p p') (hready : p = .checked → Mineable m.channel.value)
    (hp : Expected p) : Expected p' := by
  have hmoved : ∀ {q : Phase K}, snapshotOf q = snapshotOf p → (∀ reason, q ≠ .panicked reason) →
      Expected q := by
    intro q hsame hq
    exact ⟨fun reason _ => hq reason, fun snapshot hs => hp.usable snapshot (hsame ▸ hs)⟩
  have hended : ∀ {q : Phase K}, snapshotOf q = none → (∀ reason, q ≠ .panicked reason) →
      Expected q := fun hnone hq => expected_of_snapshotOf_none hnone (fun reason _ => hq reason)
  cases h with
  | noChainTip htip =>
    obtain ⟨hsome, _⟩ := hready rfl
    rw [htip] at hsome
    contradiction
  | noActiveJob hjob =>
    obtain ⟨_, job, hsome, _⟩ := hready rfl
    rw [hjob] at hsome
    contradiction
  | snapshot hjob htip hhash hbits hsize =>
    obtain ⟨_, job, hsome, husable⟩ := hready rfl
    refine ⟨(fun reason _ hq => nomatch hq), ?_⟩
    intro snapshot hs
    cases hs
    rw [hsize, Option.some.inj (hjob.symm.trans hsome)]
    exact husable
  | noMinNtime hnone =>
    have hsome := (hp.usable _ rfl).minNtime
    rw [hnone] at hsome
    contradiction
  | sleepOverflow =>
    refine expected_of_snapshotOf_none rfl ?_
    intro reason hreason heq
    cases heq
    exact absurd hreason (by decide)
  | noMerkleRoot hnone =>
    have hsome := (hp.usable _ rfl).merkleRoot
    rw [hnone] at hsome
    contradiction
  | enter => exact hmoved rfl (fun _ hq => nomatch hq)
  | yield => exact hmoved rfl (fun _ hq => nomatch hq)
  | sleep => exact hmoved rfl (fun _ hq => nomatch hq)
  | work => exact hmoved rfl (fun _ hq => nomatch hq)
  | wake => exact hmoved rfl (fun _ hq => nomatch hq)
  | miss => exact hmoved rfl (fun _ hq => nomatch hq)
  | hit => exact hmoved rfl (fun _ hq => nomatch hq)
  | sendFailed => exact hmoved rfl (fun _ hq => nomatch hq)
  | _ => exact hended rfl (fun _ hq => nomatch hq)

theorem buildShare_expected {channel : K.Channel} {job : JobInHand K} {roll : Rolling}
    {ntime : UInt32} {reason : String}
    (husable : Usable K job.snapshot.activeJob job.snapshot.extranonceSize)
    (h : buildShare channel job roll ntime = .error reason) : reason ∉ expectations := by
  unfold buildShare at h
  split at h
  · cases h
    decide
  · split at h
    · rename_i sequenceNumber _ _ hnone
      have hsome := husable.serializable job.snapshot.channelId sequenceNumber
        (K.jobId job.snapshot.activeJob) roll.nonce ntime (K.version job.snapshot.activeJob)
      rw [hnone] at hsome
      contradiction
    · contradiction

end Needs

section Calls

variable {K : ClientChannel}

theorem cancelPast_sound {m : ChannelMiner K} (h : Sound m) : Sound (cancelPastTask m) := by
  refine ⟨?_, cancelPast_phases h.phases⟩
  rw [cancelPast_tasks, cancelPast_channel]
  exact h.ready

theorem spawn_sound {m : ChannelMiner K} (h : Sound m) (hmineable : Mineable m.channel.value) :
    Sound (spawnTask m) := by
  refine ⟨fun _ => hmineable, spawn_phases h.phases ?_⟩
  exact expected_of_snapshotOf_none rfl (fun _ _ hq => nomatch hq)

theorem setValue_sound {r : Rig K} {channel : K.Channel} (h : Sound r.miner)
    (hready : r.miner.tasks ≠ [] → Mineable channel) : Sound (setValue r channel).miner :=
  ⟨hready, h.phases⟩

variable {D : Deps}

def standardJobId : StandardJobMessage → UInt32
  | .newMiningJob m => m.jobId
  | .groupChannelJob m => m.jobId

/-- The id of the job a message delivers. -/
def deliveredId : (kind : Kind) → (D.client kind).JobMessage → UInt32
  | .standard, message => standardJobId message
  | .extended, message => NewExtendedMiningJob.jobId message

/-- What the miner relies on: a job with a `min_ntime` becomes active at once
and one without is kept as a future job, a new prev hash installs the chain
tip and activates the job it names, and no share touches the jobs. -/
structure JobContract (D : Deps) : Prop where
  activation : ∀ kind, ActivationContract (D.client kind)
  size : ∀ kind, SizeFixed (D.client kind)
  kept : ∀ (kind : Kind) (channel : (D.client kind).Channel) (share : (D.client kind).Share)
    (jobId : UInt32), (D.client kind).getFutureJobs
      ((D.client kind).validateShare channel share).2 jobId =
        (D.client kind).getFutureJobs channel jobId
  job : ∀ (kind : Kind) (channel : (D.client kind).Channel) (message : (D.client kind).JobMessage),
    ((D.client kind).jobMessageMinNtime message).isSome = true →
    ((D.client kind).onJob channel message).1 = .ok () →
      (D.client kind).getChainTip ((D.client kind).onJob channel message).2 =
        (D.client kind).getChainTip channel ∧
      ∃ job, (D.client kind).getActiveJob ((D.client kind).onJob channel message).2 = some job ∧
        (D.client kind).minNtime job = (D.client kind).jobMessageMinNtime message
  futureJob : ∀ (kind : Kind) (channel : (D.client kind).Channel)
    (message : (D.client kind).JobMessage),
    (D.client kind).jobMessageMinNtime message = none →
    ((D.client kind).onJob channel message).1 = .ok () →
      ∃ waiting, (D.client kind).getFutureJobs ((D.client kind).onJob channel message).2
        (deliveredId kind message) = some waiting
  prevHash : ∀ (kind : Kind) (channel : (D.client kind).Channel) (m : SetNewPrevHash),
    ((D.client kind).onSetNewPrevHash channel m).1 = .ok () →
      (D.client kind).getChainTip ((D.client kind).onSetNewPrevHash channel m).2 =
        some { prevHash := m.prevHash, nbits := m.nbits } ∧
      ∃ waiting job, (D.client kind).getFutureJobs channel m.jobId = some waiting ∧
        (D.client kind).getActiveJob ((D.client kind).onSetNewPrevHash channel m).2 = some job ∧
        (D.client kind).minNtime job = some m.minNtime ∧
        ∀ size, (D.client kind).merkleRoot job size = (D.client kind).merkleRoot waiting size

/-- The job has a merkle root with the extranonce of this channel. -/
def HasRoot (kind : Kind) (channel : (D.client kind).Channel) (job : (D.client kind).Job) : Prop :=
  ((D.client kind).merkleRoot job ((D.client kind).getRollableExtranonceSize channel)).isSome = true

/-- The job that the call stores or activates can be mined: there is a chain
tip for a job active at once, the job has a merkle root as the channel keeps
it, and a share of it can be built. -/
def JobMineable (kind : Kind) (channel : (D.client kind).Channel) : Call (D.client kind) → Prop
  | .job message =>
    match (D.client kind).jobMessageMinNtime message with
    | some _ => (D.client kind).getChainTip channel ≠ none ∧
        (∀ job, (D.client kind).getActiveJob ((D.client kind).onJob channel message).2 = some job →
          HasRoot kind channel job) ∧
        Serializable (D.client kind) ((D.client kind).getRollableExtranonceSize channel)
    | none => ∀ job, (D.client kind).getFutureJobs ((D.client kind).onJob channel message).2
        (deliveredId kind message) = some job → HasRoot kind channel job
  | .setNewPrevHash m =>
    (∀ waiting, (D.client kind).getFutureJobs channel m.jobId = some waiting →
      HasRoot kind channel waiting) ∧
    Serializable (D.client kind) ((D.client kind).getRollableExtranonceSize channel)
  | _ => True

/-- The channel has the job that the call has delivered: active, with all that
a task needs, or waiting for its prev hash, with a merkle root. -/
def CanMine (kind : Kind) (channel : (D.client kind).Channel) : Call (D.client kind) → Prop
  | .job message =>
    match (D.client kind).jobMessageMinNtime message with
    | some minNtime => Mineable channel ∧ ∃ job, (D.client kind).getActiveJob channel = some job ∧
        (D.client kind).minNtime job = some minNtime
    | none => ∃ job, (D.client kind).getFutureJobs channel (deliveredId kind message) = some job ∧
        HasRoot kind channel job
  | .setNewPrevHash m => Mineable channel ∧
      (D.client kind).getChainTip channel = some { prevHash := m.prevHash, nbits := m.nbits }
  | _ => True

theorem outcome_canMine (hD : JobContract D) {kind : Kind} {channel : (D.client kind).Channel}
    {c : Call (D.client kind)} (hok : (c.outcome channel).1 = .ok ())
    (h : JobMineable kind channel c) : CanMine kind (c.outcome channel).2 c := by
  have hsize := (hD.size kind).calls c channel
  cases c with
  | job message =>
    cases hntime : (D.client kind).jobMessageMinNtime message with
    | some minNtime =>
      simp only [JobMineable, hntime] at h
      simp only [CanMine, hntime]
      obtain ⟨htip, hroot, hser⟩ := h
      obtain ⟨hsame, job, hjob, hmin⟩ :=
        hD.job kind channel message (Option.isSome_of_eq_some hntime) hok
      rw [hntime] at hmin
      refine ⟨⟨?_, job, hjob, ?_, ?_, ?_⟩, job, hjob, hmin⟩
      · rw [Call.outcome, hsame]
        exact Option.isSome_iff_ne_none.mpr htip
      · rw [hmin]
        rfl
      · rw [hsize]
        exact hroot job hjob
      · rw [hsize]
        exact hser
    | none =>
      simp only [JobMineable, hntime] at h
      simp only [CanMine, hntime]
      obtain ⟨waiting, hwaiting⟩ := hD.futureJob kind channel message hntime hok
      refine ⟨waiting, hwaiting, ?_⟩
      rw [HasRoot, hsize]
      exact h waiting hwaiting
  | setNewPrevHash m =>
    obtain ⟨hroot, hser⟩ := h
    obtain ⟨htip, waiting, job, hwaiting, hjob, hmin, hsame⟩ := hD.prevHash kind channel m hok
    refine ⟨⟨?_, job, hjob, ?_, ?_, ?_⟩, htip⟩
    · rw [Call.outcome, htip]
      rfl
    · rw [hmin]
      rfl
    · rw [hsize, hsame]
      exact hroot waiting hwaiting
    · rw [hsize]
      exact hser
  | _ => trivial

theorem CanMine.mineable {kind : Kind} {channel : (D.client kind).Channel}
    {c : Call (D.client kind)} (h : CanMine kind channel c) (hc : c.activating = true) :
    Mineable channel := by
  cases c with
  | job message =>
    obtain ⟨minNtime, hntime⟩ := Option.isSome_iff_exists.mp hc
    simp only [CanMine, hntime] at h
    exact h.1
  | setNewPrevHash m => exact h.1
  | _ => contradiction

theorem CanMine.validated (hD : JobContract D) {kind : Kind} {channel : (D.client kind).Channel}
    {c : Call (D.client kind)} (h : CanMine kind channel c) (share : (D.client kind).Share) :
    CanMine kind ((D.client kind).validateShare channel share).2 c := by
  have hwork := (hD.activation kind).validate channel share
  have hsize := (hD.size kind).validate channel share
  cases c with
  | job message =>
    cases hntime : (D.client kind).jobMessageMinNtime message with
    | some minNtime =>
      simp only [CanMine, hntime] at h ⊢
      obtain ⟨hmineable, job, hjob, hmin⟩ := h
      exact ⟨hmineable.of_sameWork hwork hsize, job, hwork.1.trans hjob, hmin⟩
    | none =>
      simp only [CanMine, hntime] at h ⊢
      obtain ⟨job, hjob, hroot⟩ := h
      refine ⟨job, (hD.kept kind channel share _).trans hjob, ?_⟩
      rw [HasRoot, hsize]
      exact hroot
  | setNewPrevHash m => exact ⟨h.1.of_sameWork hwork hsize, hwork.2.trans h.2⟩
  | _ => trivial

theorem taskStep_channel {kind : Kind} {P : (D.client kind).Channel → Prop}
    (hvalidate : ∀ channel share, P channel → P ((D.client kind).validateShare channel share).2)
    (m : ChannelMiner (D.client kind)) (amb : Ambient) (i : ℕ) (m' : ChannelMiner (D.client kind))
    (hstep : TaskStep m amb i m') (h : P m.channel.value) : P m'.channel.value := by
  cases hstep with
  | rejected => exact hvalidate _ _ h
  | accepted => exact hvalidate _ _ h
  | _ => exact h

theorem taskStep_mineable (hD : JobContract D) {kind : Kind} (m : ChannelMiner (D.client kind))
    (amb : Ambient) (i : ℕ) (m' : ChannelMiner (D.client kind)) (hstep : TaskStep m amb i m')
    (h : Mineable m.channel.value) : Mineable m'.channel.value :=
  taskStep_channel (fun _ _ hc => hc.of_sameWork ((hD.activation kind).validate _ _)
    ((hD.size kind).validate _ _)) m amb i m' hstep h

theorem taskStep_sound (hD : JobContract D) {kind : Kind} (m : ChannelMiner (D.client kind))
    (amb : Ambient) (i : ℕ) (m' : ChannelMiner (D.client kind)) (hstep : TaskStep m amb i m')
    (h : Sound m) : Sound m' := by
  refine ⟨?_, ?_⟩
  · intro hne
    refine taskStep_mineable hD m amb i m' hstep (h.ready ?_)
    intro hnil
    have hlen := hstep.frame.length_eq
    rw [hnil] at hlen
    exact hne (List.length_eq_zero_iff.mp hlen)
  · refine taskStep_phases hstep h.phases ?_ ?_ ?_ ?_
    · intro task phase ht ha
      refine Advance.expected ha ?_ (h.phases i task ht)
      exact fun _ => h.ready (List.ne_nil_of_mem (List.mem_of_getElem? ht))
    · intro job roll ntime reason hfound hbuild
      refine expected_of_snapshotOf_none rfl ?_
      intro expectation hmem heq
      cases heq
      exact buildShare_expected (hfound.usable _ rfl) hbuild hmem
    · intro phase phase' hand hexpected hphase hphase'
      refine ⟨?_, ?_⟩
      · rintro reason _ rfl
        contradiction
      · intro snapshot hs
        rw [snapshotOf_of_jobOf hphase'] at hs
        exact hexpected.usable snapshot ((snapshotOf_of_jobOf hphase).trans hs)
    · exact ⟨expected_of_snapshotOf_none rfl (fun _ _ hq => nomatch hq),
        expected_of_snapshotOf_none rfl (fun _ _ hq => nomatch hq)⟩

theorem others_sound (hD : JobContract D) {kind : Kind} {r r' : Rig (D.client kind)}
    (h : Others Unrestricted r r') (hr : Sound r.miner) : Sound r'.miner :=
  others_preserve (I := fun r => Sound r.miner) (interferes_preserve (taskStep_sound hD)) h hr

theorem others_canMine (hD : JobContract D) {kind : Kind} {r r' : Rig (D.client kind)}
    {c : Call (D.client kind)} (h : Others Unrestricted r r')
    (hr : CanMine kind r.miner.channel.value c) : CanMine kind r'.miner.channel.value c :=
  others_preserve (I := fun r => CanMine kind r.miner.channel.value c)
    (interferes_preserve (taskStep_channel (P := fun channel => CanMine kind channel c)
      (fun _ share hc => CanMine.validated hD hc share))) h hr

/-- If the call finds a usable lock and the channel takes it, whatever shares
have been validated until then, the job it delivers can be mined. -/
def CallMineable (kind : Kind) (r : Rig (D.client kind)) (c : Call (D.client kind)) : Prop :=
  ∀ r₁, Others Unrestricted r r₁ → r₁.miner.channel.poisoned = false →
    (c.outcome r₁.miner.channel.value).1 = .ok () → JobMineable kind r₁.miner.channel.value c

theorem activated_canMine (hD : JobContract D) {kind : Kind} {c : Call (D.client kind)}
    {r₁ r₂ r₃ : Rig (D.client kind)} (hop : (c.outcome r₁.miner.channel.value).1 = .ok ())
    (h : JobMineable kind r₁.miner.channel.value c)
    (h₂ : Others Unrestricted (setValue r₁ (c.outcome r₁.miner.channel.value).2) r₂)
    (h₃ : Others Unrestricted (cancelPast r₂) r₃) :
    CanMine kind (c.outcome r₁.miner.channel.value).2 c ∧
      CanMine kind r₃.miner.channel.value c := by
  have hset := outcome_canMine hD hop h
  refine ⟨hset, others_canMine hD h₃ ?_⟩
  rw [cancelPast, cancelPast_channel]
  exact others_canMine hD h₂ hset

theorem call_sound (hD : JobContract D) {kind : Kind} {c : Call (D.client kind)}
    {r r' : Rig (D.client kind)} {res : Except Sv2CpuMinerError Unit}
    (h : Runs (Interferes Unrestricted) c.program r res r') (hguard : CallMineable kind r c)
    (hr : Sound r.miner) : Sound r'.miner := by
  cases call_cases h with
  | poisoned h₁ _ h' => exact others_sound hD (h₁.trans h') hr
  | @refused r₁ _ e h₁ hlock hop h' =>
    have hsame := (hD.activation kind).refused c r₁.miner.channel.value e hop
    have hr₁ := others_sound hD h₁ hr
    refine others_sound hD h' (setValue_sound hr₁ ?_)
    rw [hsame]
    exact hr₁.ready
  | @quiet r₁ _ h₁ hlock hop hc h' =>
    have hr₁ := others_sound hD h₁ hr
    refine others_sound hD h' (setValue_sound hr₁ ?_)
    intro hne
    exact (hr₁.ready hne).of_sameWork ((hD.activation kind).quiet c _ hc)
      ((hD.size kind).calls c _)
  | @activated r₁ r₂ r₃ _ h₁ hlock hop hc h₂ h₃ h' =>
    obtain ⟨hset, hset₃⟩ := activated_canMine hD hop (hguard r₁ h₁ hlock hop) h₂ h₃
    have hsound₂ := others_sound hD h₂
      (setValue_sound (others_sound hD h₁ hr) (fun _ => hset.mineable hc))
    have hsound₃ := others_sound hD h₃ (cancelPast_sound hsound₂)
    exact others_sound hD h' (spawn_sound hsound₃ (hset₃.mineable hc))

/-- A call that succeeds has delivered its job. -/
theorem call_canMine (hD : JobContract D) {kind : Kind} {c : Call (D.client kind)}
    {r r' : Rig (D.client kind)} (h : Runs (Interferes Unrestricted) c.program r (.ok ()) r')
    (hguard : CallMineable kind r c) : CanMine kind r'.miner.channel.value c := by
  generalize hres : (Except.ok () : Except Sv2CpuMinerError Unit) = res at h
  cases call_cases h with
  | poisoned => contradiction
  | refused => contradiction
  | quiet h₁ hlock hop _ h' =>
    exact others_canMine hD h' (outcome_canMine hD hop (hguard _ h₁ hlock hop))
  | @activated r₁ r₂ r₃ _ h₁ hlock hop hc h₂ h₃ h' =>
    obtain ⟨_, hset₃⟩ := activated_canMine hD hop (hguard r₁ h₁ hlock hop) h₂ h₃
    exact others_canMine hD h' hset₃

end Calls

end CpuMinerSv2.MineableJobs
