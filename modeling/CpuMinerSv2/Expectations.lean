import CpuMinerSv2.MinerInvariants
import CpuMinerSv2.MineableJobs
import CpuMinerSv2.SampleWorlds
import CpuMinerSv2.Serving

/-!
No task panics on an expectation of `mine_job`, and every job that cannot be
mined is reported, in the runs whose messages deliver mineable jobs only. No
handler checks that: a job with a `min_ntime` is mined at once, on a channel
that has no chain tip yet too, and so is an extended job whose coinbase does
not parse.
-/

namespace CpuMinerSv2.Expectations

open Messages Channels Primitives Interference MineJob MinerMethods MinerRuns LiveTask Manager
  ManagerFrames Deliveries HandlerRuns Serving MinerInvariants MineableJobs SampleDeps SampleMiners
  SampleWorlds

variable {D : Deps}

/-- The name under which the failures of a message that delivers a job are logged. -/
def deliveryName : ServerMessage → Option String
  | .newMiningJob _ => some "NewMiningJob"
  | .newExtendedMiningJob _ => some "NewExtendedMiningJob"
  | .setNewPrevHash _ => some "SetNewPrevHash"
  | _ => none

theorem delivery_reported (hD : GroupContract D.group) {m : ServerMessage} {name : String}
    (hm : deliveryName m = some name) {w w' : World D}
    (h : Runs WorldInterferes (handle m) w (.ok ()) w') {kind : Kind} {id : UInt32}
    {c : Call (D.client kind)} (htarget : Targets w m kind id c) {r : Rig (D.client kind)}
    (hr : w.rigAt kind (.stored id) = some r) :
    ∃ res r', w'.rigAt kind (.stored id) = some r' ∧
      Runs (Interferes Unrestricted) c.program r res r' ∧
      ∀ e, res = .error e → NewEntry (.callFailed name kind id e) w w' := by
  have hown : ∀ {w₁ : World D} {r₁ : Rig (D.client kind)}, WorldOthers w w₁ →
      Others Unrestricted r r₁ →
      (∃ res r', w'.rigAt kind (.stored id) = some r' ∧
        Runs (Interferes Unrestricted) c.program r₁ res r' ∧
        ∀ e, res = .error e → NewEntry (.callFailed name kind id e) w₁ w') →
      ∃ res r', w'.rigAt kind (.stored id) = some r' ∧
        Runs (Interferes Unrestricted) c.program r res r' ∧
        ∀ e, res = .error e → NewEntry (.callFailed name kind id e) w w' := by
    intro w₁ r₁ h₁ hothers hcalled
    obtain ⟨res, r', hr', hrun, hfailed⟩ := hcalled
    exact ⟨res, r', hr', hrun.prepend hothers,
      fun e he => (hfailed e he).within (.of_eq (worldOthers_log h₁)) (.of_eq rfl)⟩
  cases htarget with
  | newMiningJob =>
    cases hm
    obtain ⟨w₁, h₁, hrest⟩ := runs_observe_manager h
    obtain ⟨r₁, hr₁, hothers⟩ := worldOthers_rigMoves h₁ _ _ r hr
    have hkey : w₁.manager.standardChannels.containsKey _ = true :=
      Option.isSome_of_eq_some (rigAt_eq_some_iff.mp hr₁).1
    rw [if_pos hkey] at hrest
    exact hown h₁ hothers (callMiner_reports hrest hr₁)
  | @channelJob m hstd hg =>
    cases hm
    obtain ⟨w₁, h₁, hrest⟩ := runs_observe_manager h
    have hsame := worldOthers_sameRegistry h₁
    obtain ⟨r₁, hr₁, hothers⟩ := worldOthers_rigMoves h₁ _ _ r hr
    have hkey : w₁.manager.extendedChannels.containsKey m.channelId = true :=
      Option.isSome_of_eq_some (rigAt_eq_some_iff.mp hr₁).1
    simp only [hsame.requiresStandardJobs.trans hstd, hsame.groups, hg, hkey, Bool.false_eq_true,
      ↓reduceIte] at hrest
    exact hown h₁ hothers (callMiner_reports hrest hr₁)
  | @groupJob m group _ _ hstd hg hid hres =>
    cases hm
    obtain ⟨w₁, h₁, hrest⟩ := runs_observe_manager h
    have hsame := worldOthers_sameRegistry h₁
    obtain ⟨r₁, hr₁, hothers⟩ := worldOthers_rigMoves h₁ _ _ r hr
    simp only [hsame.requiresStandardJobs.trans hstd, hsame.groups, hg, Bool.false_eq_true,
      ↓reduceIte] at hrest
    have hserved : CallReported _ (fun kind => groupJob kind m) id w₁ w' :=
      forEach_reports (hD.nodup group) hrest id hid
    exact hown h₁ hothers (hserved kind r₁ (hsame.resolves.mpr hres) hr₁)
  | @setNewPrevHash m _ _ hid hres =>
    cases hm
    obtain ⟨w₁, h₁, hrest⟩ := runs_observe_manager h
    have hsame := worldOthers_sameRegistry h₁
    obtain ⟨r₁, hr₁, hothers⟩ := worldOthers_rigMoves h₁ _ _ r hr
    rw [hsame.addressedChannels] at hrest
    have hserved : CallReported _ (fun _ => .setNewPrevHash m) id w₁ w' :=
      forEach_reports (addressedChannels_nodup hD _ _) hrest id hid
    exact hown h₁ hothers (hserved kind r₁ (hsame.resolves.mpr hres) hr₁)
  | _ => contradiction

/-- The jobs that the calls of a message store or activate can be mined. -/
def DeliversMineable (w : World D) : WorldLabel → Prop
  | .event _ => True
  | .message m _ => ∀ kind id c r, Targets w m kind id c → w.rigAt kind (.stored id) = some r →
      CallMineable kind r c

/-- In every run whose messages deliver mineable jobs only, no task panics on
an expectation, and every snapshot has what the loop needs. A message that
delivers a job ends in an error, or each channel it is for has the job and can
mine it, or the failure is logged. -/
theorem expectations_met_when_jobs_mineable (D : Deps) (hD : GroupContract D.group)
    (hJ : JobContract D) (userIdentity : String) (nominalHashrate : F32) (singleSubmit : Bool)
    (cpuUsagePercent : ℕ) (requiresStandardJobs : Bool) (amb : Ambient) (ls : List WorldLabel)
    (w : World D)
    (hrun : Run (Guarded DeliversMineable WorldStep) (World.initial (ChannelManager.new userIdentity
      nominalHashrate singleSubmit cpuUsagePercent requiresStandardJobs) amb) ls w) :
    (∀ (kind : Kind) (place : Place) (miner : ChannelMiner (D.client kind)),
      w.minerAt kind place = some miner → ∀ task ∈ miner.tasks,
        (∀ reason ∈ expectations, task.phase ≠ .panicked reason) ∧
        ∀ snapshot, task.phase = .read snapshot →
          Usable (D.client kind) snapshot.activeJob snapshot.extranonceSize) ∧
    (∀ (m : ServerMessage) (name : String) (x : Except Sv2CpuMinerError Unit) (w' : World D),
      deliveryName m = some name → Guarded DeliversMineable WorldStep w (.message m x) w' →
        x ≠ .ok () ∨ ∀ (kind : Kind) (id : UInt32) (c : Call (D.client kind))
          (r : Rig (D.client kind)), Targets w m kind id c →
            w.rigAt kind (.stored id) = some r → ∃ r', w'.rigAt kind (.stored id) = some r' ∧
              (CanMine kind r'.miner.channel.value c ∨
                ∃ e, NewEntry (.callFailed name kind id e) w w')) := by
  refine ⟨?_, ?_⟩
  · have hall : AllMiners (fun _ m => Sound m) w := by
      refine run_allMiners hD ?_ ?_ ?_ hrun
      · exact fun _ _ _ hothers hr => others_sound hJ hothers hr
      · exact fun _ channel => new_sound channel _ _
      · intro s m x kind id c r r' res hguard htarget hr hcall hsound
        exact call_sound hJ hcall (hguard kind id c r htarget hr) hsound
    intro kind place miner hm task ht
    obtain ⟨i, hi⟩ := List.mem_iff_getElem?.mp ht
    have hphase := (hall kind place miner hm).phases i task hi
    refine ⟨hphase.met, ?_⟩
    intro snapshot hread
    refine hphase.usable snapshot ?_
    rw [hread]
    rfl
  · rintro m name x w' hm ⟨hguard, hstep⟩
    cases hstep with
    | message h =>
      cases x with
      | error e =>
        left
        intro he
        contradiction
      | ok u =>
        refine .inr fun kind id c r htarget hr => ?_
        obtain ⟨res, r', hr', hcall, hfailed⟩ := delivery_reported hD hm h htarget hr
        refine ⟨r', hr', ?_⟩
        cases res with
        | ok u => exact .inl (call_canMine hJ hcall (hguard kind id c r htarget hr))
        | error e => exact .inr ⟨e, hfailed e rfl⟩

theorem storeJob_active {Job : Type} (channel : SampleChannel Job) (jobId : UInt32) {active : Bool}
    (hactive : active = true) (job : Job) :
    storeJob channel jobId active job = (.ok (), { channel with activeJob := some job }) := by
  rw [hactive]
  rfl

theorem storeJob_waiting {Job : Type} (channel : SampleChannel Job) (jobId : UInt32) {active : Bool}
    (hactive : active = false) (job : Job) :
    (storeJob channel jobId active job).2.futureJobs.lookup jobId = some job := by
  rw [hactive]
  simp [storeJob]

theorem sample_job (kind : Kind) (channel : (sampleDeps.client kind).Channel)
    (message : (sampleDeps.client kind).JobMessage)
    (hntime : ((sampleDeps.client kind).jobMessageMinNtime message).isSome = true)
    (hok : ((sampleDeps.client kind).onJob channel message).1 = .ok ()) :
    (sampleDeps.client kind).getChainTip ((sampleDeps.client kind).onJob channel message).2 =
      (sampleDeps.client kind).getChainTip channel ∧
    ∃ job, (sampleDeps.client kind).getActiveJob
      ((sampleDeps.client kind).onJob channel message).2 = some job ∧
      (sampleDeps.client kind).minNtime job =
        (sampleDeps.client kind).jobMessageMinNtime message := by
  cases kind with
  | standard =>
    cases message with
    | newMiningJob m =>
      have h := storeJob_active channel m.jobId hntime
        { jobMessage := m, target := channel.target : SampleStandardJob }
      exact ⟨congrArg (fun o => o.2.chainTip) h, _, congrArg (fun o => o.2.activeJob) h, rfl⟩
    | groupChannelJob m =>
      rcases groupJob_cases channel m with ⟨job, hjob, h⟩ | ⟨e, h⟩
      · have hstored := h.trans (storeJob_active channel m.jobId hntime job)
        exact ⟨congrArg (fun o => o.2.chainTip) hstored, job,
          congrArg (fun o => o.2.activeJob) hstored, hjob⟩
      · have he := (congrArg Prod.fst h).symm.trans hok
        contradiction
  | extended =>
    have h := storeJob_active channel message.jobId hntime
      { jobMessage := message, extranoncePrefix := channel.extranoncePrefix.bytes
        target := channel.target : SampleExtendedJob }
    exact ⟨congrArg (fun o => o.2.chainTip) h, _, congrArg (fun o => o.2.activeJob) h, rfl⟩

theorem sample_futureJob (kind : Kind) (channel : (sampleDeps.client kind).Channel)
    (message : (sampleDeps.client kind).JobMessage)
    (hntime : (sampleDeps.client kind).jobMessageMinNtime message = none)
    (hok : ((sampleDeps.client kind).onJob channel message).1 = .ok ()) :
    ∃ waiting, (sampleDeps.client kind).getFutureJobs
      ((sampleDeps.client kind).onJob channel message).2 (deliveredId kind message) =
        some waiting := by
  have hactive := Option.isSome_eq_false_iff.mpr (Option.isNone_iff_eq_none.mpr hntime)
  cases kind with
  | standard =>
    cases message with
    | newMiningJob m => exact ⟨_, storeJob_waiting channel m.jobId hactive _⟩
    | groupChannelJob m =>
      rcases groupJob_cases channel m with ⟨job, _, h⟩ | ⟨e, h⟩
      · exact ⟨job, (congrArg (fun o => o.2.futureJobs.lookup m.jobId) h).trans
          (storeJob_waiting channel m.jobId hactive job)⟩
      · have he := (congrArg Prod.fst h).symm.trans hok
        contradiction
  | extended => exact ⟨_, storeJob_waiting channel message.jobId hactive _⟩

theorem sample_prevHash (kind : Kind) (channel : (sampleDeps.client kind).Channel)
    (m : SetNewPrevHash) (hok : ((sampleDeps.client kind).onSetNewPrevHash channel m).1 = .ok ()) :
    (sampleDeps.client kind).getChainTip ((sampleDeps.client kind).onSetNewPrevHash channel m).2 =
      some { prevHash := m.prevHash, nbits := m.nbits } ∧
    ∃ waiting job, (sampleDeps.client kind).getFutureJobs channel m.jobId = some waiting ∧
      (sampleDeps.client kind).getActiveJob
        ((sampleDeps.client kind).onSetNewPrevHash channel m).2 = some job ∧
      (sampleDeps.client kind).minNtime job = some m.minNtime ∧
      ∀ size, (sampleDeps.client kind).merkleRoot job size =
        (sampleDeps.client kind).merkleRoot waiting size := by
  cases kind with
  | standard =>
    rcases activateJob_cases SampleStandardJob.withMinNtime channel m with ⟨job, hjob, h⟩ | ⟨e, h⟩
    · exact ⟨congrArg (fun o => o.2.chainTip) h, job, job.withMinNtime m.minNtime, hjob,
        congrArg (fun o => o.2.activeJob) h, rfl, fun _ => rfl⟩
    · have he := (congrArg Prod.fst h).symm.trans hok
      contradiction
  | extended =>
    rcases activateJob_cases SampleExtendedJob.withMinNtime channel m with ⟨job, hjob, h⟩ | ⟨e, h⟩
    · exact ⟨congrArg (fun o => o.2.chainTip) h, job, job.withMinNtime m.minNtime, hjob,
        congrArg (fun o => o.2.activeJob) h, rfl, fun _ => rfl⟩
    · have he := (congrArg Prod.fst h).symm.trans hok
      contradiction

theorem sample_kept (kind : Kind) (channel : (sampleDeps.client kind).Channel)
    (share : (sampleDeps.client kind).Share) (jobId : UInt32) :
    (sampleDeps.client kind).getFutureJobs
      ((sampleDeps.client kind).validateShare channel share).2 jobId =
        (sampleDeps.client kind).getFutureJobs channel jobId := by
  rcases sample_validate kind channel share with ⟨_, h⟩ | ⟨_, h, _, hkeeps⟩
  · rw [h]
  · rw [h]
    exact congrFun hkeeps.futureJobs jobId

theorem sample_jobContract : JobContract sampleDeps where
  activation := sample_activationContract
  size := sample_sizeFixed
  kept := sample_kept
  job := sample_job
  futureJob := sample_futureJob
  prevHash := sample_prevHash

/-- Why a task has panicked. -/
def panicReason {K : ClientChannel} : Phase K → Option String
  | .panicked reason => some reason
  | _ => none

theorem eq_panicked {K : ClientChannel} {phase : Phase K} {reason : String}
    (h : panicReason phase = some reason) : phase = .panicked reason := by
  cases phase with
  | panicked r =>
    cases h
    rfl
  | _ => contradiction

def taskPanics (w : World sampleDeps) : Option (List (Option String)) :=
  (w.minerAt .standard (.stored 1)).map fun miner =>
    miner.tasks.map fun task => panicReason task.phase

/-- A job with a `min_ntime` is the first message after the channel opens. The
handler reports no error, and the task panics when it takes its snapshot. -/
def jobBeforePrevHash : List WorldLabel :=
  handled [openStandardMessage 1 10 [1, 2], newJobMessage 1 5 (some 60)] ++
    List.replicate 2 (.event (.task .standard (.stored 1) 0 .next))

theorem job_before_prev_hash_panics :
    ¬ ∀ (D : Deps), GroupContract D.group → JobContract D →
      ∀ (amb : Ambient) (ls : List WorldLabel) (w : World D),
      Run WorldStep (World.initial (ChannelManager.new "miner" (.finite 1) false 100 false) amb)
        ls w →
      ∀ (kind : Kind) (place : Place) (miner : ChannelMiner (D.client kind)),
        w.minerAt kind place = some miner → ∀ task ∈ miner.tasks,
          ∀ reason ∈ expectations, task.phase ≠ .panicked reason := by
  intro hclaim
  have hplay : (play World.execute sampleWorld jobBeforePrevHash).map taskPanics =
      some (some [some "channel must have chain tip"]) := by decide +kernel
  obtain ⟨w, hw, htasks⟩ := Option.map_eq_some_iff.mp hplay
  obtain ⟨miner, hm, hlist⟩ := Option.map_eq_some_iff.mp htasks
  have hpanic : some "channel must have chain tip" ∈
      miner.tasks.map fun task => panicReason task.phase := by
    rw [hlist]
    exact List.mem_singleton_self _
  obtain ⟨task, ht, hreason⟩ := List.mem_map.mp hpanic
  exact hclaim sampleDeps sample_groupContract sample_jobContract _ _ w (worldRun_of_play hw)
    .standard (.stored 1) miner hm task ht _ (by decide) (eq_panicked hreason)

/-- A test that the job a call delivers can be mined. -/
def jobTest : (kind : Kind) → (sampleDeps.client kind).Channel → Call (sampleDeps.client kind) →
    Bool
  | .standard, channel, .job message => message.minNtime.isNone || channel.chainTip.isSome
  | .extended, channel, .job message => message.coinbaseTxPrefix != [] &&
      (message.minNtime.isNone ||
        channel.chainTip.isSome && channel.rollableExtranonceSize.toNat ≤ maxExtranonceLen)
  | .extended, channel, .setNewPrevHash m =>
      (channel.futureJobs.lookup m.jobId).all (fun job => job.jobMessage.coinbaseTxPrefix != []) &&
        channel.rollableExtranonceSize.toNat ≤ maxExtranonceLen
  | _, _, _ => true

theorem extended_hasRoot {channel : SampleChannel SampleExtendedJob} {job : SampleExtendedJob}
    (h : job.jobMessage.coinbaseTxPrefix ≠ []) :
    HasRoot (D := sampleDeps) .extended channel job := by
  change (sampleMerkleRoot job.jobMessage.coinbaseTxPrefix _ _ job.jobMessage.merklePath).isSome =
    true
  simp [sampleMerkleRoot, h]

theorem extended_serializable {size : ℕ} (h : size ≤ maxExtranonceLen) :
    Serializable (sampleDeps.client .extended) size := by
  intro channelId sequenceNumber jobId nonce ntime version
  have hlen : sampleDeps.extranonceSerializable (List.replicate size 0) = true := by
    simpa [sampleDeps] using h
  simp only [Deps.client, extendedClient, hlen, ↓reduceIte, Option.isSome_some]

theorem standard_jobMineable {channel : (sampleDeps.client .standard).Channel}
    {c : Call (sampleDeps.client .standard)} (h : jobTest .standard channel c = true) :
    JobMineable .standard channel c := by
  cases c with
  | job message =>
    simp only [JobMineable]
    split
    · rename_i ntime hntime
      have htip : channel.chainTip.isSome = true := by
        have hsome : message.minNtime = some ntime := hntime
        simpa [jobTest, hsome] using h
      refine ⟨Option.isSome_iff_ne_none.mp htip, fun _ _ => rfl, ?_⟩
      exact fun _ _ _ _ _ _ => rfl
    · exact fun _ _ => rfl
  | setNewPrevHash m => exact ⟨fun _ _ => rfl, fun _ _ _ _ _ _ => rfl⟩
  | _ => trivial

theorem extended_jobMineable {channel : (sampleDeps.client .extended).Channel}
    {c : Call (sampleDeps.client .extended)} (h : jobTest .extended channel c = true) :
    JobMineable .extended channel c := by
  cases c with
  | job message =>
    simp only [jobTest, Bool.and_eq_true, Bool.or_eq_true, bne_iff_ne, decide_eq_true_eq] at h
    obtain ⟨hparses, hntime⟩ := h
    simp only [JobMineable]
    split
    · rename_i ntime hsome
      have hactive : message.minNtime = some ntime := hsome
      simp only [hactive, Option.isNone_some, Bool.false_eq_true, false_or] at hntime
      refine ⟨Option.isSome_iff_ne_none.mp hntime.1, ?_, extended_serializable hntime.2⟩
      intro job hjob
      have hstored := storeJob_active channel message.jobId (Option.isSome_of_eq_some hactive)
        { jobMessage := message, extranoncePrefix := channel.extranoncePrefix.bytes
          target := channel.target : SampleExtendedJob }
      cases Option.some.inj ((congrArg (fun o => o.2.activeJob) hstored).symm.trans hjob)
      exact extended_hasRoot hparses
    · rename_i hnone
      intro job hjob
      have hwaiting := storeJob_waiting channel message.jobId
        (Option.isSome_eq_false_iff.mpr (Option.isNone_iff_eq_none.mpr hnone))
        { jobMessage := message, extranoncePrefix := channel.extranoncePrefix.bytes
          target := channel.target : SampleExtendedJob }
      cases Option.some.inj (hwaiting.symm.trans hjob)
      exact extended_hasRoot hparses
  | setNewPrevHash m =>
    simp only [jobTest, Bool.and_eq_true, decide_eq_true_eq] at h
    refine ⟨?_, extended_serializable h.2⟩
    intro waiting hwaiting
    have hlookup : channel.futureJobs.lookup m.jobId = some waiting := hwaiting
    have hparses := h.1
    rw [hlookup] at hparses
    exact extended_hasRoot (bne_iff_ne.mp hparses)
  | _ => trivial

theorem jobMineable_of_jobTest {kind : Kind} {channel : (sampleDeps.client kind).Channel}
    {c : Call (sampleDeps.client kind)} (h : jobTest kind channel c = true) :
    JobMineable kind channel c := by
  cases kind with
  | standard => exact standard_jobMineable h
  | extended => exact extended_jobMineable h

theorem jobTest_validated {kind : Kind} {c : Call (sampleDeps.client kind)}
    (channel : (sampleDeps.client kind).Channel) (share : (sampleDeps.client kind).Share)
    (h : jobTest kind channel c = true) :
    jobTest kind ((sampleDeps.client kind).validateShare channel share).2 c = true := by
  cases kind with
  | standard =>
    rcases validate_cases _ _ _ channel share.jobId share.sequenceNumber with hv | ⟨_, hv⟩
    · refine (congrArg (fun o => jobTest .standard o.2 c) hv).trans ?_
      cases c <;> exact h
    · exact (congrArg (fun o => jobTest .standard o.2 c) hv).trans h
  | extended =>
    rcases validate_cases _ _ _ channel share.jobId share.sequenceNumber with hv | ⟨_, hv⟩
    · refine (congrArg (fun o => jobTest .extended o.2 c) hv).trans ?_
      cases c <;> exact h
    · exact (congrArg (fun o => jobTest .extended o.2 c) hv).trans h

theorem callMineable_of_jobTest {kind : Kind} {c : Call (sampleDeps.client kind)}
    {r : Rig (sampleDeps.client kind)} (h : jobTest kind r.miner.channel.value c = true) :
    CallMineable kind r c := by
  intro r₁ hothers _ _
  refine jobMineable_of_jobTest ?_
  exact others_preserve (I := fun r => jobTest kind r.miner.channel.value c = true)
    (interferes_preserve (taskStep_channel
      (P := fun channel => jobTest kind channel c = true) jobTest_validated)) hothers h

/-- The test for the miner stored here, if there is one. -/
def storedTest (w : World sampleDeps) (kind : Kind) (id : UInt32)
    (c : Call (sampleDeps.client kind)) : Bool :=
  (w.minerAt kind (.stored id)).all fun miner => jobTest kind miner.channel.value c

def deliversTest (w : World sampleDeps) : WorldLabel → Bool
  | .message (.newMiningJob m) _ =>
    storedTest w .standard m.channelId (.job (StandardJobMessage.newMiningJob m))
  | .message (.newExtendedMiningJob m) _ => (w.manager.addressedChannels m.channelId).all fun id =>
      storedTest w .standard id (groupJob .standard m) &&
        storedTest w .extended id (groupJob .extended m)
  | .message (.setNewPrevHash m) _ => (w.manager.addressedChannels m.channelId).all fun id =>
      storedTest w .standard id (.setNewPrevHash m) && storedTest w .extended id (.setNewPrevHash m)
  | _ => true

theorem deliversMineable_of_test {w : World sampleDeps} {l : WorldLabel}
    (h : deliversTest w l = true) : DeliversMineable w l := by
  cases l with
  | event e => trivial
  | message m x =>
    intro kind id c r htarget hr
    obtain ⟨hm, _⟩ := rigAt_eq_some_iff.mp hr
    have hstored : storedTest w kind id c = true → CallMineable kind r c := by
      intro htest
      refine callMineable_of_jobTest ?_
      rw [storedTest, hm] at htest
      exact htest
    cases htarget with
    | newMiningJob => exact hstored h
    | @channelJob m hstd hg =>
      have hid : m.channelId ∈ w.manager.addressedChannels m.channelId := by
        simp [ChannelManager.addressedChannels, hg]
      exact hstored (Bool.and_eq_true_iff.mp (List.all_eq_true.mp h _ hid)).2
    | @groupJob m group _ _ hstd hg hid hres =>
      have haddressed : id ∈ w.manager.addressedChannels m.channelId := by
        simpa [ChannelManager.addressedChannels, hg] using hid
      have htests := Bool.and_eq_true_iff.mp (List.all_eq_true.mp h _ haddressed)
      cases kind with
      | standard => exact hstored htests.1
      | extended => exact hstored htests.2
    | setNewPrevHash hid hres =>
      have htests := Bool.and_eq_true_iff.mp (List.all_eq_true.mp h _ hid)
      cases kind with
      | standard => exact hstored htests.1
      | extended => exact hstored htests.2
    | setExtranoncePrefix => exact fun _ _ _ _ => trivial
    | shareAcknowledgement => exact fun _ _ _ _ => trivial
    | shareRejection => exact fun _ _ _ _ => trivial
    | setTarget => exact fun _ _ _ _ => trivial

/-- Future jobs are activated on a standard and on an extended channel, a job
with a `min_ntime` follows on each, and the tasks take their snapshots. -/
def sampleMining : List WorldLabel :=
  handled [openStandardMessage 1 10 [1, 2], openExtendedMessage 2 11 2 [1, 3],
    newJobMessage 1 5 none, prevHashMessage 1 5, newExtendedJobMessage 2 6 none [6],
    prevHashMessage 2 6, newJobMessage 1 7 (some 60), newExtendedJobMessage 2 8 (some 60) [6]] ++
    List.replicate 2 (.event (.task .standard (.stored 1) 1 .next)) ++
    List.replicate 2 (.event (.task .extended (.stored 2) 1 .next))

/-- A job for the group of the standard channel does not parse. -/
def unparsableJob : ServerMessage := newExtendedJobMessage 10 9 (some 60) []

theorem sample_expectations_met :
    ∃ w w' miner task, Run (Guarded DeliversMineable WorldStep) sampleWorld sampleMining w ∧
      w.minerAt .extended (.stored 2) = some miner ∧ task ∈ miner.tasks ∧
      ((∀ reason ∈ expectations, task.phase ≠ .panicked reason) ∧
        ∀ snapshot, task.phase = .read snapshot →
          Usable (sampleDeps.client .extended) snapshot.activeJob snapshot.extranonceSize) ∧
      Guarded DeliversMineable WorldStep w (.message unparsableJob (.ok ())) w' ∧
      ∀ c r, Targets w unparsableJob .standard 1 c → w.rigAt .standard (.stored 1) = some r →
        ∃ r', w'.rigAt .standard (.stored 1) = some r' ∧
          (CanMine .standard r'.miner.channel.value c ∨
            ∃ e, NewEntry (.callFailed "NewExtendedMiningJob" .standard 1 e) w w') := by
  have hplay : (play (fun w l => if deliversTest w l then w.execute l else none) sampleWorld
      sampleMining).map (fun w => ((w.minerAt .extended (.stored 2)).map fun miner =>
        miner.tasks.length, deliversTest w (.message unparsableJob (.ok ())),
        (w.execute (.message unparsableJob (.ok ()))).isSome)) =
          some (some 2, true, true) := by decide +kernel
  obtain ⟨w, hw, hfound⟩ := Option.map_eq_some_iff.mp hplay
  simp only [Prod.mk.injEq] at hfound
  obtain ⟨htasks, htest, hnext⟩ := hfound
  obtain ⟨miner, hm, hlen⟩ := Option.map_eq_some_iff.mp htasks
  obtain ⟨task, ht⟩ := List.exists_mem_of_length_pos (Nat.lt_of_lt_of_eq Nat.two_pos hlen.symm)
  obtain ⟨w', hw'⟩ := Option.isSome_iff_exists.mp hnext
  have hrun : Run (Guarded DeliversMineable WorldStep) sampleWorld sampleMining w :=
    guardedRun_of_play (fun _ _ => deliversMineable_of_test)
      (fun _ _ _ => worldStep_of_execute) hw
  have hstep : Guarded DeliversMineable WorldStep w (.message unparsableJob (.ok ())) w' :=
    ⟨deliversMineable_of_test htest, worldStep_of_execute hw'⟩
  obtain ⟨hmet, hreported⟩ := expectations_met_when_jobs_mineable sampleDeps sample_groupContract
    sample_jobContract "miner" (.finite 1) false 100 false ⟨0, false⟩ _ w hrun
  refine ⟨w, w', miner, task, hrun, hm, ht, hmet .extended (.stored 2) miner hm task ht, hstep, ?_⟩
  rcases hreported unparsableJob "NewExtendedMiningJob" (.ok ()) w' rfl hstep with hne | hserved
  · contradiction
  · exact hserved .standard 1

end CpuMinerSv2.Expectations
