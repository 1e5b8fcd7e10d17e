import CpuMinerSv2.MinerInvariants
import CpuMinerSv2.SampleWorlds

/-!
A connection that takes standard jobs only. The manager refuses group jobs and
the redefinition of groups, so without an extended channel its groups are
groups of standard channels, which mine on jobs of their own. Only the answer
to an open is not refused: an extended channel the server opens unasked is
stored.
-/

namespace CpuMinerSv2.StandardJobsOnly

open Messages Channels Primitives Interference MineJob MinerMethods TaskSteps MinerRuns Manager
  ManagerFrames Deliveries Registry HandlerRuns GroupRefinement MinerInvariants Config Client
  SampleDeps SampleMiners SampleWorlds Relation

/-- The channel mines on the job, or will after a new prev hash. -/
def Holds (S : StandardChannelApi) (channel : S.StandardChannel) (job : S.StandardJob) : Prop :=
  S.getActiveJob channel = some job ∨ ∃ jobId, S.getFutureJobs channel jobId = some job

/-- The job of this message, up to the `min_ntime` it gets when it becomes active. -/
def MadeFrom (S : StandardChannelApi) (m : NewMiningJob) (job : S.StandardJob) : Prop :=
  ∃ minNtime, S.jobMessage job = { m with minNtime := minNtime }

/-- What the miner relies on: a channel gets its jobs from the messages that
carry them. -/
structure JobOrigins (D : Deps) : Prop where
  new : ∀ channelId userIdentity extranoncePrefix target nominalHashrate channel job,
    D.standard.new channelId userIdentity extranoncePrefix target nominalHashrate = .ok channel →
      ¬ Holds D.standard channel job
  newMiningJob : ∀ channel m job, Holds D.standard (D.standard.onNewMiningJob channel m).2 job →
    Holds D.standard channel job ∨ MadeFrom D.standard m job
  otherCalls : ∀ (c : Call (D.client .standard)) channel job, (∀ message, c ≠ .job message) →
    Holds D.standard (c.outcome channel).2 job →
      ∃ old, Holds D.standard channel old ∧ MadeFrom D.standard (D.standard.jobMessage old) job
  validateShare : ∀ channel share job,
    Holds D.standard (D.standard.validateShare channel share).2 job → Holds D.standard channel job

variable {D : Deps}

theorem madeFrom_trans {m : NewMiningJob} {old job : D.standard.StandardJob}
    (hold : MadeFrom D.standard m old)
    (h : MadeFrom D.standard (D.standard.jobMessage old) job) : MadeFrom D.standard m job := by
  obtain ⟨_, hold⟩ := hold
  obtain ⟨minNtime, h⟩ := h
  refine ⟨minNtime, ?_⟩
  rw [h, hold]

/-- The server has sent this job to a channel of its own. -/
def Received (ls : List WorldLabel) (m : NewMiningJob) : Prop :=
  ∃ r, WorldLabel.message (.newMiningJob m) r ∈ ls

/-- Every job of the channel comes from a `NewMiningJob` of the run. -/
def OwnJobs (ls : List WorldLabel) (miner : StandardChannelMiner D) : Prop :=
  ∀ job, Holds D.standard miner.channel.value job → ∃ m, Received ls m ∧ MadeFrom D.standard m job

/-- There are standard miners only, with jobs of their own. -/
def OwnJobsOnly (ls : List WorldLabel) : (kind : Kind) → ChannelMiner (D.client kind) → Prop
  | .standard, miner => OwnJobs ls miner
  | .extended, _ => False

/-- What a connection for standard jobs promises of its manager. -/
structure StandardOnly (ls : List WorldLabel) (w : World D) : Prop where
  noExtended : w.manager.extendedChannels = PartialMap.empty
  members : ∀ g id, IsMember w g id → w.manager.standardChannels.containsKey id = true
  ownJobs : ∀ place miner, w.minerAt .standard place = some miner → OwnJobs ls miner

/-- The message is no answer to an open that stores an extended channel. -/
def OpensNoExtended (w : World D) : WorldLabel → Prop
  | .message (.openExtendedMiningChannelSuccess m) _ =>
    ¬ ∃ channel group, Accepts (openExtended m) w channel group
  | _ => True

/-- Answers to an open, and closes. -/
def OpensOrCloses : WorldLabel → Prop
  | .message (.openStandardMiningChannelSuccess _) _
  | .message (.openExtendedMiningChannelSuccess _) _
  | .message (.closeChannel _) _ => True
  | _ => False

/-- The messages a connection for standard jobs refuses, by their names. -/
def refused : ServerMessage → Option String
  | .newExtendedMiningJob _ => some "NewExtendedMiningJob"
  | .setGroupChannel _ => some "SetGroupChannel"
  | _ => none

theorem others_ownJobs (hJ : JobOrigins D) {ls : List WorldLabel}
    {r r' : Rig (D.client .standard)} (h : Others Unrestricted r r') (hr : OwnJobs ls r.miner) :
    OwnJobs ls r'.miner := by
  refine others_preserve (I := fun r => OwnJobs ls r.miner) ?_ h hr
  refine interferes_preserve (I := OwnJobs ls) ?_
  intro m amb i m' hs hm job hjob
  cases hs with
  | rejected => exact hm job (hJ.validateShare _ _ job hjob)
  | accepted => exact hm job (hJ.validateShare _ _ job hjob)
  | _ => exact hm job hjob

theorem call_ownJobs (hJ : JobOrigins D) {ls : List WorldLabel} {c : Call (D.client .standard)}
    (hc : ∀ message, c = .job message →
      ∃ m, message = StandardJobMessage.newMiningJob m ∧ Received ls m)
    {r r' : Rig (D.client .standard)} {res : Except Sv2CpuMinerError Unit}
    (h : Runs (Interferes Unrestricted) c.program r res r') (hr : OwnJobs ls r.miner) :
    OwnJobs ls r'.miner := by
  refine call_preserve (I := fun r => OwnJobs ls r.miner) ?_ ?_ ?_ ?_ h hr
  · exact fun a b hab ha => others_ownJobs hJ (.single hab) ha
  · intro s hs job hjob
    by_cases hmessage : ∃ message, c = .job message
    · obtain ⟨message, rfl⟩ := hmessage
      obtain ⟨m, rfl, hm⟩ := hc message rfl
      rcases hJ.newMiningJob _ m job hjob with hold | hmade
      · exact hs job hold
      · exact ⟨m, hm, hmade⟩
    · obtain ⟨old, hold, hmade⟩ :=
        hJ.otherCalls c _ job (fun message he => hmessage ⟨message, he⟩) hjob
      obtain ⟨m, hm, hfrom⟩ := hs old hold
      exact ⟨m, hm, madeFrom_trans hfrom hmade⟩
  · intro s hs job hjob
    refine hs job ?_
    rw [cancelPast, cancelPast_channel] at hjob
    exact hjob
  · exact fun s hs => hs

theorem ownJobs_mono {ls ls' : List WorldLabel} (hsub : ∀ l ∈ ls, l ∈ ls') {kind : Kind}
    {miner : ChannelMiner (D.client kind)} (h : OwnJobsOnly ls kind miner) :
    OwnJobsOnly ls' kind miner := by
  cases kind with
  | standard =>
    intro job hjob
    obtain ⟨m, ⟨r, hr⟩, hmade⟩ := h job hjob
    exact ⟨m, ⟨r, hsub _ hr⟩, hmade⟩
  | extended => exact h

theorem refused_fails {w w' : World D} (hstd : w.manager.requiresStandardJobs = true)
    {m : ServerMessage} {name : String} (hm : refused m = some name)
    {r : Except Sv2CpuMinerError Unit} (h : WorldStep w (.message m r) w') :
    r = .error (.standardJobsOnly name) ∧ WorldOthers w w' := by
  have hfails : ∀ {rest : ChannelManager D → Handler D},
      Runs WorldInterferes ((Prog.observe World.manager).bind fun manager =>
        if manager.requiresStandardJobs then .fail (.standardJobsOnly name) else rest manager)
        w r w' → r = .error (.standardJobsOnly name) ∧ WorldOthers w w' := by
    intro rest hrun
    obtain ⟨w₁, h₁, hrest⟩ := runs_observe_manager hrun
    rw [(worldOthers_sameRegistry h₁).requiresStandardJobs, hstd] at hrest
    obtain ⟨hr, h'⟩ := runs_fail_iff.mp hrest
    exact ⟨hr, h₁.trans h'⟩
  cases h with
  | message hrun =>
    cases m with
    | newExtendedMiningJob m =>
      cases hm
      exact hfails hrun
    | setGroupChannel m =>
      cases hm
      exact hfails hrun
    | _ => contradiction

theorem target_job {w : World D} (hstd : w.manager.requiresStandardJobs = true)
    {m : ServerMessage} {id : UInt32} {message : StandardJobMessage}
    (h : Targets w m .standard id (.job message)) :
    ∃ job, m = .newMiningJob job ∧ message = .newMiningJob job := by
  generalize hc : (Call.job message : Call (D.client .standard)) = c at h
  cases h with
  | @newMiningJob job =>
    cases hc
    exact ⟨job, rfl, rfl⟩
  | groupJob hgroups =>
    rw [hstd] at hgroups
    contradiction
  | _ => contradiction

theorem groups_kept (hD : GroupContract D.group) {w w' : World D} {l : WorldLabel}
    (hne : NonemptyGroups w) (hstd : w.manager.requiresStandardJobs = true)
    (hl : ¬ OpensOrCloses l) (h : WorldStep w l w') :
    w'.manager.groupChannels = w.manager.groupChannels := by
  cases h with
  | event he => exact (interferes_sameRegistry _ _ ⟨_, he⟩).groups
  | @message _ m r hrun =>
    by_cases hrefused : ∃ name, refused m = some name
    · obtain ⟨name, hname⟩ := hrefused
      obtain ⟨_, hothers⟩ := refused_fails hstd hname (.message hrun)
      exact (worldOthers_sameRegistry hothers).groups
    · cases handle_cases hD hne hrun with
      | quiet hsame => exact hsame.groups
      | opened ho =>
        cases m with
        | openStandardMiningChannelSuccess m => exact absurd trivial hl
        | openExtendedMiningChannelSuccess m => exact absurd trivial hl
        | _ => contradiction
      | closed => exact absurd trivial hl
      | regrouped => exact absurd ⟨_, rfl⟩ hrefused

theorem step_ownJobsOnly (hD : GroupContract D.group) (hJ : JobOrigins D) {w w' : World D}
    {ls : List WorldLabel} {l : WorldLabel} (hne : NonemptyGroups w)
    (hstd : w.manager.requiresStandardJobs = true) (hopens : OpensNoExtended w l)
    (h : WorldStep w l w') (hall : AllMiners (OwnJobsOnly ls) w) :
    AllMiners (OwnJobsOnly (ls ++ [l])) w' := by
  have hbefore : AllMiners (OwnJobsOnly (ls ++ [l])) w := by
    intro kind place miner hm
    exact ownJobs_mono (fun _ => List.mem_append_left _) (hall kind place miner hm)
  refine step_allMiners hD ?_ ?_ ?_ hne h hbefore
  · intro kind r r' hothers hr
    cases kind with
    | standard => exact others_ownJobs hJ hothers hr
    | extended => exact hr
  · intro m x o channel group hl ho hacc
    subst hl
    cases m with
    | openStandardMiningChannelSuccess m =>
      cases ho
      intro job hjob
      obtain ⟨p, _, hnew⟩ := hacc.made
      exact absurd hjob (hJ.new _ _ _ _ _ _ job hnew)
    | openExtendedMiningChannelSuccess m =>
      cases ho
      exact absurd ⟨channel, group, hacc⟩ hopens
    | _ => contradiction
  · intro m x kind id c r r' res hl htarget _ hrun hr
    subst hl
    cases kind with
    | standard =>
      refine call_ownJobs hJ ?_ hrun hr
      intro message hc
      subst hc
      obtain ⟨job, rfl, hmessage⟩ := target_job hstd htarget
      exact ⟨job, hmessage, x, List.mem_append_right _ List.mem_cons_self⟩
    | extended => exact hr

theorem standardOnly_of_ownJobsOnly {w : World D} {ls : List WorldLabel} (hw : WellGrouped w)
    (hall : AllMiners (OwnJobsOnly ls) w) : StandardOnly ls w := by
  have hnone : ∀ id, w.manager.extendedChannels id = none := by
    intro id
    by_contra hsome
    obtain ⟨miner, hm⟩ := Option.ne_none_iff_exists'.mp hsome
    exact hall .extended (.stored id) miner hm
  refine ⟨funext hnone, ?_, fun place miner hm => hall .standard place miner hm⟩
  intro g id hmember
  obtain ⟨t, ht⟩ := hw.shows
  have hactive := t.members_subset g ((ht.members g id).mpr hmember)
  rcases isOpen_iff_keys.mp ((ht.active id).mp hactive) with hkey | hkey
  · exact hkey
  · rw [PartialMap.containsKey, hnone id] at hkey
    contradiction

theorem opensNoExtended_of_standardOnly (hD : GroupContract D.group) {w w' : World D}
    {ls : List WorldLabel} {l : WorldLabel} (hne : NonemptyGroups w) (h : WorldStep w l w')
    (honly : StandardOnly ls w') : OpensNoExtended w l := by
  cases h with
  | event he => trivial
  | @message _ m r hrun =>
    cases m with
    | openExtendedMiningChannelSuccess m =>
      intro haccepted
      cases handle_cases hD hne hrun with
      | quiet _ _ hopen => exact (hopen _ rfl).2 haccepted
      | @opened _ _ w₁ _ channel group ho h₁ hacc h' =>
        cases ho
        have hstored : (opened (openExtended m) w₁ channel group).manager.channels
            .extended m.channelId =
              some (new channel w₁.manager.cpuUsagePercent w₁.manager.singleSubmit) :=
          minerAt_insertMiner_self (w₁.setGroups
            (w₁.manager.groupChannels.insert m.groupChannelId group)) .extended m.channelId _
        have hkey := (worldOthers_sameRegistry h').keys .extended m.channelId
        rw [hstored] at hkey
        change (w'.manager.extendedChannels m.channelId).isSome = true at hkey
        rw [honly.noExtended] at hkey
        contradiction
    | _ => trivial

/-- With a validated configuration that requires standard jobs, no extended
channel is ever asked for. As long as the server opens none, there are
standard channels only, groups have standard members, and every job comes from
a `NewMiningJob`; and an extended channel that is stored is all that can end
this. Groups change with opens and closes only, and group jobs are refused. -/
theorem standard_jobs_only_until_extended_opens (C : ClientDeps) (hD : GroupContract C.group)
    (hJ : JobOrigins C.toDeps) (miner : Sv2CpuMiner) (hvalid : miner.config.validate = .ok ())
    (hstd : miner.config.requiresStandardJobs = true) (amb : Ambient) (ls : List WorldLabel)
    (w : World C.toDeps)
    (hrun : Run (Guarded OpensNoExtended WorldStep) (World.initial (ChannelManager.new
      miner.config.userIdentity (nominalHashratePerChannel miner) miner.config.singleSubmit
      miner.config.cpuUsagePercent.toNat miner.config.requiresStandardJobs) amb) ls w) :
    (∀ m, .openExtendedMiningChannel m ∉ openRequests miner) ∧ StandardOnly ls w ∧
    ∀ (l : WorldLabel) (w' : World C.toDeps), WorldStep w l w' →
      (StandardOnly (ls ++ [l]) w' ↔ OpensNoExtended w l) ∧
      (¬ OpensOrCloses l → w'.manager.groupChannels = w.manager.groupChannels) ∧
      ∀ m r name, l = .message m r → refused m = some name →
        r = .error (.standardJobsOnly name) ∧ WorldOthers w w' := by
  have hinv := hrun.history (I := fun ls w => WellGrouped w ∧
    w.manager.requiresStandardJobs = true ∧ AllMiners (OwnJobsOnly ls) w) ?_ ?_
  · obtain ⟨hw, hrequired, hall⟩ := hinv
    refine ⟨?_, standardOnly_of_ownJobsOnly hw hall, ?_⟩
    · have hnone := ((validate_ok_iff miner.config).mp hvalid).standardJobs hstd
      simp [openRequests, hnone]
    · intro l w' hstep
      refine ⟨⟨opensNoExtended_of_standardOnly hD hw.nonempty hstep, ?_⟩, ?_, ?_⟩
      · intro hopens
        exact standardOnly_of_ownJobsOnly (step_wellGrouped hD hw hstep)
          (step_ownJobsOnly hD hJ hw.nonempty hrequired hopens hstep hall)
      · exact fun hl => groups_kept hD hw.nonempty hrequired hl hstep
      · intro m r name hl hname
        subst hl
        exact refused_fails hrequired hname hstep
  · refine ⟨initial_wellGrouped _ _ _ _ _ _, hstd, ?_⟩
    intro kind place miner hm
    cases kind <;> cases place <;> exact nomatch hm
  · intro ls s l s' _ hs hstep
    obtain ⟨hw, hrequired, hall⟩ := hs
    refine ⟨step_wellGrouped hD hw hstep.2, ?_,
      step_ownJobsOnly hD hJ hw.nonempty hrequired hstep.1 hstep.2 hall⟩
    exact (congrArg (fun s => s.2.2.2.2) (step_settings hD hw.nonempty hstep.2)).trans hrequired

/-- One standard channel on a connection for standard jobs. -/
def standardMiner : Sv2CpuMiner :=
  { sampleMiner with config := { sampleMiner.config with requiresStandardJobs := true } }

theorem sample_holds_congr {a b : SampleChannel SampleStandardJob} {job : SampleStandardJob}
    (hactive : b.activeJob = a.activeJob) (hfuture : b.futureJobs = a.futureJobs)
    (h : Holds sampleStandard b job) : Holds sampleStandard a job := by
  change b.activeJob = some job ∨ ∃ jobId, b.futureJobs.lookup jobId = some job at h
  rw [hactive, hfuture] at h
  exact h

/-- A call on a sample channel that is no job keeps its jobs, up to the
`min_ntime` of the one it activates. -/
theorem sample_otherCalls (c : Call (standardClient sampleDeps))
    (channel : SampleChannel SampleStandardJob) (job : SampleStandardJob)
    (hc : ∀ message, c ≠ .job message) (hjob : Holds sampleStandard (c.outcome channel).2 job) :
    ∃ old, Holds sampleStandard channel old ∧
      MadeFrom sampleStandard (sampleStandard.jobMessage old) job := by
  have hkept : ∀ after : SampleChannel SampleStandardJob, after.activeJob = channel.activeJob →
      after.futureJobs = channel.futureJobs → (c.outcome channel).2 = after →
      ∃ old, Holds sampleStandard channel old ∧
        MadeFrom sampleStandard (sampleStandard.jobMessage old) job := by
    intro after hactive hfuture hafter
    rw [hafter] at hjob
    exact ⟨job, sample_holds_congr hactive hfuture hjob, job.jobMessage.minNtime, rfl⟩
  cases c with
  | job message => exact absurd rfl (hc message)
  | setExtranoncePrefix p =>
    rcases replacePrefix_cases channel p with h | ⟨e, h⟩
    · exact hkept { channel with extranoncePrefix := p } rfl rfl (congrArg Prod.snd h)
    · exact hkept channel rfl rfl (congrArg Prod.snd h)
  | setNewPrevHash m =>
    rcases activateJob_cases SampleStandardJob.withMinNtime channel m with ⟨old, hold, h⟩ | ⟨e, h⟩
    · have hafter : ((Call.setNewPrevHash m : Call (standardClient sampleDeps)).outcome channel).2 =
          _ := congrArg Prod.snd h
      rw [hafter] at hjob
      rcases hjob with hactive | ⟨jobId, hfuture⟩
      · cases hactive
        exact ⟨old, .inr ⟨m.jobId, hold⟩, some m.minNtime, rfl⟩
      · exact nomatch hfuture
    · exact hkept channel rfl rfl (congrArg Prod.snd h)
  | setTarget target => exact hkept { channel with target } rfl rfl rfl
  | shareAcknowledgement n s => exact hkept (acknowledge channel n s) rfl rfl rfl
  | shareRejection code => exact hkept (reject channel code) rfl rfl rfl
  | fullExtranonceSize => exact hkept channel rfl rfl rfl

theorem sample_jobOrigins : JobOrigins sampleDeps := by
  refine ⟨?_, ?_, sample_otherCalls, ?_⟩
  · intro channelId userIdentity p target rate channel job hnew hjob
    simp only [sampleDeps, sampleStandard, openChannel] at hnew
    split at hnew
    · cases hnew
      rcases hjob with hactive | ⟨jobId, hfuture⟩
      · contradiction
      · contradiction
    · contradiction
  · intro channel m job hjob
    have hstored := congrArg Prod.snd (storeJob_eq channel m.jobId m.minNtime.isSome
      { jobMessage := m, target := channel.target : SampleStandardJob })
    change Holds sampleStandard (storeJob channel m.jobId m.minNtime.isSome _).2 job at hjob
    rw [hstored] at hjob
    cases hactive : m.minNtime.isSome with
    | true =>
      rw [hactive] at hjob
      rcases hjob with hjob | hfuture
      · cases hjob
        exact .inr ⟨m.minNtime, rfl⟩
      · exact .inl (.inr hfuture)
    | false =>
      rw [hactive] at hjob
      rcases hjob with hjob | ⟨jobId, hfuture⟩
      · exact .inl (.inl hjob)
      · change List.lookup jobId ((m.jobId, _) :: channel.futureJobs) = some job at hfuture
        rw [List.lookup_cons] at hfuture
        split at hfuture
        · cases hfuture
          exact .inr ⟨m.minNtime, rfl⟩
        · exact .inl (.inr ⟨jobId, hfuture⟩)
  · intro channel share job hjob
    rcases sample_validate .standard channel share with ⟨e, h⟩ | ⟨channel', h, _, hkeeps⟩
    · have hafter : (sampleStandard.validateShare channel share).2 = channel :=
        congrArg Prod.snd h
      exact hafter ▸ hjob
    · have hafter : (sampleStandard.validateShare channel share).2 = channel' :=
        congrArg Prod.snd h
      change Holds sampleStandard (sampleStandard.validateShare channel share).2 job at hjob
      rw [hafter] at hjob
      rcases hjob with hactive | ⟨jobId, hfuture⟩
      · exact .inl (hkeeps.activeJob.symm.trans hactive)
      · exact .inr ⟨jobId, (congrFun hkeeps.futureJobs jobId).symm.trans hfuture⟩

/-- Its manager, before the first message. -/
def standardWorld : World sampleDeps :=
  World.initial
    (ChannelManager.new "miner" (nominalHashratePerChannel standardMiner) false 100 true)
    ⟨0, false⟩

/-- A standard channel gets a job and a chain tip; a group job is refused. -/
def standardLabels : List WorldLabel :=
  handled [openStandardMessage 1 10 [1, 2], newJobMessage 1 5 none, prevHashMessage 1 5] ++
    [.message (newExtendedJobMessage 10 6 none [7])
      (.error (.standardJobsOnly "NewExtendedMiningJob"))]

theorem sample_standard_jobs_only :
    ∃ w, play World.execute standardWorld standardLabels = some w ∧
      StandardOnly standardLabels w := by
  have hplay : (play World.execute standardWorld standardLabels).isSome = true := by
    decide +kernel
  obtain ⟨w, hw⟩ := Option.isSome_iff_exists.mp hplay
  refine ⟨w, hw, ?_⟩
  have hrun : Run (Guarded OpensNoExtended WorldStep) standardWorld standardLabels w := by
    refine (worldRun_of_play hw).guarded ?_
    intro l hl s
    cases l with
    | event e => trivial
    | message m r =>
      cases m with
      | openExtendedMiningChannelSuccess m =>
        simp [standardLabels, handled, openStandardMessage, newJobMessage, prevHashMessage,
          newExtendedJobMessage] at hl
      | _ => trivial
  exact (standard_jobs_only_until_extended_opens sampleClient sample_groupContract
    sample_jobOrigins standardMiner (by decide +kernel) rfl ⟨0, false⟩ standardLabels w hrun).2.1

/-- An extended channel that was never asked for is stored. -/
theorem unasked_extended_channel_is_stored :
    ¬ ∀ (C : ClientDeps), GroupContract C.group → JobOrigins C.toDeps → ∀ (miner : Sv2CpuMiner),
      miner.config.validate = .ok () → miner.config.requiresStandardJobs = true →
      ∀ (amb : Ambient) (ls : List WorldLabel) (w : World C.toDeps),
        Run WorldStep (World.initial (ChannelManager.new miner.config.userIdentity
          (nominalHashratePerChannel miner) miner.config.singleSubmit
          miner.config.cpuUsagePercent.toNat miner.config.requiresStandardJobs) amb) ls w →
        StandardOnly ls w := by
  intro hclaim
  have hplay : (play World.execute standardWorld (handled [openExtendedMessage 1 10 0 [1, 2]])).map
      (fun w => (w.manager.extendedChannels 1).isSome) = some true := by decide +kernel
  obtain ⟨w, hw, hstored⟩ := Option.map_eq_some_iff.mp hplay
  have honly := hclaim sampleClient sample_groupContract sample_jobOrigins standardMiner
    (by decide +kernel) rfl ⟨0, false⟩ _ w (worldRun_of_play hw)
  rw [honly.noExtended] at hstored
  contradiction

end CpuMinerSv2.StandardJobsOnly
