import CpuMinerSv2.Histories
import CpuMinerSv2.RegistryBooks
import CpuMinerSv2.SequenceNumbers

/-!
Where the work of a share comes from. A task copies job, chain tip and channel
id out of the channel at one moment and submits shares at many later ones,
cancelled or not. Each of them names the channel that a message has opened, a
job that a later message has delivered to it, and is hashed on a chain tip
that a message has announced to it.
-/

namespace CpuMinerSv2.WorkOrigins

open Messages Channels Primitives Interference MineJob MinerMethods TaskSteps MinerRuns
  SequenceNumbers Manager Deliveries HandlerRuns Histories RegistryBooks SampleDeps SampleWorlds

section Miner

variable {K : ClientChannel}

/-- The channel mines on the job, or will after a new prev hash. -/
def HasJob (channel : K.Channel) (job : K.Job) : Prop :=
  K.getActiveJob channel = some job ∨ ∃ jobId, K.getFutureJobs channel jobId = some job

/-- What a share tells of its job. -/
def workOf (job : K.Job) : UInt32 × UInt32 := (K.jobId job, K.version job)

/-- The share is for this channel and this work. -/
def Names (channelId : UInt32) (work : UInt32 × UInt32) (share : K.Share) : Prop :=
  ∃ sequenceNumber nonce ntime extranonceSize,
    K.submitShares channelId sequenceNumber work.1 nonce ntime work.2 extranonceSize = some share

/-- The channel id, and where jobs and chain tips may come from. -/
structure Sources where
  channelId : UInt32
  fromJob : UInt32 × UInt32 → Prop
  fromPrevHash : ChainTip → Prop

variable {s : Sources}

/-- A snapshot taken of such a channel. -/
structure Sources.OfSnapshot (s : Sources) (snapshot : Snapshot K) : Prop where
  channelId : snapshot.channelId = s.channelId
  job : s.fromJob (workOf snapshot.activeJob)
  chainTip : s.fromPrevHash { prevHash := snapshot.prevhash, nbits := snapshot.nbits }

/-- A share for work from there. -/
def Sources.OfShare (s : Sources) (share : K.Share) : Prop :=
  ∃ work, s.fromJob work ∧ Names s.channelId work share

/-- A channel with jobs and a chain tip from there. -/
structure Sources.OfChannel (s : Sources) (channel : K.Channel) : Prop where
  channelId : K.getChannelId channel = s.channelId
  jobs : ∀ job, HasJob channel job → s.fromJob (workOf job)
  chainTip : ∀ chainTip, K.getChainTip channel = some chainTip → s.fromPrevHash chainTip

/-- What a task holds in this phase comes from there. -/
structure Sources.OfPhase (s : Sources) (phase : Phase K) : Prop where
  snapshot : ∀ snapshot, snapshotOf phase = some snapshot → s.OfSnapshot snapshot
  waiting : ∀ share, waitingShare phase = some share → s.OfShare share

/-- The channel, what the tasks hold and what has been sent. -/
structure Sourced (s : Sources) (m : ChannelMiner K) : Prop where
  channel : s.OfChannel m.channel.value
  tasks : ∀ (i : ℕ) (task : MiningTask K), m.tasks[i]? = some task → s.OfPhase task.phase
  sent : ∀ share ∈ m.sent, s.OfShare share

/-- From one channel to the next: jobs and a chain tip that it brings in. -/
structure Brings (newWork : UInt32 × UInt32 → Prop) (newTip : ChainTip → Prop)
    (a b : K.Channel) : Prop where
  channelId : K.getChannelId b = K.getChannelId a
  jobs : ∀ job, HasJob b job → (∃ old, HasJob a old ∧ workOf job = workOf old) ∨
    newWork (workOf job)
  chainTip : ∀ chainTip, K.getChainTip b = some chainTip →
    K.getChainTip a = some chainTip ∨ newTip chainTip

theorem Sources.OfChannel.brings {newWork : UInt32 × UInt32 → Prop} {newTip : ChainTip → Prop}
    {a b : K.Channel} (h : s.OfChannel a) (hb : Brings newWork newTip a b)
    (hwork : ∀ work, newWork work → s.fromJob work)
    (htip : ∀ chainTip, newTip chainTip → s.fromPrevHash chainTip) : s.OfChannel b := by
  refine ⟨hb.channelId.trans h.channelId, ?_, ?_⟩
  · intro job hjob
    rcases hb.jobs job hjob with ⟨old, hold, hsame⟩ | hnew
    · rw [hsame]
      exact h.jobs old hold
    · exact hwork _ hnew
  · intro chainTip hsome
    rcases hb.chainTip chainTip hsome with hold | hnew
    · exact h.chainTip chainTip hold
    · exact htip chainTip hnew

/-- Validating a share brings in nothing. -/
def ValidateKeeps (K : ClientChannel) : Prop :=
  ∀ (channel : K.Channel) (share : K.Share),
    Brings (fun _ => False) (fun _ => False) channel (K.validateShare channel share).2

theorem Sources.OfChannel.validated (hK : ValidateKeeps K) {channel : K.Channel}
    (h : s.OfChannel channel) (share : K.Share) : s.OfChannel (K.validateShare channel share).2 :=
  h.brings (hK channel share) (fun _ hnone => hnone.elim) (fun _ hnone => hnone.elim)

theorem Sources.ofPhase_of_none {phase : Phase K} (hsnapshot : snapshotOf phase = none)
    (hwaiting : waitingShare phase = none) : s.OfPhase phase := by
  refine ⟨?_, ?_⟩
  · intro snapshot h
    rw [hsnapshot] at h
    contradiction
  · intro share h
    rw [hwaiting] at h
    contradiction

theorem advance_took {m : ChannelMiner K} {cancelled : Bool} {p p' : Phase K}
    (h : Advance m cancelled p p') {snapshot : Snapshot K} (hs : snapshotOf p' = some snapshot) :
    snapshotOf p = some snapshot ∨ p = .checked := by
  cases h with
  | snapshot => exact .inr rfl
  | _ => first | contradiction | exact .inl hs

theorem advance_no_share {m : ChannelMiner K} {cancelled : Bool} {p p' : Phase K}
    (h : Advance m cancelled p p') : waitingShare p' = none := by
  cases h <;> rfl

theorem takeSnapshot_channelId {channel : RwCell K.Channel} {snapshot : Snapshot K}
    (h : snapshotOf (takeSnapshot channel) = some snapshot) :
    snapshot.channelId = K.getChannelId channel.value := by
  unfold takeSnapshot RwCell.read at h
  cases hlock : channel.poisoned with
  | true =>
    simp only [hlock, ↓reduceIte] at h
    contradiction
  | false =>
    simp only [hlock, Bool.false_eq_true, ↓reduceIte, id] at h
    cases htip : K.getChainTip channel.value with
    | none =>
      simp only [htip] at h
      contradiction
    | some chainTip =>
      cases hjob : K.getActiveJob channel.value with
      | none =>
        simp only [htip, hjob] at h
        contradiction
      | some activeJob =>
        simp only [htip, hjob] at h
        cases h
        rfl

theorem stepTask_took {m : ChannelMiner K} {amb : Ambient} {i : ℕ} {move : Move}
    {task : MiningTask K} {phase : Phase K} (ht : m.tasks[i]? = some task)
    (hp : task.phase = .checked) (hstep : stepTask m amb i move = some (m.setPhase i phase)) :
    phase = takeSnapshot m.channel := by
  have hphase : m.setPhase i phase = m.setPhase i (takeSnapshot m.channel) := by
    unfold stepTask at hstep
    rw [ht] at hstep
    cases move with
    | next =>
      simp only [Option.bind_some, resume, hp, Option.some.injEq] at hstep
      exact hstep.symm
    | breakOff =>
      simp only [Option.bind_some, resume, hp] at hstep
      contradiction
    | sendFails =>
      simp only [Option.bind_some, resume, hp] at hstep
      contradiction
  have htask := congrArg (fun m => m.tasks[i]?) hphase
  simp only [m.setPhase_at _ ht, Option.some.injEq] at htask
  exact congrArg MiningTask.phase htask

theorem Sources.OfSnapshot.submits {job : JobInHand K} (h : s.OfSnapshot job.snapshot)
    {channel : K.Channel} {roll : Rolling} {ntime : UInt32} {share : K.Share}
    (hshare : buildShare channel job roll ntime = .ok share) : s.OfShare share := by
  obtain ⟨sequenceNumber, _, hsubmit⟩ := buildShare_ok hshare
  rw [h.channelId] at hsubmit
  exact ⟨workOf job.snapshot.activeJob, h.job, sequenceNumber, _, _, _, hsubmit⟩

theorem Sourced.move {m m' : ChannelMiner K} (h : Sourced s m) {i : ℕ} {task : MiningTask K}
    {phase : Phase K} (ht : m.tasks[i]? = some task)
    (htasks : m'.tasks = (m.setPhase i phase).tasks) (hchannel : s.OfChannel m'.channel.value)
    (hsent : ∀ share ∈ m'.sent, share ∈ m.sent ∨ waitingShare task.phase = some share)
    (hphase : s.OfPhase phase) : Sourced s m' := by
  refine ⟨hchannel, ?_, ?_⟩
  · rw [htasks]
    exact forall_setPhase (P := fun _ t => s.OfPhase t.phase) ht h.tasks hphase
  · intro share hmem
    rcases hsent share hmem with hold | hwaiting
    · exact h.sent share hold
    · exact (h.tasks i task ht).waiting share hwaiting

theorem Sources.OfPhase.keeps {phase phase' : Phase K} (h : s.OfPhase phase)
    (hsnapshot : snapshotOf phase' = snapshotOf phase) (hwaiting : waitingShare phase' = none) :
    s.OfPhase phase' := by
  refine ⟨?_, ?_⟩
  · rw [hsnapshot]
    exact h.snapshot
  · intro share hshare
    rw [hwaiting] at hshare
    contradiction

theorem mem_enqueue {m : ChannelMiner K} {share : K.Share} {task : MiningTask K}
    (hwaiting : waitingShare task.phase = some share) :
    ∀ share' ∈ (m.enqueue share).sent, share' ∈ m.sent ∨ waitingShare task.phase = some share' := by
  intro share' hmem
  rcases List.mem_append.mp hmem with hold | hlast
  · exact .inl hold
  · rw [List.mem_singleton.mp hlast]
    exact .inr hwaiting

theorem stepTask_sourced (hK : ValidateKeeps K) {m m' : ChannelMiner K} {amb : Ambient} {i : ℕ}
    {move : Move} (hstep : stepTask m amb i move = some m') (h : Sourced s m) : Sourced s m' := by
  have hsame : ∀ (task : MiningTask K), ∀ share ∈ m.sent,
      share ∈ m.sent ∨ waitingShare task.phase = some share := fun _ _ hmem => .inl hmem
  cases stepTask_cases hstep with
  | @advance task phase ht ha =>
    have hheld := h.tasks i task ht
    refine h.move ht rfl h.channel (hsame task) ⟨?_, ?_⟩
    · intro snapshot hs
      rcases advance_took ha hs with hold | hchecked
      · exact hheld.snapshot snapshot hold
      · rcases ha.snapshot_source hs with hold | hfits
        · exact hheld.snapshot snapshot hold
        · obtain ⟨hjob, chainTip, htip, hhash, hbits⟩ := hfits
          rw [stepTask_took ht hchecked hstep] at hs
          refine ⟨(takeSnapshot_channelId hs).trans h.channel.channelId,
            h.channel.jobs _ (.inl hjob), ?_⟩
          rw [hhash, hbits]
          exact h.channel.chainTip chainTip htip
    · intro share hs
      rw [advance_no_share ha] at hs
      contradiction
  | @writerPanics task _ _ _ _ ht =>
    exact h.move ht rfl h.channel (hsame task) (Sources.ofPhase_of_none rfl rfl)
  | @rejected task job roll _ _ _ ht hp =>
    have hheld := h.tasks i task ht
    rw [hp] at hheld
    refine h.move ht rfl (h.channel.validated hK _) (hsame task) ?_
    exact hheld.keeps rfl rfl
  | @accepted task job roll ntime share result ht hp _ hs =>
    have hheld := h.tasks i task ht
    rw [hp] at hheld
    refine h.move ht rfl (h.channel.validated hK _) (hsame task) ⟨hheld.snapshot, ?_⟩
    intro share' hshare
    cases hshare
    exact (hheld.snapshot _ rfl).submits hs
  | @sent task job roll share ht hp =>
    have hheld := h.tasks i task ht
    rw [hp] at hheld
    have hwaiting : waitingShare task.phase = some share := by
      rw [hp]
      rfl
    refine h.move ht rfl h.channel (mem_enqueue hwaiting) ?_
    exact hheld.keeps rfl rfl
  | @sentOnce task job roll share token ht hp =>
    have hwaiting : waitingShare task.phase = some share := by
      rw [hp]
      rfl
    refine h.move ht rfl h.channel (mem_enqueue hwaiting) ?_
    exact Sources.ofPhase_of_none rfl rfl
  | @closeGate task token ht =>
    exact h.move ht rfl h.channel (hsame task) (Sources.ofPhase_of_none rfl rfl)

/-- The call carries a job for this work. -/
def CarriesWork (workIn : K.JobMessage → UInt32 × UInt32) (c : Call K) (work : UInt32 × UInt32) :
    Prop :=
  ∃ message, c = .job message ∧ work = workIn message

/-- The call announces this chain tip. -/
def CarriesTip (c : Call K) (chainTip : ChainTip) : Prop :=
  ∃ m, c = .setNewPrevHash m ∧ chainTip = { prevHash := m.prevHash, nbits := m.nbits }

/-- What the miner relies on: a channel gets its jobs from the messages that
carry them and its chain tip from a new prev hash, and keeps its id. -/
structure WorkContract (K : ClientChannel) (workIn : K.JobMessage → UInt32 × UInt32) : Prop where
  call : ∀ (c : Call K) (channel : K.Channel),
    Brings (CarriesWork workIn c) (CarriesTip c) channel (c.outcome channel).2
  validate : ValidateKeeps K

variable {workIn : K.JobMessage → UInt32 × UInt32}

/-- The call brings in work of these sources only. -/
structure Sources.Supplies (s : Sources) (workIn : K.JobMessage → UInt32 × UInt32)
    (c : Call K) : Prop where
  work : ∀ work, CarriesWork workIn c work → s.fromJob work
  chainTip : ∀ chainTip, CarriesTip c chainTip → s.fromPrevHash chainTip

theorem others_sourced (hK : ValidateKeeps K) {r r' : Rig K} (h : Others Unrestricted r r')
    (hr : Sourced s r.miner) : Sourced s r'.miner := by
  refine others_preserve (I := fun r => Sourced s r.miner) ?_ h hr
  intro a b hab ha
  obtain ⟨e, _, he⟩ := hab
  cases e with
  | task i move =>
    obtain ⟨m, hm, rfl⟩ := Option.map_eq_some_iff.mp he
    exact stepTask_sourced hK hm ha
  | tick elapsed =>
    cases he
    exact ha
  | shutdown =>
    cases he
    exact ha

theorem cancelPast_sent (m : ChannelMiner K) : (cancelPastTask m).sent = m.sent := by
  unfold cancelPastTask
  split <;> rfl

theorem call_sourced (hK : WorkContract K workIn) {c : Call K} (hc : s.Supplies workIn c)
    {r r' : Rig K} {res : Except Sv2CpuMinerError Unit}
    (h : Runs (Interferes Unrestricted) c.program r res r') (hr : Sourced s r.miner) :
    Sourced s r'.miner := by
  refine call_preserve (I := fun r => Sourced s r.miner) ?_ ?_ ?_ ?_ h hr
  · exact fun _ _ hab ha => others_sourced hK.validate (.single hab) ha
  · exact fun a ha => ⟨ha.channel.brings (hK.call c _) hc.work hc.chainTip, ha.tasks, ha.sent⟩
  · intro a ha
    refine ⟨?_, ?_, ?_⟩
    · rw [cancelPast, cancelPast_channel]
      exact ha.channel
    · rw [cancelPast, cancelPast_tasks]
      exact ha.tasks
    · rw [cancelPast, cancelPast_sent]
      exact ha.sent
  · intro a ha
    refine ⟨ha.channel, ?_, ha.sent⟩
    intro i task ht
    rcases spawn_cases a.miner ht with hold | ⟨_, rfl⟩
    · exact ha.tasks i task hold
    · exact Sources.ofPhase_of_none rfl rfl

/-- Whatever a miner holds or has sent comes from the calls of its run. -/
theorem run_sourced (hK : WorkContract K workIn) {channel : K.Channel}
    (hchannel : s.OfChannel channel) {amb : Ambient} {cpuUsagePercent : ℕ} {singleSubmit : Bool}
    {calls : List (Label K)} {r : Rig K}
    (hcalls : ∀ c res, .call c res ∈ calls → s.Supplies workIn c)
    (hrun : Run (Step Unrestricted) ⟨amb, new channel cpuUsagePercent singleSubmit⟩ calls r) :
    Sourced s r.miner := by
  have hguarded : Run (Guarded (fun _ l => ∀ c res, l = .call c res → s.Supplies workIn c)
      (Step Unrestricted)) ⟨amb, new channel cpuUsagePercent singleSubmit⟩ calls r :=
    hrun.guarded fun l hl _ c res he => hcalls c res (he ▸ hl)
  refine Run.invariant (I := fun r => Sourced s r.miner) ?_ hguarded ?_
  · intro a l b ha hstep
    obtain ⟨hguard, hstep⟩ := hstep
    cases hstep with
    | event hallowed he => exact others_sourced hK.validate (.single ⟨_, hallowed, he⟩) ha
    | call hcall => exact call_sourced hK (hguard _ _ rfl) hcall ha
  · refine ⟨hchannel, ?_, ?_⟩
    · intro i task ht
      contradiction
    · intro share hmem
      contradiction

end Miner

section Manager

variable {D : Deps}

def standardWork : StandardJobMessage → UInt32 × UInt32
  | .newMiningJob m => (m.jobId, m.version)
  | .groupChannelJob m => (m.jobId, m.version)

def extendedWork (m : NewExtendedMiningJob) : UInt32 × UInt32 := (m.jobId, m.version)

/-- The work in a job message, of the channel's own or of its group. -/
def workIn : (kind : Kind) → (D.client kind).JobMessage → UInt32 × UInt32
  | .standard => standardWork
  | .extended => extendedWork

/-- What the manager relies on: so much of every channel, and that a new one
has the id it is made with and no work yet. -/
structure ChannelWork (D : Deps) : Prop where
  client : ∀ kind, WorkContract (D.client kind) (workIn kind)
  new : ∀ (m : ServerMessage) (o : Opening D) (mgr : ChannelManager D) (p : ExtranoncePrefix)
    (channel : (D.client o.kind).Channel), opening m = some o → o.newChannel mgr p = .ok channel →
      (D.client o.kind).getChannelId channel = o.channelId ∧ (∀ job, ¬ HasJob channel job) ∧
        (D.client o.kind).getChainTip channel = none

/-- What a miner holds and has sent since its opening under this id: every
snapshot and every share goes back to messages that have called it. -/
structure ServerWork (w₀ : World D) (done ls : List WorldLabel) (kind : Kind) (id : UInt32)
    (m : ChannelMiner (D.client kind)) : Prop where
  shares : ∀ share ∈ m.sent, ∃ message, Asked w₀ done ls kind id (.job message) ∧
    Names id (workIn kind message) share
  jobs : ∀ task ∈ m.tasks, ∀ snapshot, snapshotOf task.phase = some snapshot →
    snapshot.channelId = id ∧ ∃ message, Asked w₀ done ls kind id (.job message) ∧
      workOf snapshot.activeJob = workIn kind message
  chainTips : ∀ task ∈ m.tasks, ∀ snapshot, snapshotOf task.phase = some snapshot →
    ∃ p, Asked w₀ done ls kind id (.setNewPrevHash p) ∧ snapshot.prevhash = p.prevHash ∧
      snapshot.nbits = p.nbits

/-- The calls that messages have made on this id. -/
def askedSources (w₀ : World D) (done ls : List WorldLabel) (kind : Kind) (id : UInt32) :
    Sources where
  channelId := id
  fromJob work := ∃ message, Asked w₀ done ls kind id (.job message) ∧ work = workIn kind message
  fromPrevHash chainTip := ∃ p, Asked w₀ done ls kind id (.setNewPrevHash p) ∧
    chainTip = { prevHash := p.prevHash, nbits := p.nbits }

theorem Sourced.serverWork {w₀ : World D} {done ls : List WorldLabel} {kind : Kind} {id : UInt32}
    {m : ChannelMiner (D.client kind)} (h : Sourced (askedSources w₀ done ls kind id) m) :
    ServerWork w₀ done ls kind id m := by
  have hsnapshot : ∀ task ∈ m.tasks, ∀ snapshot, snapshotOf task.phase = some snapshot →
      (askedSources w₀ done ls kind id).OfSnapshot snapshot := by
    intro task ht snapshot hs
    obtain ⟨i, hi⟩ := List.mem_iff_getElem?.mp ht
    exact (h.tasks i task hi).snapshot snapshot hs
  refine ⟨?_, ?_, ?_⟩
  · intro share hshare
    obtain ⟨work, ⟨message, hasked, rfl⟩, hnames⟩ := h.sent share hshare
    exact ⟨message, hasked, hnames⟩
  · intro task ht snapshot hs
    obtain ⟨hid, hjob, _⟩ := hsnapshot task ht snapshot hs
    exact ⟨hid, hjob⟩
  · intro task ht snapshot hs
    obtain ⟨_, _, p, hasked, htip⟩ := hsnapshot task ht snapshot hs
    exact ⟨p, hasked, congrArg ChainTip.prevHash htip, congrArg ChainTip.nbits htip⟩

theorem Descends.serverWork (hW : ChannelWork D) {w₀ : World D} {ls : List WorldLabel}
    {kind : Kind} {id : UInt32} {r : Rig (D.client kind)} (h : Descends w₀ ls kind id r) :
    ∃ before m res after g, ls = before ++ .message m res :: after ∧
      openedBy m = some (kind, id, g) ∧
      ServerWork w₀ (before ++ [.message m res]) after kind id r.miner := by
  cases h with
  | @intro before after m res o p channel amb calls _ hls ho hp hmade hcalls hrun =>
    refine ⟨before, m, res, after, o.groupChannelId, hls, opening_openedBy ho, ?_⟩
    obtain ⟨hid, hjobs, htip⟩ := hW.new m o _ p channel ho hmade
    apply Sourced.serverWork
    refine run_sourced (hW.client o.kind) ⟨hid, ?_, ?_⟩ ?_ hrun
    · exact fun job hjob => absurd hjob (hjobs job)
    · intro chainTip htip'
      rw [htip] at htip'
      contradiction
    · intro c res' hmem
      have hasked := hcalls c res' hmem
      constructor
      · rintro work ⟨message, rfl, rfl⟩
        exact ⟨message, hasked, rfl⟩
      · rintro chainTip ⟨p, rfl, rfl⟩
        exact ⟨p, hasked, rfl⟩

/-- No miner works on anything the server has not sent to it. Whatever the
order of messages and steps, a miner, stored or dropped, was opened by a
message of the run; every snapshot one of its tasks holds is of its channel, a
job that a later message delivered to it and a chain tip that one announced to
it, and every share it has sent names its channel and such a job. -/
theorem shares_come_from_messages (D : Deps) (hD : GroupContract D.group) (hW : ChannelWork D)
    (userIdentity : String) (nominalHashrate : F32) (singleSubmit : Bool) (cpuUsagePercent : ℕ)
    (requiresStandardJobs : Bool) (amb : Ambient) (ls : List WorldLabel) (w₀ w : World D)
    (hw₀ : w₀ = World.initial (ChannelManager.new userIdentity nominalHashrate singleSubmit
      cpuUsagePercent requiresStandardJobs) amb)
    (hrun : Run WorldStep w₀ ls w) (kind : Kind) (place : Place) (r : Rig (D.client kind))
    (hr : w.rigAt kind place = some r) :
    ∃ id before m res after g, Under id place ∧ ls = before ++ .message m res :: after ∧
      openedBy m = some (kind, id, g) ∧
      ServerWork w₀ (before ++ [.message m res]) after kind id r.miner := by
  obtain ⟨id, hid, hdescends⟩ := (run_descends hD hw₀ hrun).rig hr
  obtain ⟨before, m, res, after, g, hls, hopened, hwork⟩ := Descends.serverWork hW hdescends
  exact ⟨id, before, m, res, after, g, hid, hls, hopened, hwork⟩

end Manager

section Sample

variable {Job : Type}

def SampleHas (channel : SampleChannel Job) (job : Job) : Prop :=
  channel.activeJob = some job ∨ ∃ jobId, channel.futureJobs.lookup jobId = some job

/-- The same of a sample channel over either kind of job. -/
structure SampleBrings (work : Job → UInt32 × UInt32) (newWork : UInt32 × UInt32 → Prop)
    (newTip : ChainTip → Prop) (a b : SampleChannel Job) : Prop where
  channelId : b.channelId = a.channelId
  jobs : ∀ job, SampleHas b job →
    (∃ old, SampleHas a old ∧ work job = work old) ∨ newWork (work job)
  chainTip : ∀ chainTip, b.chainTip = some chainTip →
    a.chainTip = some chainTip ∨ newTip chainTip

variable {work : Job → UInt32 × UInt32} {newWork : UInt32 × UInt32 → Prop}
  {newTip : ChainTip → Prop}

theorem brings_nothing {a b : SampleChannel Job} (hid : b.channelId = a.channelId)
    (hactive : b.activeJob = a.activeJob) (hfuture : b.futureJobs = a.futureJobs)
    (htip : b.chainTip = a.chainTip) : SampleBrings work newWork newTip a b := by
  refine ⟨hid, ?_, ?_⟩
  · intro job hjob
    unfold SampleHas at hjob
    rw [hactive, hfuture] at hjob
    exact .inl ⟨job, hjob, rfl⟩
  · intro chainTip hnew
    rw [htip] at hnew
    exact .inl hnew

theorem storeJob_brings (a : SampleChannel Job) (jobId : UInt32) (active : Bool) {job : Job}
    (hnew : newWork (work job)) :
    SampleBrings work newWork newTip a (storeJob a jobId active job).2 := by
  cases active with
  | true =>
    refine ⟨rfl, ?_, fun _ htip => .inl htip⟩
    intro job' hjob
    rcases hjob with hactive | hfuture
    · cases hactive
      exact .inr hnew
    · exact .inl ⟨job', .inr hfuture, rfl⟩
  | false =>
    refine ⟨rfl, ?_, fun _ htip => .inl htip⟩
    intro job' hjob
    rcases hjob with hactive | ⟨id, hfuture⟩
    · exact .inl ⟨job', .inl hactive, rfl⟩
    · change List.lookup id ((jobId, job) :: a.futureJobs) = some job' at hfuture
      rw [List.lookup_cons] at hfuture
      split at hfuture
      · cases hfuture
        exact .inr hnew
      · exact .inl ⟨job', .inr ⟨id, hfuture⟩, rfl⟩

theorem activateJob_brings {withMinNtime : Job → UInt32 → Job}
    (hwork : ∀ job minNtime, work (withMinNtime job minNtime) = work job) (a : SampleChannel Job)
    (m : SetNewPrevHash) (hnew : newTip { prevHash := m.prevHash, nbits := m.nbits }) :
    SampleBrings work newWork newTip a (activateJob withMinNtime a m).2 := by
  rcases activateJob_cases withMinNtime a m with ⟨job, hjob, h⟩ | ⟨e, h⟩
  · rw [h]
    refine ⟨rfl, ?_, ?_⟩
    · intro job' hjob'
      rcases hjob' with hactive | ⟨id, hfuture⟩
      · cases hactive
        exact .inl ⟨job, .inr ⟨_, hjob⟩, hwork job _⟩
      · contradiction
    · intro chainTip htip
      cases htip
      exact .inr hnew
  · rw [h]
    exact brings_nothing rfl rfl rfl rfl

theorem replacePrefix_brings (a : SampleChannel Job) (p : ExtranoncePrefix) :
    SampleBrings work newWork newTip a (replacePrefix a p).2 := by
  rcases replacePrefix_cases a p with h | ⟨e, h⟩
  · rw [h]
    exact brings_nothing rfl rfl rfl rfl
  · rw [h]
    exact brings_nothing rfl rfl rfl rfl

theorem validate_brings {jobId : Job → UInt32} {jobTarget hash : Job → Target}
    (a : SampleChannel Job) (shareJobId sequenceNumber : UInt32) :
    SampleBrings work newWork newTip a
      (validate jobId jobTarget hash a shareJobId sequenceNumber).2 := by
  rcases validate_cases jobId jobTarget hash a shareJobId sequenceNumber with h | ⟨e, h⟩
  · rw [h]
    exact brings_nothing rfl rfl rfl rfl
  · rw [h]
    exact brings_nothing rfl rfl rfl rfl

def standardJobWork (job : SampleStandardJob) : UInt32 × UInt32 :=
  (job.jobMessage.jobId, job.jobMessage.version)

def extendedJobWork (job : SampleExtendedJob) : UInt32 × UInt32 :=
  (job.jobMessage.jobId, job.jobMessage.version)

theorem groupJob_brings (a : SampleChannel SampleStandardJob) (m : NewExtendedMiningJob)
    (hnew : newWork (m.jobId, m.version)) :
    SampleBrings standardJobWork newWork newTip a (sampleStandard.onNewGroupChannelJob a m).2 := by
  simp only [sampleStandard]
  split
  · exact brings_nothing rfl rfl rfl rfl
  · exact storeJob_brings a m.jobId _ hnew

theorem standard_brings (c : Call (sampleDeps.client .standard))
    (a : SampleChannel SampleStandardJob) :
    SampleBrings standardJobWork (CarriesWork (workIn .standard) c) (CarriesTip c) a
      (c.outcome a).2 := by
  cases c with
  | setExtranoncePrefix p => exact replacePrefix_brings a p
  | job message =>
    have hjob : CarriesWork (workIn .standard) (.job message : Call (sampleDeps.client .standard))
        (standardWork message) := ⟨message, rfl, rfl⟩
    cases message with
    | newMiningJob m => exact storeJob_brings a m.jobId _ hjob
    | groupChannelJob m => exact groupJob_brings a m hjob
  | setNewPrevHash m =>
    have htip : CarriesTip (.setNewPrevHash m : Call (sampleDeps.client .standard))
        { prevHash := m.prevHash, nbits := m.nbits } := ⟨m, rfl, rfl⟩
    have hwork : ∀ (job : SampleStandardJob) minNtime,
        standardJobWork (job.withMinNtime minNtime) = standardJobWork job := fun _ _ => rfl
    exact activateJob_brings hwork a m htip
  | _ => exact brings_nothing rfl rfl rfl rfl

theorem extended_brings (c : Call (sampleDeps.client .extended))
    (a : SampleChannel SampleExtendedJob) :
    SampleBrings extendedJobWork (CarriesWork (workIn .extended) c) (CarriesTip c) a
      (c.outcome a).2 := by
  cases c with
  | setExtranoncePrefix p => exact replacePrefix_brings a p
  | job message =>
    have hjob : CarriesWork (workIn .extended) (.job message : Call (sampleDeps.client .extended))
        (extendedWork message) := ⟨message, rfl, rfl⟩
    exact storeJob_brings a (NewExtendedMiningJob.jobId message) _ hjob
  | setNewPrevHash m =>
    have htip : CarriesTip (.setNewPrevHash m : Call (sampleDeps.client .extended))
        { prevHash := m.prevHash, nbits := m.nbits } := ⟨m, rfl, rfl⟩
    have hwork : ∀ (job : SampleExtendedJob) minNtime,
        extendedJobWork (job.withMinNtime minNtime) = extendedJobWork job := fun _ _ => rfl
    exact activateJob_brings hwork a m htip
  | _ => exact brings_nothing rfl rfl rfl rfl

theorem sample_workContract (kind : Kind) :
    WorkContract (sampleDeps.client kind) (workIn kind) := by
  cases kind with
  | standard =>
    refine ⟨?_, ?_⟩
    · intro c a
      have h := standard_brings c a
      exact ⟨h.channelId, h.jobs, h.chainTip⟩
    · intro a share
      have h : SampleBrings standardJobWork (fun _ => False) (fun _ => False) a
          (sampleStandard.validateShare a share).2 :=
        validate_brings a share.jobId share.sequenceNumber
      exact ⟨h.channelId, h.jobs, h.chainTip⟩
  | extended =>
    refine ⟨?_, ?_⟩
    · intro c a
      have h := extended_brings c a
      exact ⟨h.channelId, h.jobs, h.chainTip⟩
    · intro a share
      have h : SampleBrings extendedJobWork (fun _ => False) (fun _ => False) a
          (sampleExtended.validateShare a share).2 :=
        validate_brings a share.jobId share.sequenceNumber
      exact ⟨h.channelId, h.jobs, h.chainTip⟩

theorem openChannel_fresh {channelId : UInt32} {p : ExtranoncePrefix} {target : Target}
    {rollableExtranonceSize : UInt16} {channel : SampleChannel Job}
    (h : openChannel channelId p target rollableExtranonceSize = .ok channel) :
    channel.channelId = channelId ∧ (∀ job, ¬ SampleHas channel job) ∧ channel.chainTip = none := by
  unfold openChannel at h
  split at h
  · cases h
    refine ⟨rfl, ?_, rfl⟩
    rintro job (hactive | ⟨jobId, hfuture⟩)
    · contradiction
    · contradiction
  · contradiction

theorem sample_channelWork : ChannelWork sampleDeps := by
  refine ⟨sample_workContract, ?_⟩
  intro m o mgr p channel ho hmade
  cases m with
  | openStandardMiningChannelSuccess m =>
    cases ho
    exact openChannel_fresh hmade
  | openExtendedMiningChannelSuccess m =>
    cases ho
    exact openChannel_fresh hmade
  | _ => contradiction

/-- A job that waits for the prev hash of its group, hashed until a share is
sent. -/
def sampleShift : List WorldLabel :=
  handled [openStandardMessage 1 10 [1, 2], newJobMessage 1 5 none, prevHashMessage 10 5] ++
    List.replicate 8 (.event (.task .standard (.stored 1) 0 .next))

theorem sample_shares_origin :
    ∃ w r, play World.execute sampleWorld sampleShift = some w ∧
      w.rigAt .standard (.stored 1) = some r ∧ r.miner.sent.length = 1 ∧
      ∃ id before m res after g, Under id (.stored 1) ∧
        sampleShift = before ++ .message m res :: after ∧
        openedBy m = some (.standard, id, g) ∧
        ServerWork sampleWorld (before ++ [.message m res]) after .standard id r.miner := by
  have hplay : (play World.execute sampleWorld sampleShift).bind (fun w =>
      (w.rigAt .standard (.stored 1)).map fun r => r.miner.sent.length) = some 1 := by
    decide +kernel
  obtain ⟨w, hw, hfound⟩ := Option.bind_eq_some_iff.mp hplay
  obtain ⟨r, hr, hlen⟩ := Option.map_eq_some_iff.mp hfound
  refine ⟨w, r, hw, hr, hlen, ?_⟩
  exact shares_come_from_messages sampleDeps sample_groupContract sample_channelWork _ _ _ _ _ _
    sampleShift sampleWorld w rfl (worldRun_of_play hw) .standard (.stored 1) r hr

end Sample

end CpuMinerSv2.WorkOrigins
