import CpuMinerSv2.Channels

/-!
A small instance of the dependencies, in which every assumption made about
them can be checked. Channels keep their jobs, chain tip and share counts;
a group keeps a set of ids and the full extranonce size of its members.
-/

namespace CpuMinerSv2.SampleDeps

open Messages Channels

/-- A channel over either kind of job. -/
structure SampleChannel (Job : Type) where
  channelId : UInt32
  extranoncePrefix : ExtranoncePrefix
  rollableExtranonceSize : UInt16
  target : Target
  chainTip : Option ChainTip
  activeJob : Option Job
  futureJobs : List (UInt32 × Job)
  lastShareSequenceNumber : UInt32
  acknowledgedShares : UInt32
  acknowledgedWorkSum : UInt64
  rejectedShares : UInt32

structure SampleStandardJob where
  jobMessage : NewMiningJob
  target : Target

def SampleStandardJob.withMinNtime (job : SampleStandardJob) (minNtime : UInt32) :
    SampleStandardJob :=
  { job with jobMessage := { job.jobMessage with minNtime := some minNtime } }

structure SampleExtendedJob where
  jobMessage : NewExtendedMiningJob
  extranoncePrefix : Bytes
  target : Target

def SampleExtendedJob.withMinNtime (job : SampleExtendedJob) (minNtime : UInt32) :
    SampleExtendedJob :=
  { job with jobMessage := { job.jobMessage with minNtime := some minNtime } }

def maxExtranonceLen : ℕ := 32

section Operations

variable {Job : Type}

def openChannel (channelId : UInt32) (extranoncePrefix : ExtranoncePrefix) (target : Target)
    (rollableExtranonceSize : UInt16) : Except ChannelError (SampleChannel Job) :=
  if extranoncePrefix.len + rollableExtranonceSize.toNat ≤ maxExtranonceLen then
    .ok {
      channelId, extranoncePrefix, rollableExtranonceSize, target
      chainTip := none
      activeJob := none
      futureJobs := []
      lastShareSequenceNumber := 0
      acknowledgedShares := 0
      acknowledgedWorkSum := 0
      rejectedShares := 0 }
  else .error "extranonce too long"

def replacePrefix (channel : SampleChannel Job) (extranoncePrefix : ExtranoncePrefix) :
    Outcome (SampleChannel Job) Unit :=
  if extranoncePrefix.len + channel.rollableExtranonceSize.toNat ≤ maxExtranonceLen then
    (.ok (), { channel with extranoncePrefix })
  else (.error "extranonce prefix too long", channel)

/-- A job with a `min_ntime` becomes active, another one waits. -/
def storeJob (channel : SampleChannel Job) (jobId : UInt32) (active : Bool) (job : Job) :
    Outcome (SampleChannel Job) Unit :=
  if active then (.ok (), { channel with activeJob := some job })
  else (.ok (), { channel with futureJobs := (jobId, job) :: channel.futureJobs })

/-- Activate the waiting job with the `min_ntime` of the message. -/
def activateJob (withMinNtime : Job → UInt32 → Job) (channel : SampleChannel Job)
    (m : SetNewPrevHash) : Outcome (SampleChannel Job) Unit :=
  match channel.futureJobs.lookup m.jobId with
  | none => (.error "job id not found", channel)
  | some job => (.ok (), { channel with
      activeJob := some (withMinNtime job m.minNtime)
      chainTip := some { prevHash := m.prevHash, nbits := m.nbits }
      futureJobs := [] })

def acknowledge (channel : SampleChannel Job) (newSubmitsAcceptedCount : UInt32)
    (newSharesSum : UInt64) : SampleChannel Job :=
  { channel with
    acknowledgedShares := channel.acknowledgedShares + newSubmitsAcceptedCount
    acknowledgedWorkSum := channel.acknowledgedWorkSum + newSharesSum }

def reject (channel : SampleChannel Job) (_ : String) : SampleChannel Job :=
  { channel with rejectedShares := channel.rejectedShares + 1 }

/-- A share of the active job whose hash meets that job's target is recorded. -/
def validate (jobId : Job → UInt32) (jobTarget : Job → Target) (hash : Job → Target)
    (channel : SampleChannel Job) (shareJobId sequenceNumber : UInt32) :
    Outcome (SampleChannel Job) ShareValidationResult :=
  match channel.activeJob with
  | none => (.error "no active job", channel)
  | some job =>
    if jobId job = shareJobId ∧ hash job ≤ jobTarget job then
      (.ok .valid, { channel with lastShareSequenceNumber := sequenceNumber })
    else (.error "invalid share", channel)

theorem replacePrefix_cases (channel : SampleChannel Job) (extranoncePrefix : ExtranoncePrefix) :
    replacePrefix channel extranoncePrefix = (.ok (), { channel with extranoncePrefix }) ∨
      ∃ e, replacePrefix channel extranoncePrefix = (.error e, channel) := by
  unfold replacePrefix
  split
  · exact .inl rfl
  · exact .inr ⟨_, rfl⟩

theorem activateJob_cases (withMinNtime : Job → UInt32 → Job) (channel : SampleChannel Job)
    (m : SetNewPrevHash) :
    (∃ job, channel.futureJobs.lookup m.jobId = some job ∧
      activateJob withMinNtime channel m = (.ok (), { channel with
        activeJob := some (withMinNtime job m.minNtime)
        chainTip := some { prevHash := m.prevHash, nbits := m.nbits }
        futureJobs := [] })) ∨
    ∃ e, activateJob withMinNtime channel m = (.error e, channel) := by
  unfold activateJob
  cases hjob : channel.futureJobs.lookup m.jobId with
  | none => exact .inr ⟨_, rfl⟩
  | some job => exact .inl ⟨job, rfl, rfl⟩

theorem validate_cases (jobId : Job → UInt32) (jobTarget hash : Job → Target)
    (channel : SampleChannel Job) (shareJobId sequenceNumber : UInt32) :
    validate jobId jobTarget hash channel shareJobId sequenceNumber =
      (.ok .valid, { channel with lastShareSequenceNumber := sequenceNumber }) ∨
    ∃ e, validate jobId jobTarget hash channel shareJobId sequenceNumber = (.error e, channel) := by
  unfold validate
  cases channel.activeJob with
  | none => exact .inr ⟨_, rfl⟩
  | some job =>
    by_cases h : jobId job = shareJobId ∧ hash job ≤ jobTarget job
    · exact .inl (by simp only [if_pos h])
    · exact .inr ⟨"invalid share", by simp only [if_neg h]⟩

theorem validate_ok {jobId : Job → UInt32} {jobTarget hash : Job → Target}
    {channel : SampleChannel Job} {shareJobId sequenceNumber : UInt32}
    {result : ShareValidationResult}
    (h : (validate jobId jobTarget hash channel shareJobId sequenceNumber).1 = .ok result) :
    result = .valid ∧
      ∃ job, channel.activeJob = some job ∧ jobId job = shareJobId ∧ hash job ≤ jobTarget job := by
  unfold validate at h
  cases hjob : channel.activeJob with
  | none =>
    rw [hjob] at h
    contradiction
  | some job =>
    simp only [hjob] at h
    by_cases hmeets : jobId job = shareJobId ∧ hash job ≤ jobTarget job
    · rw [if_pos hmeets] at h
      exact ⟨(Except.ok.inj h).symm, job, rfl, hmeets⟩
    · rw [if_neg hmeets] at h
      contradiction

end Operations

/-- A stand-in for the header hash, small enough to meet every target used. -/
def sampleHash (header : Header) : Target := header.nonce.toNat

/-- A coinbase without its first bytes does not parse. -/
def sampleMerkleRoot (coinbaseTxPrefix coinbaseTxSuffix extranonce : Bytes)
    (_ : List Bytes) : Option Bytes :=
  if coinbaseTxPrefix = [] then none
  else some ((coinbaseTxPrefix ++ extranonce ++ coinbaseTxSuffix).take 32)

def sampleStandard : StandardChannelApi where
  StandardChannel := SampleChannel SampleStandardJob
  StandardJob := SampleStandardJob
  jobMessage := SampleStandardJob.jobMessage
  new channelId _ extranoncePrefix target _ := openChannel channelId extranoncePrefix target 0
  getChannelId := SampleChannel.channelId
  getExtranoncePrefix := SampleChannel.extranoncePrefix
  getTarget := SampleChannel.target
  getChainTip := SampleChannel.chainTip
  getActiveJob := SampleChannel.activeJob
  getFutureJobs channel jobId := channel.futureJobs.lookup jobId
  getLastShareSequenceNumber := SampleChannel.lastShareSequenceNumber
  getAcknowledgedShares := SampleChannel.acknowledgedShares
  getAcknowledgedWorkSum := SampleChannel.acknowledgedWorkSum
  getRejectedSharesCount := SampleChannel.rejectedShares
  setExtranoncePrefix := replacePrefix
  setTarget channel target := (.ok (), { channel with target })
  onNewMiningJob channel m :=
    storeJob channel m.jobId m.minNtime.isSome { jobMessage := m, target := channel.target }
  onNewGroupChannelJob channel m :=
    match sampleMerkleRoot m.coinbaseTxPrefix m.coinbaseTxSuffix channel.extranoncePrefix.bytes
        m.merklePath with
    | none => (.error "invalid coinbase", channel)
    | some merkleRoot =>
      storeJob channel m.jobId m.minNtime.isSome {
        jobMessage := {
          channelId := m.channelId, jobId := m.jobId, minNtime := m.minNtime
          version := m.version, merkleRoot }
        target := channel.target }
  onSetNewPrevHash := activateJob SampleStandardJob.withMinNtime
  onShareAcknowledgement := acknowledge
  onShareRejection := reject
  validateShare channel share :=
    validate (fun job => job.jobMessage.jobId) SampleStandardJob.target
      (fun job => sampleHash {
        version := share.version
        prevBlockhash := (channel.chainTip.map ChainTip.prevHash).getD []
        merkleRoot := job.jobMessage.merkleRoot
        time := share.ntime
        bits := (channel.chainTip.map ChainTip.nbits).getD 0
        nonce := share.nonce })
      channel share.jobId share.sequenceNumber

def sampleExtended : ExtendedChannelApi where
  ExtendedChannel := SampleChannel SampleExtendedJob
  ExtendedJob := SampleExtendedJob
  jobMessage := SampleExtendedJob.jobMessage
  jobExtranoncePrefix := SampleExtendedJob.extranoncePrefix
  new channelId _ extranoncePrefix target _ _ rollableExtranonceSize :=
    openChannel channelId extranoncePrefix target rollableExtranonceSize
  getChannelId := SampleChannel.channelId
  getExtranoncePrefix := SampleChannel.extranoncePrefix
  getFullExtranonceSize channel :=
    channel.extranoncePrefix.len + channel.rollableExtranonceSize.toNat
  getRollableExtranonceSize := SampleChannel.rollableExtranonceSize
  getTarget := SampleChannel.target
  getChainTip := SampleChannel.chainTip
  getActiveJob := SampleChannel.activeJob
  getFutureJobs channel jobId := channel.futureJobs.lookup jobId
  getLastShareSequenceNumber := SampleChannel.lastShareSequenceNumber
  getAcknowledgedShares := SampleChannel.acknowledgedShares
  getAcknowledgedWorkSum := SampleChannel.acknowledgedWorkSum
  getRejectedSharesCount := SampleChannel.rejectedShares
  setExtranoncePrefix := replacePrefix
  setTarget channel target := (.ok (), { channel with target })
  onNewExtendedMiningJob channel m :=
    storeJob channel m.jobId m.minNtime.isSome {
      jobMessage := m
      extranoncePrefix := channel.extranoncePrefix.bytes
      target := channel.target }
  onSetNewPrevHash := activateJob SampleExtendedJob.withMinNtime
  onShareAcknowledgement := acknowledge
  onShareRejection := reject
  validateShare channel share :=
    validate (fun job => job.jobMessage.jobId) SampleExtendedJob.target
      (fun job => sampleHash {
        version := share.version
        prevBlockhash := (channel.chainTip.map ChainTip.prevHash).getD []
        merkleRoot := (sampleMerkleRoot job.jobMessage.coinbaseTxPrefix
          job.jobMessage.coinbaseTxSuffix (job.extranoncePrefix ++ share.extranonce)
          job.jobMessage.merklePath).getD []
        time := share.ntime
        bits := (channel.chainTip.map ChainTip.nbits).getD 0
        nonce := share.nonce })
      channel share.jobId share.sequenceNumber

theorem groupJob_cases (channel : SampleChannel SampleStandardJob) (m : NewExtendedMiningJob) :
    (∃ job : SampleStandardJob, job.jobMessage.minNtime = m.minNtime ∧
      sampleStandard.onNewGroupChannelJob channel m =
        storeJob channel m.jobId m.minNtime.isSome job) ∨
    ∃ e, sampleStandard.onNewGroupChannelJob channel m = (.error e, channel) := by
  simp only [sampleStandard]
  cases sampleMerkleRoot m.coinbaseTxPrefix m.coinbaseTxSuffix channel.extranoncePrefix.bytes
    m.merklePath with
  | none => exact .inr ⟨_, rfl⟩
  | some merkleRoot => exact .inl ⟨_, rfl, rfl⟩

/-- A set of ids without duplicates. -/
structure SampleGroup where
  ids : List UInt32
  nodup : ids.Nodup
  size : Option ℕ

def sampleGroup : GroupChannelApi where
  GroupChannel := SampleGroup
  new _ := { ids := [], nodup := List.nodup_nil, size := none }
  addChannelId group id size :=
    if group.ids = [] ∨ group.size = some size then
      (.ok (),
        { ids := group.ids.insert id, nodup := List.Nodup.insert group.nodup, size := some size })
    else (.error "full extranonce size mismatch", group)
  removeChannelId group id :=
    { group with ids := group.ids.erase id, nodup := List.Nodup.erase id group.nodup }
  getChannelIds := SampleGroup.ids
  isEmpty group := group.ids.isEmpty
  recordedSize := SampleGroup.size

def sampleDeps : Deps where
  standard := sampleStandard
  extended := sampleExtended
  group := sampleGroup
  fromWire bytes :=
    if bytes.length ≤ maxExtranonceLen then .ok ⟨bytes⟩ else .error "extranonce prefix too long"
  merkleRootFromPath := sampleMerkleRoot
  extranonceSerializable bytes := bytes.length ≤ maxExtranonceLen
  blockHash := sampleHash
  messageTypeSetCustomMiningJobSuccess := 0x23
  messageTypeSetCustomMiningJobError := 0x24
  overflowChecks := false

end CpuMinerSv2.SampleDeps
