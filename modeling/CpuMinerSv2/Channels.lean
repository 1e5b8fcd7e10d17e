import CpuMinerSv2.Messages

/-!
What the miner uses of its dependencies: the client channels, the group
channel and a few functions, all as parameters. `ClientChannel` is the part
of a channel that both miners handle alike; `standardClient` and
`extendedClient` are the two kinds written in that form.
-/

namespace CpuMinerSv2.Channels

open Messages

structure ChainTip where
  prevHash : Bytes
  nbits : UInt32
deriving DecidableEq

inductive ShareValidationResult where
  | valid
  | blockFound (hash : Bytes)
deriving DecidableEq

/-- A call on a channel: its result and the channel it leaves. -/
abbrev Outcome (Channel α : Type) := Except ChannelError α × Channel

structure StandardChannelApi where
  StandardChannel : Type
  StandardJob : Type
  jobMessage : StandardJob → NewMiningJob
  new (channelId : UInt32) (userIdentity : String) (extranoncePrefix : ExtranoncePrefix)
    (target : Target) (nominalHashrate : F32) : Except ChannelError StandardChannel
  getChannelId : StandardChannel → UInt32
  getExtranoncePrefix : StandardChannel → ExtranoncePrefix
  getTarget : StandardChannel → Target
  getChainTip : StandardChannel → Option ChainTip
  getActiveJob : StandardChannel → Option StandardJob
  getFutureJobs : StandardChannel → UInt32 → Option StandardJob
  getLastShareSequenceNumber : StandardChannel → UInt32
  getAcknowledgedShares : StandardChannel → UInt32
  getAcknowledgedWorkSum : StandardChannel → UInt64
  getRejectedSharesCount : StandardChannel → UInt32
  setExtranoncePrefix : StandardChannel → ExtranoncePrefix → Outcome StandardChannel Unit
  setTarget : StandardChannel → Target → Outcome StandardChannel Unit
  onNewMiningJob : StandardChannel → NewMiningJob → Outcome StandardChannel Unit
  onNewGroupChannelJob : StandardChannel → NewExtendedMiningJob → Outcome StandardChannel Unit
  onSetNewPrevHash : StandardChannel → SetNewPrevHash → Outcome StandardChannel Unit
  onShareAcknowledgement : StandardChannel → UInt32 → UInt64 → StandardChannel
  onShareRejection : StandardChannel → String → StandardChannel
  validateShare : StandardChannel → SubmitSharesStandard →
    Outcome StandardChannel ShareValidationResult

structure ExtendedChannelApi where
  ExtendedChannel : Type
  ExtendedJob : Type
  jobMessage : ExtendedJob → NewExtendedMiningJob
  jobExtranoncePrefix : ExtendedJob → Bytes
  new (channelId : UInt32) (userIdentity : String) (extranoncePrefix : ExtranoncePrefix)
    (target : Target) (nominalHashrate : F32) (versionRolling : Bool)
    (rollableExtranonceSize : UInt16) : Except ChannelError ExtendedChannel
  getChannelId : ExtendedChannel → UInt32
  getExtranoncePrefix : ExtendedChannel → ExtranoncePrefix
  getFullExtranonceSize : ExtendedChannel → ℕ
  getRollableExtranonceSize : ExtendedChannel → UInt16
  getTarget : ExtendedChannel → Target
  getChainTip : ExtendedChannel → Option ChainTip
  getActiveJob : ExtendedChannel → Option ExtendedJob
  getFutureJobs : ExtendedChannel → UInt32 → Option ExtendedJob
  getLastShareSequenceNumber : ExtendedChannel → UInt32
  getAcknowledgedShares : ExtendedChannel → UInt32
  getAcknowledgedWorkSum : ExtendedChannel → UInt64
  getRejectedSharesCount : ExtendedChannel → UInt32
  setExtranoncePrefix : ExtendedChannel → ExtranoncePrefix → Outcome ExtendedChannel Unit
  setTarget : ExtendedChannel → Target → Outcome ExtendedChannel Unit
  onNewExtendedMiningJob : ExtendedChannel → NewExtendedMiningJob → Outcome ExtendedChannel Unit
  onSetNewPrevHash : ExtendedChannel → SetNewPrevHash → Outcome ExtendedChannel Unit
  onShareAcknowledgement : ExtendedChannel → UInt32 → UInt64 → ExtendedChannel
  onShareRejection : ExtendedChannel → String → ExtendedChannel
  validateShare : ExtendedChannel → SubmitSharesExtended →
    Outcome ExtendedChannel ShareValidationResult

/-- A group of channel ids. `recordedSize` is the full extranonce size the
group keeps for its members. -/
structure GroupChannelApi where
  GroupChannel : Type
  new : UInt32 → GroupChannel
  addChannelId : GroupChannel → UInt32 → ℕ → Outcome GroupChannel Unit
  removeChannelId : GroupChannel → UInt32 → GroupChannel
  getChannelIds : GroupChannel → List UInt32
  isEmpty : GroupChannel → Bool
  recordedSize : GroupChannel → Option ℕ

/-- Everything outside the repository, and whether the build checks integer
overflow. -/
structure Deps where
  standard : StandardChannelApi
  extended : ExtendedChannelApi
  group : GroupChannelApi
  fromWire : Bytes → Except ChannelError ExtranoncePrefix
  merkleRootFromPath (coinbaseTxPrefix coinbaseTxSuffix extranonce : Bytes)
    (path : List Bytes) : Option Bytes
  extranonceSerializable : Bytes → Bool
  blockHash : Header → Target
  messageTypeSetCustomMiningJobSuccess : UInt8
  messageTypeSetCustomMiningJobError : UInt8
  overflowChecks : Bool

/-- A channel as the channel miner and `mine_job` see it. -/
structure ClientChannel where
  Channel : Type
  Job : Type
  /-- the job messages the channel takes -/
  JobMessage : Type
  /-- the share messages submitted for it -/
  Share : Type
  channelError : ChannelError → Sv2CpuMinerError
  blockHash : Header → Target
  overflowChecks : Bool
  getChannelId : Channel → UInt32
  fullExtranonceSize : Channel → ℕ
  getRollableExtranonceSize : Channel → ℕ
  getTarget : Channel → Target
  getChainTip : Channel → Option ChainTip
  getActiveJob : Channel → Option Job
  getFutureJobs : Channel → UInt32 → Option Job
  getLastShareSequenceNumber : Channel → UInt32
  getAcknowledgedShares : Channel → UInt32
  getAcknowledgedWorkSum : Channel → UInt64
  getRejectedSharesCount : Channel → UInt32
  jobId : Job → UInt32
  version : Job → UInt32
  minNtime : Job → Option UInt32
  /-- the merkle root of a job with this many rollable extranonce bytes -/
  merkleRoot : Job → ℕ → Option Bytes
  jobMessageMinNtime : JobMessage → Option UInt32
  setExtranoncePrefix : Channel → ExtranoncePrefix → Outcome Channel Unit
  setTarget : Channel → Target → Outcome Channel Unit
  onJob : Channel → JobMessage → Outcome Channel Unit
  onSetNewPrevHash : Channel → SetNewPrevHash → Outcome Channel Unit
  onShareAcknowledgement : Channel → UInt32 → UInt64 → Channel
  onShareRejection : Channel → String → Channel
  /-- the share message, when it can be built -/
  submitShares (channelId sequenceNumber jobId nonce ntime version : UInt32)
    (extranonceSize : ℕ) : Option Share
  sequenceNumber : Share → UInt32
  validateShare : Channel → Share → Outcome Channel ShareValidationResult

/-- A standard channel takes jobs of its own and the jobs of its group. -/
inductive StandardJobMessage where
  | newMiningJob (m : NewMiningJob)
  | groupChannelJob (m : NewExtendedMiningJob)

def StandardJobMessage.minNtime : StandardJobMessage → Option UInt32
  | newMiningJob m => m.minNtime
  | groupChannelJob m => m.minNtime

/-- A standard channel rolls no extranonce, and its job carries the merkle root. -/
def standardClient (D : Deps) : ClientChannel where
  Channel := D.standard.StandardChannel
  Job := D.standard.StandardJob
  JobMessage := StandardJobMessage
  Share := SubmitSharesStandard
  channelError := .standardChannel
  blockHash := D.blockHash
  overflowChecks := D.overflowChecks
  getChannelId := D.standard.getChannelId
  fullExtranonceSize channel := (D.standard.getExtranoncePrefix channel).len
  getRollableExtranonceSize _ := 0
  getTarget := D.standard.getTarget
  getChainTip := D.standard.getChainTip
  getActiveJob := D.standard.getActiveJob
  getFutureJobs := D.standard.getFutureJobs
  getLastShareSequenceNumber := D.standard.getLastShareSequenceNumber
  getAcknowledgedShares := D.standard.getAcknowledgedShares
  getAcknowledgedWorkSum := D.standard.getAcknowledgedWorkSum
  getRejectedSharesCount := D.standard.getRejectedSharesCount
  jobId job := (D.standard.jobMessage job).jobId
  version job := (D.standard.jobMessage job).version
  minNtime job := (D.standard.jobMessage job).minNtime
  merkleRoot job _ := some (D.standard.jobMessage job).merkleRoot
  jobMessageMinNtime := StandardJobMessage.minNtime
  setExtranoncePrefix := D.standard.setExtranoncePrefix
  setTarget := D.standard.setTarget
  onJob channel message := match message with
    | .newMiningJob m => D.standard.onNewMiningJob channel m
    | .groupChannelJob m => D.standard.onNewGroupChannelJob channel m
  onSetNewPrevHash := D.standard.onSetNewPrevHash
  onShareAcknowledgement := D.standard.onShareAcknowledgement
  onShareRejection := D.standard.onShareRejection
  submitShares channelId sequenceNumber jobId nonce ntime version _ :=
    some { channelId, sequenceNumber, jobId, nonce, ntime, version }
  sequenceNumber := SubmitSharesStandard.sequenceNumber
  validateShare := D.standard.validateShare

/-- An extended channel keeps its extranonce at zero; the merkle root follows
from the coinbase parts and the full extranonce. -/
def extendedClient (D : Deps) : ClientChannel where
  Channel := D.extended.ExtendedChannel
  Job := D.extended.ExtendedJob
  JobMessage := NewExtendedMiningJob
  Share := SubmitSharesExtended
  channelError := .extendedChannel
  blockHash := D.blockHash
  overflowChecks := D.overflowChecks
  getChannelId := D.extended.getChannelId
  fullExtranonceSize := D.extended.getFullExtranonceSize
  getRollableExtranonceSize channel := (D.extended.getRollableExtranonceSize channel).toNat
  getTarget := D.extended.getTarget
  getChainTip := D.extended.getChainTip
  getActiveJob := D.extended.getActiveJob
  getFutureJobs := D.extended.getFutureJobs
  getLastShareSequenceNumber := D.extended.getLastShareSequenceNumber
  getAcknowledgedShares := D.extended.getAcknowledgedShares
  getAcknowledgedWorkSum := D.extended.getAcknowledgedWorkSum
  getRejectedSharesCount := D.extended.getRejectedSharesCount
  jobId job := (D.extended.jobMessage job).jobId
  version job := (D.extended.jobMessage job).version
  minNtime job := (D.extended.jobMessage job).minNtime
  merkleRoot job extranonceSize :=
    D.merkleRootFromPath (D.extended.jobMessage job).coinbaseTxPrefix
      (D.extended.jobMessage job).coinbaseTxSuffix
      (D.extended.jobExtranoncePrefix job ++ List.replicate extranonceSize 0)
      (D.extended.jobMessage job).merklePath
  jobMessageMinNtime := NewExtendedMiningJob.minNtime
  setExtranoncePrefix := D.extended.setExtranoncePrefix
  setTarget := D.extended.setTarget
  onJob := D.extended.onNewExtendedMiningJob
  onSetNewPrevHash := D.extended.onSetNewPrevHash
  onShareAcknowledgement := D.extended.onShareAcknowledgement
  onShareRejection := D.extended.onShareRejection
  submitShares channelId sequenceNumber jobId nonce ntime version extranonceSize :=
    if D.extranonceSerializable (List.replicate extranonceSize 0) then
      some { channelId, sequenceNumber, jobId, nonce, ntime, version,
             extranonce := List.replicate extranonceSize 0 }
    else none
  sequenceNumber := SubmitSharesExtended.sequenceNumber
  validateShare := D.extended.validateShare

inductive Kind where
  | standard
  | extended
deriving DecidableEq

def Deps.client (D : Deps) : Kind → ClientChannel
  | .standard => standardClient D
  | .extended => extendedClient D

end CpuMinerSv2.Channels
