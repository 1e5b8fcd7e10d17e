import Mathlib

/-!
The wire messages of the Mining Protocol that this miner sends and receives,
and the error type shared by every part of it. Byte strings are lists of
bytes; an `Instant` counts nanoseconds.
-/

namespace CpuMinerSv2.Messages

abbrev Bytes := List UInt8

/-- A 256-bit number, compared as such. -/
abbrev Target := ℕ

abbrev Instant := ℕ

/-- A single precision number as the code receives it. -/
inductive F32 where
  | finite (q : ℚ)
  | infinite (negative : Bool)
  | nan
deriving DecidableEq

def Target.fromLeBytes (bytes : Bytes) : Target :=
  bytes.foldr (fun b acc => b.toNat + 256 * acc) 0

structure ExtranoncePrefix where
  bytes : Bytes
deriving DecidableEq

def ExtranoncePrefix.len (p : ExtranoncePrefix) : ℕ := p.bytes.length

structure OpenStandardMiningChannelSuccess where
  requestId : UInt32
  channelId : UInt32
  target : Bytes
  extranoncePrefix : Bytes
  groupChannelId : UInt32

structure OpenExtendedMiningChannelSuccess where
  requestId : UInt32
  channelId : UInt32
  target : Bytes
  extranonceSize : UInt16
  extranoncePrefix : Bytes
  groupChannelId : UInt32

structure OpenMiningChannelError where
  requestId : UInt32
  errorCode : String

structure UpdateChannelError where
  channelId : UInt32
  errorCode : String

structure CloseChannel where
  channelId : UInt32
  reasonCode : String

structure SetExtranoncePrefix where
  channelId : UInt32
  extranoncePrefix : Bytes

structure SubmitSharesSuccess where
  channelId : UInt32
  lastSequenceNumber : UInt32
  newSubmitsAcceptedCount : UInt32
  newSharesSum : UInt64

structure SubmitSharesError where
  channelId : UInt32
  sequenceNumber : UInt32
  errorCode : String

structure NewMiningJob where
  channelId : UInt32
  jobId : UInt32
  minNtime : Option UInt32
  version : UInt32
  merkleRoot : Bytes
deriving DecidableEq

structure NewExtendedMiningJob where
  channelId : UInt32
  jobId : UInt32
  minNtime : Option UInt32
  version : UInt32
  versionRollingAllowed : Bool
  merklePath : List Bytes
  coinbaseTxPrefix : Bytes
  coinbaseTxSuffix : Bytes
deriving DecidableEq

structure SetNewPrevHash where
  channelId : UInt32
  jobId : UInt32
  prevHash : Bytes
  minNtime : UInt32
  nbits : UInt32

structure SetCustomMiningJobSuccess where
  channelId : UInt32
  requestId : UInt32
  jobId : UInt32

structure SetCustomMiningJobError where
  channelId : UInt32
  requestId : UInt32
  errorCode : String

structure SetTarget where
  channelId : UInt32
  maximumTarget : Bytes

structure SetGroupChannel where
  groupChannelId : UInt32
  channelIds : List UInt32

/-- Every mining message a server can send. -/
inductive ServerMessage where
  | openStandardMiningChannelSuccess (m : OpenStandardMiningChannelSuccess)
  | openExtendedMiningChannelSuccess (m : OpenExtendedMiningChannelSuccess)
  | openMiningChannelError (m : OpenMiningChannelError)
  | updateChannelError (m : UpdateChannelError)
  | closeChannel (m : CloseChannel)
  | setExtranoncePrefix (m : SetExtranoncePrefix)
  | submitSharesSuccess (m : SubmitSharesSuccess)
  | submitSharesError (m : SubmitSharesError)
  | newMiningJob (m : NewMiningJob)
  | newExtendedMiningJob (m : NewExtendedMiningJob)
  | setNewPrevHash (m : SetNewPrevHash)
  | setCustomMiningJobSuccess (m : SetCustomMiningJobSuccess)
  | setCustomMiningJobError (m : SetCustomMiningJobError)
  | setTarget (m : SetTarget)
  | setGroupChannel (m : SetGroupChannel)

structure SubmitSharesStandard where
  channelId : UInt32
  sequenceNumber : UInt32
  jobId : UInt32
  nonce : UInt32
  ntime : UInt32
  version : UInt32
deriving DecidableEq

structure SubmitSharesExtended where
  channelId : UInt32
  sequenceNumber : UInt32
  jobId : UInt32
  nonce : UInt32
  ntime : UInt32
  version : UInt32
  extranonce : Bytes
deriving DecidableEq

/-- The block header a mining task hashes. -/
structure Header where
  version : UInt32
  prevBlockhash : Bytes
  merkleRoot : Bytes
  time : UInt32
  bits : UInt32
  nonce : UInt32
deriving DecidableEq

abbrev ChannelError := String

/-- Every way a run can fail. -/
inductive Sv2CpuMinerError where
  | io (e : String)
  | badConfigDeserialize (e : String)
  | invalidConfig (msg : String)
  | networkHelpers (e : String)
  | channelErrorSender
  | channelErrorReceiver
  | parser (e : String)
  | unexpectedMessage (extensionType : UInt16) (messageType : UInt8)
  | setupConnectionFailed
  | standardJobsOnly (message : String)
  | setupConnectionMismatch (reason : String)
  | poisonLock
  | standardChannel (e : ChannelError)
  | extendedChannel (e : ChannelError)
deriving DecidableEq

end CpuMinerSv2.Messages
