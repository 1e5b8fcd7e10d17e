import CpuMinerSv2.Client
import CpuMinerSv2.HandlerRuns
import CpuMinerSv2.SampleMiners

/-!
A manager and a client over the sample dependencies, and messages for them.
The sample group meets what the manager relies on.
-/

namespace CpuMinerSv2.SampleWorlds

open Messages Channels MinerMethods Manager Deliveries HandlerRuns Config Client SampleDeps

theorem sample_groupContract : GroupContract sampleDeps.group := by
  have hadd : ∀ (group : SampleGroup) (id : UInt32) (size : ℕ),
      (∃ nodup, sampleGroup.addChannelId group id size =
        (.ok (), ⟨group.ids.insert id, nodup, some size⟩)) ∨
      ∃ e, sampleGroup.addChannelId group id size = (.error e, group) := by
    intro group id size
    simp only [sampleGroup]
    split
    · exact .inl ⟨List.Nodup.insert group.nodup, rfl⟩
    · exact .inr ⟨_, rfl⟩
  refine ⟨fun _ => rfl, SampleGroup.nodup, fun _ => List.isEmpty_iff, ?_, ?_, ?_⟩
  · intro group id size hok a
    rcases hadd group id size with ⟨nodup, h⟩ | ⟨e, h⟩
    · have hsnd := congrArg Prod.snd h
      change a ∈ ((sampleGroup.addChannelId group id size).2).ids ↔ _
      rw [hsnd]
      exact List.mem_insert_iff
    · have hfst := congrArg Prod.fst h
      rw [show (sampleDeps.group.addChannelId group id size).1 = .error e from hfst] at hok
      contradiction
  · intro group id size e he
    rcases hadd group id size with ⟨nodup, h⟩ | ⟨e', h⟩
    · have hfst := congrArg Prod.fst h
      rw [show (sampleDeps.group.addChannelId group id size).1 = .ok () from hfst] at he
      contradiction
    · exact congrArg Prod.snd h
  · intro group id a
    exact (List.Nodup.mem_erase_iff group.nodup)

/-- A new manager, before the first message. -/
def sampleWorld : World sampleDeps :=
  World.initial (ChannelManager.new "miner" (.finite 1) false 100 false) ⟨0, false⟩

def openStandardMessage (channelId groupChannelId : UInt32) (extranoncePrefix : Bytes) :
    ServerMessage :=
  .openStandardMiningChannelSuccess
    { requestId := 0, channelId, target := [255, 255, 255, 255], extranoncePrefix, groupChannelId }

def openExtendedMessage (channelId groupChannelId : UInt32) (extranonceSize : UInt16)
    (extranoncePrefix : Bytes) : ServerMessage :=
  .openExtendedMiningChannelSuccess
    { requestId := 1, channelId, target := [255, 255, 255, 255], extranonceSize, extranoncePrefix,
      groupChannelId }

def setGroupMessage (groupChannelId : UInt32) (channelIds : List UInt32) : ServerMessage :=
  .setGroupChannel { groupChannelId, channelIds }

def setPrefixMessage (channelId : UInt32) (extranoncePrefix : Bytes) : ServerMessage :=
  .setExtranoncePrefix { channelId, extranoncePrefix }

def closeMessage (channelId : UInt32) : ServerMessage :=
  .closeChannel { channelId, reasonCode := "" }

def newJobMessage (channelId jobId : UInt32) (minNtime : Option UInt32) : ServerMessage :=
  .newMiningJob { channelId, jobId, minNtime, version := 2, merkleRoot := [7] }

def newExtendedJobMessage (channelId jobId : UInt32) (minNtime : Option UInt32)
    (coinbaseTxPrefix : Bytes) : ServerMessage :=
  .newExtendedMiningJob
    { channelId, jobId, minNtime, version := 2, versionRollingAllowed := true, merklePath := []
      coinbaseTxPrefix, coinbaseTxSuffix := [8] }

def prevHashMessage (channelId jobId : UInt32) : ServerMessage :=
  .setNewPrevHash { channelId, jobId, prevHash := [9], minNtime := 50, nbits := 3 }

def setTargetMessage (channelId : UInt32) (maximumTarget : Bytes) : ServerMessage :=
  .setTarget { channelId, maximumTarget }

def acknowledgeMessage (channelId newSubmitsAcceptedCount : UInt32) (newSharesSum : UInt64) :
    ServerMessage :=
  .submitSharesSuccess
    { channelId, lastSequenceNumber := 0, newSubmitsAcceptedCount, newSharesSum }

def rejectMessage (channelId : UInt32) : ServerMessage :=
  .submitSharesError { channelId, sequenceNumber := 0, errorCode := "stale-share" }

/-- The messages are all handled without an error that ends the connection. -/
def handled (messages : List ServerMessage) : List WorldLabel :=
  messages.map fun m => .message m (.ok ())

/-- Two channels of one group. -/
def sampleOpenings : List WorldLabel :=
  handled [openStandardMessage 1 10 [1, 2], openExtendedMessage 2 10 0 [1, 3]]

/-- Openings of ids that are not open. -/
def opensFresh (w : World sampleDeps) : WorldLabel → Bool
  | .event _ => true
  | .message m _ => (opening (D := sampleDeps) m).all fun o =>
      !w.manager.standardChannels.containsKey o.channelId &&
        !w.manager.extendedChannels.containsKey o.channelId

theorem not_open_of_fresh {w : World sampleDeps} {m : ServerMessage}
    {r : Except Sv2CpuMinerError Unit} (h : opensFresh w (.message m r) = true)
    {o : Opening sampleDeps} (ho : opening m = some o) : ¬ ChannelOpen w o.channelId := by
  simp only [opensFresh, ho, Option.all_some, Bool.and_eq_true, Bool.not_eq_true'] at h
  rw [isOpen_iff_keys, h.1, h.2]
  simp

/-- Perform the labels while they open fresh ids only. -/
def playFresh (w : World sampleDeps) (ls : List WorldLabel) : Option (World sampleDeps) :=
  Primitives.play (fun w l => if opensFresh w l then w.execute l else none) w ls

/-- A client over the sample dependencies; the first byte of a payload tells
which message it is. -/
def sampleClient : ClientDeps where
  toDeps := sampleDeps
  miningMessage frame := match frame.payload with
    | [0] => .ok (openStandardMessage 1 10 [1, 2])
    | [1] => .ok (newJobMessage 1 5 none)
    | [2] => .ok (prevHashMessage 1 5)
    | [3] => .ok (.setCustomMiningJobSuccess { channelId := 1, requestId := 0, jobId := 5 })
    | [4] => .ok (newJobMessage 1 6 (some 60))
    | [5] => .ok (setTargetMessage 10 [255, 255])
    | _ => .error (.parser "unknown payload")
  commonMessage frame := match frame.payload with
    | [0] => .ok (.setupConnectionSuccess { usedVersion := 2, flags := 0 })
    | _ => .error (.parser "unknown payload")
  supportedProtocolVersion := 2
  messageTypeSetupConnectionSuccess := 0x01
  messageTypeSetupConnectionError := 0x02
  messageTypeChannelEndpointChanged := 0x03
  messageTypeReconnect := 0x04

def sampleMiner : Sv2CpuMiner where
  config := {
    serverAddr := "host:3333"
    nExtendedChannels := 0
    nStandardChannels := 1
    userIdentity := "miner"
    deviceId := "cpu_miner_sv2"
    singleSubmit := false
    cpuUsagePercent := 100
    nominalHashrateMultiplier := .finite 1
    requiresStandardJobs := false }
  nominalHashrate := .finite 1

def sampleFrame (msgType : UInt8) (payload : Bytes) : StartLabel :=
  .receives (some { extType := 0, msgType, payload })

/-- The handshake, the one request for a channel, its answer and a job. -/
def sampleConnection : List StartLabel :=
  [.connected (.ok ()),
    .sends (.setupConnection (setupConnection sampleClient sampleMiner.config "host" 3333))
      (.ok ()),
    sampleFrame 0x01 [0]] ++
  (openRequests sampleMiner).map (fun request => .sends request (.ok ())) ++
  [sampleFrame 0x10 [0], sampleFrame 0x15 [1], sampleFrame 0x20 [2]]

end CpuMinerSv2.SampleWorlds
