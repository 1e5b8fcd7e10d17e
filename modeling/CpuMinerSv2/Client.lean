import CpuMinerSv2.Config
import CpuMinerSv2.Manager
import CpuMinerSv2.SinglePrecision

/-!
The connection to the mining server: `start` from the first socket to its
return, as a state machine. Connecting, the handshake and the opening of the
channels come before the loop that hands every frame to the manager. The
tasks a connection has spawned go on after `start` has returned.
-/

namespace CpuMinerSv2.Client

open Messages Channels Primitives Interference MineJob MinerMethods Manager Config

inductive Protocol where
  | miningProtocol
  | jobDeclarationProtocol
  | templateDistributionProtocol
deriving DecidableEq

structure SetupConnection where
  protocol : Protocol
  minVersion : UInt16
  maxVersion : UInt16
  flags : UInt32
  endpointHost : String
  endpointPort : UInt16
  vendor : String
  hardwareVersion : String
  firmware : String
  deviceId : String
deriving DecidableEq

structure OpenStandardMiningChannel where
  requestId : UInt32
  userIdentity : String
  nominalHashRate : F32
  maxTarget : Bytes
deriving DecidableEq

structure OpenExtendedMiningChannel where
  requestId : UInt32
  userIdentity : String
  nominalHashRate : F32
  maxTarget : Bytes
  minExtranonceSize : UInt16
deriving DecidableEq

/-- What `start` itself sends. -/
inductive ClientMessage where
  | setupConnection (m : SetupConnection)
  | openStandardMiningChannel (m : OpenStandardMiningChannel)
  | openExtendedMiningChannel (m : OpenExtendedMiningChannel)
deriving DecidableEq

structure SetupConnectionSuccess where
  usedVersion : UInt16
  flags : UInt32

structure SetupConnectionError where
  flags : UInt32
  errorCode : String

/-- Every common message a server can send. -/
inductive CommonMessage where
  | setupConnectionSuccess (m : SetupConnectionSuccess)
  | setupConnectionError (m : SetupConnectionError)
  | channelEndpointChanged (channelId : UInt32)
  | reconnect (newHost : String) (newPort : UInt16)

structure InboundFrame where
  extType : UInt16
  msgType : UInt8
  payload : Bytes

/-- The dependencies of the client: parsing a frame and choosing its handler,
and the constants of the protocol. -/
structure ClientDeps extends Deps where
  miningMessage : InboundFrame → Except Sv2CpuMinerError ServerMessage
  commonMessage : InboundFrame → Except Sv2CpuMinerError CommonMessage
  supportedProtocolVersion : UInt16
  messageTypeSetupConnectionSuccess : UInt8
  messageTypeSetupConnectionError : UInt8
  messageTypeChannelEndpointChanged : UInt8
  messageTypeReconnect : UInt8

structure Sv2CpuMiner where
  config : Sv2CpuMinerConfig
  nominalHashrate : F32

section Handshake

variable (C : ClientDeps)

def requiresFixedVersion : UInt32 := 0b01

def requiresExtendedChannels : UInt32 := 0b10

/-- `{:08x}`. -/
def hexDigits (n : UInt32) : String := String.ofList ((Nat.toDigits 16 n.toNat).leftpad 8 '0')

def handleSetupConnectionSuccess (config : Sv2CpuMinerConfig) (msg : SetupConnectionSuccess) :
    Except Sv2CpuMinerError Unit :=
  if msg.usedVersion ≠ C.supportedProtocolVersion then
    .error (.setupConnectionMismatch ("used_version " ++ toString msg.usedVersion ++
      " is not the offered version " ++ toString C.supportedProtocolVersion))
  else
    let unknownFlags := msg.flags &&& ~~~(requiresFixedVersion ||| requiresExtendedChannels)
    if unknownFlags ≠ 0 then
      .error (.setupConnectionMismatch ("flags 0x" ++ hexDigits unknownFlags ++
        " are not defined for the Mining Protocol"))
    else if msg.flags &&& requiresExtendedChannels ≠ 0 ∧ config.nStandardChannels > 0 then
      .error (.setupConnectionMismatch
        ("the mining server requires extended channels, but n_standard_channels is " ++
          toString config.nStandardChannels))
    else .ok ()

def handleCommonMessage (config : Sv2CpuMinerConfig) : CommonMessage → Except Sv2CpuMinerError Unit
  | .setupConnectionSuccess msg => handleSetupConnectionSuccess C config msg
  | .setupConnectionError _ => .error .setupConnectionFailed
  | .channelEndpointChanged _ =>
    .error (.unexpectedMessage 0 C.messageTypeChannelEndpointChanged)
  | .reconnect _ _ => .error (.unexpectedMessage 0 C.messageTypeReconnect)

/-- The offer made to the server. -/
def setupConnection (config : Sv2CpuMinerConfig) (host : String) (port : UInt16) :
    SetupConnection where
  protocol := .miningProtocol
  minVersion := C.supportedProtocolVersion
  maxVersion := C.supportedProtocolVersion
  flags := if config.requiresStandardJobs then 0b001 else 0b000
  endpointHost := host
  endpointPort := port
  vendor := ""
  hardwareVersion := ""
  firmware := ""
  deviceId := config.deviceId

/-- The reply has to be one of two messages, and has to be accepted. -/
def handleReply (config : Sv2CpuMinerConfig) (frame : InboundFrame) :
    Except Sv2CpuMinerError Unit :=
  if frame.extType ≠ 0 ∨ ¬ (frame.msgType = C.messageTypeSetupConnectionSuccess ∨
      frame.msgType = C.messageTypeSetupConnectionError) then
    .error (.unexpectedMessage frame.extType frame.msgType)
  else (C.commonMessage frame).bind (handleCommonMessage C config)

def nominalHashratePerChannel (m : Sv2CpuMiner) : F32 :=
  let totalChannels := SinglePrecision.add (SinglePrecision.ofNat m.config.nStandardChannels.toNat)
    (SinglePrecision.ofNat m.config.nExtendedChannels.toNat)
  SinglePrecision.div m.nominalHashrate totalChannels

def maxTarget : Bytes := List.replicate 32 0xFF

/-- The messages `open_channels` sends, in order. -/
def openRequests (m : Sv2CpuMiner) : List ClientMessage :=
  let advertised :=
    SinglePrecision.mul (nominalHashratePerChannel m) m.config.nominalHashrateMultiplier
  (List.range m.config.nStandardChannels.toNat).map (fun i => .openStandardMiningChannel {
    requestId := UInt32.ofNat i
    userIdentity := m.config.userIdentity
    nominalHashRate := advertised
    maxTarget }) ++
  (List.range m.config.nExtendedChannels.toNat).map (fun i => .openExtendedMiningChannel {
    requestId := UInt32.ofNat i + UInt32.ofNat m.config.nStandardChannels.toNat
    userIdentity := m.config.userIdentity
    nominalHashRate := advertised
    maxTarget
    minExtranonceSize := 0 })

end Handshake

/-- Where `start` stands. -/
inductive Start (C : ClientDeps) where
  | connecting (amb : Ambient)
  /-- about to send its offer -/
  | handshaking (amb : Ambient) (offer : SetupConnection)
  | awaitingReply (amb : Ambient)
  /-- about to send the first of these requests -/
  | opening (w : World C.toDeps) (requests : List ClientMessage)
  /-- at the select of the loop -/
  | serving (w : World C.toDeps)
  /-- returned before there was a manager -/
  | failed (e : Sv2CpuMinerError)
  /-- returned; the tasks are detached -/
  | returned (r : Except Sv2CpuMinerError Unit) (w : World C.toDeps)
  | panicked (reason : String)

/-- The manager with its miners, once there is one. -/
def worldOf {C : ClientDeps} : Start C → Option (World C.toDeps)
  | .opening w _ | .serving w | .returned _ w => some w
  | _ => none

inductive StartLabel where
  /-- a step of a task, a tick or a shutdown -/
  | event (e : WorldEvent)
  | connected (r : Except Sv2CpuMinerError Unit)
  | sends (m : ClientMessage) (r : Except Sv2CpuMinerError Unit)
  /-- a frame, or the closed receiver -/
  | receives (frame : Option InboundFrame)
  /-- the select takes the cancelled token -/
  | cancelled

section Steps

variable {C : ClientDeps}

/-- The errors of the socket and of the Noise handshake. -/
def ConnectError : Sv2CpuMinerError → Bool
  | .io _ | .networkHelpers _ => true
  | _ => false

/-- The errors of serialising and of queueing a frame. -/
def SendError : Sv2CpuMinerError → Bool
  | .parser _ | .channelErrorSender => true
  | _ => false

/-- The handshake up to the point where its offer is sent. -/
def beginHandshake (C : ClientDeps) (m : Sv2CpuMiner) (amb : Ambient) : Start C :=
  match m.config.serverHostAndPort with
  | .error e => .failed e
  | .ok (host, port) =>
    if !fitsStr0255 host then .panicked "host length checked at config load"
    else if !fitsStr0255 m.config.deviceId then .panicked "device_id length checked at config load"
    else .handshaking amb (setupConnection C m.config host port)

/-- `open_channels` up to the next message, or the loop after the last one. -/
def openNext (m : Sv2CpuMiner) (w : World C.toDeps) : List ClientMessage → Start C
  | [] => .serving w
  | request :: rest =>
    if !fitsStr0255 m.config.userIdentity then
      .panicked "user_identity length checked at config load"
    else .opening w (request :: rest)

/-- The manager is made once the reply has been accepted. -/
def afterReply (m : Sv2CpuMiner) (amb : Ambient) (frame : InboundFrame) : Start C :=
  match handleReply C m.config frame with
  | .error e => .failed e
  | .ok _ =>
    openNext m (World.initial (ChannelManager.new m.config.userIdentity
      (nominalHashratePerChannel m) m.config.singleSubmit m.config.cpuUsagePercent.toNat
      m.config.requiresStandardJobs) amb) (openRequests m)

/-- Before there is a manager there are no tasks. -/
def advanceAmbient (amb : Ambient) : WorldEvent → Option Ambient
  | .task _ _ _ _ => none
  | .tick elapsed => some { amb with now := amb.now + elapsed }
  | .shutdown => some { amb with globalCancelled := true }

def Start.happens (e : WorldEvent) : Start C → Option (Start C)
  | .connecting amb => (advanceAmbient amb e).map .connecting
  | .handshaking amb offer => (advanceAmbient amb e).map (.handshaking · offer)
  | .awaitingReply amb => (advanceAmbient amb e).map .awaitingReply
  | .opening w requests => (w.advance e).map (.opening · requests)
  | .serving w => (w.advance e).map .serving
  | .returned r w => (w.advance e).map (.returned r)
  | .failed _ | .panicked _ => none

def cancelConnection (w : World C.toDeps) : World C.toDeps :=
  { w with ambient := { w.ambient with globalCancelled := true } }

/-- Every step but the handling of a mining message. -/
def Start.advance (m : Sv2CpuMiner) : Start C → StartLabel → Option (Start C)
  | s, .event e => s.happens e
  | .connecting amb, .connected (.ok _) => some (beginHandshake C m amb)
  | .connecting _, .connected (.error e) => if ConnectError e then some (.failed e) else none
  | .handshaking amb offer, .sends message r =>
    if message = .setupConnection offer then
      match r with
      | .ok _ => some (.awaitingReply amb)
      | .error e => if SendError e then some (.failed e) else none
    else none
  | .awaitingReply _, .receives none => some (.failed .channelErrorReceiver)
  | .awaitingReply amb, .receives (some frame) => some (afterReply m amb frame)
  | .opening w (request :: rest), .sends message r =>
    if message = request then
      match r with
      | .ok _ => some (openNext m w rest)
      | .error e => if SendError e then some (.returned (.error e) w) else none
    else none
  | .serving w, .cancelled =>
    if w.ambient.globalCancelled then some (.returned (.ok ()) w) else none
  -- the server has closed the connection
  | .serving w, .receives none => some (.returned (.ok ()) (cancelConnection w))
  | .serving w, .receives (some frame) =>
    match C.miningMessage frame with
    | .error e => some (.returned (.error e) w)
    | .ok _ => none
  | _, _ => none

/-- A handler error is propagated. -/
def afterHandler (w : World C.toDeps) : Except Sv2CpuMinerError Unit → Start C
  | .ok _ => .serving w
  | .error e => .returned (.error e) w

/-- One step of a run of `start`. -/
inductive StartStep (m : Sv2CpuMiner) : Start C → StartLabel → Start C → Prop
  | control {s s' : Start C} {l : StartLabel} (h : s.advance m l = some s') : StartStep m s l s'
  | frame {w w' : World C.toDeps} {frame : InboundFrame} {message : ServerMessage}
      {r : Except Sv2CpuMinerError Unit} (hm : C.miningMessage frame = .ok message)
      (h : Runs WorldInterferes (handle message) w r w') :
      StartStep m (.serving w) (.receives (some frame)) (afterHandler w' r)

/-- What a step of the control flow can do. -/
inductive Control (m : Sv2CpuMiner) : Start C → StartLabel → Start C → Prop
  | happens {s s' : Start C} {e : WorldEvent} (h : s.happens e = some s') :
      Control m s (.event e) s'
  | connects {amb : Ambient} :
      Control m (.connecting amb) (.connected (.ok ())) (beginHandshake C m amb)
  | noConnection {amb : Ambient} {e : Sv2CpuMinerError} (h : ConnectError e = true) :
      Control m (.connecting amb) (.connected (.error e)) (.failed e)
  | offers {amb : Ambient} {offer : SetupConnection} :
      Control m (.handshaking amb offer) (.sends (.setupConnection offer) (.ok ()))
        (.awaitingReply amb)
  | noOffer {amb : Ambient} {offer : SetupConnection} {e : Sv2CpuMinerError}
      (h : SendError e = true) :
      Control m (.handshaking amb offer) (.sends (.setupConnection offer) (.error e)) (.failed e)
  | noReply {amb : Ambient} :
      Control m (.awaitingReply amb) (.receives none) (.failed .channelErrorReceiver)
  | replied {amb : Ambient} {frame : InboundFrame} :
      Control m (.awaitingReply amb) (.receives (some frame)) (afterReply m amb frame)
  | requested {w : World C.toDeps} {request : ClientMessage} {rest : List ClientMessage} :
      Control m (.opening w (request :: rest)) (.sends request (.ok ())) (openNext m w rest)
  | noRequest {w : World C.toDeps} {request : ClientMessage} {rest : List ClientMessage}
      {e : Sv2CpuMinerError} (h : SendError e = true) :
      Control m (.opening w (request :: rest)) (.sends request (.error e)) (.returned (.error e) w)
  | stopped {w : World C.toDeps} (h : w.ambient.globalCancelled = true) :
      Control m (.serving w) .cancelled (.returned (.ok ()) w)
  | closed {w : World C.toDeps} :
      Control m (.serving w) (.receives none) (.returned (.ok ()) (cancelConnection w))
  | unparsed {w : World C.toDeps} {frame : InboundFrame} {e : Sv2CpuMinerError}
      (h : C.miningMessage frame = .error e) :
      Control m (.serving w) (.receives (some frame)) (.returned (.error e) w)

/-- Every step but the handling of a mining message is in the list. -/
theorem control_cases {m : Sv2CpuMiner} {s s' : Start C} {l : StartLabel}
    (h : s.advance m l = some s') : Control m s l s' := by
  unfold Start.advance at h
  split at h
  case h_1 => exact .happens h
  case h_2 =>
    cases h
    exact .connects
  case h_3 =>
    split at h
    · rename_i herror
      cases h
      exact .noConnection herror
    · contradiction
  case h_4 =>
    split at h
    · rename_i hmessage
      subst hmessage
      split at h
      · cases h
        exact .offers
      · split at h
        · rename_i herror
          cases h
          exact .noOffer herror
        · contradiction
    · contradiction
  case h_5 =>
    cases h
    exact .noReply
  case h_6 =>
    cases h
    exact .replied
  case h_7 =>
    split at h
    · rename_i hmessage
      subst hmessage
      split at h
      · cases h
        exact .requested
      · split at h
        · rename_i herror
          cases h
          exact .noRequest herror
        · contradiction
    · contradiction
  case h_8 =>
    split at h
    · rename_i hcancelled
      cases h
      exact .stopped hcancelled
    · contradiction
  case h_9 =>
    cases h
    exact .closed
  case h_10 =>
    split at h
    · rename_i herror
      cases h
      exact .unparsed herror
    · contradiction
  case h_11 => contradiction

/-- An executable step: a handler runs without interruption. -/
def Start.execute (m : Sv2CpuMiner) (s : Start C) (l : StartLabel) : Option (Start C) :=
  match s, l with
  | .serving w, .receives (some frame) =>
    match C.miningMessage frame with
    | .error e => some (.returned (.error e) w)
    | .ok message => some (afterHandler ((handle message).eval w).2 ((handle message).eval w).1)
  | s, l => s.advance m l

theorem startStep_of_execute {m : Sv2CpuMiner} {s s' : Start C} {l : StartLabel}
    (h : s.execute m l = some s') : StartStep m s l s' := by
  unfold Start.execute at h
  split at h
  · rename_i w frame
    split at h
    · rename_i e he
      refine .control ?_
      simp only [Start.advance, he]
      exact h
    · rename_i message hm
      cases h
      exact .frame hm (runs_eval (handle message) w)
  · exact .control h

end Steps

end CpuMinerSv2.Client
