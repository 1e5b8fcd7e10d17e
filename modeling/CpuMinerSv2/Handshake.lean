import CpuMinerSv2.SampleWorlds

/-!
What has to be agreed before a channel is asked for. The first frame decides:
`start` goes on when it is a success with the offered version and no undefined
flag, and when a demand for extended channels is met by the configuration. A
valid configuration that asks for extended channels only has not declared that
it requires standard jobs, which no single check says.
-/

namespace CpuMinerSv2.Handshake

open Messages Channels Primitives MineJob Manager Config Client SampleWorlds

theorem testBit_high (flags : UInt32) {i : ℕ} (hi : ¬ i < 32) : flags.toNat.testBit i = false := by
  apply Nat.testBit_lt_two_pow
  calc
    flags.toNat < 2 ^ 32 := flags.toNat_lt
    _ ≤ 2 ^ i := Nat.pow_le_pow_right (by decide) (by omega)

theorem and_eq_zero_iff (flags mask : UInt32) :
    flags &&& mask = 0 ↔
      ∀ i, i < 32 → mask.toNat.testBit i = true → flags.toNat.testBit i = false := by
  rw [← UInt32.toNat_inj, UInt32.toNat_and]
  constructor
  · intro hzero i _ hmask
    have hbit := congrArg (fun n => n.testBit i) hzero
    simp only [Nat.testBit_and, hmask, Bool.and_true] at hbit
    exact hbit.trans (Nat.zero_testBit i)
  · intro hbits
    apply Nat.eq_of_testBit_eq
    intro i
    rw [Nat.testBit_and, UInt32.toNat_zero, Nat.zero_testBit, Bool.and_eq_false_iff]
    by_cases hi : i < 32
    · cases hmask : mask.toNat.testBit i with
      | false => exact .inr rfl
      | true => exact .inl (hbits i hi hmask)
    · exact .inl (testBit_high flags hi)

theorem undefinedFlags_eq_zero_iff (flags : UInt32) :
    flags &&& ~~~(requiresFixedVersion ||| requiresExtendedChannels) = 0 ↔
      ∀ i, 2 ≤ i → flags.toNat.testBit i = false := by
  have hmask : ∀ i, i < 32 → ((~~~(requiresFixedVersion ||| requiresExtendedChannels)).toNat.testBit
      i = decide (2 ≤ i)) := by decide
  rw [and_eq_zero_iff]
  constructor
  · intro hzero i hi
    by_cases hlt : i < 32
    · apply hzero i hlt
      rw [hmask i hlt, decide_eq_true hi]
    · exact testBit_high flags hlt
  · intro hbits i hlt hset
    rw [hmask i hlt] at hset
    exact hbits i (of_decide_eq_true hset)

theorem requiresExtended_iff (flags : UInt32) :
    flags &&& requiresExtendedChannels ≠ 0 ↔ flags.toNat.testBit 1 = true := by
  have hmask : ∀ i, i < 32 → (requiresExtendedChannels.toNat.testBit i = decide (i = 1)) := by
    decide
  rw [← Bool.not_eq_false, not_iff_not, and_eq_zero_iff]
  constructor
  · intro hzero
    exact hzero 1 (by omega) (hmask 1 (by omega))
  · intro hbit i hlt hset
    rw [hmask i hlt] at hset
    rw [of_decide_eq_true hset, hbit]

section Reply

variable (C : ClientDeps)

/-- The message type of a common message. -/
def messageType : CommonMessage → UInt8
  | .setupConnectionSuccess _ => C.messageTypeSetupConnectionSuccess
  | .setupConnectionError _ => C.messageTypeSetupConnectionError
  | .channelEndpointChanged _ => C.messageTypeChannelEndpointChanged
  | .reconnect _ _ => C.messageTypeReconnect

/-- What the client relies on: the handler of the frame's message type is
called, or the frame does not parse. -/
def DispatchContract : Prop :=
  ∀ frame message, C.commonMessage frame = .ok message → messageType C message = frame.msgType

/-- A reply on which both sides agree. -/
structure Agrees (m : Sv2CpuMiner) (frame : InboundFrame) (msg : SetupConnectionSuccess) :
    Prop where
  core : frame.extType = 0
  success : frame.msgType = C.messageTypeSetupConnectionSuccess
  parsed : C.commonMessage frame = .ok (.setupConnectionSuccess msg)
  version : ∀ host port, (setupConnection C m.config host port).minVersion = msg.usedVersion ∧
    (setupConnection C m.config host port).maxVersion = msg.usedVersion
  definedFlags : ∀ i, 2 ≤ i → msg.flags.toNat.testBit i = false
  extendedOnly : msg.flags.toNat.testBit 1 = true →
    (∀ request ∈ openRequests m, ∃ o, request = .openExtendedMiningChannel o) ∧
      ∀ host port, (setupConnection C m.config host port).flags.toNat.testBit 0 = false

variable {C}

theorem extendedRequests_iff (m : Sv2CpuMiner) :
    (∀ request ∈ openRequests m, ∃ o, request = .openExtendedMiningChannel o) ↔
      m.config.nStandardChannels = 0 := by
  constructor
  · intro hall
    by_contra hne
    have hpos : 0 < m.config.nStandardChannels.toNat := by
      have hzero : m.config.nStandardChannels.toNat ≠ 0 :=
        fun h => hne (UInt8.toNat_inj.mp h)
      omega
    have hfirst := List.mem_range.mpr hpos
    obtain ⟨o, ho⟩ := hall _ (List.mem_append_left _ (List.mem_map_of_mem hfirst))
    contradiction
  · intro hnone request hrequest
    simp only [openRequests, hnone, UInt8.toNat_zero, List.range_zero, List.map_nil,
      List.nil_append, List.mem_map] at hrequest
    obtain ⟨i, _, rfl⟩ := hrequest
    exact ⟨_, rfl⟩

/-- A valid configuration without standard channels has extended ones, hence
does not require standard jobs. -/
theorem offer_of_extendedOnly {m : Sv2CpuMiner} (hvalid : Valid m.config)
    (hnone : m.config.nStandardChannels = 0) (host : String) (port : UInt16) :
    (setupConnection C m.config host port).flags.toNat.testBit 0 = false := by
  have hchannels := hvalid.channels
  cases hrequired : m.config.requiresStandardJobs with
  | false => simp [setupConnection, hrequired]
  | true =>
    rw [hvalid.standardJobs hrequired, hnone] at hchannels
    contradiction

theorem handleSuccess_ok_iff (config : Sv2CpuMinerConfig) (msg : SetupConnectionSuccess) :
    handleSetupConnectionSuccess C config msg = .ok () ↔
      msg.usedVersion = C.supportedProtocolVersion ∧
      (∀ i, 2 ≤ i → msg.flags.toNat.testBit i = false) ∧
      (msg.flags.toNat.testBit 1 = true → config.nStandardChannels = 0) := by
  unfold handleSetupConnectionSuccess
  simp only [check_ok_iff, not_not, and_true, undefinedFlags_eq_zero_iff, requiresExtended_iff,
    not_and, UInt8.pos_iff_ne_zero]

/-- `start` accepts exactly the replies on which both sides agree. -/
theorem handleReply_ok_iff (hC : DispatchContract C) {m : Sv2CpuMiner} (hvalid : Valid m.config)
    (frame : InboundFrame) :
    handleReply C m.config frame = .ok () ↔ ∃ msg, Agrees C m frame msg := by
  unfold handleReply
  rw [check_ok_iff]
  constructor
  · intro haccepted
    obtain ⟨hheader, hreply⟩ := haccepted
    rw [not_or, not_not] at hheader
    cases hparsed : C.commonMessage frame with
    | error e =>
      rw [hparsed] at hreply
      contradiction
    | ok message =>
      rw [hparsed] at hreply
      change handleCommonMessage C m.config message = .ok () at hreply
      cases message with
      | setupConnectionSuccess msg =>
        obtain ⟨hversion, hflags, hextended⟩ := (handleSuccess_ok_iff m.config msg).mp hreply
        refine ⟨msg, hheader.1, (hC frame _ hparsed).symm, hparsed, ?_, hflags, ?_⟩
        · exact fun host port => ⟨hversion.symm, hversion.symm⟩
        · intro hrequires
          have hnone := hextended hrequires
          exact ⟨(extendedRequests_iff m).mpr hnone, offer_of_extendedOnly hvalid hnone⟩
      | _ => contradiction
  · intro hagrees
    obtain ⟨msg, h⟩ := hagrees
    refine ⟨?_, ?_⟩
    · rw [h.core, h.success]
      simp
    · rw [h.parsed]
      change handleSetupConnectionSuccess C m.config msg = .ok ()
      rw [handleSuccess_ok_iff]
      refine ⟨(h.version "" 0).1.symm, h.definedFlags, ?_⟩
      intro hrequires
      exact (extendedRequests_iff m).mp (h.extendedOnly hrequires).1

end Reply

def Sends (ls : List StartLabel) (message : ClientMessage) : Prop :=
  ∃ r, StartLabel.sends message r ∈ ls

def frameOf : StartLabel → Option InboundFrame
  | .receives frame => frame
  | _ => none

def firstFrame (ls : List StartLabel) : Option InboundFrame := ls.findSome? frameOf

theorem sends_snoc {ls : List StartLabel} {l : StartLabel} {message : ClientMessage}
    (h : Sends (ls ++ [l]) message) : Sends ls message ∨ ∃ r, l = .sends message r := by
  obtain ⟨r, hr⟩ := h
  rcases List.mem_append.mp hr with hold | hnew
  · exact .inl ⟨r, hold⟩
  · exact .inr ⟨r, (List.mem_singleton.mp hnew).symm⟩

theorem firstFrame_snoc (ls : List StartLabel) (l : StartLabel) :
    firstFrame (ls ++ [l]) = (firstFrame ls).or (frameOf l) := by
  simp [firstFrame, List.findSome?_append]

section Runs

variable (C : ClientDeps)

def IsOffer (m : Sv2CpuMiner) (message : ClientMessage) : Prop :=
  ∃ host port, message = .setupConnection (setupConnection C m.config host port)

/-- Nothing but the offer has been sent. -/
def OffersOnly (m : Sv2CpuMiner) (ls : List StartLabel) : Prop :=
  ∀ message, Sends ls message → IsOffer C m message

/-- The first frame was accepted, and what was sent is the offer or requested. -/
structure Agreed (m : Sv2CpuMiner) (ls : List StartLabel) : Prop where
  sent : ∀ message, Sends ls message → IsOffer C m message ∨ message ∈ openRequests m
  accepted : ∃ frame, firstFrame ls = some frame ∧ handleReply C m.config frame = .ok ()

/-- What holds at each point of `start`. -/
def Negotiated (m : Sv2CpuMiner) (ls : List StartLabel) : Start C → Prop
  | .connecting _ | .awaitingReply _ => OffersOnly C m ls ∧ firstFrame ls = none
  | .handshaking _ offer =>
    (OffersOnly C m ls ∧ firstFrame ls = none) ∧ IsOffer C m (.setupConnection offer)
  | .opening _ requests => Agreed C m ls ∧ ∀ request ∈ requests, request ∈ openRequests m
  | .serving _ | .returned _ _ => Agreed C m ls
  | .failed e => OffersOnly C m ls ∧
    ∀ frame, firstFrame ls = some frame → handleReply C m.config frame = .error e
  | .panicked _ => False

variable {C}

theorem OffersOnly.snoc {m : Sv2CpuMiner} {ls : List StartLabel} (h : OffersOnly C m ls)
    {l : StartLabel} (hl : ∀ message r, l = .sends message r → IsOffer C m message) :
    OffersOnly C m (ls ++ [l]) := by
  intro message hsends
  rcases sends_snoc hsends with hold | ⟨r, hr⟩
  · exact h message hold
  · exact hl message r hr

theorem Agreed.snoc {m : Sv2CpuMiner} {ls : List StartLabel} (h : Agreed C m ls) {l : StartLabel}
    (hl : ∀ message r, l = .sends message r → message ∈ openRequests m) :
    Agreed C m (ls ++ [l]) := by
  refine ⟨?_, ?_⟩
  · intro message hsends
    rcases sends_snoc hsends with hold | ⟨r, hr⟩
    · exact h.sent message hold
    · exact .inr (hl message r hr)
  · obtain ⟨frame, hfirst, haccepted⟩ := h.accepted
    refine ⟨frame, ?_, haccepted⟩
    rw [firstFrame_snoc, hfirst]
    rfl

theorem Negotiated.silent {m : Sv2CpuMiner} {ls : List StartLabel} {l : StartLabel}
    (hframe : frameOf l = none) (hsends : ∀ message r, l ≠ .sends message r) {s : Start C}
    (h : Negotiated C m ls s) : Negotiated C m (ls ++ [l]) s := by
  have hfirst : firstFrame (ls ++ [l]) = firstFrame ls := by
    rw [firstFrame_snoc, hframe, Option.or_none]
  have hoffers : OffersOnly C m ls → OffersOnly C m (ls ++ [l]) :=
    fun ho => ho.snoc fun message r he => absurd he (hsends message r)
  have hagreed : Agreed C m ls → Agreed C m (ls ++ [l]) :=
    fun ha => ha.snoc fun message r he => absurd he (hsends message r)
  cases s with
  | connecting amb => exact ⟨hoffers h.1, hfirst.trans h.2⟩
  | awaitingReply amb => exact ⟨hoffers h.1, hfirst.trans h.2⟩
  | handshaking amb offer => exact ⟨⟨hoffers h.1.1, hfirst.trans h.1.2⟩, h.2⟩
  | opening w requests => exact ⟨hagreed h.1, h.2⟩
  | serving w => exact hagreed h
  | returned r w => exact hagreed h
  | failed e => exact ⟨hoffers h.1, fun frame hf => h.2 frame (hfirst.symm.trans hf)⟩
  | panicked reason => exact h

theorem openNext_negotiated {m : Sv2CpuMiner} (hvalid : Valid m.config) {ls : List StartLabel}
    (h : Agreed C m ls) (w : World C.toDeps) {requests : List ClientMessage}
    (hsub : ∀ request ∈ requests, request ∈ openRequests m) :
    Negotiated C m ls (openNext m w requests) := by
  cases requests with
  | nil => exact h
  | cons request rest =>
    simp only [openNext, hvalid.userIdentity]
    exact ⟨h, hsub⟩

theorem happens_negotiated {m : Sv2CpuMiner} {ls : List StartLabel} {s s' : Start C}
    {e : WorldEvent} (h : s.happens e = some s') (hs : Negotiated C m ls s) :
    Negotiated C m ls s' := by
  cases s with
  | failed e => contradiction
  | panicked reason => contradiction
  | _ =>
    obtain ⟨_, _, rfl⟩ := Option.map_eq_some_iff.mp h
    exact hs

theorem beginHandshake_negotiated {m : Sv2CpuMiner} (hvalid : Valid m.config)
    {ls : List StartLabel} (h : OffersOnly C m ls ∧ firstFrame ls = none) (amb : Ambient) :
    Negotiated C m ls (beginHandshake C m amb) := by
  obtain ⟨host, port, haddress, _, hhost⟩ := hvalid.host
  simp only [beginHandshake, haddress, hhost, hvalid.deviceId]
  exact ⟨h, host, port, rfl⟩

theorem afterReply_negotiated {m : Sv2CpuMiner} (hvalid : Valid m.config) {ls : List StartLabel}
    (h : OffersOnly C m ls ∧ firstFrame ls = none) (amb : Ambient) (frame : InboundFrame) :
    Negotiated C m (ls ++ [.receives (some frame)]) (afterReply m amb frame) := by
  have hoffers : OffersOnly C m (ls ++ [.receives (some frame)]) :=
    h.1.snoc fun _ _ he => nomatch he
  have hfirst : firstFrame (ls ++ [.receives (some frame)]) = some frame := by
    rw [firstFrame_snoc, h.2]
    rfl
  unfold afterReply
  cases hreply : handleReply C m.config frame with
  | error e =>
    refine ⟨hoffers, ?_⟩
    intro frame' hframe'
    cases hfirst.symm.trans hframe'
    exact hreply
  | ok u =>
    refine openNext_negotiated hvalid ⟨?_, frame, hfirst, hreply⟩ _ (fun _ hr => hr)
    exact fun message hsends => .inl (hoffers message hsends)

theorem failed_negotiated {m : Sv2CpuMiner} {ls : List StartLabel}
    (h : OffersOnly C m ls ∧ firstFrame ls = none) (e : Sv2CpuMinerError) :
    Negotiated C m ls (.failed e) := by
  refine ⟨h.1, ?_⟩
  intro frame hframe
  rw [h.2] at hframe
  contradiction

theorem offer_sent {m : Sv2CpuMiner} {ls : List StartLabel}
    (h : OffersOnly C m ls ∧ firstFrame ls = none) {message : ClientMessage}
    (hoffer : IsOffer C m message) (r : Except Sv2CpuMinerError Unit) :
    OffersOnly C m (ls ++ [.sends message r]) ∧ firstFrame (ls ++ [.sends message r]) = none := by
  constructor
  · apply h.1.snoc
    intro message' r' he
    cases he
    exact hoffer
  · rw [firstFrame_snoc, h.2]
    rfl

theorem request_sent {m : Sv2CpuMiner} {ls : List StartLabel} (h : Agreed C m ls)
    {message : ClientMessage} (hrequest : message ∈ openRequests m)
    (r : Except Sv2CpuMinerError Unit) : Agreed C m (ls ++ [.sends message r]) := by
  apply h.snoc
  intro message' r' he
  cases he
  exact hrequest

theorem control_negotiated {m : Sv2CpuMiner} (hvalid : Valid m.config) {ls : List StartLabel}
    {s s' : Start C} {l : StartLabel} (h : s.advance m l = some s') (hs : Negotiated C m ls s) :
    Negotiated C m (ls ++ [l]) s' := by
  cases control_cases h with
  | happens h =>
    exact Negotiated.silent (l := .event _) rfl (fun _ _ he => nomatch he)
      (happens_negotiated h hs)
  | connects =>
    exact Negotiated.silent (l := .connected _) rfl (fun _ _ he => nomatch he)
      (beginHandshake_negotiated hvalid hs _)
  | noConnection =>
    exact Negotiated.silent (l := .connected _) rfl (fun _ _ he => nomatch he)
      (failed_negotiated hs _)
  | offers => exact offer_sent hs.1 hs.2 _
  | noOffer => exact failed_negotiated (offer_sent hs.1 hs.2 _) _
  | noReply =>
    exact Negotiated.silent (l := .receives none) rfl (fun _ _ he => nomatch he)
      (failed_negotiated hs _)
  | replied => exact afterReply_negotiated hvalid hs _ _
  | @requested w request rest =>
    have hsent := request_sent hs.1 (hs.2 _ List.mem_cons_self) (.ok ())
    exact openNext_negotiated hvalid hsent w
      (fun request hr => hs.2 request (List.mem_cons_of_mem _ hr))
  | noRequest => exact request_sent hs.1 (hs.2 _ List.mem_cons_self) _
  | stopped => exact hs.snoc fun _ _ he => nomatch he
  | closed => exact hs.snoc fun _ _ he => nomatch he
  | unparsed => exact hs.snoc fun _ _ he => nomatch he

theorem step_negotiated {m : Sv2CpuMiner} (hvalid : Valid m.config) {ls : List StartLabel}
    {s s' : Start C} {l : StartLabel} (h : StartStep m s l s') (hs : Negotiated C m ls s) :
    Negotiated C m (ls ++ [l]) s' := by
  cases h with
  | control h => exact control_negotiated hvalid h hs
  | @frame w w' frame message r hm hrun =>
    have hagreed : Agreed C m (ls ++ [.receives (some frame)]) := hs.snoc fun _ _ he => nomatch he
    cases r with
    | ok u => exact hagreed
    | error e => exact hagreed

theorem run_negotiated {m : Sv2CpuMiner} (hvalid : Valid m.config) {amb : Ambient}
    {ls : List StartLabel} {s : Start C} (hrun : Run (StartStep m) (.connecting amb) ls s) :
    Negotiated C m ls s := by
  refine hrun.history (I := Negotiated C m) ?_ ?_
  · refine ⟨?_, rfl⟩
    intro message hsends
    obtain ⟨r, hr⟩ := hsends
    contradiction
  · exact fun ls s l s' _ hs hstep => step_negotiated hvalid hstep hs

/-- A request follows a first frame on which both sides agree, and after any
other first frame `start` has failed without sending one. -/
structure RequestsAgreed (C : ClientDeps) (m : Sv2CpuMiner) (ls : List StartLabel) (s : Start C) :
    Prop where
  sent : ∀ message, Sends ls message → IsOffer C m message ∨ message ∈ openRequests m ∧
    ∃ frame msg, firstFrame ls = some frame ∧ Agrees C m frame msg
  refused : ∀ frame, firstFrame ls = some frame → (¬ ∃ msg, Agrees C m frame msg) →
    (∃ e, s = .failed e) ∧ ∀ message, Sends ls message → IsOffer C m message

theorem OffersOnly.requestsAgreed {m : Sv2CpuMiner} {ls : List StartLabel} {s : Start C}
    (h : OffersOnly C m ls) (hfailed : firstFrame ls = none ∨ ∃ e, s = .failed e) :
    RequestsAgreed C m ls s := by
  refine ⟨fun message hsends => .inl (h message hsends), ?_⟩
  intro frame hframe _
  rcases hfailed with hnone | hfailed
  · rw [hnone] at hframe
    contradiction
  · exact ⟨hfailed, h⟩

theorem Agreed.requestsAgreed (hC : DispatchContract C) {m : Sv2CpuMiner} (hvalid : Valid m.config)
    {ls : List StartLabel} (h : Agreed C m ls) (s : Start C) : RequestsAgreed C m ls s := by
  obtain ⟨frame, hframe, haccepted⟩ := h.accepted
  obtain ⟨msg, hmsg⟩ := (handleReply_ok_iff hC hvalid frame).mp haccepted
  refine ⟨?_, ?_⟩
  · intro message hsends
    rcases h.sent message hsends with hoffer | hrequest
    · exact .inl hoffer
    · exact .inr ⟨hrequest, frame, msg, hframe, hmsg⟩
  · intro frame' hframe' hnot
    cases hframe.symm.trans hframe'
    exact absurd ⟨msg, hmsg⟩ hnot

/-- At each point of a run of `start` with a validated configuration, whatever
the first frame was. -/
theorem requests_follow_agreement (C : ClientDeps) (hC : DispatchContract C) (m : Sv2CpuMiner)
    (hvalid : m.config.validate = .ok ()) (amb : Ambient) (ls : List StartLabel) (s : Start C)
    (hrun : Run (StartStep m) (.connecting amb) ls s) : RequestsAgreed C m ls s := by
  have hconfig := (validate_ok_iff m.config).mp hvalid
  have hinv := run_negotiated hconfig hrun
  cases s with
  | connecting amb => exact hinv.1.requestsAgreed (.inl hinv.2)
  | handshaking amb offer => exact hinv.1.1.requestsAgreed (.inl hinv.1.2)
  | awaitingReply amb => exact hinv.1.requestsAgreed (.inl hinv.2)
  | opening w requests => exact hinv.1.requestsAgreed hC hconfig _
  | serving w => exact Agreed.requestsAgreed hC hconfig hinv _
  | failed e => exact hinv.1.requestsAgreed (.inr ⟨e, rfl⟩)
  | returned r w => exact Agreed.requestsAgreed hC hconfig hinv _
  | panicked reason => exact hinv.elim

end Runs

/-- Two bytes of version and the low byte of the flags. -/
def replyingClient : ClientDeps :=
  { sampleClient with
    commonMessage := fun frame =>
      if frame.msgType = 0x01 then
        match frame.payload with
        | [low, high, flags] => .ok (.setupConnectionSuccess {
            usedVersion := low.toUInt16 + 256 * high.toUInt16
            flags := flags.toUInt32 })
        | _ => .error (.parser "unknown payload")
      else if frame.msgType = 0x02 then
        .ok (.setupConnectionError { flags := 0, errorCode := "" })
      else .error (.parser "unknown message type") }

theorem replyingClient_dispatch : DispatchContract replyingClient := by
  intro frame message h
  simp only [replyingClient] at h
  split at h
  · rename_i htype
    split at h
    · cases h
      exact htype.symm
    · contradiction
  · split at h
    · rename_i htype
      cases h
      exact htype.symm
    · contradiction

/-- One extended channel and no standard one. -/
def extendedMiner : Sv2CpuMiner :=
  { sampleMiner with
    config := { sampleMiner.config with nExtendedChannels := 1, nStandardChannels := 0 } }

/-- The server requires a fixed version and extended channels. -/
def extendedConnection : List StartLabel :=
  [.connected (.ok ()),
    .sends (.setupConnection (setupConnection replyingClient extendedMiner.config "host" 3333))
      (.ok ()),
    sampleFrame 0x01 [2, 0, 3]] ++
  (openRequests extendedMiner).map (fun request => .sends request (.ok ()))

theorem sample_requests_agreed :
    ∃ s, play (Start.execute extendedMiner) (.connecting ⟨0, false⟩) extendedConnection = some s ∧
      RequestsAgreed replyingClient extendedMiner extendedConnection s := by
  have hplay : (play (Start.execute extendedMiner) (.connecting ⟨0, false⟩ : Start replyingClient)
      extendedConnection).isSome = true := by decide +kernel
  obtain ⟨s, hs⟩ := Option.isSome_iff_exists.mp hplay
  have hrun := run_of_play (f := Start.execute extendedMiner)
    (fun _ _ _ h => startStep_of_execute h) hs
  exact ⟨s, hs, requests_follow_agreement replyingClient replyingClient_dispatch extendedMiner
    (by decide +kernel) ⟨0, false⟩ extendedConnection s hrun⟩

end CpuMinerSv2.Handshake
