import CpuMinerSv2.Histories
import CpuMinerSv2.ValidatedRuns

/-!
What `start` says and what it hears. It says the offer and then the requests,
in this order and each once, and an interruption cuts this short. The frames
it hears after the reply are the messages its manager handles, so the world of
a connection is one that a manager reaches on them, and each of its miners is
one that a single miner reaches by itself.
-/

namespace CpuMinerSv2.Conversation

open Messages Primitives Interference MineJob Manager Deliveries Config Client Handshake
  ValidatedRuns Histories SampleWorlds

variable {C : ClientDeps}

/-- What has been sent, or could not be sent, in order. -/
def spoken (ls : List StartLabel) : List ClientMessage :=
  ls.filterMap fun l => match l with
    | .sends message _ => some message
    | _ => none

/-- All there is to say to this address. -/
def script (C : ClientDeps) (m : Sv2CpuMiner) (host : String) (port : UInt16) :
    List ClientMessage :=
  .setupConnection (setupConnection C m.config host port) :: openRequests m

/-- This much of what there is to say has not been said. -/
def Unsaid (C : ClientDeps) (m : Sv2CpuMiner) (ls : List StartLabel) (rest : List ClientMessage) :
    Prop :=
  ∃ host port, m.config.serverHostAndPort = .ok (host, port) ∧
    spoken ls ++ rest = script C m host port

/-- What is left to say at each point of `start`. -/
def Speaking (m : Sv2CpuMiner) (ls : List StartLabel) : Start C → Prop
  | .connecting _ => spoken ls = []
  | .handshaking _ offer => Unsaid C m ls (.setupConnection offer :: openRequests m)
  | .awaitingReply _ => Unsaid C m ls (openRequests m)
  | .opening _ requests => Unsaid C m ls requests
  | .serving _ => Unsaid C m ls []
  | .failed _ | .returned _ _ | .panicked _ => spoken ls = [] ∨ ∃ rest, Unsaid C m ls rest

theorem spoken_snoc (ls : List StartLabel) (l : StartLabel) :
    spoken (ls ++ [l]) = spoken ls ++ spoken [l] := List.filterMap_append

theorem spoken_silent {l : StartLabel} (hl : ∀ message r, l ≠ .sends message r)
    (ls : List StartLabel) : spoken (ls ++ [l]) = spoken ls := by
  have hnone : spoken [l] = [] := by
    cases l with
    | sends message r => exact absurd rfl (hl message r)
    | _ => rfl
  rw [spoken_snoc, hnone, List.append_nil]

theorem Unsaid.silent {m : Sv2CpuMiner} {ls : List StartLabel} {rest : List ClientMessage}
    (h : Unsaid C m ls rest) {l : StartLabel} (hl : ∀ message r, l ≠ .sends message r) :
    Unsaid C m (ls ++ [l]) rest := by
  unfold Unsaid
  rw [spoken_silent hl]
  exact h

theorem Unsaid.sends {m : Sv2CpuMiner} {ls : List StartLabel} {message : ClientMessage}
    {rest : List ClientMessage} (h : Unsaid C m ls (message :: rest))
    (r : Except Sv2CpuMinerError Unit) : Unsaid C m (ls ++ [.sends message r]) rest := by
  obtain ⟨host, port, haddr, hscript⟩ := h
  refine ⟨host, port, haddr, ?_⟩
  have hone : spoken [.sends message r] = [message] := rfl
  rw [spoken_snoc, hone, List.append_assoc]
  exact hscript

theorem Speaking.silent {m : Sv2CpuMiner} {ls : List StartLabel} {l : StartLabel}
    (hl : ∀ message r, l ≠ .sends message r) {s : Start C} (h : Speaking m ls s) :
    Speaking m (ls ++ [l]) s := by
  have hended : (spoken ls = [] ∨ ∃ rest, Unsaid C m ls rest) →
      spoken (ls ++ [l]) = [] ∨ ∃ rest, Unsaid C m (ls ++ [l]) rest := by
    intro hcut
    rcases hcut with hnone | ⟨rest, hrest⟩
    · exact .inl ((spoken_silent hl ls).trans hnone)
    · exact .inr ⟨rest, hrest.silent hl⟩
  cases s with
  | connecting amb => exact (spoken_silent hl ls).trans h
  | handshaking amb offer => exact Unsaid.silent h hl
  | awaitingReply amb => exact Unsaid.silent h hl
  | opening w requests => exact Unsaid.silent h hl
  | serving w => exact Unsaid.silent h hl
  | failed e => exact hended h
  | returned r w => exact hended h
  | panicked reason => exact hended h

theorem openNext_speaking {m : Sv2CpuMiner} {ls : List StartLabel} {requests : List ClientMessage}
    (h : Unsaid C m ls requests) (w : World C.toDeps) :
    Speaking m ls (openNext m w requests) := by
  cases requests with
  | nil => exact h
  | cons request rest =>
    cases hfits : fitsStr0255 m.config.userIdentity with
    | false =>
      simp only [openNext, hfits]
      exact .inr ⟨_, h⟩
    | true =>
      simp only [openNext, hfits]
      exact h

theorem beginHandshake_speaking {m : Sv2CpuMiner} {ls : List StartLabel} (h : spoken ls = [])
    (amb : Ambient) : Speaking m ls (beginHandshake C m amb) := by
  unfold beginHandshake
  split
  · exact .inl h
  · rename_i host port haddr
    split
    · exact .inl h
    · split
      · exact .inl h
      · refine ⟨host, port, haddr, ?_⟩
        rw [h]
        rfl

theorem happens_speaking {m : Sv2CpuMiner} {ls : List StartLabel} {s s' : Start C} {e : WorldEvent}
    (h : s.happens e = some s') (hs : Speaking m ls s) : Speaking m ls s' := by
  cases s with
  | failed e => contradiction
  | panicked reason => contradiction
  | _ =>
    obtain ⟨_, _, rfl⟩ := Option.map_eq_some_iff.mp h
    exact hs

theorem control_speaking {m : Sv2CpuMiner} {ls : List StartLabel} {s s' : Start C} {l : StartLabel}
    (h : s.advance m l = some s') (hs : Speaking m ls s) : Speaking m (ls ++ [l]) s' := by
  cases control_cases h with
  | happens h => exact Speaking.silent (by simp) (happens_speaking h hs)
  | connects => exact Speaking.silent (by simp) (beginHandshake_speaking hs _)
  | noConnection => exact .inl ((spoken_silent (by simp) ls).trans hs)
  | offers => exact Unsaid.sends hs _
  | noOffer => exact .inr ⟨_, Unsaid.sends hs _⟩
  | noReply => exact .inr ⟨_, Unsaid.silent hs (by simp)⟩
  | @replied amb frame =>
    have hrest : Unsaid C m (ls ++ [.receives (some frame)]) (openRequests m) :=
      Unsaid.silent hs (by simp)
    unfold afterReply
    split
    · exact .inr ⟨_, hrest⟩
    · exact openNext_speaking hrest _
  | requested => exact openNext_speaking (Unsaid.sends hs _) _
  | noRequest => exact .inr ⟨_, Unsaid.sends hs _⟩
  | stopped => exact .inr ⟨_, Unsaid.silent hs (by simp)⟩
  | closed => exact .inr ⟨_, Unsaid.silent hs (by simp)⟩
  | unparsed => exact .inr ⟨_, Unsaid.silent hs (by simp)⟩

theorem step_speaking {m : Sv2CpuMiner} {ls : List StartLabel} {s s' : Start C} {l : StartLabel}
    (h : StartStep m s l s') (hs : Speaking m ls s) : Speaking m (ls ++ [l]) s' := by
  cases h with
  | control h => exact control_speaking h hs
  | @frame _ _ frame _ r =>
    have hrest : Unsaid C m (ls ++ [.receives (some frame)]) [] := Unsaid.silent hs (by simp)
    cases r with
    | ok u => exact hrest
    | error e => exact .inr ⟨_, hrest⟩

theorem run_speaking {m : Sv2CpuMiner} {amb : Ambient} {ls : List StartLabel} {s : Start C}
    (hrun : Run (StartStep m) (.connecting amb) ls s) : Speaking m ls s := by
  have hstart : Speaking m [] (.connecting amb : Start C) := (rfl : spoken [] = [])
  refine Run.history (I := Speaking m) hstart ?_ hrun
  exact fun ls s l s' _ hs hstep => step_speaking hstep hs

/-- The id of a request. -/
def requestId : ClientMessage → Option UInt32
  | .setupConnection _ => none
  | .openStandardMiningChannel m => some m.requestId
  | .openExtendedMiningChannel m => some m.requestId

/-- The requests are numbered from zero, through both kinds of channels. -/
theorem requestIds_eq (m : Sv2CpuMiner) : (openRequests m).map requestId =
    (List.range (m.config.nStandardChannels.toNat + m.config.nExtendedChannels.toNat)).map
      fun i => some (UInt32.ofNat i) := by
  have hlater : ∀ i, UInt32.ofNat i + UInt32.ofNat m.config.nStandardChannels.toNat =
      UInt32.ofNat (m.config.nStandardChannels.toNat + i) := by
    intro i
    rw [Nat.add_comm, UInt32.ofNat_add]
  unfold openRequests
  rw [List.range_add, List.map_append, List.map_append, List.map_map, List.map_map, List.map_map]
  congr 1
  apply List.map_congr_left
  intro i _
  exact congrArg some (hlater i)

theorem script_nodup (C : ClientDeps) (m : Sv2CpuMiner) (host : String) (port : UInt16) :
    (script C m host port).Nodup := by
  apply List.Nodup.of_map requestId
  unfold script
  rw [List.map_cons, requestIds_eq]
  refine List.nodup_cons.mpr ⟨?_, ?_⟩
  · intro hnone
    obtain ⟨i, _, hi⟩ := List.mem_map.mp hnone
    contradiction
  · refine List.Nodup.map_on ?_ List.nodup_range
    intro i hi j hj hij
    have hstandard := m.config.nStandardChannels.toNat_lt
    have hextended := m.config.nExtendedChannels.toNat_lt
    have hi' := List.mem_range.mp hi
    have hj' := List.mem_range.mp hj
    have hsame := congrArg UInt32.toNat (Option.some.inj hij)
    rw [UInt32.toNat_ofNat', UInt32.toNat_ofNat'] at hsame
    omega

theorem Speaking.cut {m : Sv2CpuMiner} {ls : List StartLabel} {s : Start C}
    (h : Speaking m ls s) : spoken ls = [] ∨ ∃ rest, Unsaid C m ls rest := by
  cases s with
  | connecting amb => exact .inl h
  | handshaking amb offer => exact .inr ⟨_, h⟩
  | awaitingReply amb => exact .inr ⟨_, h⟩
  | opening w requests => exact .inr ⟨_, h⟩
  | serving w => exact .inr ⟨_, h⟩
  | failed e => exact h
  | returned r w => exact h
  | panicked reason => exact h

/-- What `start` sends is, at each point of a run, a beginning of the offer
followed by the requests, none of them sent twice, and all of it when `start`
begins to serve; the requests are numbered in the order they are sent in. -/
theorem start_speaks_in_order (C : ClientDeps) (m : Sv2CpuMiner) (amb : Ambient)
    (ls : List StartLabel) (s : Start C) (hrun : Run (StartStep m) (.connecting amb) ls s) :
    (spoken ls = [] ∨ ∃ host port, m.config.serverHostAndPort = .ok (host, port) ∧
      spoken ls <+: script C m host port) ∧
    (spoken ls).Nodup ∧
    (∀ w, s = .serving w → ∃ host port, m.config.serverHostAndPort = .ok (host, port) ∧
      spoken ls = script C m host port) ∧
    (∀ k id, ((spoken ls).map requestId)[k]? = some (some id) → k = id.toNat + 1) := by
  have hspeaking := run_speaking hrun
  have hcut : spoken ls = [] ∨ ∃ host port, m.config.serverHostAndPort = .ok (host, port) ∧
      spoken ls <+: script C m host port := by
    rcases hspeaking.cut with hnone | ⟨rest, host, port, haddr, hscript⟩
    · exact .inl hnone
    · exact .inr ⟨host, port, haddr, rest, hscript⟩
  refine ⟨hcut, ?_, ?_, ?_⟩
  · rcases hcut with hnone | ⟨host, port, _, hprefix⟩
    · rw [hnone]
      exact List.nodup_nil
    · exact (script_nodup C m host port).sublist hprefix.sublist
  · intro w hs
    rw [hs] at hspeaking
    obtain ⟨host, port, haddr, hscript⟩ := hspeaking
    exact ⟨host, port, haddr, (List.append_nil _).symm.trans hscript⟩
  · intro k id hid
    rcases hcut with hnone | ⟨host, port, _, hprefix⟩
    · rw [hnone] at hid
      contradiction
    · obtain ⟨rest, hscript⟩ := hprefix
      have hall := congrArg (fun l => l[k]?) (congrArg (List.map requestId) hscript)
      have hlt : k < ((spoken ls).map requestId).length := (List.getElem?_eq_some_iff.mp hid).1
      simp only [List.map_append] at hall
      rw [List.getElem?_append_left hlt, hid] at hall
      unfold script at hall
      rw [List.map_cons, requestIds_eq] at hall
      cases k with
      | zero => cases Option.some.inj hall
      | succ i =>
        rw [List.getElem?_cons_succ, List.getElem?_map] at hall
        obtain ⟨j, hj, hjid⟩ := Option.map_eq_some_iff.mp hall.symm
        obtain ⟨hbound, hrange⟩ := List.getElem?_eq_some_iff.mp hj
        have hstandard := m.config.nStandardChannels.toNat_lt
        have hextended := m.config.nExtendedChannels.toNat_lt
        rw [List.getElem_range] at hrange
        rw [List.length_range] at hbound
        rw [← Option.some.inj hjid, UInt32.toNat_ofNat']
        omega

/-- The frames received, in order. -/
def heard (ls : List StartLabel) : List InboundFrame := ls.filterMap frameOf

/-- The messages these frames hold; one that cannot be parsed ends the connection. -/
def messagesIn (C : ClientDeps) (frames : List InboundFrame) : List ServerMessage :=
  frames.filterMap fun frame => (C.miningMessage frame).toOption

/-- The manager that `start` makes. -/
def managerOf (C : ClientDeps) (m : Sv2CpuMiner) : ChannelManager C.toDeps :=
  ChannelManager.new m.config.userIdentity (nominalHashratePerChannel m) m.config.singleSubmit
    m.config.cpuUsagePercent.toNat m.config.requiresStandardJobs

/-- The manager reaches the world by handling the messages in these frames. -/
def Serves (C : ClientDeps) (m : Sv2CpuMiner) (frames : List InboundFrame) (amb : Ambient)
    (ls : List WorldLabel) (w : World C.toDeps) : Prop :=
  Run WorldStep (World.initial (managerOf C m) amb) ls w ∧ messagesOf ls = messagesIn C frames

/-- A reply has been accepted, and the manager has been served the other frames. -/
def Attends (C : ClientDeps) (m : Sv2CpuMiner) (ls : List StartLabel) (w : World C.toDeps) : Prop :=
  ∃ reply frames, heard ls = reply :: frames ∧ handleReply C m.config reply = .ok () ∧
    ∃ amb wls, Serves C m frames amb wls w

/-- What has been heard at each point of `start`. -/
def Hearing (m : Sv2CpuMiner) (ls : List StartLabel) : Start C → Prop
  | .connecting _ | .handshaking _ _ | .awaitingReply _ => heard ls = []
  | .opening w _ | .serving w | .returned _ w => Attends C m ls w
  | .failed _ | .panicked _ => True

theorem heard_snoc (ls : List StartLabel) (l : StartLabel) :
    heard (ls ++ [l]) = heard ls ++ (frameOf l).toList := by
  have hone : heard [l] = (frameOf l).toList := by
    cases hframe : frameOf l <;> simp [heard, hframe]
  rw [← hone]
  exact List.filterMap_append

theorem heard_silent {l : StartLabel} (hl : frameOf l = none) (ls : List StartLabel) :
    heard (ls ++ [l]) = heard ls := by
  rw [heard_snoc, hl]
  exact List.append_nil _

theorem Attends.silent {m : Sv2CpuMiner} {ls : List StartLabel} {w w' : World C.toDeps}
    (h : Attends C m ls w) {l : StartLabel} (hl : frameOf l = none)
    (hw : w' = w ∨ ∃ e, w.advance e = some w') : Attends C m (ls ++ [l]) w' := by
  obtain ⟨reply, frames, hheard, haccepted, amb, wls, hrun, hmessages⟩ := h
  refine ⟨reply, frames, (heard_silent hl ls).trans hheard, haccepted, amb, ?_⟩
  rcases hw with rfl | ⟨e, he⟩
  · exact ⟨wls, hrun, hmessages⟩
  · refine ⟨wls ++ [.event e], hrun.snoc (.event he), ?_⟩
    unfold messagesOf at hmessages ⊢
    rw [List.filterMap_append, hmessages]
    exact List.append_nil _

theorem messagesIn_snoc (frames : List InboundFrame) (frame : InboundFrame) :
    messagesIn C (frames ++ [frame]) =
      messagesIn C frames ++ (C.miningMessage frame).toOption.toList := by
  unfold messagesIn
  rw [List.filterMap_append]
  cases hparsed : C.miningMessage frame <;> simp [hparsed, Except.toOption]

theorem Attends.unparsed {m : Sv2CpuMiner} {ls : List StartLabel} {w : World C.toDeps}
    (h : Attends C m ls w) {frame : InboundFrame} {e : Sv2CpuMinerError}
    (hparsed : C.miningMessage frame = .error e) :
    Attends C m (ls ++ [.receives (some frame)]) w := by
  obtain ⟨reply, frames, hheard, haccepted, amb, wls, hrun, hmessages⟩ := h
  refine ⟨reply, frames ++ [frame], ?_, haccepted, amb, wls, hrun, ?_⟩
  · rw [heard_snoc, hheard]
    rfl
  · rw [messagesIn_snoc, hparsed, hmessages]
    exact (List.append_nil _).symm

theorem Attends.handles {m : Sv2CpuMiner} {ls : List StartLabel} {w w' : World C.toDeps}
    (h : Attends C m ls w) {frame : InboundFrame} {message : ServerMessage}
    {r : Except Sv2CpuMinerError Unit} (hparsed : C.miningMessage frame = .ok message)
    (hhandled : Runs WorldInterferes (handle message) w r w') :
    Attends C m (ls ++ [.receives (some frame)]) w' := by
  obtain ⟨reply, frames, hheard, haccepted, amb, wls, hrun, hmessages⟩ := h
  refine ⟨reply, frames ++ [frame], ?_, haccepted, amb, wls ++ [.message message r],
    hrun.snoc (.message hhandled), ?_⟩
  · rw [heard_snoc, hheard]
    rfl
  · rw [messagesIn_snoc, hparsed]
    unfold messagesOf at hmessages ⊢
    rw [List.filterMap_append, hmessages]
    rfl

theorem openNext_hearing {m : Sv2CpuMiner} {ls : List StartLabel} {w : World C.toDeps}
    (h : Attends C m ls w) (requests : List ClientMessage) :
    Hearing m ls (openNext m w requests) := by
  cases requests with
  | nil => exact h
  | cons request rest =>
    cases hfits : fitsStr0255 m.config.userIdentity with
    | false =>
      simp only [openNext, hfits]
      trivial
    | true =>
      simp only [openNext, hfits]
      exact h

theorem beginHandshake_hearing {m : Sv2CpuMiner} {ls : List StartLabel} (h : heard ls = [])
    (amb : Ambient) : Hearing m ls (beginHandshake C m amb) := by
  unfold beginHandshake
  split
  · trivial
  · split
    · trivial
    · split
      · trivial
      · exact h

theorem happens_hearing {m : Sv2CpuMiner} {ls : List StartLabel} {s s' : Start C} {e : WorldEvent}
    (h : s.happens e = some s') (hs : Hearing m ls s) : Hearing m (ls ++ [.event e]) s' := by
  have hquiet : heard ls = [] → heard (ls ++ [.event e]) = [] := (heard_silent rfl ls).trans
  cases s with
  | failed e => contradiction
  | panicked reason => contradiction
  | opening w requests =>
    obtain ⟨w', hw, rfl⟩ := Option.map_eq_some_iff.mp h
    exact Attends.silent hs rfl (.inr ⟨e, hw⟩)
  | serving w =>
    obtain ⟨w', hw, rfl⟩ := Option.map_eq_some_iff.mp h
    exact Attends.silent hs rfl (.inr ⟨e, hw⟩)
  | returned r w =>
    obtain ⟨w', hw, rfl⟩ := Option.map_eq_some_iff.mp h
    exact Attends.silent hs rfl (.inr ⟨e, hw⟩)
  | connecting amb =>
    obtain ⟨_, _, rfl⟩ := Option.map_eq_some_iff.mp h
    exact hquiet hs
  | handshaking amb offer =>
    obtain ⟨_, _, rfl⟩ := Option.map_eq_some_iff.mp h
    exact hquiet hs
  | awaitingReply amb =>
    obtain ⟨_, _, rfl⟩ := Option.map_eq_some_iff.mp h
    exact hquiet hs

theorem control_hearing {m : Sv2CpuMiner} {ls : List StartLabel} {s s' : Start C} {l : StartLabel}
    (h : s.advance m l = some s') (hs : Hearing m ls s) : Hearing m (ls ++ [l]) s' := by
  cases control_cases h with
  | happens h => exact happens_hearing h hs
  | connects => exact beginHandshake_hearing ((heard_silent rfl ls).trans hs) _
  | noConnection => trivial
  | offers => exact (heard_silent rfl ls).trans hs
  | noOffer => trivial
  | noReply => trivial
  | @replied amb frame =>
    unfold afterReply
    split
    · trivial
    · rename_i haccepted
      refine openNext_hearing ⟨frame, [], ?_, haccepted, amb, [], .nil, rfl⟩ _
      rw [heard_snoc, show heard ls = [] from hs]
      rfl
  | requested => exact openNext_hearing (Attends.silent hs rfl (.inl rfl)) _
  | noRequest => exact Attends.silent hs rfl (.inl rfl)
  | stopped => exact Attends.silent hs rfl (.inl rfl)
  | closed => exact Attends.silent hs rfl (.inr ⟨.shutdown, rfl⟩)
  | unparsed hparsed => exact Attends.unparsed hs hparsed

theorem step_hearing {m : Sv2CpuMiner} {ls : List StartLabel} {s s' : Start C} {l : StartLabel}
    (h : StartStep m s l s') (hs : Hearing m ls s) : Hearing m (ls ++ [l]) s' := by
  cases h with
  | control h => exact control_hearing h hs
  | @frame _ _ _ _ r hparsed hhandled =>
    cases r with
    | ok u => exact Attends.handles hs hparsed hhandled
    | error e => exact Attends.handles hs hparsed hhandled

theorem run_hearing {m : Sv2CpuMiner} {amb : Ambient} {ls : List StartLabel} {s : Start C}
    (hrun : Run (StartStep m) (.connecting amb) ls s) : Hearing m ls s := by
  have hstart : Hearing m [] (.connecting amb : Start C) := (rfl : heard [] = [])
  refine Run.history (I := Hearing m) hstart ?_ hrun
  exact fun ls s l s' _ hs hstep => step_hearing hstep hs

/-- The connection refines the manager, and the manager its miners: what has
been heard is an accepted reply and frames, the manager of `start` has come to
the world of the connection on the messages in them, and each miner has come
to its state by itself, from a channel one of them opened under its id and on
calls that later ones make on this id. -/
theorem start_runs_miners (C : ClientDeps) (hD : GroupContract C.group) (m : Sv2CpuMiner)
    (amb : Ambient) (ls : List StartLabel) (s : Start C)
    (hrun : Run (StartStep m) (.connecting amb) ls s) (w : World C.toDeps)
    (hw : worldOf s = some w) :
    ∃ reply frames, heard ls = reply :: frames ∧ handleReply C m.config reply = .ok () ∧
      ∃ amb' wls, Serves C m frames amb' wls w ∧ ∀ kind place r, w.rigAt kind place = some r →
        ∃ id, Under id place ∧
          Descends (World.initial (managerOf C m) amb') wls kind id r := by
  have hattends : Attends C m ls w := by
    have hhearing := run_hearing hrun
    cases s with
    | opening w' requests =>
      cases hw
      exact hhearing
    | serving w' =>
      cases hw
      exact hhearing
    | returned r w' =>
      cases hw
      exact hhearing
    | _ => contradiction
  obtain ⟨reply, frames, hheard, haccepted, amb', wls, hserves⟩ := hattends
  refine ⟨reply, frames, hheard, haccepted, amb', wls, hserves, ?_⟩
  intro kind place r hr
  exact (run_descends hD rfl hserves.1).rig hr

theorem sample_start_speaks :
    (spoken sampleConnection).map requestId = [none, some 0] ∧ (spoken sampleConnection).Nodup := by
  have hplay : (play (Start.execute sampleMiner) (.connecting ⟨0, false⟩ : Start sampleClient)
      sampleConnection).isSome = true := by decide +kernel
  obtain ⟨s, hs⟩ := Option.isSome_iff_exists.mp hplay
  refine ⟨by decide +kernel, ?_⟩
  exact (start_speaks_in_order sampleClient sampleMiner ⟨0, false⟩ sampleConnection s
    (run_of_play (f := Start.execute sampleMiner) (fun _ _ _ h => startStep_of_execute h) hs)).2.1

theorem sample_start_runs_miner :
    ∃ frames amb wls w r, w.rigAt .standard (.stored 1) = some r ∧ r.miner.tasks.length = 1 ∧
      Serves sampleClient sampleMiner frames amb wls w ∧
      Descends (World.initial (managerOf sampleClient sampleMiner) amb) wls .standard 1 r := by
  have hplay : (play (Start.execute sampleMiner) (.connecting ⟨0, false⟩ : Start sampleClient)
      sampleConnection).map (fun s => (worldOf s).bind fun w =>
        (w.rigAt .standard (.stored 1)).map fun r => r.miner.tasks.length) = some (some 1) := by
    decide +kernel
  obtain ⟨s, hs, hfound⟩ := Option.map_eq_some_iff.mp hplay
  obtain ⟨w, hw, htasks⟩ := Option.bind_eq_some_iff.mp hfound
  obtain ⟨r, hr, hlen⟩ := Option.map_eq_some_iff.mp htasks
  obtain ⟨reply, frames, _, _, amb, wls, hserves, hdescends⟩ := start_runs_miners sampleClient
    sample_groupContract sampleMiner ⟨0, false⟩ sampleConnection s
    (run_of_play (f := Start.execute sampleMiner) (fun _ _ _ h => startStep_of_execute h) hs) w hw
  obtain ⟨id, hid, hr'⟩ := hdescends .standard (.stored 1) r hr
  rw [← hid 1 rfl] at hr'
  exact ⟨frames, amb, wls, w, r, hr, hlen, hserves, hr'⟩

end CpuMinerSv2.Conversation
