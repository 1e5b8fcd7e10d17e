import CpuMinerSv2.Conversation
import CpuMinerSv2.HandlerErrors

/-!
Why `start` returns. Its result is settled in one step, and every step that
settles it is in the list: the connection that fails, the handshake that fails,
a shutdown, the server that closes the connection, a frame that violates the
protocol, or a poisoned lock. Afterwards only events happen.
-/

namespace CpuMinerSv2.Outcomes

open Messages Primitives MineJob Manager ManagerFrames Deliveries HandlerErrors Config Client
  SampleWorlds

variable {C : ClientDeps}

/-- What `start` has returned. -/
def resultOf : Start C → Option (Except Sv2CpuMinerError Unit)
  | .failed e => some (.error e)
  | .returned r _ => some r
  | _ => none

/-- The step that settles the result. -/
inductive Verdict (m : Sv2CpuMiner) : Start C → StartLabel → Start C → Prop
  | noConnection {amb : Ambient} {e : Sv2CpuMinerError} (h : ConnectError e = true) :
      Verdict m (.connecting amb) (.connected (.error e)) (.failed e)
  | noAddress {amb : Ambient} {e : Sv2CpuMinerError} (h : m.config.serverHostAndPort = .error e) :
      Verdict m (.connecting amb) (.connected (.ok ())) (.failed e)
  | noOffer {amb : Ambient} {offer : SetupConnection} {e : Sv2CpuMinerError}
      (h : SendError e = true) :
      Verdict m (.handshaking amb offer) (.sends (.setupConnection offer) (.error e)) (.failed e)
  | noReply {amb : Ambient} :
      Verdict m (.awaitingReply amb) (.receives none) (.failed .channelErrorReceiver)
  | badReply {amb : Ambient} {frame : InboundFrame} {e : Sv2CpuMinerError}
      (h : handleReply C m.config frame = .error e) :
      Verdict m (.awaitingReply amb) (.receives (some frame)) (.failed e)
  | noRequest {w : World C.toDeps} {request : ClientMessage} {rest : List ClientMessage}
      {e : Sv2CpuMinerError} (h : SendError e = true) :
      Verdict m (.opening w (request :: rest)) (.sends request (.error e)) (.returned (.error e) w)
  | stopped {w : World C.toDeps} (h : w.ambient.globalCancelled = true) :
      Verdict m (.serving w) .cancelled (.returned (.ok ()) w)
  | closed {w : World C.toDeps} :
      Verdict m (.serving w) (.receives none) (.returned (.ok ()) (cancelConnection w))
  | unparsed {w : World C.toDeps} {frame : InboundFrame} {e : Sv2CpuMinerError}
      (h : C.miningMessage frame = .error e) :
      Verdict m (.serving w) (.receives (some frame)) (.returned (.error e) w)
  | violation {w w' : World C.toDeps} {frame : InboundFrame} {message : ServerMessage}
      {e : Sv2CpuMinerError} (h : C.miningMessage frame = .ok message)
      (hviolates : Violates w message e w') :
      Verdict m (.serving w) (.receives (some frame)) (.returned (.error e) w')

theorem resultOf_openNext (m : Sv2CpuMiner) (w : World C.toDeps) (requests : List ClientMessage) :
    resultOf (openNext m w requests) = none := by
  cases requests with
  | nil => rfl
  | cons request rest =>
    cases hfits : fitsStr0255 m.config.userIdentity with
    | false =>
      simp only [openNext, hfits]
      rfl
    | true =>
      simp only [openNext, hfits]
      rfl

theorem resultOf_beginHandshake {m : Sv2CpuMiner} {amb : Ambient}
    {r : Except Sv2CpuMinerError Unit} (h : resultOf (beginHandshake C m amb) = some r) :
    ∃ e, beginHandshake C m amb = .failed e ∧ m.config.serverHostAndPort = .error e := by
  unfold beginHandshake at h ⊢
  split at h
  · rename_i e haddr
    exact ⟨e, rfl, haddr⟩
  · split at h
    · contradiction
    · split at h
      · contradiction
      · contradiction

theorem happens_result {s s' : Start C} {e : WorldEvent} (h : s.happens e = some s') :
    resultOf s' = resultOf s := by
  cases s with
  | failed e => contradiction
  | panicked reason => contradiction
  | _ =>
    obtain ⟨_, _, rfl⟩ := Option.map_eq_some_iff.mp h
    rfl

theorem returned_events {m : Sv2CpuMiner} {s s' : Start C} {l : StartLabel}
    (h : StartStep m s l s') (hs : (resultOf s).isSome = true) :
    (∃ e, l = .event e) ∧ resultOf s' = resultOf s := by
  cases h with
  | control h =>
    cases control_cases h with
    | happens h => exact ⟨⟨_, rfl⟩, happens_result h⟩
    | _ => contradiction
  | frame => contradiction

theorem step_verdict (hD : GroupContract C.group) {m : Sv2CpuMiner} {s s' : Start C}
    {l : StartLabel} (h : StartStep m s l s') (hs : resultOf s = none)
    {r : Except Sv2CpuMinerError Unit} (hr : resultOf s' = some r) :
    Verdict m s l s' := by
  cases h with
  | control h =>
    cases control_cases h with
    | happens h =>
      rw [happens_result h, hs] at hr
      contradiction
    | connects =>
      obtain ⟨e, hfailed, haddr⟩ := resultOf_beginHandshake hr
      rw [hfailed]
      exact .noAddress haddr
    | noConnection herror => exact .noConnection herror
    | offers => contradiction
    | noOffer herror => exact .noOffer herror
    | noReply => exact .noReply
    | replied =>
      unfold afterReply at hr ⊢
      split at hr
      · rename_i e hreply
        exact .badReply hreply
      · rw [resultOf_openNext] at hr
        contradiction
    | requested =>
      rw [resultOf_openNext] at hr
      contradiction
    | noRequest herror => exact .noRequest herror
    | stopped hcancelled => exact .stopped hcancelled
    | closed => exact .closed
    | unparsed herror => exact .unparsed herror
  | @frame w w' frame message res hparsed hrun =>
    cases res with
    | ok u => contradiction
    | error e => exact .violation hparsed (handle_fails hD hrun)

theorem event_globalCancelled {w w' : World C.toDeps} {e : WorldEvent} (h : w.advance e = some w')
    (hw : w.ambient.globalCancelled = true) : w'.ambient.globalCancelled = true := by
  cases e with
  | task kind place i move =>
    obtain ⟨miner, _, hstep⟩ := Option.bind_eq_some_iff.mp h
    obtain ⟨miner', _, rfl⟩ := Option.map_eq_some_iff.mp hstep
    rw [ambient_putMiner]
    exact hw
  | tick elapsed =>
    cases h
    exact hw
  | shutdown =>
    cases h
    rfl

/-- What holds of the token when `start` has returned `Ok`. -/
def CancelledIfOk : Start C → Prop
  | .returned (.ok _) w => w.ambient.globalCancelled = true
  | _ => True

theorem step_cancelledIfOk {m : Sv2CpuMiner} {s s' : Start C} {l : StartLabel}
    (h : StartStep m s l s') (hs : CancelledIfOk s) : CancelledIfOk s' := by
  have hopen : ∀ (w : World C.toDeps) requests, CancelledIfOk (openNext m w requests) := by
    intro w requests
    have hnone := resultOf_openNext m w requests
    cases hnext : openNext m w requests with
    | returned r w' =>
      rw [hnext] at hnone
      contradiction
    | _ => trivial
  cases h with
  | control h =>
    cases control_cases h with
    | @happens _ _ e h =>
      cases s with
      | failed e => contradiction
      | panicked reason => contradiction
      | returned r w =>
        obtain ⟨w', hw, rfl⟩ := Option.map_eq_some_iff.mp h
        cases r with
        | error e => trivial
        | ok u => exact event_globalCancelled hw hs
      | _ =>
        obtain ⟨_, _, rfl⟩ := Option.map_eq_some_iff.mp h
        trivial
    | connects =>
      unfold beginHandshake
      split
      · trivial
      · split
        · trivial
        · split
          · trivial
          · trivial
    | replied =>
      unfold afterReply
      split
      · trivial
      · exact hopen _ _
    | requested => exact hopen _ _
    | stopped hcancelled => exact hcancelled
    | closed => exact (rfl : true = true)
    | _ => trivial
  | @frame _ _ _ _ r _ _ =>
    cases r with
    | ok u => trivial
    | error e => trivial

/-- When `start` has returned there was one step that settled its result, and
after it there were events only. `Ok` is returned when the token is cancelled,
by a shutdown or because the server has closed the connection. -/
theorem start_returns_for_a_reason (C : ClientDeps) (hD : GroupContract C.group) (m : Sv2CpuMiner)
    (amb : Ambient) (ls : List StartLabel) (s : Start C)
    (hrun : Run (StartStep m) (.connecting amb) ls s) (r : Except Sv2CpuMinerError Unit)
    (hr : resultOf s = some r) :
    (∃ before l after, ∃ s₁ s₂ : Start C, ls = before ++ l :: after ∧
      Run (StartStep m) (.connecting amb) before s₁ ∧ Verdict m s₁ l s₂ ∧ resultOf s₂ = some r ∧
      Run (StartStep m) s₂ after s ∧ ∀ l' ∈ after, ∃ e, l' = .event e) ∧ CancelledIfOk s := by
  refine ⟨?_, ?_⟩
  · revert r
    refine Run.history (I := fun ls s => ∀ r, resultOf s = some r →
      ∃ before l after, ∃ s₁ s₂ : Start C, ls = before ++ l :: after ∧
        Run (StartStep m) (.connecting amb) before s₁ ∧ Verdict m s₁ l s₂ ∧ resultOf s₂ = some r ∧
        Run (StartStep m) s₂ after s ∧ ∀ l' ∈ after, ∃ e, l' = .event e) ?_ ?_ hrun
    · intro r hr
      contradiction
    · intro ls s l s' hrun ih hstep r hr
      cases hs : resultOf s with
      | none =>
        exact ⟨ls, l, [], s, s', rfl, hrun, step_verdict hD hstep hs hr, hr, .nil, by simp⟩
      | some r₀ =>
        obtain ⟨hevent, hsame⟩ := returned_events hstep (Option.isSome_of_eq_some hs)
        rw [hsame] at hr
        obtain ⟨before, l₀, after, s₁, s₂, rfl, hbefore, hverdict, hr₂, hrest, hafter⟩ := ih r hr
        refine ⟨before, l₀, after ++ [l], s₁, s₂, ?_, hbefore, hverdict, hr₂, .snoc hrest hstep, ?_⟩
        · rw [List.append_assoc, List.cons_append]
        · intro l' hl'
          rcases List.mem_append.mp hl' with hold | hlast
          · exact hafter l' hold
          · rw [List.mem_singleton.mp hlast]
            exact hevent
  · refine hrun.invariant (I := CancelledIfOk) ?_ trivial
    exact fun _ _ _ hs hstep => step_cancelledIfOk hstep hs

/-- A message that the connection never takes ends it while a channel mines; the
task goes on. -/
def sampleEnding : List StartLabel :=
  sampleConnection ++ [sampleFrame 0x23 [3], .event (.task .standard (.stored 1) 0 .next)]

theorem sample_start_returns :
    ∃ s : Start sampleClient, resultOf s = some (.error (.unexpectedMessage 0 0x23)) ∧
      CancelledIfOk s ∧ ∃ before l after, ∃ s₁ s₂ : Start sampleClient,
        sampleEnding = before ++ l :: after ∧
        Run (StartStep sampleMiner) (.connecting ⟨0, false⟩) before s₁ ∧
        Verdict sampleMiner s₁ l s₂ ∧ ∀ l' ∈ after, ∃ e, l' = StartLabel.event e := by
  have hplay : (play (Start.execute sampleMiner) (.connecting ⟨0, false⟩ : Start sampleClient)
      sampleEnding).bind resultOf = some (.error (.unexpectedMessage 0 0x23)) := by decide +kernel
  obtain ⟨s, hs, hr⟩ := Option.bind_eq_some_iff.mp hplay
  obtain ⟨⟨before, l, after, s₁, s₂, hsplit, hbefore, hverdict, _, _, hafter⟩, hcancelled⟩ :=
    start_returns_for_a_reason sampleClient sample_groupContract sampleMiner ⟨0, false⟩
      sampleEnding s (run_of_play (f := Start.execute sampleMiner)
        (fun _ _ _ h => startStep_of_execute h) hs) _ hr
  exact ⟨s, hr, hcancelled, before, l, after, s₁, s₂, hsplit, hbefore, hverdict, hafter⟩

end CpuMinerSv2.Outcomes
