import CpuMinerSv2.ConnectionEnd
import CpuMinerSv2.Isolation
import CpuMinerSv2.Stopping

/-!
What becomes of the tasks after `start` has returned and the connection's
token is cancelled. Nothing is left that could spawn a task, each task ends
within the rest of its iteration, and it lets go of one more share at most.
-/

namespace CpuMinerSv2.Quiescence

open Messages Channels Primitives MineJob MinerMethods MinerRuns Moments Manager ManagerFrames
  Client ConnectionEnd Accounts Isolation ShareFlow Stopping SampleWorlds

variable {K : ClientChannel}

theorem cancelledAt_of_global {r : Rig K} (hglobal : r.ambient.globalCancelled = true) {i : ℕ}
    (hi : i < r.miner.tasks.length) : CancelledAt r i := by
  refine ⟨r.miner.tasks[i], List.getElem?_eq_getElem hi, ?_⟩
  unfold ChannelMiner.cancelled
  rw [hglobal]
  rfl

theorem events_pay (i : ℕ) :
    Pays (fun r : Rig K => CancelledAt r i) (Executes Rig.advance)
      (fun e => stepOf i (.event e : Moment K)) (leftAt stepsLeft i) := by
  intro r e r' hc hstep
  obtain ⟨hc', hsteps, _⟩ := RigStep.spends (.event hstep) hc
  exact ⟨hc', hsteps⟩

theorem sharesSent_absent {r r' : Rig K} {e : Event} (h : r.advance e = some r') {i : ℕ}
    (hi : r.miner.tasks.length ≤ i) : sharesSent i r (.event e) = 0 := by
  cases e with
  | task j move =>
    obtain ⟨m', hstep, rfl⟩ := Option.map_eq_some_iff.mp h
    obtain ⟨task, ht, _⟩ := Option.bind_eq_some_iff.mp hstep
    have hj := (List.getElem?_eq_some_iff.mp ht).1
    have hne : j ≠ i := by omega
    unfold sharesSent
    rw [postedAt_task ht, posted_sent_other _ hne]
    rfl
  | tick elapsed => rfl
  | shutdown => rfl

/-- What a miner does on its own once its tasks are cancelled: it gets no task,
its queue grows by the shares its tasks send, and these come out of what each
has left. -/
theorem advance_quiet {r r' : Rig K} {e : Event} (h : r.advance e = some r')
    (hglobal : r.ambient.globalCancelled = true) :
    r'.ambient.globalCancelled = true ∧ r'.miner.tasks.length = r.miner.tasks.length ∧
      ∀ i, sharesSent i r (.event e) + leftAt sharesLeft i r' ≤ leftAt sharesLeft i r := by
  have hkept : r'.ambient.globalCancelled = true ∧
      r'.miner.tasks.length = r.miner.tasks.length := by
    rcases advance_cases h with ⟨j, move, m', rfl, hcases, rfl⟩ | ⟨hminer, _, hkept⟩
    · exact ⟨hglobal, hcases.frame.length_eq⟩
    · exact ⟨hkept hglobal, by rw [hminer]⟩
  refine ⟨hkept.1, hkept.2, ?_⟩
  intro i
  by_cases hi : i < r.miner.tasks.length
  · exact (RigStep.spends (.event h) (cancelledAt_of_global hglobal hi)).2.2
  · have habsent : r'.miner.tasks[i]? = none := List.getElem?_eq_none (by omega)
    have hleft : leftAt sharesLeft i r' = 0 := by
      unfold leftAt
      rw [habsent]
      rfl
    rw [hleft, sharesSent_absent h (by omega)]
    exact Nat.zero_le _

/-- What a miner posts in the course of its events. -/
abbrev rigPostings : Rig K → List Event → List (Posting K) :=
  emitted Rig.advance fun r e => postedAt r (.event e)

/-- What has become of a miner, when its tasks have taken this many steps and
posted this much. -/
structure WoundDown (steps : ℕ → ℕ) (posts : List (Posting K)) (miner : ChannelMiner K)
    (r' : Rig K) : Prop where
  tasks : r'.miner.tasks.length = miner.tasks.length
  steps : ∀ i, i < miner.tasks.length → steps i ≤ 6
  queue : r'.miner.sent = miner.sent ++ posts.filterMap Posting.queued
  sent : ∀ i, (posts.filterMap (Posting.sentBy i)).length ≤ 1
  ends : ∀ i, i < miner.tasks.length → WindsDown r' i

theorem run_quiet {r r' : Rig K} {es : List Event} (hrun : Run (Executes Rig.advance) r es r')
    (hglobal : r.ambient.globalCancelled = true) :
    (r'.ambient.globalCancelled = true ∧ r'.miner.tasks.length = r.miner.tasks.length) ∧
      r'.miner.sent = r.miner.sent ++ (rigPostings r es).filterMap Posting.queued ∧
      ∀ i, ((rigPostings r es).filterMap (Posting.sentBy i)).length + leftAt sharesLeft i r' ≤
        leftAt sharesLeft i r := by
  refine ledger Rig.advance (fun r e => postedAt r (.event e)) (I := fun log r' =>
    (r'.ambient.globalCancelled = true ∧ r'.miner.tasks.length = r.miner.tasks.length) ∧
      r'.miner.sent = r.miner.sent ++ log.filterMap Posting.queued ∧
      ∀ i, (log.filterMap (Posting.sentBy i)).length + leftAt sharesLeft i r' ≤
        leftAt sharesLeft i r) ?_ hrun ?_
  · rintro log r₁ e r₂ ⟨⟨hglobal₁, hlength⟩, hsent, hleft⟩ hstep
    obtain ⟨hglobal₂, htasks, hspends⟩ := advance_quiet hstep hglobal₁
    refine ⟨⟨hglobal₂, htasks.trans hlength⟩, ?_, ?_⟩
    · rw [advance_sent hstep, hsent, List.filterMap_append, List.append_assoc]
    · intro i
      have hbefore := hleft i
      have hpaid := hspends i
      rw [List.filterMap_append, List.length_append]
      unfold sharesSent at hpaid
      omega
  · refine ⟨⟨hglobal, rfl⟩, (List.append_nil _).symm, ?_⟩
    intro i
    rw [List.filterMap_nil, List.length_nil, Nat.zero_add]

theorem leftAt_sharesLeft_le (i : ℕ) (r : Rig K) : leftAt sharesLeft i r ≤ 1 := by
  unfold leftAt
  cases r.miner.tasks[i]? with
  | none => exact Nat.zero_le _
  | some task => exact sharesLeft_le task.phase

theorem run_woundDown {r r' : Rig K} {es : List Event} (hrun : Run (Executes Rig.advance) r es r')
    (hglobal : r.ambient.globalCancelled = true) :
    WoundDown (fun i => charges (fun e => stepOf i (.event e : Moment K)) es) (rigPostings r es)
      r.miner r' := by
  obtain ⟨⟨hglobal', hlength⟩, hqueue, hleft⟩ := run_quiet hrun hglobal
  refine ⟨hlength, ?_, hqueue, ?_, ?_⟩
  · intro i hi
    obtain ⟨_, hsteps⟩ := (events_pay i).charges_le hrun (cancelledAt_of_global hglobal hi)
    have hsix := stepsLeft_le r.miner.tasks[i].phase
    rw [leftAt_eq (List.getElem?_eq_getElem hi)] at hsteps
    omega
  · intro i
    have hone := leftAt_sharesLeft_le i r
    have hpaid := hleft i
    omega
  · intro i hi
    have hi' : i < r'.miner.tasks.length := by omega
    exact (cancelledAt_of_global hglobal' hi').windsDown

variable {D : Deps}

/-- The label is a step of this task. -/
def isStepOf (kind : Kind) (place : Place) (i : ℕ) : WorldEvent → Bool
  | .task kind' place' j _ => decide ((kind', place') = (kind, place) ∧ j = i)
  | _ => false

theorem countP_isStepOf (K : ClientChannel) (kind : Kind) (place : Place) (i : ℕ)
    (es : List WorldEvent) :
    es.countP (isStepOf kind place i) = charges (fun e => stepOf i (.event e : Moment K))
      (es.filterMap (ownEvent (kind, place))) := by
  induction es with
  | nil => rfl
  | cons e rest ih =>
    rw [List.countP_cons, ih]
    cases e with
    | task kind' place' j move =>
      by_cases hself : (kind', place') = (kind, place)
      · have hown : ownEvent (kind, place) (.task kind' place' j move) = some (.task j move) :=
          if_pos hself
        rw [List.filterMap_cons_some hown, charges_cons]
        by_cases hj : j = i
        · simp [isStepOf, stepOf, hself, hj, Nat.add_comm]
        · simp [isStepOf, stepOf, hj]
      · rw [List.filterMap_cons_none (ownEvent_of_ne j move hself)]
        simp [isStepOf, hself]
    | tick elapsed =>
      rw [List.filterMap_cons_some (show ownEvent (kind, place) (.tick elapsed) = _ from rfl)]
      simp [isStepOf, stepOf]
    | shutdown =>
      rw [List.filterMap_cons_some (show ownEvent (kind, place) .shutdown = _ from rfl)]
      simp [isStepOf, stepOf]

/-- Events alone, once the token is cancelled: every miner winds down, and no
miner comes or goes. -/
theorem events_wind_down {w w' : World D} {es : List WorldEvent}
    (hrun : Run (Executes World.advance) w es w') (hglobal : w.ambient.globalCancelled = true)
    (kind : Kind) (place : Place) :
    (w'.minerAt kind place).isSome = (w.minerAt kind place).isSome ∧
      ∀ miner miner', w.minerAt kind place = some miner → w'.minerAt kind place = some miner' →
        WoundDown (fun i => es.countP (isStepOf kind place i))
          (rigPostings ⟨w.ambient, miner⟩ (es.filterMap (ownEvent (kind, place)))) miner
          ⟨w'.ambient, miner'⟩ := by
  have hsame : SameRegistry w w' := by
    refine hrun.invariant (I := SameRegistry w) ?_ (SameRegistry.refl w)
    intro a e b ha hstep
    exact ha.trans (interferes_sameRegistry a b ⟨e, hstep⟩)
  refine ⟨hsame.places kind place, ?_⟩
  intro miner miner' hm hm'
  have hr : w.rigAt kind place = some ⟨w.ambient, miner⟩ := rigAt_eq_some_iff.mpr ⟨hm, rfl⟩
  obtain ⟨r', hr', hplay⟩ := run_rigAt hrun hr
  obtain ⟨hminer, hamb⟩ := rigAt_eq_some_iff.mp hr'
  have heq : r' = ⟨w'.ambient, miner'⟩ := by
    rw [← hamb, Option.some.inj (hm'.symm.trans hminer)]
  have hown : Run (Executes Rig.advance) ⟨w.ambient, miner⟩
      (es.filterMap (ownEvent (kind, place))) r' := run_of_play (fun _ _ _ h => h) hplay
  have hdown := run_woundDown hown hglobal
  rw [heq] at hdown
  simpa only [countP_isStepOf (D.client kind)] using hdown

theorem returned_run {C : ClientDeps} {m : Sv2CpuMiner} {r : Except Sv2CpuMinerError Unit}
    {w : World C.toDeps} {ls : List StartLabel} {s : Start C}
    (hrun : Run (StartStep m) (.returned r w) ls s) :
    ∃ (es : List WorldEvent) (w' : World C.toDeps), ls = es.map StartLabel.event ∧
      s = .returned r w' ∧ Run (Executes World.advance) w es w' := by
  induction hrun with
  | nil => exact ⟨[], w, rfl, rfl, .nil⟩
  | snoc _ hstep ih =>
    obtain ⟨es, w₁, rfl, rfl, hevents⟩ := ih
    cases hstep with
    | control h =>
      cases control_cases h with
      | @happens _ _ e he =>
        obtain ⟨w₂, hw₂, rfl⟩ := Option.map_eq_some_iff.mp he
        refine ⟨es ++ [e], w₂, ?_, rfl, hevents.snoc hw₂⟩
        rw [List.map_append]
        rfl

/-- When `start` has returned and the connection's token is cancelled, every
run from there winds down: the miners stay the ones they are, none gets
another task, every task takes six more steps at most and sends one more share
at most, and until it has ended nothing but its own sleep holds it up. -/
theorem returned_connection_winds_down (C : ClientDeps) (m : Sv2CpuMiner)
    (r : Except Sv2CpuMinerError Unit) (w : World C.toDeps)
    (hglobal : w.ambient.globalCancelled = true) (ls : List StartLabel) (s : Start C)
    (hrun : Run (StartStep m) (.returned r w) ls s) :
    ∃ (es : List WorldEvent) (w' : World C.toDeps), ls = es.map StartLabel.event ∧
      s = .returned r w' ∧ ∀ kind place,
      (w'.minerAt kind place).isSome = (w.minerAt kind place).isSome ∧
        ∀ miner miner', w.minerAt kind place = some miner → w'.minerAt kind place = some miner' →
          WoundDown (fun i => es.countP (isStepOf kind place i))
            (rigPostings ⟨w.ambient, miner⟩ (es.filterMap (ownEvent (kind, place)))) miner
            ⟨w'.ambient, miner'⟩ := by
  obtain ⟨es, w', hls, hs, hevents⟩ := returned_run hrun
  exact ⟨es, w', hls, hs, fun kind place => events_wind_down hevents hglobal kind place⟩

/-- The server closes the connection when the task of the first channel has
polled; the task still hashes, sends its share and ends at its next poll. -/
theorem sample_connection_winds_down :
    ∃ (r : Except Sv2CpuMinerError Unit) (w w' : World sampleClient.toDeps) (es : List WorldEvent)
      (miner miner' : ChannelMiner (sampleClient.client .standard)),
      play (Start.execute sampleMiner) (.connecting ⟨0, false⟩)
        (sampleConnection ++ taskSteps 0 4 ++ [.receives none]) =
          some (Start.returned (C := sampleClient) r w) ∧
      es.length = 5 ∧ w.minerAt .standard (.stored 1) = some miner ∧
      w'.minerAt .standard (.stored 1) = some miner' ∧
      WoundDown (fun i => es.countP (isStepOf .standard (.stored 1) i))
        (rigPostings ⟨w.ambient, miner⟩ (es.filterMap (ownEvent (.standard, .stored 1)))) miner
        ⟨w'.ambient, miner'⟩ := by
  have hplay : ((play (Start.execute sampleMiner) (.connecting ⟨0, false⟩)
      (sampleConnection ++ taskSteps 0 4 ++ [.receives none])).bind fun s =>
        (outcome s).bind fun out =>
          (play (Start.execute sampleMiner) s (taskSteps 0 5)).map fun _ => out) =
      some (true, some 1) := by decide +kernel
  obtain ⟨s, hs, hplay⟩ := Option.bind_eq_some_iff.mp hplay
  obtain ⟨out, hout, hplay⟩ := Option.bind_eq_some_iff.mp hplay
  obtain ⟨s', hs', rfl⟩ := Option.map_eq_some_iff.mp hplay
  obtain ⟨r, w, miner, rfl, hglobal, hm, _⟩ := outcome_cases hout
  have hrun := run_of_play (f := Start.execute sampleMiner)
    (fun _ _ _ h => startStep_of_execute h) hs'
  obtain ⟨es, w', hes, _, hdown⟩ :=
    returned_connection_winds_down sampleClient sampleMiner r w hglobal _ _ hrun
  obtain ⟨hsome, hminer⟩ := hdown .standard (.stored 1)
  rw [hm] at hsome
  obtain ⟨miner', hm'⟩ := Option.isSome_iff_exists.mp hsome
  have hlength := congrArg List.length hes
  simp only [taskSteps, List.length_replicate, List.length_map] at hlength
  exact ⟨r, w, w', es, miner, miner', hs, hlength.symm, hm, hm', hminer miner miner' hm hm'⟩

end CpuMinerSv2.Quiescence
