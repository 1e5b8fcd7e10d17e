import CpuMinerSv2.Addressing
import CpuMinerSv2.Client
import CpuMinerSv2.MinerInvariants

/-!
What `start` leaves behind when it returns. The token is cancelled when the
server has closed the connection, and when a shutdown made the loop end; an
error that a frame causes is passed on without a cancellation, and the tasks
spawned before it go on.
-/

namespace CpuMinerSv2.ConnectionEnd

open Messages Channels Primitives Interference MineJob MinerMethods MinerRuns Manager ManagerFrames
  Deliveries Registry HandlerRuns GroupRefinement HandlerErrors Addressing MinerInvariants Config
  Client SampleWorlds

section Rigs

variable {K : ClientChannel}

/-- Only a task can poison the lock of its channel. -/
def PoisonedByTask (m : ChannelMiner K) : Prop := m.channel.poisoned = true → m.tasks ≠ []

theorem others_poisonedByTask {r r' : Rig K} (h : Others Unrestricted r r')
    (hr : PoisonedByTask r.miner) : PoisonedByTask r'.miner := by
  refine others_preserve (I := fun r => PoisonedByTask r.miner)
    (interferes_preserve (I := PoisonedByTask) ?_) h hr
  intro m amb i m' hstep hm
  have hlen := hstep.frame.length_eq
  have hpos : 0 < m.tasks.length := by
    cases hstep with
    | advance ht => exact List.length_pos_of_mem (List.mem_of_getElem? ht)
    | writerPanics ht => exact List.length_pos_of_mem (List.mem_of_getElem? ht)
    | rejected ht => exact List.length_pos_of_mem (List.mem_of_getElem? ht)
    | accepted ht => exact List.length_pos_of_mem (List.mem_of_getElem? ht)
    | sent ht => exact List.length_pos_of_mem (List.mem_of_getElem? ht)
    | sentOnce ht => exact List.length_pos_of_mem (List.mem_of_getElem? ht)
    | closeGate ht => exact List.length_pos_of_mem (List.mem_of_getElem? ht)
  intro _ hnil
  rw [hnil] at hlen
  rw [← hlen] at hpos
  exact absurd hpos (Nat.lt_irrefl 0)

theorem call_poisonedByTask {c : Call K} {r r' : Rig K} {res : Except Sv2CpuMinerError Unit}
    (h : Runs (Interferes Unrestricted) c.program r res r') (hr : PoisonedByTask r.miner) :
    PoisonedByTask r'.miner := by
  refine call_preserve (I := fun r => PoisonedByTask r.miner) ?_ ?_ ?_ ?_ h hr
  · exact fun _ _ hab ha => others_poisonedByTask (.single hab) ha
  · exact fun _ ha => ha
  · intro a ha hpoisoned
    rw [cancelPast, cancelPast_channel] at hpoisoned
    rw [cancelPast, cancelPast_tasks]
    exact ha hpoisoned
  · intro a _ _
    simp [spawn, spawnTask]

theorem others_tasks_nil {r r' : Rig K} (h : Others Unrestricted r r') (hr : r.miner.tasks = []) :
    r'.miner.tasks = [] := by
  have hlen := (others_frame h).length_eq
  rw [hr] at hlen
  exact List.length_eq_zero_iff.mp hlen

theorem others_globalCancelled {r r' : Rig K} (h : Others Unrestricted r r')
    (hr : r.ambient.globalCancelled = true) : r'.ambient.globalCancelled = true := by
  refine others_preserve (I := fun r => r.ambient.globalCancelled = true) ?_ h hr
  intro a b hab ha
  obtain ⟨e, _, he⟩ := hab
  rcases advance_cases he with ⟨_, _, _, _, _, rfl⟩ | ⟨_, _, hmono⟩
  · exact ha
  · exact hmono ha

theorem call_globalCancelled {c : Call K} {r r' : Rig K} {res : Except Sv2CpuMinerError Unit}
    (h : Runs (Interferes Unrestricted) c.program r res r')
    (hr : r.ambient.globalCancelled = true) : r'.ambient.globalCancelled = true := by
  refine call_preserve (I := fun r => r.ambient.globalCancelled = true) ?_ ?_ ?_ ?_ h hr
  · exact fun _ _ hab ha => others_globalCancelled (.single hab) ha
  · exact fun _ ha => ha
  · exact fun _ ha => ha
  · exact fun _ ha => ha

end Rigs

section Worlds

variable {D : Deps}

/-- No mining task has been spawned. -/
def NoTasks (w : World D) : Prop := AllMiners (fun _ m => m.tasks = []) w

/-- Nothing mines once the connection is given up. -/
def Ended (w : World D) : Prop := w.ambient.globalCancelled = true ∨ NoTasks w

theorem event_ended {w w' : World D} {e : WorldEvent} (h : w.advance e = some w') (hw : Ended w) :
    Ended w' := by
  rcases hw with hcancelled | hnone
  · left
    cases e with
    | task kind place i move =>
      obtain ⟨miner, _, hstep⟩ := Option.bind_eq_some_iff.mp h
      obtain ⟨miner', _, rfl⟩ := Option.map_eq_some_iff.mp hstep
      rw [ambient_putMiner]
      exact hcancelled
    | tick elapsed =>
      cases h
      exact hcancelled
    | shutdown =>
      cases h
      rfl
  · exact .inr (worldOthers_allMiners (fun _ _ _ hothers => others_tasks_nil hothers)
      (.single ⟨e, h⟩) hnone)

theorem refused_no_targets {w : World D} {m : ServerMessage} (h : Refused w m) {kind : Kind}
    {id : UInt32} {c : Call (D.client kind)} : ¬ Targets w m kind id c := by
  intro ht
  cases ht with
  | channelJob hstd =>
    rw [show w.manager.requiresStandardJobs = true from h] at hstd
    contradiction
  | groupJob hstd =>
    rw [show w.manager.requiresStandardJobs = true from h] at hstd
    contradiction
  | _ => exact h

theorem noTasks_not_found {w w' : World D} (hlocks : AllMiners (fun _ m => PoisonedByTask m) w)
    (hw : NoTasks w) (kind : Kind) (id : UInt32) : ¬ FoundPoisoned w w' kind id := by
  intro h
  obtain ⟨r, r', hr, _, hothers, hlock⟩ := h
  have hm := (rigAt_eq_some_iff.mp hr).1
  have hne := others_poisonedByTask hothers (hlocks kind _ _ hm) hlock
  exact hne (others_tasks_nil hothers (hw kind _ _ hm))

theorem failed_delivers (hD : GroupContract D.group) {m : ServerMessage} {w w' : World D}
    {e : Sv2CpuMinerError} (hne : NonemptyGroups w)
    (h : Runs WorldInterferes (handle m) w (.error e) w') :
    SameRegistry w w' ∧ Delivers (Targets w m) w w' := by
  generalize hres : (Except.error e : Except Sv2CpuMinerError Unit) = res at h
  cases handle_cases hD hne h with
  | quiet hsame hcalls => exact ⟨hsame, hcalls⟩
  | opened => exact nomatch hres
  | closed => exact nomatch hres
  | regrouped => exact nomatch hres

/-- A frame that fails, once tasks may have been spawned, fails on a message
that is refused or on a lock. -/
theorem failed_ended (hD : GroupContract D.group) {m : ServerMessage} {w w' : World D}
    {e : Sv2CpuMinerError} (hgroups : WellGrouped w)
    (hlocks : AllMiners (fun _ m => PoisonedByTask m) w)
    (h : Runs WorldInterferes (handle m) w (.error e) w')
    (hguard : w.ambient.globalCancelled = true ∨ NoTasks w ∨
      ¬ Refused w m ∧ ∀ kind id, Locks w m kind id → ¬ PoisonedAt w' kind id) : Ended w' := by
  obtain ⟨hsame, hcalls⟩ := failed_delivers hD hgroups.nonempty h
  have hfails := handle_fails hD h
  rcases hguard with hcancelled | hnone | ⟨hnot, hsafe⟩
  · by_cases hnil : NoTasks w'
    · exact .inr hnil
    · left
      simp only [NoTasks, AllMiners, not_forall] at hnil
      obtain ⟨kind, place, miner', hm', _⟩ := hnil
      obtain ⟨r, hr⟩ := hsame.rig_before hm'
      obtain ⟨r', hr', hstep⟩ := hcalls kind place r hr
      rw [← (rigAt_eq_some_iff.mp hr).2] at hcancelled
      rw [← (rigAt_eq_some_iff.mp hr').2]
      rcases hstep with hothers | ⟨_, _, _, _, _, hrun⟩
      · exact others_globalCancelled hothers hcancelled
      · exact call_globalCancelled hrun hcancelled
  · rcases hfails with ⟨hrefused, _⟩ | ⟨_, kind, id, _, hp⟩
    · refine .inr (delivers_allMiners (fun _ _ _ hothers => others_tasks_nil hothers) ?_ hsame
        hcalls hnone)
      intro kind id c r r' res ht
      exact absurd ht (refused_no_targets hrefused)
    · exact absurd hp (noTasks_not_found hlocks hnone kind id)
  · rcases hfails with ⟨hrefused, _⟩ | ⟨_, kind, id, hlocked, hp⟩
    · exact absurd hrefused hnot
    · exact absurd hp.poisonedAt (hsafe kind id hlocked)

end Worlds

section Start

variable {C : ClientDeps}

/-- A frame that arrives while tasks mine and nothing has been cancelled
parses, is not refused, and has to take no lock that is poisoned when its
handler is done. -/
def FramesAcceptable : Start C → StartLabel → Start C → Prop
  | .serving w, .receives (some frame), s' =>
    w.ambient.globalCancelled = true ∨ NoTasks w ∨
      ∃ message, C.miningMessage frame = .ok message ∧ ¬ Refused w message ∧
        ∀ w', worldOf s' = some w' → ∀ kind id, Locks w message kind id → ¬ PoisonedAt w' kind id
  | _, _, _ => True

/-- A step of `start` that takes acceptable frames only. -/
def AcceptingStep (m : Sv2CpuMiner) (s : Start C) (l : StartLabel) (s' : Start C) : Prop :=
  StartStep m s l s' ∧ FramesAcceptable s l s'

/-- What holds at each point of `start`. -/
def Sound : Start C → Prop
  | .opening w _ => WellGrouped w ∧ AllMiners (fun _ _ => False) w
  | .serving w => WellGrouped w ∧ AllMiners (fun _ m => PoisonedByTask m) w
  | .returned _ w => Ended w
  | _ => True

theorem event_wellGrouped (hD : GroupContract C.group) {w w' : World C.toDeps} {e : WorldEvent}
    (h : w.advance e = some w') (hw : WellGrouped w) : WellGrouped w' :=
  step_wellGrouped hD hw (.event h)

theorem openNext_sound (m : Sv2CpuMiner) {w : World C.toDeps} (hgroups : WellGrouped w)
    (hempty : AllMiners (fun _ _ => False) w) (requests : List ClientMessage) :
    Sound (openNext m w requests) := by
  cases requests with
  | nil => exact ⟨hgroups, fun kind place miner hm => (hempty kind place miner hm).elim⟩
  | cons request rest =>
    cases hfits : fitsStr0255 m.config.userIdentity with
    | false =>
      simp only [openNext, hfits]
      trivial
    | true =>
      simp only [openNext, hfits]
      exact ⟨hgroups, hempty⟩

theorem afterReply_sound (m : Sv2CpuMiner) (amb : Ambient) (frame : InboundFrame) :
    Sound (afterReply (C := C) m amb frame) := by
  unfold afterReply
  split
  · trivial
  · refine openNext_sound m (initial_wellGrouped _ _ _ _ _ _) ?_ _
    intro kind place miner hm
    cases kind <;> cases place <;> exact nomatch hm

theorem beginHandshake_sound (m : Sv2CpuMiner) (amb : Ambient) :
    Sound (beginHandshake C m amb) := by
  unfold beginHandshake
  split
  · trivial
  · split
    · trivial
    · split
      · trivial
      · trivial

theorem happens_sound (hD : GroupContract C.group) {s s' : Start C} {e : WorldEvent}
    (h : s.happens e = some s') (hs : Sound s) : Sound s' := by
  cases s with
  | opening w requests =>
    obtain ⟨w', hw, rfl⟩ := Option.map_eq_some_iff.mp h
    exact ⟨event_wellGrouped hD hw hs.1,
      worldOthers_allMiners (fun _ _ _ _ hf => hf) (.single ⟨e, hw⟩) hs.2⟩
  | serving w =>
    obtain ⟨w', hw, rfl⟩ := Option.map_eq_some_iff.mp h
    exact ⟨event_wellGrouped hD hw hs.1,
      worldOthers_allMiners (fun _ _ _ hothers => others_poisonedByTask hothers)
        (.single ⟨e, hw⟩) hs.2⟩
  | returned r w =>
    obtain ⟨w', hw, rfl⟩ := Option.map_eq_some_iff.mp h
    exact event_ended hw hs
  | connecting amb =>
    obtain ⟨amb', _, rfl⟩ := Option.map_eq_some_iff.mp h
    trivial
  | handshaking amb offer =>
    obtain ⟨amb', _, rfl⟩ := Option.map_eq_some_iff.mp h
    trivial
  | awaitingReply amb =>
    obtain ⟨amb', _, rfl⟩ := Option.map_eq_some_iff.mp h
    trivial
  | failed e => contradiction
  | panicked reason => contradiction

theorem control_sound (hD : GroupContract C.group) {m : Sv2CpuMiner} {s s' : Start C}
    {l : StartLabel} (h : s.advance m l = some s') (hguard : FramesAcceptable s l s')
    (hs : Sound s) :
    Sound s' := by
  cases control_cases h with
  | happens h => exact happens_sound hD h hs
  | connects => exact beginHandshake_sound m _
  | replied => exact afterReply_sound m _ _
  | requested => exact openNext_sound m hs.1 hs.2 _
  | noRequest => exact .inr (fun kind place miner hm => (hs.2 kind place miner hm).elim)
  | stopped hcancelled => exact .inl hcancelled
  | closed => exact .inl rfl
  | unparsed herror =>
    rcases hguard with hcancelled | hnone | ⟨message, hm, _⟩
    · exact .inl hcancelled
    · exact .inr hnone
    · rw [herror] at hm
      contradiction
  | _ => trivial

theorem step_sound (hD : GroupContract C.group) {m : Sv2CpuMiner} {s s' : Start C} {l : StartLabel}
    (h : AcceptingStep m s l s') (hs : Sound s) : Sound s' := by
  obtain ⟨h, hguard⟩ := h
  cases h with
  | control h => exact control_sound hD h hguard hs
  | @frame w w' frame message r hm hrun =>
    obtain ⟨hgroups, hlocks⟩ := hs
    cases r with
    | ok u =>
      refine ⟨step_wellGrouped hD hgroups (.message hrun), ?_⟩
      refine step_allMiners hD (fun _ _ _ hothers => others_poisonedByTask hothers) ?_ ?_
        hgroups.nonempty (.message hrun) hlocks
      · intro _ _ _ _ _ _ _ _ hpoisoned
        exact nomatch hpoisoned
      · intro _ _ kind id c r r' res _ _ _ hcall hr
        exact call_poisonedByTask hcall hr
    | error e =>
      refine failed_ended hD hgroups hlocks hrun ?_
      rcases hguard with hcancelled | hnone | ⟨message', hm', hnot, hlocks⟩
      · exact .inl hcancelled
      · exact .inr (.inl hnone)
      · cases hm.symm.trans hm'
        exact .inr (.inr ⟨hnot, hlocks w' rfl⟩)

end Start

/-- In every run of `start` whose frames, once tasks mine on a connection that
nothing has cancelled, are acceptable: when it has returned and any task was
spawned, the token is cancelled. -/
theorem returned_start_has_cancelled (C : ClientDeps) (hD : GroupContract C.group) (m : Sv2CpuMiner)
    (amb : Ambient) (ls : List StartLabel) (s : Start C)
    (hrun : Run (AcceptingStep m) (.connecting amb) ls s) (r : Except Sv2CpuMinerError Unit)
    (w : World C.toDeps) (hs : s = .returned r w) (kind : Kind)
    (place : Place) (miner : ChannelMiner (C.client kind)) (hm : w.minerAt kind place = some miner)
    (hspawned : miner.tasks ≠ []) : w.ambient.globalCancelled = true := by
  have hsound : Sound s :=
    hrun.invariant (I := Sound) (fun _ _ _ hs hstep => step_sound hD hstep hs) trivial
  subst hs
  rcases hsound with hcancelled | hnone
  · exact hcancelled
  · exact absurd (hnone kind place miner hm) hspawned

/-- Whether `start` has returned and its token is cancelled, and the number of
tasks of the first channel. -/
def outcome : Start sampleClient → Option (Bool × Option ℕ)
  | .returned _ w => some (w.ambient.globalCancelled,
      (w.minerAt .standard (.stored 1)).map fun miner => miner.tasks.length)
  | _ => none

theorem outcome_cases {s : Start sampleClient} {cancelled : Bool} {tasks : ℕ}
    (h : outcome s = some (cancelled, some tasks)) :
    ∃ r w miner, s = .returned r w ∧ w.ambient.globalCancelled = cancelled ∧
      w.minerAt .standard (.stored 1) = some miner ∧ miner.tasks.length = tasks := by
  cases s with
  | returned r w =>
    obtain ⟨hcancelled, htasks⟩ := Prod.mk.inj (Option.some.inj h)
    obtain ⟨miner, hm, hlen⟩ := Option.map_eq_some_iff.mp htasks
    exact ⟨r, w, miner, rfl, hcancelled, hm, hlen⟩
  | _ => contradiction

/-- A message that this client never asked for ends the run with an error while
the channel mines. -/
theorem failed_start_keeps_mining :
    ¬ ∀ (C : ClientDeps), GroupContract C.group → ∀ (m : Sv2CpuMiner) (amb : Ambient)
      (ls : List StartLabel) (s : Start C), Run (StartStep m) (.connecting amb) ls s →
      ∀ (r : Except Sv2CpuMinerError Unit) (w : World C.toDeps), s = .returned r w →
      ∀ (kind : Kind) (place : Place) (miner : ChannelMiner (C.client kind)),
        w.minerAt kind place = some miner → miner.tasks ≠ [] →
          w.ambient.globalCancelled = true := by
  intro hclaim
  have hplay : (play (Start.execute sampleMiner) (.connecting ⟨0, false⟩)
      (sampleConnection ++ [sampleFrame 0x23 [3]])).map outcome =
      some (some (false, some 1)) := by decide +kernel
  obtain ⟨s, hs, hout⟩ := Option.map_eq_some_iff.mp hplay
  obtain ⟨r, w, miner, rfl, hlive, hm, hlen⟩ := outcome_cases hout
  have hne : miner.tasks ≠ [] := by
    intro hnil
    rw [hnil] at hlen
    contradiction
  have hrun := run_of_play (f := Start.execute sampleMiner)
    (fun _ _ _ h => startStep_of_execute h) hs
  rw [hclaim sampleClient sample_groupContract sampleMiner _ _ _ hrun r w rfl .standard (.stored 1)
    miner hm hne] at hlive
  contradiction

/-- No channel under this id is poisoned. -/
def usable {D : Deps} (w : World D) (id : UInt32) : Bool :=
  (w.minerAt .standard (.stored id)).all (fun miner => !miner.channel.poisoned) &&
    (w.minerAt .extended (.stored id)).all (fun miner => !miner.channel.poisoned)

theorem not_poisonedAt_of_usable {D : Deps} {w : World D} {id : UInt32} (h : usable w id = true)
    (kind : Kind) : ¬ PoisonedAt w kind id := by
  rintro ⟨r, hr, hlock⟩
  have hm := (rigAt_eq_some_iff.mp hr).1
  obtain ⟨hstd, hext⟩ := Bool.and_eq_true_iff.mp h
  cases kind with
  | standard =>
    rw [hm, Option.all_some, hlock] at hstd
    contradiction
  | extended =>
    rw [hm, Option.all_some, hlock] at hext
    contradiction

/-- The restriction as a test. -/
def acceptable {C : ClientDeps} : Start C → StartLabel → Start C → Bool
  | .serving w, .receives (some frame), s' =>
    match C.miningMessage frame with
    | .error _ => false
    | .ok message => !decide (Refused w message) &&
        (worldOf s').all fun w' => (concerned w.manager message).all (usable w')
  | _, _, _ => true

theorem framesAcceptable_of_acceptable {C : ClientDeps} {s s' : Start C} {l : StartLabel}
    (h : acceptable s l s' = true) : FramesAcceptable s l s' := by
  unfold FramesAcceptable
  split
  · rename_i w frame s'
    refine .inr (.inr ?_)
    simp only [acceptable] at h
    split at h
    · contradiction
    · rename_i message hm
      simp only [Bool.and_eq_true, Bool.not_eq_true', decide_eq_false_iff_not] at h
      refine ⟨message, hm, h.1, ?_⟩
      intro w' hw' kind id hlocks
      rw [hw', Option.all_some, List.all_eq_true] at h
      exact not_poisonedAt_of_usable (h.2 id (locks_concerned hlocks)) kind
  · trivial

def taskSteps (i steps : ℕ) : List StartLabel :=
  List.replicate steps (.event (.task .standard (.stored 1) i .next))

/-- While the first task hashes, a new job supersedes it and the target of the
group changes; the second task sends a share. Then the server closes the
connection. -/
def sampleMiningConnection : List StartLabel :=
  sampleConnection ++ taskSteps 0 5 ++ [sampleFrame 0x15 [4]] ++ taskSteps 0 1 ++ taskSteps 1 4 ++
    [sampleFrame 0x21 [5]] ++ taskSteps 1 4 ++ [.receives none]

theorem closed_connection_stops_mining :
    ∃ r w miner, Run (AcceptingStep sampleMiner) (.connecting ⟨0, false⟩) sampleMiningConnection
        (Start.returned (C := sampleClient) r w) ∧
      w.minerAt .standard (.stored 1) = some miner ∧ miner.tasks.length = 2 ∧
      w.ambient.globalCancelled = true := by
  have hplay : (play (fun s l => (Start.execute sampleMiner s l).filter (acceptable s l))
      (.connecting ⟨0, false⟩ : Start sampleClient) sampleMiningConnection).map outcome =
      some (some (true, some 2)) := by decide +kernel
  obtain ⟨s, hs, hout⟩ := Option.map_eq_some_iff.mp hplay
  obtain ⟨r, w, miner, rfl, _, hm, hlen⟩ := outcome_cases hout
  have hne : miner.tasks ≠ [] := List.ne_nil_of_length_pos (by omega)
  have hrun : Run (AcceptingStep sampleMiner) (.connecting ⟨0, false⟩) sampleMiningConnection
      (Start.returned (C := sampleClient) r w) := by
    refine run_of_play ?_ hs
    intro a l b hab
    obtain ⟨hexecute, hacceptable⟩ := Option.filter_eq_some_iff.mp hab
    exact ⟨startStep_of_execute hexecute, framesAcceptable_of_acceptable hacceptable⟩
  exact ⟨r, w, miner, hrun, hm, hlen, returned_start_has_cancelled sampleClient
    sample_groupContract sampleMiner _ _ _ hrun r w rfl .standard (.stored 1) miner hm hne⟩

end CpuMinerSv2.ConnectionEnd
