import CpuMinerSv2.Interleavings
import CpuMinerSv2.ManagerFrames
import CpuMinerSv2.SampleWorlds
import CpuMinerSv2.ShareFlow

/-!
Between two messages the miners of a connection are components that share
nothing but the clock, the connection's token and the queue upstream. Which
miner's tasks take their turn first makes no difference to any of them, and in
the queue only to the order between shares of different miners.
-/

namespace CpuMinerSv2.Isolation

open Messages Channels Primitives MineJob MinerMethods Manager ManagerFrames Accounts Interleavings
  ShareFlow SampleDeps SampleWorlds

variable {D : Deps}

/-- The events a miner takes part in: the steps of its own tasks, the clock
and the shutdown. -/
def ownEvent (home : Kind × Place) : WorldEvent → Option Event
  | .task kind place i move => if (kind, place) = home then some (.task i move) else none
  | .tick elapsed => some (.tick elapsed)
  | .shutdown => some .shutdown

theorem ownEvent_self (kind : Kind) (place : Place) (i : ℕ) (move : Move) :
    ownEvent (kind, place) (.task kind place i move) = some (.task i move) := if_pos rfl

theorem ownEvent_of_ne {home : Kind × Place} {kind : Kind} {place : Place} (i : ℕ) (move : Move)
    (hne : (kind, place) ≠ home) : ownEvent home (.task kind place i move) = none := if_neg hne

/-- The clock and the token, and the miner at this place, if there is one. -/
def viewAt (home : Kind × Place) (w : World D) :
    Ambient × Option (ChannelMiner (D.client home.1)) :=
  (w.ambient, w.minerAt home.1 home.2)

def viewStep {K : ClientChannel} :
    Ambient × Option (ChannelMiner K) → Event → Option (Ambient × Option (ChannelMiner K))
  | (amb, some m), e => (Rig.advance ⟨amb, m⟩ e).map fun r => (r.ambient, some r.miner)
  | (_, none), .task _ _ => none
  | (amb, none), .tick elapsed => some ({ amb with now := amb.now + elapsed }, none)
  | (amb, none), .shutdown => some ({ amb with globalCancelled := true }, none)

/-- What no miner sees. -/
def unseen (w : World D) :
    PartialMap UInt32 D.group.GroupChannel × (String × F32 × Bool × ℕ × Bool) × List ErrorLog :=
  (w.manager.groupChannels, settings w.manager, w.log)

theorem viewAt_rig (home : Kind × Place) {w : World D} {r : Rig (D.client home.1)}
    (hr : w.rigAt home.1 home.2 = some r) : viewAt home w = (r.ambient, some r.miner) := by
  obtain ⟨hm, hamb⟩ := rigAt_eq_some_iff.mp hr
  unfold viewAt
  rw [hm, hamb]

theorem play_viewStep {K : ClientChannel} (r : Rig K) (es : List Event) :
    play viewStep (r.ambient, some r.miner) es =
      (play Rig.advance r es).map fun r' => (r'.ambient, some r'.miner) := by
  induction es generalizing r with
  | nil => rfl
  | cons e rest ih =>
    simp only [play, viewStep]
    cases h : r.advance e with
    | none => rfl
    | some r₁ => exact ih r₁

theorem minerAt_withAmbient (w : World D) (amb : Ambient) (kind : Kind) (place : Place) :
    ({ w with ambient := amb } : World D).minerAt kind place = w.minerAt kind place := by
  cases kind <;> cases place <;> rfl

theorem ambient_view (home : Kind × Place) (w : World D) (amb : Ambient) (e : Event)
    (he : ∀ m : Option (ChannelMiner (D.client home.1)),
      viewStep (w.ambient, m) e = some (amb, m)) :
    play viewStep (viewAt home w) [e] = some (viewAt home { w with ambient := amb }) := by
  have hminer := minerAt_withAmbient w amb home.1 home.2
  unfold viewAt
  rw [hminer, play, he]
  rfl

theorem task_view {w w' : World D} {kind : Kind} {place : Place} {i : ℕ} {move : Move}
    (home : Kind × Place) (h : w.advance (.task kind place i move) = some w') :
    play viewStep (viewAt home w) (ownEvent home (.task kind place i move)).toList =
      some (viewAt home w') := by
  obtain ⟨miner, hm, h⟩ := Option.bind_eq_some_iff.mp h
  obtain ⟨miner', hstep, rfl⟩ := Option.map_eq_some_iff.mp h
  by_cases hself : (kind, place) = home
  · subst hself
    have hafter := minerAt_putMiner_self hm miner'
    unfold viewAt
    rw [ownEvent_self, hm, hafter, ambient_putMiner]
    simp [play, viewStep, Rig.advance, hstep]
  · have hne : ¬ (home.1 = kind ∧ home.2 = place) := by
      intro hboth
      exact hself (Prod.ext hboth.1.symm hboth.2.symm)
    unfold viewAt
    rw [ownEvent_of_ne i move hself, minerAt_putMiner_of_ne w miner' hne, ambient_putMiner]
    rfl

/-- A world is known by what its miners see and by what none of them sees. -/
theorem world_ext {w w' : World D} (hview : ∀ home, viewAt home w = viewAt home w')
    (hrest : unseen w = unseen w') : w = w' := by
  have hambient : w.ambient = w'.ambient :=
    congrArg Prod.fst (hview (.standard, .dropped 0))
  have hminer : ∀ kind place, w.minerAt kind place = w'.minerAt kind place :=
    fun kind place => congrArg Prod.snd (hview (kind, place))
  have hchannels : ∀ kind, w.manager.channels kind = w'.manager.channels kind := by
    intro kind
    funext id
    exact hminer kind (.stored id)
  have hdropped : ∀ kind, w.dropped kind = w'.dropped kind := by
    intro kind
    apply List.ext_getElem?
    intro n
    exact hminer kind (.dropped n)
  obtain ⟨mgr, standard, extended, amb, log⟩ := w
  obtain ⟨mgr', standard', extended', amb', log'⟩ := w'
  obtain ⟨user, rate, single, cpu, requires, ext, std, groups⟩ := mgr
  obtain ⟨user', rate', single', cpu', requires', ext', std', groups'⟩ := mgr'
  cases hrest
  cases hambient
  cases (hchannels .standard : std = std')
  cases (hchannels .extended : ext = ext')
  cases (hdropped .standard : standard = standard')
  cases (hdropped .extended : extended = extended')
  rfl

theorem advance_follows :
    Follows (World.advance (D := D)) viewAt ownEvent (fun _ => viewStep) := by
  intro w e w' h home
  cases e with
  | task kind place i move => exact task_view home h
  | tick elapsed =>
    cases h
    refine ambient_view home w _ (.tick elapsed) ?_
    intro m
    cases m <;> rfl
  | shutdown =>
    cases h
    refine ambient_view home w _ .shutdown ?_
    intro m
    cases m <;> rfl

theorem advance_enabled {w : World D} {kind : Kind} {place : Place} {i : ℕ} {move : Move}
    (h : (viewStep (viewAt (kind, place) w) (.task i move)).isSome = true) :
    (w.advance (.task kind place i move)).isSome = true := by
  unfold viewAt at h
  cases hm : w.minerAt kind place with
  | none =>
    rw [hm] at h
    contradiction
  | some miner =>
    rw [hm] at h
    cases hstep : stepTask miner w.ambient i move with
    | none => simp [viewStep, Rig.advance, hstep] at h
    | some miner' => simp [World.advance, hm, hstep]

theorem unseen_advance {w w' : World D} {e : WorldEvent} (h : w.advance e = some w') :
    unseen w' = unseen w := by
  cases e with
  | task kind place i move =>
    obtain ⟨miner, _, h⟩ := Option.bind_eq_some_iff.mp h
    obtain ⟨miner', _, rfl⟩ := Option.map_eq_some_iff.mp h
    unfold unseen
    rw [groups_putMiner, settings_putMiner, log_putMiner]
  | tick elapsed =>
    cases h
    rfl
  | shutdown =>
    cases h
    rfl

theorem run_rigAt {w w' : World D} {es : List WorldEvent}
    (hrun : Run (Executes World.advance) w es w') {kind : Kind} {place : Place}
    {r : Rig (D.client kind)} (hr : w.rigAt kind place = some r) :
    ∃ r', w'.rigAt kind place = some r' ∧
      play Rig.advance r (es.filterMap (ownEvent (kind, place))) = some r' := by
  have hplay := advance_follows.run_view hrun (kind, place)
  rw [viewAt_rig (kind, place) hr, play_viewStep] at hplay
  obtain ⟨r', hr', hview⟩ := Option.map_eq_some_iff.mp hplay
  refine ⟨r', ?_, hr'⟩
  have hamb : r'.ambient = w'.ambient := congrArg Prod.fst hview
  have hminer : some r'.miner = w'.minerAt kind place := congrArg Prod.snd hview
  exact rigAt_eq_some_iff.mpr ⟨hminer.symm, hamb⟩

/-- A share in the queue upstream, with the miner that put it there. -/
structure Queued (D : Deps) where
  home : Kind × Place
  share : (D.client home.1).Share

/-- The world, and whether the queue that all its miners send into is closed. -/
structure Shared (D : Deps) where
  world : World D
  closed : Bool

/-- An event, or the closing of the queue. -/
inductive Happening (ε : Type) where
  | event (e : ε)
  | closes

/-- A send fails on a closed queue and on no other. -/
def sendsAs {K : ClientChannel} (closed : Bool) (miner : Option (ChannelMiner K)) : Event → Bool
  | .task i move => miner.all fun m =>
    (handOf m i).isEmpty || decide (closed = true ↔ move = .sendFails)
  | _ => true

def Shared.admits (s : Shared D) : WorldEvent → Bool
  | .task kind place i move => sendsAs s.closed (s.world.minerAt kind place) (.task i move)
  | _ => true

def Shared.next (s : Shared D) : Happening WorldEvent → Option (Shared D)
  | .event e => if s.admits e then (s.world.advance e).map fun w => { s with world := w } else none
  | .closes => some { s with closed := true }

/-- What a step of a miner puts into the queue. -/
def queuedFrom (home : Kind × Place) (amb : Ambient)
    (miner : Option (ChannelMiner (D.client home.1))) (e : Event) : List (Queued D) :=
  (miner.map fun m =>
    ((postedAt ⟨amb, m⟩ (.event e)).filterMap Posting.queued).map (Queued.mk home)).getD []

def queuedBy (s : Shared D) : Happening WorldEvent → List (Queued D)
  | .event (.task kind place i move) =>
    queuedFrom (kind, place) s.world.ambient (s.world.minerAt kind place) (.task i move)
  | _ => []

/-- What enters the queue in the course of a run, in order. -/
abbrev upstreamQueue : Shared D → List (Happening WorldEvent) → List (Queued D) :=
  emitted Shared.next queuedBy

/-- A miner takes part in its own events and in the closing of the queue. -/
def ownHappening (home : Kind × Place) : Happening WorldEvent → Option (Happening Event)
  | .event e => (ownEvent home e).map .event
  | .closes => some .closes

def sharedView (home : Kind × Place) (s : Shared D) :
    (Ambient × Option (ChannelMiner (D.client home.1))) × Bool := (viewAt home s.world, s.closed)

def sharedStep {K : ClientChannel} :
    (Ambient × Option (ChannelMiner K)) × Bool → Happening Event →
      Option ((Ambient × Option (ChannelMiner K)) × Bool)
  | (v, closed), .event e => if sendsAs closed v.2 e then (viewStep v e).map (·, closed) else none
  | (v, _), .closes => some (v, true)

def queuedOwn (home : Kind × Place) :
    (Ambient × Option (ChannelMiner (D.client home.1))) × Bool → Happening Event → List (Queued D)
  | (v, _), .event e => queuedFrom home v.1 v.2 e
  | _, .closes => []

theorem sendsAs_own {s : Shared D} {e : WorldEvent} (h : s.admits e = true) {home : Kind × Place}
    {own : Event} (hown : ownEvent home e = some own) :
    sendsAs s.closed (s.world.minerAt home.1 home.2) own = true := by
  cases e with
  | task kind place i move =>
    unfold ownEvent at hown
    obtain ⟨hself, htask⟩ := Option.ite_none_right_eq_some.mp hown
    subst hself
    cases htask
    exact h
  | tick elapsed =>
    cases hown
    rfl
  | shutdown =>
    cases hown
    rfl

theorem shared_follows :
    Follows (Shared.next (D := D)) sharedView ownHappening (fun _ => sharedStep) := by
  intro s l s' h home
  cases l with
  | event e =>
    obtain ⟨hadmits, h⟩ := Option.ite_none_right_eq_some.mp h
    obtain ⟨w', hw', rfl⟩ := Option.map_eq_some_iff.mp h
    have hplay := advance_follows s.world e w' hw' home
    cases hown : ownEvent home e with
    | none =>
      rw [hown] at hplay
      have hsame : viewAt home s.world = viewAt home w' := Option.some.inj hplay
      simp [ownHappening, hown, play, sharedView, hsame]
    | some own =>
      have hsends : sendsAs s.closed (viewAt home s.world).2 own = true :=
        sendsAs_own hadmits hown
      rw [hown] at hplay
      have hstep : viewStep (viewAt home s.world) own = some (viewAt home w') := by
        simpa [play] using hplay
      simp [ownHappening, hown, play, sharedView, sharedStep, hstep, hsends]
  | closes =>
    cases h
    rfl

/-- The miners of a connection are components of it. -/
theorem miners_composed :
    Composed (Shared.next (D := D)) sharedView ownHappening (fun _ => sharedStep)
      (fun s => unseen s.world) := by
  refine ⟨shared_follows, ?_, ?_, ?_⟩
  · intro s l hsome
    cases l with
    | event e =>
      cases e with
      | task kind place i move =>
        have hown := hsome (kind, place)
        cases hsends : sendsAs s.closed (viewAt (kind, place) s.world).2 (.task i move) with
        | false => simp [ownHappening, ownEvent_self, play, sharedView, sharedStep, hsends] at hown
        | true =>
          have hadmits : s.admits (.task kind place i move) = true := hsends
          simp only [Shared.next, hadmits, ↓reduceIte, Option.isSome_map]
          apply advance_enabled
          simpa [ownHappening, ownEvent_self, play, sharedView, sharedStep, hsends] using hown
      | tick elapsed => rfl
      | shutdown => rfl
    | closes => rfl
  · intro s l s' h
    cases l with
    | event e =>
      obtain ⟨_, h⟩ := Option.ite_none_right_eq_some.mp h
      obtain ⟨w', hw', rfl⟩ := Option.map_eq_some_iff.mp h
      exact unseen_advance hw'
    | closes =>
      cases h
      rfl
  · intro s s' hview hrest
    have hclosed : s.closed = s'.closed := congrArg Prod.snd (hview (.standard, .dropped 0))
    have hworld : s.world = s'.world :=
      world_ext (fun home => congrArg Prod.fst (hview home)) hrest
    cases s
    cases s'
    cases hclosed
    cases hworld
    rfl

theorem filter_queuedFrom (home : Kind × Place) (amb : Ambient)
    (miner : Option (ChannelMiner (D.client home.1))) (e : Event) :
    (queuedFrom home amb miner e).filter (·.home = home) = queuedFrom home amb miner e := by
  rw [List.filter_eq_self]
  intro q hq
  cases miner with
  | none => contradiction
  | some m =>
    obtain ⟨_, _, rfl⟩ := List.mem_map.mp hq
    exact decide_eq_true rfl

theorem filter_queuedFrom_ne {home home' : Kind × Place} (hne : home ≠ home') (amb : Ambient)
    (miner : Option (ChannelMiner (D.client home.1))) (e : Event) :
    (queuedFrom home amb miner e).filter (·.home = home') = [] := by
  rw [List.filter_eq_nil_iff]
  intro q hq
  cases miner with
  | none => contradiction
  | some m =>
    obtain ⟨_, _, rfl⟩ := List.mem_map.mp hq
    exact fun h => hne (of_decide_eq_true h)

theorem queue_of_home {s s' : Shared D} {es : List (Happening WorldEvent)}
    (hrun : Run (Executes Shared.next) s es s') (home : Kind × Place) :
    (upstreamQueue s es).filter (·.home = home) =
      emitted sharedStep (queuedOwn home) (sharedView home s)
        (es.filterMap (ownHappening home)) := by
  rw [← List.filterMap_eq_filter]
  refine shared_follows.emitted_view ?_ hrun
  intro s l
  rw [List.filterMap_eq_filter]
  cases l with
  | event e =>
    cases e with
    | task kind place i move =>
      by_cases hself : (kind, place) = home
      · subst hself
        simp only [ownHappening, ownEvent_self]
        exact filter_queuedFrom _ _ _ _
      · simp only [ownHappening, ownEvent_of_ne i move hself]
        exact filter_queuedFrom_ne hself _ _ _
    | tick elapsed =>
      change [] = queuedFrom home s.world.ambient (s.world.minerAt home.1 home.2) (.tick elapsed)
      cases s.world.minerAt home.1 home.2 <;> rfl
    | shutdown =>
      change [] = queuedFrom home s.world.ambient (s.world.minerAt home.1 home.2) .shutdown
      cases s.world.minerAt home.1 home.2 <;> rfl
  | closes => rfl

theorem viewStep_sent {home : Kind × Place} {amb amb' : Ambient}
    {miner miner' : ChannelMiner (D.client home.1)} {e : Event}
    (h : viewStep (amb, some miner) e = some (amb', some miner')) :
    miner'.sent.map (Queued.mk home) =
      miner.sent.map (Queued.mk home) ++ queuedFrom home amb (some miner) e := by
  obtain ⟨r', hadvance, hview⟩ := Option.map_eq_some_iff.mp h
  cases hview
  rw [advance_sent hadvance, List.map_append]
  rfl

theorem sent_eq_queue {home : Kind × Place} {s s' : Shared D}
    {es : List (Happening WorldEvent)} (hrun : Run (Executes Shared.next) s es s')
    {miner miner' : ChannelMiner (D.client home.1)}
    (hm : s.world.minerAt home.1 home.2 = some miner)
    (hm' : s'.world.minerAt home.1 home.2 = some miner') :
    miner'.sent.map (Queued.mk home) = miner.sent.map (Queued.mk home) ++
      (upstreamQueue s es).filter (·.home = home) := by
  have hown : Run (Executes sharedStep) (sharedView home s) (es.filterMap (ownHappening home))
      (sharedView home s') := run_of_play (fun _ _ _ h => h) (shared_follows.run_view hrun home)
  rw [queue_of_home hrun home]
  refine ledger sharedStep (queuedOwn home) (I := fun log v => ∀ m, v.1.2 = some m →
    m.sent.map (Queued.mk home) = miner.sent.map (Queued.mk home) ++ log) ?_ hown ?_ miner' hm'
  · rintro log ⟨⟨amb, before⟩, closed⟩ l v' hlog hstep m hafter
    cases l with
    | event e =>
      obtain ⟨_, hstep⟩ := Option.ite_none_right_eq_some.mp hstep
      obtain ⟨⟨amb', after⟩, hview, rfl⟩ := Option.map_eq_some_iff.mp hstep
      cases hafter
      cases before with
      | none => cases e <;> simp [viewStep] at hview
      | some old =>
        rw [viewStep_sent hview, hlog old rfl, List.append_assoc]
        rfl
    | closes =>
      cases hstep
      rw [hlog m hafter]
      exact (congrArg _ (List.append_nil log)).symm
  · intro m hsome
    cases hm.symm.trans hsome
    exact (List.append_nil _).symm

/-- The schedule across miners does not matter: events that are reordered in
any way that keeps, for every miner, the order of its own tasks' steps, of the
clock, of the shutdown and of the closing of the queue can happen as well, and
end in the very same state of the manager and of every miner. The queue gets
the same shares, and those of each miner in the same order. -/
theorem schedule_across_miners_irrelevant (D : Deps) (s s' : Shared D)
    (es es' : List (Happening WorldEvent)) (hrun : Run (Executes Shared.next) s es s')
    (hsame : ∀ home, es'.filterMap (ownHappening home) = es.filterMap (ownHappening home)) :
    Run (Executes Shared.next) s es' s' ∧
      (upstreamQueue s es').Perm (upstreamQueue s es) ∧
      ∀ home, (upstreamQueue s es').filter (·.home = home) =
          (upstreamQueue s es).filter (·.home = home) ∧
        ∀ miner miner' : ChannelMiner (D.client home.1),
          s.world.minerAt home.1 home.2 = some miner →
          s'.world.minerAt home.1 home.2 = some miner' →
          miner'.sent.map (Queued.mk home) = miner.sent.map (Queued.mk home) ++
            (upstreamQueue s es').filter (·.home = home) := by
  have hrun' := miners_composed.reorder hrun hsame
  have hqueue : ∀ home, (upstreamQueue s es').filter (·.home = home) =
      (upstreamQueue s es).filter (·.home = home) := by
    intro home
    rw [queue_of_home hrun' home, queue_of_home hrun home, hsame home]
  refine ⟨hrun', perm_of_filter_eq Queued.home hqueue, ?_⟩
  exact fun home => ⟨hqueue home, fun _ _ hm hm' => sent_eq_queue hrun' hm hm'⟩

/-- The first task of a miner goes on for a number of steps. -/
def stepsOf (home : Kind × Place) (n : ℕ) : List (Happening WorldEvent) :=
  List.replicate n (.event (.task home.1 home.2 0 .next))

theorem filterMap_stepsOf {home own : Kind × Place} (hne : home ≠ own) (n : ℕ) :
    (stepsOf home n).filterMap (ownHappening own) = [] := by
  rw [List.filterMap_eq_nil_iff]
  intro l hl
  cases List.eq_of_mem_replicate hl
  simp only [ownHappening, ownEvent_of_ne _ _ hne, Option.map_none]

theorem filterMap_stepsOf_swap {home home' : Kind × Place} (hne : home ≠ home') (n n' : ℕ)
    (own : Kind × Place) :
    (stepsOf home n ++ stepsOf home' n').filterMap (ownHappening own) =
      (stepsOf home' n' ++ stepsOf home n).filterMap (ownHappening own) := by
  rw [List.filterMap_append, List.filterMap_append]
  by_cases hself : home = own
  · have hother : home' ≠ own := fun h => hne (hself.trans h.symm)
    rw [filterMap_stepsOf hother, List.append_nil, List.nil_append]
  · rw [filterMap_stepsOf hself, List.append_nil, List.nil_append]

/-- The two miners of the sample group. -/
def sampleHome : Kind → Kind × Place
  | .standard => (.standard, .stored 1)
  | .extended => (.extended, .stored 2)

def sampleTurns : Kind → List (Happening WorldEvent)
  | .standard => stepsOf (sampleHome .standard) 12
  | .extended => stepsOf (sampleHome .extended) 8

/-- Both miners send a share, and the queue is closed before the standard miner
can send its second. -/
def sampleHappenings (first second : Kind) : List (Happening WorldEvent) :=
  sampleTurns first ++ sampleTurns second ++
    [.closes, .event (.task .standard (.stored 1) 0 .sendFails)]

/-- The miners of a group send their shares in either order. -/
theorem sample_schedule :
    ∃ w s', play World.execute sampleWorld (sampleOpenings ++ handled [newJobMessage 1 5 none,
        newExtendedJobMessage 2 5 none [8], prevHashMessage 10 5]) = some w ∧
      (upstreamQueue ⟨w, false⟩ (sampleHappenings .standard .extended)).map (fun q => q.home.1) =
        [.standard, .extended] ∧
      (upstreamQueue ⟨w, false⟩ (sampleHappenings .extended .standard)).map (fun q => q.home.1) =
        [.extended, .standard] ∧
      Run (Executes Shared.next) ⟨w, false⟩ (sampleHappenings .standard .extended) s' ∧
      Run (Executes Shared.next) ⟨w, false⟩ (sampleHappenings .extended .standard) s' := by
  have hplay : ((play World.execute sampleWorld (sampleOpenings ++ handled
      [newJobMessage 1 5 none, newExtendedJobMessage 2 5 none [8], prevHashMessage 10 5])).bind
        fun w => (play Shared.next ⟨w, false⟩ (sampleHappenings .standard .extended)).map fun _ =>
          ((upstreamQueue ⟨w, false⟩ (sampleHappenings .standard .extended)).map
              (fun q => q.home.1),
            (upstreamQueue ⟨w, false⟩ (sampleHappenings .extended .standard)).map
              (fun q => q.home.1))) =
      some ([.standard, .extended], [.extended, .standard]) := by decide +kernel
  obtain ⟨w, hw, hrest⟩ := Option.bind_eq_some_iff.mp hplay
  obtain ⟨s', hs', hqueues⟩ := Option.map_eq_some_iff.mp hrest
  obtain ⟨hqueue, hqueue'⟩ := Prod.mk.injEq _ _ _ _ ▸ hqueues
  have hrun : Run (Executes Shared.next) ⟨w, false⟩ (sampleHappenings .standard .extended) s' :=
    run_of_play (fun _ _ _ h => h) hs'
  refine ⟨w, s', hw, hqueue, hqueue', hrun, ?_⟩
  refine (schedule_across_miners_irrelevant sampleDeps _ s' _ _ hrun ?_).1
  intro home
  simp only [sampleHappenings, sampleTurns]
  rw [List.filterMap_append, filterMap_stepsOf_swap (by decide), ← List.filterMap_append]

end CpuMinerSv2.Isolation
