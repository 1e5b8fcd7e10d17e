import CpuMinerSv2.Reopening

/-!
The groups of an open channel. Opening puts a channel into one group, and a
redefined group takes it over from the group it was in. A redefinition may
also leave a member out: that channel stays open in no group, until another
redefinition lists it. The ids left out are recorded beside the world.
-/

namespace CpuMinerSv2.LeftOut

open Messages Channels Primitives MineJob Manager ManagerFrames Deliveries Registry HandlerRuns
  GroupRefinement Groups Reopening SampleDeps SampleWorlds

variable {D : Deps}

/-- The channels left out after a step. An accepted `SetGroupChannel`, one that
returns `Ok` and logs no error, leaves out the members it does not list; a
channel that closes is forgotten. -/
def leftOutAfter (w : World D) (leftOut : Set UInt32) (l : WorldLabel) (w' : World D) :
    Set UInt32 :=
  match l with
  | .message (.setGroupChannel m) (.ok ()) =>
    {id | w'.log = w.log ∧ id ∉ m.channelIds ∧ (id ∈ leftOut ∨ IsMember w m.groupChannelId id) ∨
      w'.log ≠ w.log ∧ id ∈ leftOut}
  | _ => {id | id ∈ leftOut ∧ ChannelOpen w' id}

/-- A world and the channels left out so far. -/
structure Tracked (D : Deps) where
  world : World D
  leftOut : Set UInt32

def TrackedStep (t : Tracked D) (l : WorldLabel) (t' : Tracked D) : Prop :=
  WorldStep t.world l t'.world ∧ t'.leftOut = leftOutAfter t.world t.leftOut l t'.world

def NoReopeningTracked (t : Tracked D) (l : WorldLabel) : Prop := NoReopening t.world l

/-- Every run can be tracked. -/
theorem tracked_of_run {guard : World D → WorldLabel → Prop} {w w' : World D}
    {ls : List WorldLabel} (h : Run (Guarded guard WorldStep) w ls w') (leftOut : Set UInt32) :
    ∃ leftOut', Run (Guarded (fun t l => guard t.world l) TrackedStep) ⟨w, leftOut⟩ ls
      ⟨w', leftOut'⟩ := by
  induction h with
  | nil => exact ⟨leftOut, .nil⟩
  | @snoc ls l s₁ s₂ _ hstep ih =>
    obtain ⟨before, hbefore⟩ := ih
    exact ⟨leftOutAfter s₁ before l s₂, .snoc hbefore ⟨hstep.1, hstep.2, rfl⟩⟩

/-- No channel is in two groups, and an open one is in a group unless it has
been left out. -/
def GroupedApart (w : World D) (leftOut : Set UInt32) : Prop :=
  MapsDisjoint w ∧ ∃ t, Shows w t ∧ t.Exclusive ∧ ∀ a ∈ t.active, t.Grouped a ↔ a ∉ leftOut

theorem GroupedApart.congr {w w' : World D} {leftOut : Set UInt32} (h : GroupedApart w leftOut)
    (hsame : SameRegistry w w') : GroupedApart w' leftOut := by
  obtain ⟨hdisjoint, t, ht, hgroups⟩ := h
  refine ⟨?_, t, ht.congr hsame, hgroups⟩
  apply hdisjoint.of_fewer
  intro kind id hkey
  rw [← hsame.places]
  exact hkey

theorem GroupedApart.relabel {w : World D} {leftOut leftOut' : Set UInt32}
    (h : GroupedApart w leftOut) (hsame : ∀ id, ChannelOpen w id → (id ∈ leftOut' ↔ id ∈ leftOut)) :
    GroupedApart w leftOut' := by
  obtain ⟨hdisjoint, t, ht, hexcl, hgrouped⟩ := h
  refine ⟨hdisjoint, t, ht, hexcl, ?_⟩
  intro a ha
  rw [hgrouped a ha, hsame a ((ht.active a).mp ha)]

theorem opened_groupedApart (hD : GroupContract D.group) {o : Opening D} {w : World D}
    {channel : (D.client o.kind).Channel} {group : D.group.GroupChannel} {leftOut : Set UInt32}
    (hw : GroupedApart w leftOut) (hacc : Accepts o w channel group)
    (hfresh : ¬ ChannelOpen w o.channelId) (hnew : o.channelId ∉ leftOut) :
    GroupedApart (opened o w channel group) leftOut := by
  obtain ⟨hdisjoint, t, ht, hexcl, hgrouped⟩ := hw
  obtain ⟨hgroup, hfree, hne, hshows⟩ := shows_opened hD hacc ht
  have hinactive : o.channelId ∉ t.active := fun hmem => hfresh ((ht.active _).mp hmem)
  refine ⟨opened_disjoint hdisjoint hfresh, _, hshows, hexcl.enroll hinactive, ?_⟩
  intro a ha
  rw [GroupTable.grouped_enroll_iff]
  rcases Set.mem_insert_iff.mp ha with rfl | hold
  · exact iff_of_true (.inr rfl) hnew
  · have hne' : a ≠ o.channelId := by
      intro h
      exact hinactive (h ▸ hold)
    rw [← hgrouped a hold]
    simp [hne']

theorem closeOne_closes {w : World D} (hw : MapsDisjoint w) (id : UInt32) :
    ¬ ChannelOpen (closeOne w id) id := by
  intro hopen
  obtain ⟨kind', hkey⟩ := hopen
  rcases closeOne_cases w id with ⟨kind, miner, _, hstored, heq⟩ | ⟨hnone, heq⟩
  · rw [heq, minerAt_leaveGroups] at hkey
    by_cases hkind : kind' = kind
    · subst hkind
      rw [minerAt_removeMiner_self] at hkey
      contradiction
    · rw [minerAt_removeMiner_stored w miner (fun h => hkind h.1)] at hkey
      have hsome : (w.minerAt kind (.stored id)).isSome = true := by
        rw [hstored]
        rfl
      cases kind with
      | standard =>
        cases kind' with
        | standard => contradiction
        | extended => exact hw id ⟨hsome, hkey⟩
      | extended =>
        cases kind' with
        | standard => exact hw id ⟨hkey, hsome⟩
        | extended => contradiction
  · rw [heq, minerAt_logError, hnone] at hkey
    contradiction

theorem closeOne_groupedApart (hD : GroupContract D.group) {w : World D} {leftOut : Set UInt32}
    (hw : GroupedApart w leftOut) (id : UInt32) : GroupedApart (closeOne w id) leftOut := by
  obtain ⟨hdisjoint, t, ht, hexcl, hgrouped⟩ := hw
  refine ⟨closeOne_disjoint hdisjoint id, ?_⟩
  have hclosed := closeOne_closes hdisjoint id
  rcases shows_closeOne hD ht id with hstay | ⟨active', hactive, hstay, hretire⟩
  · exact ⟨t, hstay, hexcl, hgrouped⟩
  · refine ⟨_, hretire, hexcl.retire, ?_⟩
    intro a ha
    have hne : a ∉ ({id} : Set UInt32) := by
      intro h
      rw [Set.mem_singleton_iff.mp h] at ha
      exact hclosed ((hretire.active id).mp ha)
    rw [GroupTable.grouped_retire_iff, hgrouped a (hactive ha)]
    exact and_iff_left hne

theorem retainNonempty_groupedApart (hD : GroupContract D.group) {w : World D}
    {leftOut : Set UInt32} (hw : GroupedApart w leftOut) :
    GroupedApart w.retainNonempty leftOut := by
  obtain ⟨hdisjoint, t, ht, hgroups⟩ := hw
  refine ⟨?_, t, shows_retainNonempty hD ht, hgroups⟩
  apply hdisjoint.of_fewer
  intro kind id hkey
  rw [minerAt_retainNonempty] at hkey
  exact hkey

theorem regroup_groupedApart (hD : GroupContract D.group) {w w₀ : World D} {g : UInt32}
    {ids : List UInt32} {redefined : D.group.GroupChannel} {leftOut : Set UInt32}
    (hw : GroupedApart w leftOut) (hlisted : Listed w₀ (D.group.new g) ids redefined)
    (hfree : ¬ ChannelOpen w g) (hopen : ∀ id ∈ ids, ChannelOpen w id) :
    GroupedApart (regroup w g ids redefined)
      {id | id ∉ ids ∧ (id ∈ leftOut ∨ IsMember w g id)} := by
  obtain ⟨hdisjoint, t, ht, hexcl, hgrouped⟩ := hw
  obtain ⟨hgroup, hactive, hshows⟩ := shows_regroup hD hlisted ht hfree hopen
  refine ⟨?_, _, hshows, hexcl.regroup, ?_⟩
  · apply hdisjoint.of_fewer
    intro kind id hkey
    rw [minerAt_regroup] at hkey
    exact hkey
  · intro a ha
    rw [GroupTable.grouped_regroup_iff hexcl, hgrouped a ha, ht.members]
    simp only [Set.mem_ofPred_eq]
    tauto

/-- What holds along a tracked run. -/
structure TrackedApart (t : Tracked D) : Prop where
  nonempty : NonemptyGroups t.world
  groupedApart : GroupedApart t.world t.leftOut
  leftOutOpen : ∀ id ∈ t.leftOut, ChannelOpen t.world id

theorem closeChannel_groupedApart (hD : GroupContract D.group) {w : World D} {leftOut : Set UInt32}
    (hw : GroupedApart w leftOut) (id : UInt32) : GroupedApart (closeChannel id w) leftOut :=
  closeChannel_preserve (I := fun w => GroupedApart w leftOut)
    (fun _ id h => closeOne_groupedApart hD h id) (fun _ h => retainNonempty_groupedApart hD h)
    id hw

theorem mem_leftOutAfter_iff {w w' : World D} {leftOut : Set UInt32} {l : WorldLabel}
    (hl : ∀ m, l = .message (.setGroupChannel m) (.ok ()) → w'.log ≠ w.log) {id : UInt32}
    (hid : ChannelOpen w' id) : id ∈ leftOutAfter w leftOut l w' ↔ id ∈ leftOut := by
  unfold leftOutAfter
  split
  · rename_i m
    have hlog := hl m rfl
    simp [hlog]
  · exact and_iff_left hid

theorem TrackedApart.keep {t t' : Tracked D} {l : WorldLabel} (ht : TrackedApart t)
    (hnonempty : NonemptyGroups t'.world) (hapart : GroupedApart t'.world t.leftOut)
    (hleft : t'.leftOut = leftOutAfter t.world t.leftOut l t'.world)
    (hl : ∀ m, l = .message (.setGroupChannel m) (.ok ()) →
      t'.world.log ≠ t.world.log ∧ SameRegistry t.world t'.world) : TrackedApart t' := by
  refine ⟨hnonempty, ?_, ?_⟩
  · rw [hleft]
    apply hapart.relabel
    intro id hid
    exact mem_leftOutAfter_iff (fun m hm => (hl m hm).1) hid
  · intro id hmem
    rw [hleft] at hmem
    unfold leftOutAfter at hmem
    split at hmem
    · rename_i m
      obtain ⟨hlog, hsame⟩ := hl m rfl
      rcases hmem with ⟨heq, _⟩ | ⟨_, hold⟩
      · exact absurd heq hlog
      · exact (isOpen_congr hsame).mpr (ht.leftOutOpen id hold)
    · exact hmem.2

theorem TrackedApart.regroup (hD : GroupContract D.group) {w w₁ w' : World D}
    {leftOut leftOut' : Set UInt32} {m : SetGroupChannel} {redefined : D.group.GroupChannel}
    (ht : TrackedApart ⟨w, leftOut⟩) (hnonempty : NonemptyGroups w')
    (hfree : ¬ ChannelOpen w m.groupChannelId)
    (hlisted : Listed w (D.group.new m.groupChannelId) m.channelIds redefined)
    (h₁ : WorldOthers w w₁)
    (h' : WorldOthers (regroup w₁ m.groupChannelId m.channelIds redefined) w')
    (hleft : leftOut' = leftOutAfter w leftOut (.message (.setGroupChannel m) (.ok ())) w') :
    TrackedApart ⟨w', leftOut'⟩ := by
  have hbefore := worldOthers_sameRegistry h₁
  have hafter := worldOthers_sameRegistry h'
  have hlog : w'.log = w.log := by
    rw [worldOthers_log h', ← worldOthers_log h₁]
    rfl
  have hmember : ∀ id, IsMember w₁ m.groupChannelId id ↔ IsMember w m.groupChannelId id := by
    intro id
    unfold IsMember
    rw [hbefore.groups]
  have hmem : leftOut' =
      {id | id ∉ m.channelIds ∧ (id ∈ leftOut ∨ IsMember w₁ m.groupChannelId id)} := by
    rw [hleft]
    ext id
    simp [leftOutAfter, hlog, hmember]
  have hregrouped := regroup_groupedApart hD (ht.groupedApart.congr hbefore) hlisted
    (fun hopen => hfree ((isOpen_congr hbefore).mp hopen))
    (fun id hid => (isOpen_congr hbefore).mpr (hlisted.isOpen id hid))
  rw [← hmem] at hregrouped
  refine ⟨hnonempty, hregrouped.congr hafter, ?_⟩
  intro id hid
  rw [hmem] at hid
  have hopen : ChannelOpen w id := by
    rcases hid.2 with hold | hin
    · exact ht.leftOutOpen id hold
    · obtain ⟨_, t, hshows, _⟩ := ht.groupedApart
      rw [← hshows.active]
      exact t.members_subset _ ((hshows.members _ _).mpr ((hmember id).mp hin))
  rw [isOpen_congr hafter]
  unfold ChannelOpen
  simp only [minerAt_regroup]
  exact (isOpen_congr hbefore).mpr hopen

theorem trackedStep_apart (hD : GroupContract D.group) {t t' : Tracked D} {l : WorldLabel}
    (ht : TrackedApart t) (hguard : NoReopeningTracked t l) (h : TrackedStep t l t') :
    TrackedApart t' := by
  obtain ⟨w, leftOut⟩ := t
  obtain ⟨w', leftOut'⟩ := t'
  obtain ⟨hstep, hleft⟩ := h
  dsimp only at hstep hleft
  cases hstep with
  | event he =>
    have hsame := interferes_sameRegistry _ _ ⟨_, he⟩
    exact ht.keep (nonemptyGroups_congr hsame ht.nonempty) (ht.groupedApart.congr hsame) hleft
      (fun _ hm => nomatch hm)
  | @message _ m r hrun =>
    have hcases := handle_cases hD ht.nonempty hrun
    have hnonempty := handlerRun_nonempty hD hcases ht.nonempty
    cases hcases with
    | quiet hsame _ _ hregroup =>
      refine ht.keep hnonempty (ht.groupedApart.congr hsame) hleft ?_
      intro m' hm
      cases hm
      refine ⟨?_, hsame⟩
      intro hlog
      exact hregroup m' rfl ⟨rfl, hlog⟩
    | @opened _ o w₁ _ channel group ho h₁ hacc h' =>
      have hbefore := worldOthers_sameRegistry h₁
      have hfresh : ¬ ChannelOpen w o.channelId := by
        intro hopen
        exact hguard o ho hopen ⟨channel, group, accepts_congr hbefore ho hacc⟩
      have hnew : o.channelId ∉ leftOut := fun hmem => hfresh (ht.leftOutOpen _ hmem)
      have hopened := opened_groupedApart hD (ht.groupedApart.congr hbefore) hacc
        (fun hopen => hfresh ((isOpen_congr hbefore).mp hopen)) hnew
      refine ht.keep hnonempty (hopened.congr (worldOthers_sameRegistry h')) hleft ?_
      intro m' hm
      cases hm
      contradiction
    | @closed m _ _ h₁ h' =>
      have hclosed := closeChannel_groupedApart hD
        (ht.groupedApart.congr (worldOthers_sameRegistry h₁)) m.channelId
      exact ht.keep hnonempty (hclosed.congr (worldOthers_sameRegistry h')) hleft
        (fun _ hm => nomatch hm)
    | @regrouped m redefined w₁ _ hfree hlisted h₁ h' =>
      exact ht.regroup hD hnonempty hfree hlisted h₁ h' hleft

/-- In every run in which no opening of a still open channel goes through: an
open channel is in at most one group, and it is in one exactly when it has not
been left out of a redefined group. -/
theorem open_channel_in_one_group_iff (D : Deps) (hD : GroupContract D.group)
    (userIdentity : String) (nominalHashrate : F32) (singleSubmit : Bool) (cpuUsagePercent : ℕ)
    (requiresStandardJobs : Bool) (amb : Ambient) (ls : List WorldLabel) (t : Tracked D)
    (hrun : Run (Guarded NoReopeningTracked TrackedStep)
      ⟨World.initial (ChannelManager.new userIdentity nominalHashrate singleSubmit cpuUsagePercent
        requiresStandardJobs) amb, ∅⟩ ls t) (id : UInt32) (hopen : ChannelOpen t.world id) :
    (∀ g g', IsMember t.world g id → IsMember t.world g' id → g = g') ∧
      ((∃ g, IsMember t.world g id) ↔ id ∉ t.leftOut) := by
  have hinv : TrackedApart t := by
    refine Run.invariant (I := TrackedApart)
      (fun _ _ _ ht hs => trackedStep_apart hD ht hs.1 hs.2) hrun ?_
    refine ⟨(fun _ _ hg => nomatch hg), ⟨(fun _ hboth => nomatch hboth.1), _,
      initial_shows _ _ _ _ _ _, GroupTable.empty_exclusive, ?_⟩, ?_⟩
    · intro a ha
      exact ha.elim
    · intro id hid
      exact hid.elim
  obtain ⟨_, table, hshows, hexcl, hgrouped⟩ := hinv.groupedApart
  refine ⟨?_, ?_⟩
  · intro g g' hg hg'
    exact hexcl id g g' ((hshows.members g id).mpr hg) ((hshows.members g' id).mpr hg')
  · rw [← hgrouped id ((hshows.active id).mpr hopen)]
    unfold GroupTable.Grouped
    simp only [hshows.members]

/-- A group is redefined as empty while its member stays open. -/
theorem member_left_out :
    ¬ ∀ (D : Deps), GroupContract D.group → ∀ (amb : Ambient) (ls : List WorldLabel) (w : World D),
      Run WorldStep (World.initial (ChannelManager.new "miner" (.finite 1) false 100 false) amb)
        ls w →
      ∀ id, ChannelOpen w id → ∃ g, IsMember w g id ∧ ∀ g', IsMember w g' id → g' = g := by
  intro hclaim
  obtain ⟨w, groups, hw, hkey, hgroups⟩ : ∃ w groups, play World.execute sampleWorld
      (handled [openStandardMessage 1 10 [1, 2], setGroupMessage 10 []]) = some w ∧
      w.manager.standardChannels.containsKey 1 = true ∧
      w.manager.groupChannels = (((PartialMap.empty.insert 10 groups).mapValues fun group =>
        ([] : List UInt32).foldl sampleGroup.removeChannelId group).remove 10).retain
          (fun group => !sampleGroup.isEmpty group) := ⟨_, _, rfl, rfl, rfl⟩
  obtain ⟨g, ⟨group, hg, _⟩, _⟩ := hclaim sampleDeps sample_groupContract _ _ w
    (worldRun_of_play hw) 1 (isOpen_iff_keys.mpr (.inl hkey))
  have hkept := (PartialMap.retain_eq_some_iff _ _ g group).mp ((congrFun hgroups g).symm.trans hg)
  obtain ⟨hne, hmapped⟩ := (PartialMap.remove_eq_some_iff _ 10 g group).mp hkept.1
  obtain ⟨_, hbefore, _⟩ := (PartialMap.mapValues_eq_some_iff _ _ g group).mp hmapped
  rw [PartialMap.insert_of_ne _ _ hne] at hbefore
  contradiction

def sampleMember (w : World sampleDeps) (g id : UInt32) : Bool :=
  (w.manager.groupChannels g).any fun group => group.ids.contains id

theorem isMember_of_sampleMember {w : World sampleDeps} {g id : UInt32}
    (h : sampleMember w g id = true) : IsMember w g id := by
  obtain ⟨group, hgroup, hid⟩ := (Option.any_eq_true _ _).mp h
  exact ⟨group, hgroup, List.contains_iff_mem.mp hid⟩

/-- A channel is left out of its group, and then listed again. -/
theorem sample_channel_in_one_group :
    ∃ (w₁ w₂ : World sampleDeps) (leftOut₁ leftOut₂ : Set UInt32),
      Run (Guarded NoReopeningTracked TrackedStep) ⟨sampleWorld, ∅⟩
        (sampleOpenings ++ handled [setGroupMessage 10 [1]]) ⟨w₁, leftOut₁⟩ ∧
      Run (Guarded NoReopeningTracked TrackedStep) ⟨sampleWorld, ∅⟩
        (sampleOpenings ++ handled [setGroupMessage 10 [1], setGroupMessage 10 [1, 2]])
        ⟨w₂, leftOut₂⟩ ∧
      ChannelOpen w₁ 2 ∧ 2 ∈ leftOut₁ ∧ (¬ ∃ g, IsMember w₁ g 2) ∧
      ChannelOpen w₂ 2 ∧ 2 ∉ leftOut₂ ∧ ∀ g, IsMember w₂ g 2 ↔ g = 10 := by
  have hplay : ((playFresh sampleWorld sampleOpenings).bind fun w =>
      (w.execute (.message (setGroupMessage 10 [1]) (.ok ()))).bind fun w₁ =>
        (w₁.execute (.message (setGroupMessage 10 [1, 2]) (.ok ()))).map fun w₂ =>
          (w.log.isEmpty && w₁.log.isEmpty,
            w₁.manager.extendedChannels.containsKey 2 && w₂.manager.extendedChannels.containsKey 2,
            sampleMember w 10 2 && sampleMember w₂ 10 2)) = some (true, true, true) := by
    decide +kernel
  obtain ⟨w, hw, hrest⟩ := Option.bind_eq_some_iff.mp hplay
  obtain ⟨w₁, hw₁, hrest⟩ := Option.bind_eq_some_iff.mp hrest
  obtain ⟨w₂, hw₂, hchecks⟩ := Option.map_eq_some_iff.mp hrest
  simp only [Prod.mk.injEq, Bool.and_eq_true, List.isEmpty_iff] at hchecks
  obtain ⟨⟨hempty, hempty₁⟩, ⟨hkey₁, hkey₂⟩, hmember, hmember₂⟩ := hchecks
  have hlog : w₁.log = w.log := hempty₁.trans hempty.symm
  obtain ⟨leftOut, hrun⟩ := tracked_of_run (freshRun_of_play hw) ∅
  have hguard : ∀ (t : Tracked sampleDeps) (ids : List UInt32) (r : Except Sv2CpuMinerError Unit),
      NoReopeningTracked t (.message (setGroupMessage 10 ids) r) := by
    intro t ids r o ho
    contradiction
  obtain ⟨leftOut₁, hleftOut₁⟩ : ∃ s, s = leftOutAfter w leftOut
      (.message (setGroupMessage 10 [1]) (.ok ())) w₁ := ⟨_, rfl⟩
  have hrun₁ : Run (Guarded NoReopeningTracked TrackedStep) ⟨sampleWorld, ∅⟩
      (sampleOpenings ++ handled [setGroupMessage 10 [1]]) ⟨w₁, leftOut₁⟩ :=
    hrun.snoc ⟨hguard _ _ _, worldStep_of_execute hw₁, hleftOut₁⟩
  have hrun₂ : Run (Guarded NoReopeningTracked TrackedStep) ⟨sampleWorld, ∅⟩
      (sampleOpenings ++ handled [setGroupMessage 10 [1], setGroupMessage 10 [1, 2]])
      ⟨w₂, leftOutAfter w₁ leftOut₁ (.message (setGroupMessage 10 [1, 2]) (.ok ())) w₂⟩ :=
    hrun₁.snoc ⟨hguard _ _ _, worldStep_of_execute hw₂, rfl⟩
  have hopen₁ : ChannelOpen w₁ 2 := isOpen_iff_keys.mpr (.inr hkey₁)
  have hopen₂ : ChannelOpen w₂ 2 := isOpen_iff_keys.mpr (.inr hkey₂)
  obtain ⟨_, hleft₁⟩ := open_channel_in_one_group_iff sampleDeps sample_groupContract
    "miner" (.finite 1) false 100 false ⟨0, false⟩ _ _ hrun₁ 2 hopen₁
  obtain ⟨hone₂, hleft₂⟩ := open_channel_in_one_group_iff sampleDeps sample_groupContract
    "miner" (.finite 1) false 100 false ⟨0, false⟩ _ _ hrun₂ 2 hopen₂
  have hout : 2 ∈ leftOut₁ := by
    rw [hleftOut₁]
    exact .inl ⟨hlog, by decide, .inr (isMember_of_sampleMember hmember)⟩
  have hin := isMember_of_sampleMember hmember₂
  refine ⟨w₁, w₂, _, _, hrun₁, hrun₂, hopen₁, hout, fun h => hleft₁.mp h hout, hopen₂,
    hleft₂.mp ⟨10, hin⟩, ?_⟩
  intro g
  constructor
  · exact fun hg => hone₂ g 10 hg hin
  · rintro rfl
    exact hin

end CpuMinerSv2.LeftOut
