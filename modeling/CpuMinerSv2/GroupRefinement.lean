import CpuMinerSv2.Groups
import CpuMinerSv2.HandlerRuns

/-!
The groups of a manager as a table of named groups. Every handler refines
changes of that table, so in every reachable world group ids and channel ids
are apart, every member is open and no group is empty; a message addressed to
a group finds all its members.
-/

namespace CpuMinerSv2.GroupRefinement

open Messages Channels Primitives Interference MineJob MinerMethods MinerRuns Manager
  ManagerFrames Deliveries Registry HandlerRuns Groups Relation

variable {D : Deps}

/-- The channel is a member of the group stored under this id. -/
def IsMember (w : World D) (g id : UInt32) : Prop :=
  ∃ group, w.manager.groupChannels g = some group ∧ id ∈ D.group.getChannelIds group

/-- The table a world shows: open channels and the members of each group. -/
structure Shows (w : World D) (t : GroupTable UInt32) : Prop where
  active : ∀ id, id ∈ t.active ↔ ChannelOpen w id
  members : ∀ g id, id ∈ t.members g ↔ IsMember w g id

theorem Shows.congr {w w' : World D} {t : GroupTable UInt32} (h : Shows w t)
    (hsame : SameRegistry w w') : Shows w' t := by
  refine ⟨?_, ?_⟩
  · intro id
    rw [isOpen_congr hsame]
    exact h.active id
  · intro g id
    rw [h.members, IsMember, IsMember, hsame.groups]

theorem initial_shows (u : String) (f : F32) (single : Bool) (cpu : ℕ) (std : Bool)
    (amb : Ambient) :
    Shows (World.initial (ChannelManager.new (D := D) u f single cpu std) amb)
      GroupTable.empty := by
  refine ⟨?_, ?_⟩
  · intro id
    constructor
    · intro h
      exact h.elim
    · intro h
      obtain ⟨kind, hkey⟩ := h
      cases kind <;> exact nomatch hkey
  · intro g id
    constructor
    · intro h
      exact h.elim
    · intro h
      obtain ⟨_, hg, _⟩ := h
      exact nomatch hg

theorem isOpen_opened {o : Opening D} {w : World D} {channel : (D.client o.kind).Channel}
    {group : D.group.GroupChannel} {id : UInt32} :
    ChannelOpen (opened o w channel group) id ↔ id = o.channelId ∨ ChannelOpen w id := by
  unfold opened ChannelOpen
  constructor
  · intro h
    obtain ⟨kind, hkey⟩ := h
    by_cases hid : kind = o.kind ∧ id = o.channelId
    · exact .inl hid.2
    · rw [minerAt_insertMiner_stored _ _ hid, minerAt_setGroups] at hkey
      exact .inr ⟨kind, hkey⟩
  · intro h
    rcases h with rfl | ⟨kind, hkey⟩
    · exact ⟨o.kind, by rw [minerAt_insertMiner_self]; rfl⟩
    · by_cases hid : kind = o.kind ∧ id = o.channelId
      · refine ⟨o.kind, ?_⟩
        rw [hid.2, minerAt_insertMiner_self]
        rfl
      · refine ⟨kind, ?_⟩
        rw [minerAt_insertMiner_stored _ _ hid, minerAt_setGroups]
        exact hkey

theorem isMember_opened (hD : GroupContract D.group) {o : Opening D} {w : World D}
    {channel : (D.client o.kind).Channel} {group : D.group.GroupChannel}
    (hacc : Accepts o w channel group) {g id : UInt32} :
    IsMember (opened o w channel group) g id ↔
      IsMember w g id ∨ g = o.groupChannelId ∧ id = o.channelId := by
  have hadded := hD.added (joinedGroup w o.groupChannelId) o.channelId o.fullExtranonceSize
    (by rw [hacc.joined]) id
  rw [hacc.joined] at hadded
  have hold : id ∈ D.group.getChannelIds (joinedGroup w o.groupChannelId) ↔
      IsMember w o.groupChannelId id := by
    unfold joinedGroup IsMember
    cases w.manager.groupChannels o.groupChannelId with
    | none => simp [hD.new]
    | some group => simp
  have hgroups : (opened o w channel group).manager.groupChannels =
      w.manager.groupChannels.insert o.groupChannelId group := by
    unfold opened
    rw [groups_insertMiner]
    rfl
  by_cases hg : g = o.groupChannelId
  · subst hg
    unfold IsMember at hold ⊢
    rw [hgroups]
    simp only [PartialMap.insert_self, Option.some.injEq, exists_eq_left', true_and]
    rw [hadded, hold]
    exact or_comm
  · unfold IsMember
    rw [hgroups, PartialMap.insert_of_ne _ _ hg]
    simp [hg]

theorem Accepts.fresh {o : Opening D} {w : World D} {channel : (D.client o.kind).Channel}
    {group : D.group.GroupChannel} (hacc : Accepts o w channel group) :
    ¬ ChannelOpen w o.groupChannelId ∧ (∀ id, ¬ IsMember w o.channelId id) ∧
      o.groupChannelId ≠ o.channelId := by
  obtain ⟨hstd, hext, hne, hgroup⟩ := hacc.joinable
  refine ⟨?_, ?_, hne.symm⟩
  · rw [isOpen_iff_keys, hstd, hext]
    simp
  · intro id hmem
    obtain ⟨_, hg, _⟩ := hmem
    simp [PartialMap.containsKey, hg] at hgroup

theorem shows_opened (hD : GroupContract D.group) {o : Opening D} {w : World D}
    {channel : (D.client o.kind).Channel} {group : D.group.GroupChannel}
    (hacc : Accepts o w channel group) {t : GroupTable UInt32} (h : Shows w t) :
    ∃ hgroup hfree hne,
      Shows (opened o w channel group)
        (t.enroll o.channelId o.groupChannelId hgroup hfree hne) := by
  obtain ⟨hgroup, hfree, hne⟩ := Accepts.fresh hacc
  have hinactive : o.groupChannelId ∉ t.active := fun hmem => hgroup ((h.active _).mp hmem)
  have hempty : ¬ (t.members o.channelId).Nonempty := by
    intro hmem
    obtain ⟨id, hid⟩ := hmem
    exact hfree id ((h.members _ _).mp hid)
  refine ⟨hinactive, hempty, hne, ?_, ?_⟩
  · intro id
    rw [isOpen_opened]
    exact Set.mem_insert_iff.trans (or_congr_right (h.active id))
  · intro g id
    rw [isMember_opened hD hacc]
    exact or_congr_left (h.members g id)

theorem isOpen_removeMiner {w : World D} {kind : Kind} {id : UInt32}
    {miner : ChannelMiner (D.client kind)} {a : UInt32} (ha : a ≠ id) :
    ChannelOpen (w.removeMiner kind id miner) a ↔ ChannelOpen w a := by
  unfold ChannelOpen
  apply exists_congr
  intro kind'
  rw [minerAt_removeMiner_stored w miner (fun hc => ha hc.2)]

theorem isOpen_of_removeMiner {w : World D} {kind : Kind} {id : UInt32}
    {miner : ChannelMiner (D.client kind)} {a : UInt32}
    (h : ChannelOpen (w.removeMiner kind id miner) a) : ChannelOpen w a := by
  obtain ⟨kind', hkey⟩ := h
  by_cases hid : kind' = kind ∧ a = id
  · obtain ⟨rfl, rfl⟩ := hid
    rw [minerAt_removeMiner_self] at hkey
    contradiction
  · rw [minerAt_removeMiner_stored w miner hid] at hkey
    exact ⟨kind', hkey⟩

theorem isOpen_leaveGroups {w : World D} {id a : UInt32} :
    ChannelOpen (leaveGroups w id) a ↔ ChannelOpen w a := by
  simp only [ChannelOpen, minerAt_leaveGroups]

theorem isMember_leaveGroups (hD : GroupContract D.group) {w : World D} {id g a : UInt32} :
    IsMember (leaveGroups w id) g a ↔ IsMember w g a ∧ a ≠ id := by
  unfold IsMember
  simp only [groups_leaveGroups_iff]
  constructor
  · intro h
    obtain ⟨_, ⟨old, hold, rfl⟩, ha⟩ := h
    obtain ⟨hne, hmem⟩ := (hD.removed old id a).mp ha
    exact ⟨⟨old, hold, hmem⟩, hne⟩
  · intro h
    obtain ⟨⟨old, hold, hmem⟩, hne⟩ := h
    exact ⟨_, ⟨old, hold, rfl⟩, (hD.removed old id a).mpr ⟨hne, hmem⟩⟩

theorem shows_closeOne (hD : GroupContract D.group) {w : World D} {t : GroupTable UInt32}
    (h : Shows w t) (id : UInt32) :
    Shows (closeOne w id) t ∨
      ∃ active' hactive hstay, Shows (closeOne w id) (t.retire {id} active' hactive hstay) := by
  rcases closeOne_cases w id with ⟨kind, miner, _, _, heq⟩ | ⟨_, heq⟩
  · rw [heq]
    refine .inr ⟨{a | ChannelOpen (w.removeMiner kind id miner) a}, ?_, ?_, ?_, ?_⟩
    · intro a ha
      exact (h.active a).mpr (isOpen_of_removeMiner ha)
    · intro a ha
      exact (isOpen_removeMiner ha.2).mpr ((h.active a).mp ha.1)
    · intro a
      rw [isOpen_leaveGroups]
      rfl
    · intro g a
      rw [isMember_leaveGroups hD]
      have hgroups : IsMember (w.removeMiner kind id miner) g a ↔ IsMember w g a := by
        unfold IsMember
        rw [groups_removeMiner]
      rw [hgroups, ← h.members]
      rfl
  · rw [heq]
    exact .inl (h.congr (onlyLogs_sameRegistry _ _ ⟨_, rfl⟩))

theorem isMember_retainNonempty (hD : GroupContract D.group) {w : World D} {g a : UInt32} :
    IsMember w.retainNonempty g a ↔ IsMember w g a := by
  unfold IsMember
  simp only [groups_retainNonempty_iff hD]
  constructor
  · intro h
    obtain ⟨group, ⟨hg, _⟩, ha⟩ := h
    exact ⟨group, hg, ha⟩
  · intro h
    obtain ⟨group, hg, ha⟩ := h
    exact ⟨group, ⟨hg, List.ne_nil_of_mem ha⟩, ha⟩

theorem shows_retainNonempty (hD : GroupContract D.group) {w : World D} {t : GroupTable UInt32}
    (h : Shows w t) : Shows w.retainNonempty t := by
  refine ⟨?_, ?_⟩
  · intro id
    simp only [ChannelOpen, minerAt_retainNonempty]
    exact h.active id
  · intro g id
    rw [isMember_retainNonempty hD]
    exact h.members g id

theorem isMember_regroup (hD : GroupContract D.group) {w w₀ : World D} {g : UInt32}
    {ids : List UInt32} {redefined : D.group.GroupChannel}
    (hlisted : Listed w₀ (D.group.new g) ids redefined) {h a : UInt32} :
    IsMember (regroup w g ids redefined) h a ↔
      h = g ∧ a ∈ ids ∨ h ≠ g ∧ IsMember w h a ∧ a ∉ ids := by
  have hmem : a ∈ D.group.getChannelIds redefined ↔ a ∈ ids := by
    rw [hlisted.members hD, hD.new]
    simp
  unfold IsMember
  simp only [groups_regroup_iff hD]
  constructor
  · intro hm
    obtain ⟨group, ⟨_, ⟨hg, _, rfl⟩ | ⟨hne, old, hold, rfl⟩⟩, ha⟩ := hm
    · exact .inl ⟨hg, hmem.mp ha⟩
    · obtain ⟨hnot, ha⟩ := (removed_foldl hD old ids a).mp ha
      exact .inr ⟨hne, ⟨old, hold, ha⟩, hnot⟩
  · intro hm
    rcases hm with ⟨hg, ha⟩ | ⟨hne, ⟨old, hold, ha⟩, hnot⟩
    · have hin := hmem.mpr ha
      exact ⟨redefined, ⟨List.ne_nil_of_mem hin, .inl ⟨hg, List.ne_nil_of_mem ha, rfl⟩⟩, hin⟩
    · have hin := (removed_foldl hD old ids a).mpr ⟨hnot, ha⟩
      exact ⟨_, ⟨List.ne_nil_of_mem hin, .inr ⟨hne, old, hold, rfl⟩⟩, hin⟩

theorem shows_regroup (hD : GroupContract D.group) {w w₀ : World D} {g : UInt32}
    {ids : List UInt32} {redefined : D.group.GroupChannel}
    (hlisted : Listed w₀ (D.group.new g) ids redefined) {t : GroupTable UInt32} (h : Shows w t)
    (hfree : ¬ ChannelOpen w g) (hopen : ∀ id ∈ ids, ChannelOpen w id) :
    ∃ hgroup hactive, Shows (regroup w g ids redefined)
      (t.regroup g {a | a ∈ ids} hgroup hactive) := by
  refine ⟨fun hmem => hfree ((h.active g).mp hmem), ?_, ?_, ?_⟩
  · intro a ha
    exact (h.active a).mpr (hopen a ha)
  · intro id
    simp only [ChannelOpen, minerAt_regroup]
    exact h.active id
  · intro k a
    rw [isMember_regroup hD hlisted, ← h.members]
    rfl

/-- The table follows every run of a handler. -/
theorem handlerRun_refines (hD : GroupContract D.group) {m : ServerMessage} {w w' : World D}
    {res : Except Sv2CpuMinerError Unit} (h : HandlerRun w m res w') {t : GroupTable UInt32}
    (hw : Shows w t) : ∃ t', ReflTransGen GroupTable.Change t t' ∧ Shows w' t' := by
  cases h with
  | quiet hsame => exact ⟨t, .refl, hw.congr hsame⟩
  | opened ho h₁ hacc h' =>
    obtain ⟨hgroup, hfree, hne, hshows⟩ :=
      shows_opened hD hacc (hw.congr (worldOthers_sameRegistry h₁))
    exact ⟨_, .single (.enroll _ _ hgroup hfree hne),
      hshows.congr (worldOthers_sameRegistry h')⟩
  | @closed m w₁ _ h₁ h' =>
    have hclosed : ∃ t', ReflTransGen GroupTable.Change t t' ∧
        Shows (closeChannel m.channelId w₁) t' := by
      refine closeChannel_preserve
        (I := fun w => ∃ t', ReflTransGen GroupTable.Change t t' ∧ Shows w t') ?_ ?_ _
        ⟨t, .refl, hw.congr (worldOthers_sameRegistry h₁)⟩
      · intro w id hI
        obtain ⟨t₁, hchange, hshows⟩ := hI
        rcases shows_closeOne hD hshows id with hstay | ⟨active', hactive, hstay, hretire⟩
        · exact ⟨t₁, hchange, hstay⟩
        · exact ⟨_, hchange.tail (.retire _ active' hactive hstay), hretire⟩
      · intro w hI
        obtain ⟨t₁, hchange, hshows⟩ := hI
        exact ⟨t₁, hchange, shows_retainNonempty hD hshows⟩
    obtain ⟨t', hchange, hshows⟩ := hclosed
    exact ⟨t', hchange, hshows.congr (worldOthers_sameRegistry h')⟩
  | regrouped hfree hlisted h₁ h' =>
    have hsame := worldOthers_sameRegistry h₁
    obtain ⟨hgroup, hactive, hshows⟩ := shows_regroup hD hlisted (hw.congr hsame)
      (fun hopen => hfree ((isOpen_congr hsame).mp hopen))
      (fun id hid => (isOpen_congr hsame).mpr (hlisted.isOpen id hid))
    exact ⟨_, .single (.regroup _ _ hgroup hactive),
      hshows.congr (worldOthers_sameRegistry h')⟩

theorem handlerRun_nonempty (hD : GroupContract D.group) {m : ServerMessage} {w w' : World D}
    {res : Except Sv2CpuMinerError Unit} (h : HandlerRun w m res w') (hw : NonemptyGroups w) :
    NonemptyGroups w' := by
  cases h with
  | quiet hsame => exact nonemptyGroups_congr hsame hw
  | @opened _ o w₁ _ channel group ho h₁ hacc h' =>
    apply nonemptyGroups_congr (worldOthers_sameRegistry h')
    have hw₁ := nonemptyGroups_congr (worldOthers_sameRegistry h₁) hw
    intro g group' hg
    unfold opened at hg
    rw [groups_insertMiner] at hg
    by_cases hk : g = o.groupChannelId
    · subst hk
      simp only [World.setGroups, PartialMap.insert_self, Option.some.injEq] at hg
      subst hg
      have hadded := hD.added (joinedGroup w₁ o.groupChannelId) o.channelId o.fullExtranonceSize
        (by rw [hacc.joined]) o.channelId
      rw [hacc.joined] at hadded
      exact List.ne_nil_of_mem (hadded.mpr (.inl rfl))
    · simp only [World.setGroups, PartialMap.insert_of_ne _ _ hk] at hg
      exact hw₁ g group' hg
  | closed _ h' =>
    exact nonemptyGroups_congr (worldOthers_sameRegistry h') (retainNonempty_nonempty hD _)
  | regrouped _ _ _ h' =>
    exact nonemptyGroups_congr (worldOthers_sameRegistry h') (retainNonempty_nonempty hD _)

/-- What every reachable world satisfies. -/
structure WellGrouped (w : World D) : Prop where
  nonempty : NonemptyGroups w
  shows : ∃ t, Shows w t

theorem not_group_of_open {w : World D} (hw : WellGrouped w) {id : UInt32}
    (hopen : ChannelOpen w id) : w.manager.groupChannels id = none := by
  by_contra hgroup
  obtain ⟨group, hg⟩ := Option.ne_none_iff_exists'.mp hgroup
  obtain ⟨t, ht⟩ := hw.shows
  obtain ⟨a, ha⟩ := List.exists_mem_of_ne_nil _ (hw.nonempty id group hg)
  exact t.names_apart id ⟨a, (ht.members id a).mpr ⟨group, hg, ha⟩⟩ ((ht.active id).mpr hopen)

theorem step_wellGrouped (hD : GroupContract D.group) {w w' : World D} {l : WorldLabel}
    (hw : WellGrouped w) (h : WorldStep w l w') : WellGrouped w' := by
  obtain ⟨t, ht⟩ := hw.shows
  cases h with
  | event he =>
    have hsame := interferes_sameRegistry _ _ ⟨_, he⟩
    exact ⟨nonemptyGroups_congr hsame hw.nonempty, t, ht.congr hsame⟩
  | message hrun =>
    have hcases := handle_cases hD hw.nonempty hrun
    obtain ⟨t', _, ht'⟩ := handlerRun_refines hD hcases ht
    exact ⟨handlerRun_nonempty hD hcases hw.nonempty, t', ht'⟩

theorem initial_wellGrouped (u : String) (f : F32) (single : Bool) (cpu : ℕ) (std : Bool)
    (amb : Ambient) :
    WellGrouped (World.initial (ChannelManager.new (D := D) u f single cpu std) amb) :=
  ⟨(fun _ _ hg => nomatch hg), _, initial_shows u f single cpu std amb⟩

theorem run_wellGrouped (hD : GroupContract D.group) {u : String} {f : F32} {single : Bool}
    {cpu : ℕ} {std : Bool} {amb : Ambient} {ls : List WorldLabel} {w : World D}
    (h : Run WorldStep (World.initial (ChannelManager.new u f single cpu std) amb) ls w) :
    WellGrouped w :=
  h.invariant (fun _ _ _ hw hs => step_wellGrouped hD hw hs)
    (initial_wellGrouped u f single cpu std amb)

end CpuMinerSv2.GroupRefinement
