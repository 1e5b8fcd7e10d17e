import CpuMinerSv2.Openings
import CpuMinerSv2.Reopening

/-!
What a close message removes. In runs that open no open channel again it is
the named channel, or the members of the named group, from both maps and from
every group, in whatever order they are taken; closing a channel just opened
undoes the opening.
-/

namespace CpuMinerSv2.Closing

open Messages Channels Primitives Interference MineJob MinerMethods MinerRuns Manager
  ManagerFrames Deliveries Registry HandlerRuns GroupRefinement Reopening Openings SampleDeps
  SampleWorlds Relation

variable {D : Deps}

/-- The loop of the close handler over a given order of the ids. -/
def closeAll (ids : List UInt32) (w : World D) : World D := (ids.foldl closeOne w).retainNonempty

/-- The channels leave both maps and every group; groups may be left empty. -/
structure Leaves (s : Set UInt32) (w w' : World D) : Prop where
  gone : ∀ kind id, id ∈ s → w'.manager.channels kind id = none
  channels : ∀ kind id, id ∉ s → w'.manager.channels kind id = w.manager.channels kind id
  members : ∀ g id, IsMember w' g id ↔ IsMember w g id ∧ id ∉ s
  groups : ∀ g group', w'.manager.groupChannels g = some group' →
    ∃ group, w.manager.groupChannels g = some group ∧ (D.group.getChannelIds group' ≠ [] →
      D.group.recordedSize group' = D.group.recordedSize group)
  settings : settings w'.manager = settings w.manager
  ambient : w'.ambient = w.ambient

/-- The same, and no group is left empty. -/
structure Removes (s : Set UInt32) (w w' : World D) : Prop extends Leaves s w w' where
  nonempty : NonemptyGroups w'

/-- The same groups, as far as their members and recorded sizes show. -/
def SameGroups (groups groups' : PartialMap UInt32 D.group.GroupChannel) : Prop :=
  ∀ g, groups g = none ∧ groups' g = none ∨ ∃ group group', groups g = some group ∧
    groups' g = some group' ∧
      (∀ id, id ∈ D.group.getChannelIds group' ↔ id ∈ D.group.getChannelIds group) ∧
      D.group.recordedSize group' = D.group.recordedSize group

/-- The three maps are the same. -/
structure SameMaps (w w' : World D) : Prop where
  channels : ∀ kind, w'.manager.channels kind = w.manager.channels kind
  groups : SameGroups w.manager.groupChannels w'.manager.groupChannels

theorem Leaves.refl_of_none {w w' : World D} {id : UInt32} (hsame : w'.manager = w.manager)
    (hamb : w'.ambient = w.ambient) (hnone : ∀ kind, w.minerAt kind (.stored id) = none)
    (hmember : ∀ g, ¬ IsMember w g id) : Leaves {id} w w' := by
  refine ⟨?_, ?_, ?_, ?_, by rw [hsame], hamb⟩
  · rintro kind a rfl
    rw [hsame]
    exact hnone kind
  · intro kind a _
    rw [hsame]
  · intro g a
    unfold IsMember
    rw [hsame]
    constructor
    · intro h
      refine ⟨h, ?_⟩
      rintro rfl
      exact hmember g h
    · exact fun h => h.1
  · intro g group' hg
    rw [hsame] at hg
    exact ⟨group', hg, fun _ => rfl⟩

theorem Leaves.trans {s t : Set UInt32} {a b c : World D} (hab : Leaves s a b)
    (hbc : Leaves t b c) : Leaves (s ∪ t) a c := by
  refine ⟨?_, ?_, ?_, ?_, hbc.settings.trans hab.settings, hbc.ambient.trans hab.ambient⟩
  · intro kind id hid
    by_cases ht : id ∈ t
    · exact hbc.gone kind id ht
    · rw [hbc.channels kind id ht]
      exact hab.gone kind id (hid.resolve_right ht)
  · intro kind id hid
    rw [Set.mem_union, not_or] at hid
    rw [hbc.channels kind id hid.2, hab.channels kind id hid.1]
  · intro g id
    rw [hbc.members, hab.members, Set.mem_union, not_or, and_assoc]
  · intro g group'' hg''
    obtain ⟨group', hg', hsize'⟩ := hbc.groups g group'' hg''
    obtain ⟨group, hg, hsize⟩ := hab.groups g group' hg'
    refine ⟨group, hg, ?_⟩
    intro hne
    obtain ⟨id, hid⟩ := List.exists_mem_of_ne_nil _ hne
    obtain ⟨_, hold, hmem⟩ := ((hbc.members g id).mp ⟨group'', hg'', hid⟩).1
    cases hg'.symm.trans hold
    exact (hsize' hne).trans (hsize (List.ne_nil_of_mem hmem))

theorem closeOne_leaves (hD : GroupContract D.group) (hS : GroupSizeContract D.group)
    {w : World D} (hshows : ∃ t, Shows w t) (hd : MapsDisjoint w) (id : UInt32) :
    Leaves {id} w (closeOne w id) := by
  rcases closeOne_cases w id with ⟨kind, miner, hres, hstored, heq⟩ | ⟨hnone, heq⟩
  · rw [heq]
    refine ⟨?_, ?_, ?_, ?_, ?_, ?_⟩
    · rintro kind' a rfl
      change (leaveGroups (w.removeMiner kind a miner) a).minerAt kind' (.stored a) = none
      rw [minerAt_leaveGroups]
      by_cases hkind : kind' = kind
      · subst hkind
        exact minerAt_removeMiner_self w kind' a miner
      · rw [minerAt_removeMiner_stored w miner (fun h => hkind h.1)]
        by_contra hother
        have hsome := Option.isSome_iff_ne_none.mpr hother
        have hhere : (w.minerAt kind (.stored a)).isSome = true :=
          Option.isSome_of_eq_some hstored
        cases kind <;> cases kind'
        · exact hkind rfl
        · exact hd a ⟨hhere, hsome⟩
        · exact hd a ⟨hsome, hhere⟩
        · exact hkind rfl
    · intro kind' a ha
      change (leaveGroups (w.removeMiner kind id miner) id).minerAt kind' (.stored a) =
        w.minerAt kind' (.stored a)
      rw [minerAt_leaveGroups, minerAt_removeMiner_stored w miner (fun h => ha h.2)]
    · intro g a
      rw [isMember_leaveGroups hD]
      unfold IsMember
      rw [groups_removeMiner]
      rfl
    · intro g group' hg
      obtain ⟨old, hold, rfl⟩ := (groups_leaveGroups_iff _ _ _ _).mp hg
      rw [groups_removeMiner] at hold
      exact ⟨old, hold, hS.removed old id⟩
    · exact settings_removeMiner w kind id miner
    · exact ambient_removeMiner w kind id miner
  · rw [heq]
    refine Leaves.refl_of_none rfl rfl hnone ?_
    intro g hmem
    obtain ⟨t, ht⟩ := hshows
    obtain ⟨kind, hkey⟩ := (ht.active id).mp (t.members_subset g ((ht.members g id).mpr hmem))
    rw [hnone kind] at hkey
    contradiction

theorem shows_closed (hD : GroupContract D.group) {w : World D} (hshows : ∃ t, Shows w t)
    (id : UInt32) : ∃ t, Shows (closeOne w id) t := by
  obtain ⟨t, ht⟩ := hshows
  rcases shows_closeOne hD ht id with hstay | ⟨_, _, _, hretired⟩
  · exact ⟨t, hstay⟩
  · exact ⟨_, hretired⟩

theorem closeEach_leaves (hD : GroupContract D.group) (hS : GroupSizeContract D.group)
    (ids : List UInt32) {w : World D} (hshows : ∃ t, Shows w t) (hd : MapsDisjoint w) :
    Leaves {a | a ∈ ids} w (ids.foldl closeOne w) := by
  induction ids generalizing w with
  | nil =>
    refine ⟨?_, fun _ _ _ => rfl, ?_, ?_, rfl, rfl⟩
    · intro kind id hid
      exact absurd hid List.not_mem_nil
    · intro g id
      simp
    · intro g group hg
      exact ⟨group, hg, fun _ => rfl⟩
  | cons id rest ih =>
    have hfirst := closeOne_leaves hD hS hshows hd id
    have hrest := ih (shows_closed hD hshows id) (closeOne_disjoint hd id)
    have hset : {a | a ∈ id :: rest} = {id} ∪ {a | a ∈ rest} := by
      ext a
      simp
    rw [hset, List.foldl_cons]
    exact hfirst.trans hrest

theorem closeAll_removes (hD : GroupContract D.group) (hS : GroupSizeContract D.group)
    (ids : List UInt32) {w : World D} (hshows : ∃ t, Shows w t) (hd : MapsDisjoint w) :
    Removes {a | a ∈ ids} w (closeAll ids w) := by
  have hleaves := closeEach_leaves hD hS ids hshows hd
  refine ⟨⟨hleaves.gone, hleaves.channels, ?_, ?_, hleaves.settings, hleaves.ambient⟩,
    retainNonempty_nonempty hD _⟩
  · intro g id
    unfold closeAll
    rw [isMember_retainNonempty hD]
    exact hleaves.members g id
  · intro g group' hg
    exact hleaves.groups g group' ((groups_retainNonempty_iff hD _ g group').mp hg).1

theorem Removes.group_before {s : Set UInt32} {w w' : World D} (h : Removes s w w') {g : UInt32}
    {group' : D.group.GroupChannel} (hg : w'.manager.groupChannels g = some group') :
    (∃ id, IsMember w' g id) ∧ ∃ group, w.manager.groupChannels g = some group ∧
      D.group.recordedSize group' = D.group.recordedSize group := by
  have hne := h.nonempty g group' hg
  obtain ⟨id, hid⟩ := List.exists_mem_of_ne_nil _ hne
  obtain ⟨group, hgroup, hsize⟩ := h.groups g group' hg
  exact ⟨⟨id, group', hg, hid⟩, group, hgroup, hsize hne⟩

theorem sameGroups_of_members {a b : World D} (ha : NonemptyGroups a) (hb : NonemptyGroups b)
    (hmembers : ∀ g id, IsMember b g id ↔ IsMember a g id)
    (hsizes : ∀ g group group', a.manager.groupChannels g = some group →
      b.manager.groupChannels g = some group' →
        D.group.recordedSize group' = D.group.recordedSize group) :
    SameGroups a.manager.groupChannels b.manager.groupChannels := by
  intro g
  cases hga : a.manager.groupChannels g with
  | none =>
    refine .inl ⟨rfl, ?_⟩
    cases hgb : b.manager.groupChannels g with
    | none => rfl
    | some group =>
      obtain ⟨id, hid⟩ := List.exists_mem_of_ne_nil _ (hb g group hgb)
      obtain ⟨_, hnone, _⟩ := (hmembers g id).mp ⟨group, hgb, hid⟩
      rw [hga] at hnone
      contradiction
  | some group =>
    obtain ⟨id, hid⟩ := List.exists_mem_of_ne_nil _ (ha g group hga)
    obtain ⟨group', hgb, _⟩ := (hmembers g id).mpr ⟨group, hga, hid⟩
    refine .inr ⟨group, group', rfl, hgb, ?_, hsizes g group group' hga hgb⟩
    intro a'
    have hiff := hmembers g a'
    unfold IsMember at hiff
    simpa [hga, hgb] using hiff

theorem Removes.sameMaps {s : Set UInt32} {w a b : World D} (ha : Removes s w a)
    (hb : Removes s w b) : SameMaps a b := by
  refine ⟨?_, sameGroups_of_members ha.nonempty hb.nonempty ?_ ?_⟩
  · intro kind
    funext id
    by_cases hid : id ∈ s
    · rw [ha.gone kind id hid, hb.gone kind id hid]
    · rw [ha.channels kind id hid, hb.channels kind id hid]
  · intro g id
    rw [ha.members, hb.members]
  · intro g group group' hga hgb
    obtain ⟨before, hbefore, hsize⟩ := (ha.group_before hga).2
    obtain ⟨before', hbefore', hsize'⟩ := (hb.group_before hgb).2
    cases hbefore.symm.trans hbefore'
    exact hsize'.trans hsize.symm

theorem retainNonempty_eq (hD : GroupContract D.group) {w : World D} (hne : NonemptyGroups w) :
    w.retainNonempty = w := by
  have hkeep : w.manager.groupChannels.retain (fun group => !D.group.isEmpty group) =
      w.manager.groupChannels := by
    funext g
    apply Option.ext
    intro group
    rw [PartialMap.retain_eq_some_iff, Bool.not_eq_true', ← Bool.not_eq_true, hD.isEmpty]
    exact and_iff_left_of_imp (hne g group)
  unfold World.retainNonempty
  rw [hkeep]
  rfl

/-- What a close message does between the steps of others. -/
structure Closes (id : UInt32) (w w' : World D) : Prop where
  group : ∀ group, w.manager.groupChannels id = some group →
    Removes {a | a ∈ D.group.getChannelIds group} w w' ∧ w'.manager.groupChannels id = none
  channel : ChannelOpen w id → Removes {id} w w'
  unused : w.manager.groupChannels id = none → ¬ ChannelOpen w id → w'.manager = w.manager
  anyOrder : ∀ ids, ids.Perm (w.manager.addressedChannels id) → SameMaps w' (closeAll ids w)

theorem closeChannel_closes (hD : GroupContract D.group) (hS : GroupSizeContract D.group)
    {w : World D} (hw : WellGrouped w) (hd : MapsDisjoint w) (id : UInt32) :
    Closes id w (closeChannel id w) := by
  have hall := closeAll_removes hD hS (w.manager.addressedChannels id) hw.shows hd
  have hgroup : ∀ group, w.manager.groupChannels id = some group →
      w.manager.addressedChannels id = D.group.getChannelIds group := by
    intro group hg
    rw [ChannelManager.addressedChannels, hg]
  have hself : w.manager.groupChannels id = none → w.manager.addressedChannels id = [id] := by
    intro hg
    rw [ChannelManager.addressedChannels, hg]
  refine ⟨?_, ?_, ?_, ?_⟩
  · intro group hg
    rw [hgroup group hg] at hall
    have hremoves : Removes {a | a ∈ D.group.getChannelIds group} w (closeChannel id w) := by
      unfold closeChannel
      rw [hgroup group hg]
      exact hall
    refine ⟨hremoves, ?_⟩
    by_contra hstays
    obtain ⟨group', hg'⟩ := Option.ne_none_iff_exists'.mp hstays
    obtain ⟨a, ha⟩ := (hremoves.group_before hg').1
    obtain ⟨⟨old, hold, hmem⟩, hnot⟩ := (hremoves.members id a).mp ha
    cases hg.symm.trans hold
    exact hnot hmem
  · intro hopen
    rw [hself (not_group_of_open hw hopen)] at hall
    unfold closeChannel
    rw [hself (not_group_of_open hw hopen)]
    have hset : ({a | a ∈ [id]} : Set UInt32) = {id} := by
      ext a
      simp
    rw [hset] at hall
    exact hall
  · intro hg hclosed
    unfold closeChannel
    rw [hself hg, List.foldl_cons, List.foldl_nil]
    rcases closeOne_cases w id with ⟨kind, miner, _, hstored, _⟩ | ⟨_, heq⟩
    · exact absurd ⟨kind, Option.isSome_of_eq_some hstored⟩ hclosed
    · have hlogged : NonemptyGroups (w.logError (.channelNotFound id "CloseChannel")) := hw.nonempty
      rw [heq, retainNonempty_eq hD hlogged]
      rfl
  · intro ids hperm
    have hset : ({a | a ∈ ids} : Set UInt32) = {a | a ∈ w.manager.addressedChannels id} := by
      ext a
      exact hperm.mem_iff
    have hother := closeAll_removes hD hS ids hw.shows hd
    rw [hset] at hother
    exact hall.sameMaps hother

theorem closing_effect (hD : GroupContract D.group) (hS : GroupSizeContract D.group)
    {w w' : World D} (hw : WellGrouped w) (hd : MapsDisjoint w) {c : CloseChannel}
    {r : Except Sv2CpuMinerError Unit} (h : WorldStep w (.message (.closeChannel c) r) w') :
    r = .ok () ∧ ∃ w₁ w₂, WorldOthers w w₁ ∧ WorldOthers w₂ w' ∧ Closes c.channelId w₁ w₂ := by
  cases h with
  | message hrun =>
    obtain ⟨rfl, w₁, h₁, h'⟩ := runs_perform_iff.mp hrun
    have hsame := worldOthers_sameRegistry h₁
    obtain ⟨t, ht⟩ := hw.shows
    have hw₁ : WellGrouped w₁ := ⟨nonemptyGroups_congr hsame hw.nonempty, t, ht.congr hsame⟩
    have hd₁ : MapsDisjoint w₁ := hd.of_fewer (fun kind id hkey => hsame.keys kind id ▸ hkey)
    exact ⟨rfl, w₁, _, h₁, h', closeChannel_closes hD hS hw₁ hd₁ c.channelId⟩

/-- The three maps are as before, except that miners have moved on by themselves. -/
structure KeepsMaps (w w' : World D) : Prop where
  keys : ∀ kind id, (w'.manager.channels kind id).isSome = (w.manager.channels kind id).isSome
  miners : ∀ kind id, RigMoves kind (.stored id) w w'
  groups : SameGroups w.manager.groupChannels w'.manager.groupChannels

theorem rigMoves_of_channel {w w' : World D} {kind : Kind} {id : UInt32}
    (hchannel : w'.manager.channels kind id = w.manager.channels kind id)
    (hamb : w'.ambient = w.ambient) : RigMoves kind (.stored id) w w' := by
  intro r hr
  refine ⟨r, ?_, .refl⟩
  obtain ⟨hm, hr'⟩ := rigAt_eq_some_iff.mp hr
  exact rigAt_eq_some_iff.mpr ⟨hchannel.trans hm, hr'.trans hamb.symm⟩

theorem groups_restored {o : Opening D} {channel : (D.client o.kind).Channel}
    {a₁ a₂ b₁ b₂ : World D} (ha : WellGrouped a₁) (hfresh : ¬ ChannelOpen a₁ o.channelId)
    (hopen : Stores o channel a₁ a₂) (hsame : b₁.manager.groupChannels = a₂.manager.groupChannels)
    (hclose : Removes {o.channelId} b₁ b₂) :
    SameGroups a₁.manager.groupChannels b₂.manager.groupChannels := by
  have hbetween : ∀ g id, IsMember b₁ g id ↔ IsMember a₂ g id := by
    intro g id
    unfold IsMember
    rw [hsame]
  refine sameGroups_of_members ha.nonempty hclose.nonempty ?_ ?_
  · intro g id
    rw [hclose.members, hbetween]
    have hmember : ∀ (h : id ≠ o.channelId), IsMember a₂ g id ↔ IsMember a₁ g id := by
      intro hid
      by_cases hg : g = o.groupChannelId
      · subst hg
        exact hopen.members id hid
      · unfold IsMember
        rw [hopen.groups g hg]
    constructor
    · intro h
      exact (hmember h.2).mp h.1
    · intro h
      have hid : id ≠ o.channelId := by
        rintro rfl
        obtain ⟨t, ht⟩ := ha.shows
        exact hfresh ((ht.active _).mp (t.members_subset g ((ht.members g _).mpr h)))
      exact ⟨(hmember hid).mpr h, hid⟩
  · intro g group group' hga hgb
    obtain ⟨between, hbefore, hsize⟩ := (hclose.group_before hgb).2
    rw [hsame] at hbefore
    by_cases hg : g = o.groupChannelId
    · subst hg
      exact hsize.trans (hopen.sizes group between hga hbefore)
    · rw [hopen.groups g hg] at hbefore
      cases hga.symm.trans hbefore
      exact hsize

theorem opened_closed_sameMaps (hD : GroupContract D.group) (hS : GroupSizeContract D.group)
    {o : Opening D} {w : World D} (hw : WellGrouped w) (hd : MapsDisjoint w)
    (hfresh : ¬ ChannelOpen w o.channelId) {channel : (D.client o.kind).Channel}
    {group : D.group.GroupChannel} (hacc : Accepts o w channel group)
    (hw' : WellGrouped (opened o w channel group)) :
    SameMaps w (closeChannel o.channelId (opened o w channel group)) := by
  have hstores := opened_stores hD hS hw.nonempty hacc
  have hopen : ChannelOpen (opened o w channel group) o.channelId :=
    ⟨o.kind, Option.isSome_of_eq_some hstores.stored⟩
  have hremoves := (closeChannel_closes hD hS hw' (opened_disjoint hd hfresh) o.channelId).channel
    hopen
  refine ⟨?_, groups_restored hw hfresh hstores rfl hremoves⟩
  intro kind
  funext id
  by_cases hid : id = o.channelId
  · subst hid
    rw [hremoves.gone kind _ rfl]
    by_contra hsome
    exact hfresh ⟨kind, Option.isSome_iff_ne_none.mpr (Ne.symm hsome)⟩
  · rw [hremoves.channels kind id hid, hstores.channels kind id (fun h => hid h.2)]

theorem open_close_keepsMaps (hD : GroupContract D.group) (hS : GroupSizeContract D.group)
    {m : ServerMessage} {o : Opening D} (ho : opening m = some o) {w w₁ w₂ : World D}
    (hw : WellGrouped w) (hd : MapsDisjoint w) (hfresh : ¬ ChannelOpen w o.channelId)
    (haccepted : ¬ RefusesOpening o w) {r r' : Except Sv2CpuMinerError Unit}
    (hopen : WorldStep w (.message m r) w₁) {c : CloseChannel} (hc : c.channelId = o.channelId)
    (hclose : WorldStep w₁ (.message (.closeChannel c) r') w₂) : KeepsMaps w w₂ := by
  have hw₁ := step_wellGrouped hD hw hopen
  have hd₁ : MapsDisjoint w₁ := by
    refine step_disjoint hD hw hd ?_ hopen
    intro o' ho' hopen'
    cases ho.symm.trans ho'
    exact absurd hopen' hfresh
  obtain ⟨_, a₁, a₂, h₁, h₂, ⟨hrefused, _⟩ | ⟨_, _, channel, _, _, hstores⟩⟩ :=
    opening_effect hD hS ho hw.nonempty hopen
  · exact absurd hrefused haccepted
  obtain ⟨_, b₁, b₂, h₃, h₄, hcloses⟩ := closing_effect hD hS hw₁ hd₁ hclose
  have hsame₁ := worldOthers_sameRegistry h₁
  have hsame₂ := worldOthers_sameRegistry (h₂.trans h₃)
  have hsame₃ := worldOthers_sameRegistry h₄
  have hopen₁ : ChannelOpen b₁ c.channelId := by
    rw [isOpen_congr hsame₂, hc]
    exact ⟨o.kind, Option.isSome_of_eq_some hstores.stored⟩
  have hremoves := hcloses.channel hopen₁
  rw [hc] at hremoves
  have hfresh₁ : ¬ ChannelOpen a₁ o.channelId := fun h => hfresh ((isOpen_congr hsame₁).mp h)
  have hnone : ∀ kind, w.manager.channels kind o.channelId = none := by
    intro kind
    by_contra hsome
    exact hfresh ⟨kind, Option.isSome_iff_ne_none.mpr hsome⟩
  refine ⟨?_, ?_, ?_⟩
  · intro kind id
    rw [hsame₃.keys kind id]
    by_cases hid : id = o.channelId
    · subst hid
      rw [hremoves.gone kind _ rfl, hnone kind]
    · rw [hremoves.channels kind id hid, hsame₂.keys kind id,
        hstores.channels kind id (fun h => hid h.2), hsame₁.keys kind id]
  · intro kind id
    by_cases hid : id = o.channelId
    · subst hid
      intro rig hrig
      have hsome := (rigAt_eq_some_iff.mp hrig).1
      rw [show w.minerAt kind (.stored o.channelId) = none from hnone kind] at hsome
      contradiction
    · have hstored := rigMoves_of_channel (hstores.channels kind id (fun h => hid h.2))
        hstores.ambient
      have hremoved := rigMoves_of_channel (hremoves.channels kind id hid) hremoves.ambient
      have hfirst := (worldOthers_rigMoves h₁ kind (.stored id)).trans hstored
      have hsecond := hfirst.trans (worldOthers_rigMoves (h₂.trans h₃) kind (.stored id))
      exact (hsecond.trans hremoved).trans (worldOthers_rigMoves h₄ kind (.stored id))
  · obtain ⟨t, ht⟩ := hw.shows
    have ha₁ : WellGrouped a₁ := ⟨nonemptyGroups_congr hsame₁ hw.nonempty, t, ht.congr hsame₁⟩
    have hrestored := groups_restored ha₁ hfresh₁ hstores hsame₂.groups hremoves
    rw [hsame₁.groups, ← hsame₃.groups] at hrestored
    exact hrestored

/-- In every run that opens no open channel again, closing a group removes
exactly its members and the group, closing an open channel removes exactly it,
and closing anything else leaves the manager as it was; the order of the
members does not matter. An opening of a fresh channel that goes through and
is then closed restores the three maps. -/
theorem closing_removes_exactly (D : Deps) (hD : GroupContract D.group)
    (hS : GroupSizeContract D.group) (userIdentity : String) (nominalHashrate : F32)
    (singleSubmit : Bool) (cpuUsagePercent : ℕ) (requiresStandardJobs : Bool) (amb : Ambient)
    (ls : List WorldLabel) (w : World D)
    (hrun : Run (Guarded NoReopening WorldStep) (World.initial (ChannelManager.new userIdentity
      nominalHashrate singleSubmit cpuUsagePercent requiresStandardJobs) amb) ls w) :
    (∀ (c : CloseChannel) (r : Except Sv2CpuMinerError Unit) (w' : World D),
      WorldStep w (.message (.closeChannel c) r) w' →
        r = .ok () ∧ ∃ w₁ w₂, WorldOthers w w₁ ∧ WorldOthers w₂ w' ∧ Closes c.channelId w₁ w₂) ∧
    (∀ (m : ServerMessage) (o : Opening D), opening m = some o → ¬ ChannelOpen w o.channelId →
      ¬ RefusesOpening o w →
        SameMaps w (closeChannel o.channelId (o.perform w)) ∧
        ∀ (r r' : Except Sv2CpuMinerError Unit) (w₁ w₂ : World D) (c : CloseChannel),
          c.channelId = o.channelId → WorldStep w (.message m r) w₁ →
          WorldStep w₁ (.message (.closeChannel c) r') w₂ → KeepsMaps w w₂) := by
  obtain ⟨hw, hd⟩ := run_disjoint hD hrun
  refine ⟨fun c r w' h => closing_effect hD hS hw hd h, ?_⟩
  intro m o ho hfresh haccepted
  refine ⟨?_, ?_⟩
  · rcases perform_cases hD o hw.nonempty with ⟨channel, group, hacc, heq⟩ | ⟨hnot, _⟩
    · have hstep : WorldStep w (.message m (.ok ())) (opened o w channel group) := by
        apply worldStep_of_execute
        rw [← heq, World.execute, handle_opening ho]
        rfl
      rw [heq]
      exact opened_closed_sameMaps hD hS hw hd hfresh hacc (step_wellGrouped hD hw hstep)
    · exact absurd ((refuses_iff hD hS hw.nonempty).mpr hnot) haccepted
  · intro r r' w₁ w₂ c hc hopen hclose
    exact open_close_keepsMaps hD hS ho hw hd hfresh haccepted hopen hc hclose

/-- A third channel, alone in its group. -/
def sampleThird : OpenStandardMiningChannelSuccess := ⟨0, 3, [255], [1], 11⟩

/-- A group of two channels is closed, and a third channel opened and closed. -/
theorem sample_closing :
    ∃ w w' w₁ w₂ : World sampleDeps, playFresh sampleWorld sampleOpenings = some w ∧
      (∃ a b, WorldOthers w a ∧ WorldOthers b w' ∧ Closes 10 a b) ∧
      SameMaps w (closeChannel 3 ((openStandard sampleThird).perform w)) ∧
      KeepsMaps w w₂ ∧ WorldStep w₁ (.message (closeMessage 3) (.ok ())) w₂ := by
  obtain ⟨w, w', w₁, w₂, hw, hclose, hopen, hclose₂⟩ : ∃ w w' w₁ w₂,
      playFresh sampleWorld sampleOpenings = some w ∧
      w.execute (.message (closeMessage 10) (.ok ())) = some w' ∧
      w.execute (.message (.openStandardMiningChannelSuccess sampleThird) (.ok ())) =
        some w₁ ∧
      w₁.execute (.message (closeMessage 3) (.ok ())) = some w₂ := ⟨_, _, _, _, rfl, rfl, rfl, rfl⟩
  have hrestores := closing_removes_exactly sampleDeps sample_groupContract sample_groupSizes
    "miner" (.finite 1) false 100 false ⟨0, false⟩ sampleOpenings w (freshRun_of_play hw)
  have hfresh : ¬ ChannelOpen w 3 := by
    cases hw
    rw [isOpen_iff_keys]
    decide
  have haccepted : ¬ RefusesOpening (openStandard sampleThird) w := by
    have hgroups := (run_disjoint sample_groupContract (freshRun_of_play hw)).1.nonempty
    rw [refuses_iff sample_groupContract sample_groupSizes hgroups, not_not]
    cases hw
    exact ⟨_, _, ⟨_, rfl, rfl⟩, ⟨rfl, rfl, by decide, rfl⟩, rfl⟩
  obtain ⟨hsame, hkeeps⟩ := hrestores.2 (.openStandardMiningChannelSuccess sampleThird) _ rfl
    hfresh haccepted
  exact ⟨w, w', w₁, w₂, hw, (hrestores.1 _ _ _ (worldStep_of_execute hclose)).2, hsame,
    hkeeps _ _ _ _ _ rfl (worldStep_of_execute hopen) (worldStep_of_execute hclose₂),
    worldStep_of_execute hclose₂⟩

end CpuMinerSv2.Closing
