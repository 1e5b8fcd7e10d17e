import CpuMinerSv2.HandlerErrors
import CpuMinerSv2.Reopening
import CpuMinerSv2.SampleWorlds

/-!
Which channels a message concerns. It can change those, their groups and no
others, whatever tasks do at the same time; and a message that concerns no open
channel is ignored.
-/

namespace CpuMinerSv2.Addressing

open Messages Channels Primitives MineJob MinerMethods Manager ManagerFrames Deliveries Registry
  HandlerRuns GroupRefinement HandlerErrors Reopening SampleDeps SampleWorlds

variable {D : Deps} {w w' : World D}

/-- The channels that a message may open, close, regroup or call. -/
def concerned (mgr : ChannelManager D) : ServerMessage → List UInt32
  | .openStandardMiningChannelSuccess m => [m.channelId]
  | .openExtendedMiningChannelSuccess m => [m.channelId]
  | .closeChannel m => mgr.addressedChannels m.channelId
  | .setExtranoncePrefix m => [m.channelId]
  | .submitSharesSuccess m => [m.channelId]
  | .submitSharesError m => [m.channelId]
  | .newMiningJob m => [m.channelId]
  | .newExtendedMiningJob m => mgr.addressedChannels m.channelId
  | .setNewPrevHash m => mgr.addressedChannels m.channelId
  | .setTarget m => mgr.addressedChannels m.channelId
  | .setGroupChannel m => m.channelIds ++ mgr.addressedChannels m.groupChannelId
  | .openMiningChannelError _ | .updateChannelError _ => []
  | .setCustomMiningJobSuccess _ | .setCustomMiningJobError _ => []

theorem opening_concerned {m : ServerMessage} {o : Opening D} (ho : opening m = some o)
    (mgr : ChannelManager D) : concerned mgr m = [o.channelId] := by
  cases m with
  | openStandardMiningChannelSuccess m =>
    cases ho
    rfl
  | openExtendedMiningChannelSuccess m =>
    cases ho
    rfl
  | _ => contradiction

theorem mem_addressed_of_member {g id : UInt32} (h : IsMember w g id) :
    id ∈ w.manager.addressedChannels g := by
  obtain ⟨group, hg, hid⟩ := h
  unfold ChannelManager.addressedChannels
  rw [hg]
  exact hid

theorem targets_concerned {m : ServerMessage} {kind : Kind} {id : UInt32}
    {c : Call (D.client kind)} (h : Targets w m kind id c) : id ∈ concerned w.manager m := by
  cases h with
  | setNewPrevHash hid | setTarget hid => exact hid
  | groupJob _ hg hid => exact mem_addressed_of_member ⟨_, hg, hid⟩
  | channelJob _ hg =>
    change _ ∈ w.manager.addressedChannels _
    unfold ChannelManager.addressedChannels
    rw [hg]
    exact List.mem_singleton_self _
  | _ => exact List.mem_singleton_self _

theorem locks_concerned {m : ServerMessage} {kind : Kind} {id : UInt32}
    (h : Locks w m kind id) : id ∈ concerned w.manager m := by
  cases h with
  | called ht => exact targets_concerned ht
  | listed _ hids =>
    apply List.mem_append_left
    rw [hids]
    exact List.mem_append_right _ List.mem_cons_self

section Frames

/-- The channels with these ids stay as they are and where they are, but for
the steps of their tasks, and so do all miners that have been dropped. -/
structure KeepsChannels (kept : Set UInt32) (w w' : World D) : Prop where
  stored : ∀ kind, ∀ id ∈ kept, RigMoves kind (.stored id) w w'
  places : ∀ kind, ∀ id ∈ kept,
    (w'.minerAt kind (.stored id)).isSome = (w.minerAt kind (.stored id)).isSome
  dropped : ∀ kind n, RigMoves kind (.dropped n) w w'
  members : ∀ g, ∀ id ∈ kept, IsMember w' g id ↔ IsMember w g id

variable {kept : Set UInt32}

theorem KeepsChannels.refl (kept : Set UInt32) (w : World D) : KeepsChannels kept w w :=
  ⟨fun _ _ _ => RigMoves.refl _ _ _, fun _ _ _ => rfl, fun _ _ => RigMoves.refl _ _ _,
    fun _ _ _ => Iff.rfl⟩

theorem KeepsChannels.trans {a b c : World D} (hab : KeepsChannels kept a b)
    (hbc : KeepsChannels kept b c) : KeepsChannels kept a c := by
  refine ⟨?_, ?_, ?_, ?_⟩
  · exact fun kind id hid => (hab.stored kind id hid).trans (hbc.stored kind id hid)
  · exact fun kind id hid => (hbc.places kind id hid).trans (hab.places kind id hid)
  · exact fun kind n => (hab.dropped kind n).trans (hbc.dropped kind n)
  · exact fun g id hid => (hbc.members g id hid).trans (hab.members g id hid)

theorem KeepsChannels.of_alone (h : LeavesChannelsAlone w w') : KeepsChannels kept w w' := by
  refine ⟨?_, ?_, ?_, ?_⟩
  · exact fun kind id _ => h.2 kind (.stored id)
  · exact fun kind id _ => h.1.places kind (.stored id)
  · exact fun kind n => h.2 kind (.dropped n)
  · intro g id _
    unfold IsMember
    rw [h.1.groups]

/-- At one time, with the same miners stored under these ids and none taken
from those dropped. -/
theorem KeepsChannels.of_same (hamb : w'.ambient = w.ambient)
    (hstored : ∀ kind, ∀ id ∈ kept, w'.minerAt kind (.stored id) = w.minerAt kind (.stored id))
    (hdropped : ∀ (kind : Kind) (n : ℕ) (miner : ChannelMiner (D.client kind)),
      w.minerAt kind (.dropped n) = some miner → w'.minerAt kind (.dropped n) = some miner)
    (hmembers : ∀ g, ∀ id ∈ kept, IsMember w' g id ↔ IsMember w g id) :
    KeepsChannels kept w w' := by
  refine ⟨?_, ?_, ?_, hmembers⟩
  · intro kind id hkept r hr
    obtain ⟨hm, hr'⟩ := rigAt_eq_some_iff.mp hr
    rw [← hstored kind id hkept] at hm
    exact ⟨r, rigAt_eq_some_iff.mpr ⟨hm, hr'.trans hamb.symm⟩, .refl⟩
  · exact fun kind id hkept => congrArg Option.isSome (hstored kind id hkept)
  · intro kind n r hr
    obtain ⟨hm, hr'⟩ := rigAt_eq_some_iff.mp hr
    exact ⟨r, rigAt_eq_some_iff.mpr ⟨hdropped kind n _ hm, hr'.trans hamb.symm⟩, .refl⟩

theorem minerAt_drop_kept (w : World D) {kind kind' : Kind} (miner : ChannelMiner (D.client kind))
    {n : ℕ} {m : ChannelMiner (D.client kind')} (h : w.minerAt kind' (.dropped n) = some m) :
    (w.drop kind miner).minerAt kind' (.dropped n) = some m := by
  by_cases hkind : kind' = kind
  · subst hkind
    simp only [World.drop, World.minerAt, dropped_setDropped] at h ⊢
    rw [List.getElem?_append_left (List.getElem?_eq_some_iff.mp h).1]
    exact h
  · rw [minerAt_drop_of_ne w hkind]
    exact h

theorem minerAt_insertMiner_kept (w : World D) {kind kind' : Kind} {id : UInt32}
    (miner : ChannelMiner (D.client kind)) {n : ℕ} {m : ChannelMiner (D.client kind')}
    (h : w.minerAt kind' (.dropped n) = some m) :
    (w.insertMiner kind id miner).minerAt kind' (.dropped n) = some m := by
  have hplace : ¬ (kind' = kind ∧ Place.dropped n = Place.stored id) := by
    intro hboth
    exact Place.noConfusion hboth.2
  unfold World.insertMiner
  split
  · rw [minerAt_putMiner_of_ne _ _ hplace]
    exact minerAt_drop_kept w _ h
  · rw [minerAt_putMiner_of_ne _ _ hplace]
    exact h

theorem minerAt_removeMiner_kept (w : World D) {kind kind' : Kind} {id : UInt32}
    (miner : ChannelMiner (D.client kind)) {n : ℕ} {m : ChannelMiner (D.client kind')}
    (h : w.minerAt kind' (.dropped n) = some m) :
    (w.removeMiner kind id miner).minerAt kind' (.dropped n) = some m := by
  have hdrop : (w.removeMiner kind id miner).minerAt kind' (.dropped n) =
      (w.drop kind miner).minerAt kind' (.dropped n) := by
    cases kind' <;> rfl
  rw [hdrop]
  exact minerAt_drop_kept w miner h

theorem opened_keeps (hD : GroupContract D.group) {o : Opening D}
    {channel : (D.client o.kind).Channel} {group : D.group.GroupChannel}
    (hacc : Accepts o w channel group) (hid : o.channelId ∉ kept) :
    KeepsChannels kept w (opened o w channel group) := by
  have hne : ∀ id ∈ kept, id ≠ o.channelId := by
    intro id hkept heq
    exact hid (heq ▸ hkept)
  refine .of_same (ambient_insertMiner _ _ _ _) ?_ ?_ ?_
  · intro kind id hkept
    unfold opened
    rw [minerAt_insertMiner_stored _ _ (fun hboth => hne id hkept hboth.2), minerAt_setGroups]
  · intro kind n miner hm
    apply minerAt_insertMiner_kept
    rw [minerAt_setGroups]
    exact hm
  · intro g id hkept
    rw [isMember_opened hD hacc]
    exact or_iff_left fun hboth => hne id hkept hboth.2

theorem closeOne_keeps (hD : GroupContract D.group) {id : UInt32} (hid : id ∉ kept) :
    KeepsChannels kept w (closeOne w id) := by
  have hne : ∀ a ∈ kept, a ≠ id := by
    intro a hkept heq
    exact hid (heq ▸ hkept)
  rcases closeOne_cases w id with ⟨kind, miner, _, _, heq⟩ | ⟨_, heq⟩
  · rw [heq]
    refine .of_same (ambient_removeMiner w kind id miner) ?_ ?_ ?_
    · intro kind' a hkept
      rw [minerAt_leaveGroups,
        minerAt_removeMiner_stored w miner (fun hboth => hne a hkept hboth.2)]
    · intro kind' n m hm
      rw [minerAt_leaveGroups]
      exact minerAt_removeMiner_kept w miner hm
    · intro g a hkept
      rw [isMember_leaveGroups hD]
      unfold IsMember
      rw [groups_removeMiner]
      exact and_iff_left (hne a hkept)
  · rw [heq]
    exact .of_alone (logged_alone w _)

theorem closeChannel_keeps (hD : GroupContract D.group) {id : UInt32}
    (hids : ∀ a ∈ w.manager.addressedChannels id, a ∉ kept) :
    KeepsChannels kept w (closeChannel id w) := by
  have heach : ∀ (ids : List UInt32) (w : World D), (∀ a ∈ ids, a ∉ kept) →
      KeepsChannels kept w (ids.foldl closeOne w) := by
    intro ids
    induction ids with
    | nil => exact fun w _ => .refl kept w
    | cons a rest ih =>
      intro w hout
      obtain ⟨ha, hrest⟩ := List.forall_mem_cons.mp hout
      exact (closeOne_keeps hD ha).trans (ih _ hrest)
  refine (heach _ w hids).trans (.of_same rfl ?_ ?_ ?_)
  · exact fun kind a _ => minerAt_retainNonempty _ kind (.stored a)
  · exact fun kind n miner hm => (minerAt_retainNonempty _ kind (.dropped n)).trans hm
  · exact fun g a _ => isMember_retainNonempty hD

theorem regroup_keeps (hD : GroupContract D.group) {w₀ : World D} {m : SetGroupChannel}
    {redefined : D.group.GroupChannel}
    (hlisted : Listed w₀ (D.group.new m.groupChannelId) m.channelIds redefined)
    (hids : ∀ a ∈ concerned w.manager (.setGroupChannel m), a ∉ kept) :
    KeepsChannels kept w (regroup w m.groupChannelId m.channelIds redefined) := by
  refine .of_same rfl ?_ ?_ ?_
  · exact fun kind id _ => minerAt_regroup w _ _ _ kind (.stored id)
  · intro kind n miner hm
    rw [minerAt_regroup]
    exact hm
  · intro g id hkept
    have hunlisted : id ∉ m.channelIds := fun hmem => hids id (List.mem_append_left _ hmem) hkept
    rw [isMember_regroup hD hlisted]
    by_cases hg : g = m.groupChannelId
    · -- the members of the group as it was are concerned
      subst hg
      apply iff_of_false (by simp [hunlisted])
      intro hmember
      exact hids id (List.mem_append_right _ (mem_addressed_of_member hmember)) hkept
    · simp [hg, hunlisted]

end Frames

section Runs

variable {kept : Set UInt32}

theorem concerned_congr (hsame : SameRegistry w w') (m : ServerMessage) :
    concerned w'.manager m = concerned w.manager m := by
  cases m <;> simp only [concerned, hsame.addressedChannels]

theorem handlerRun_keeps (hD : GroupContract D.group) {m : ServerMessage}
    {res : Except Sv2CpuMinerError Unit} (h : HandlerRun w m res w')
    (hids : ∀ id ∈ concerned w.manager m, id ∉ kept) : KeepsChannels kept w w' := by
  have hothers : ∀ {a b : World D}, WorldOthers a b → KeepsChannels kept a b :=
    fun hab => .of_alone (worldOthers_alone hab)
  cases h with
  | quiet hsame hcalls =>
    refine ⟨?_, fun kind id _ => hsame.places kind (.stored id), ?_, ?_⟩
    · intro kind id hkept r hr
      obtain ⟨r', hr', hgoes | ⟨a, c, _, hplace, ht, _⟩⟩ := hcalls kind (.stored id) r hr
      · exact ⟨r', hr', hgoes⟩
      · cases hplace
        exact absurd hkept (hids id (targets_concerned ht))
    · intro kind n r hr
      obtain ⟨r', hr', hgoes | ⟨a, c, _, hplace, _, _⟩⟩ := hcalls kind (.dropped n) r hr
      · exact ⟨r', hr', hgoes⟩
      · contradiction
    · intro g id _
      unfold IsMember
      rw [hsame.groups]
  | opened ho h₁ hacc h' =>
    rw [opening_concerned ho] at hids
    have hid := hids _ (List.mem_singleton_self _)
    exact ((hothers h₁).trans (opened_keeps hD hacc hid)).trans (hothers h')
  | @closed m w₁ _ h₁ h' =>
    rw [← concerned_congr (worldOthers_sameRegistry h₁)] at hids
    exact ((hothers h₁).trans (closeChannel_keeps hD hids)).trans (hothers h')
  | @regrouped m redefined w₁ _ _ hlisted h₁ h' =>
    rw [← concerned_congr (worldOthers_sameRegistry h₁)] at hids
    exact ((hothers h₁).trans (regroup_keeps hD hlisted hids)).trans (hothers h')

/-- The label is no message that concerns one of these channels. -/
def Avoids (kept : Set UInt32) (w : World D) : WorldLabel → Prop
  | .event _ => True
  | .message m _ => ∀ id ∈ concerned w.manager m, id ∉ kept

/-- From any reachable world on, the channels that no message concerns stay
stored, in their groups, and their miners are moved by their own tasks, by the
clock and by a shutdown only, whatever happens to the other channels. -/
theorem unconcerned_channels_kept (D : Deps) (hD : GroupContract D.group) (userIdentity : String)
    (nominalHashrate : F32) (singleSubmit : Bool) (cpuUsagePercent : ℕ)
    (requiresStandardJobs : Bool) (amb : Ambient) (before ls : List WorldLabel) (w w' : World D)
    (kept : Set UInt32)
    (hbefore : Run WorldStep (World.initial (ChannelManager.new userIdentity nominalHashrate
      singleSubmit cpuUsagePercent requiresStandardJobs) amb) before w)
    (hrun : Run (Guarded (Avoids kept) WorldStep) w ls w') : KeepsChannels kept w w' := by
  have hgrouped := run_wellGrouped hD hbefore
  have hinv : WellGrouped w' ∧ KeepsChannels kept w w' := by
    refine Run.invariant (I := fun a => WellGrouped a ∧ KeepsChannels kept w a) ?_ hrun
      ⟨hgrouped, .refl kept w⟩
    intro a l b ha hstep
    obtain ⟨havoids, hstep⟩ := hstep
    refine ⟨step_wellGrouped hD ha.1 hstep, ha.2.trans ?_⟩
    cases hstep with
    | event he => exact .of_alone (worldOthers_alone (.single ⟨_, he⟩))
    | message hmsg => exact handlerRun_keeps hD (handle_cases hD ha.1.nonempty hmsg) havoids
  exact hinv.2

/-- Another channel of the group gets work, is moved to a group of its own and
is closed with it. -/
def sampleOthers : List WorldLabel :=
  handled [prevHashMessage 2 5, setGroupMessage 11 [2], closeMessage 11]

def avoidsFirst (w : World sampleDeps) : WorldLabel → Bool
  | .event _ => true
  | .message m _ => (concerned w.manager m).all fun id => id != 1

theorem sample_channel_kept :
    ∃ w w', play World.execute sampleWorld sampleOpenings = some w ∧
      Run (Guarded (Avoids {1}) WorldStep) w sampleOthers w' ∧ KeepsChannels {1} w w' := by
  have hplay : ((play World.execute sampleWorld sampleOpenings).bind fun w =>
      play (fun w l => if avoidsFirst w l then World.execute w l else none) w sampleOthers).isSome =
        true := by decide +kernel
  obtain ⟨w', hw'⟩ := Option.isSome_iff_exists.mp hplay
  obtain ⟨w, hw, hothers⟩ := Option.bind_eq_some_iff.mp hw'
  have havoids : ∀ a l, avoidsFirst a l = true → Avoids {1} a l := by
    intro a l hcheck
    cases l with
    | event e => trivial
    | message m res =>
      intro id hid hone
      have hne := List.all_eq_true.mp hcheck id hid
      rw [Set.mem_singleton_iff.mp hone] at hne
      contradiction
  have hguarded : Run (Guarded (Avoids {1}) WorldStep) w sampleOthers w' :=
    guardedRun_of_play havoids (fun _ _ _ => worldStep_of_execute) hothers
  exact ⟨w, w', hw, hguarded, unconcerned_channels_kept sampleDeps sample_groupContract _ _ _ _ _ _
    sampleOpenings sampleOthers w w' {1} (worldRun_of_play hw) hguarded⟩

end Runs

theorem closeEach_alone {ids : List UInt32} (hclosed : ∀ id ∈ ids, ¬ ChannelOpen w id) :
    LeavesChannelsAlone w (ids.foldl closeOne w) := by
  induction ids generalizing w with
  | nil => exact worldOthers_alone .refl
  | cons id rest ih =>
    obtain ⟨hid, hrest⟩ := List.forall_mem_cons.mp hclosed
    have hfirst : LeavesChannelsAlone w (closeOne w id) := by
      rcases closeOne_cases w id with ⟨kind, miner, _, hstored, _⟩ | ⟨_, heq⟩
      · exact absurd ⟨kind, Option.isSome_of_eq_some hstored⟩ hid
      · rw [heq]
        exact logged_alone w _
    refine hfirst.trans (ih ?_)
    intro a ha
    rw [isOpen_congr hfirst.1]
    exact hrest a ha

theorem setGroups_alone {groups : PartialMap UInt32 D.group.GroupChannel}
    (h : groups = w.manager.groupChannels) : LeavesChannelsAlone w (w.setGroups groups) := by
  subst h
  exact worldOthers_alone .refl

theorem retainNonempty_alone (hD : GroupContract D.group) (hne : NonemptyGroups w) :
    LeavesChannelsAlone w w.retainNonempty := by
  apply setGroups_alone
  funext g
  apply Option.ext
  intro group
  exact (groups_retainNonempty_iff hD w g group).trans (and_iff_left_of_imp (hne g group))

theorem no_group_of_closed (hw : WellGrouped w) {g : UInt32}
    (hclosed : ∀ id ∈ w.manager.addressedChannels g, ¬ ChannelOpen w id) :
    w.manager.groupChannels g = none := by
  obtain ⟨t, ht⟩ := hw.shows
  cases hg : w.manager.groupChannels g with
  | none => rfl
  | some group =>
    obtain ⟨id, hid⟩ := List.exists_mem_of_ne_nil _ (hw.nonempty g group hg)
    have hmember : IsMember w g id := ⟨group, hg, hid⟩
    have hopen := (ht.active id).mp (t.members_subset g ((ht.members g id).mpr hmember))
    exact absurd hopen (hclosed id (mem_addressed_of_member hmember))

theorem regroup_nothing (hD : GroupContract D.group) (hne : NonemptyGroups w) {g : UInt32}
    (hg : w.manager.groupChannels g = none) (redefined : D.group.GroupChannel) :
    LeavesChannelsAlone w (regroup w g [] redefined) := by
  have hgroups : (regroup w g [] redefined).manager.groupChannels = w.manager.groupChannels := by
    funext k
    apply Option.ext
    intro group
    rw [groups_regroup_iff hD]
    constructor
    · intro h
      obtain ⟨_, ⟨_, hids, _⟩ | ⟨_, old, hold, rfl⟩⟩ := h
      · contradiction
      · exact hold
    · intro hgroup
      refine ⟨hne k group hgroup, .inr ⟨?_, group, hgroup, rfl⟩⟩
      intro heq
      rw [heq, hg] at hgroup
      contradiction
  have hsame := setGroups_alone hgroups
  exact hsame

/-- In every reachable world, a message that concerns no channel that is open
changes no channel and no group, and ends the connection only when it is one
that the connection never takes. -/
theorem unknown_channels_ignored (D : Deps) (hD : GroupContract D.group) (userIdentity : String)
    (nominalHashrate : F32) (singleSubmit : Bool) (cpuUsagePercent : ℕ)
    (requiresStandardJobs : Bool) (amb : Ambient) (ls : List WorldLabel) (w w' : World D)
    (hrun : Run WorldStep (World.initial (ChannelManager.new userIdentity nominalHashrate
      singleSubmit cpuUsagePercent requiresStandardJobs) amb) ls w)
    (m : ServerMessage) (res : Except Sv2CpuMinerError Unit)
    (hm : (opening m : Option (Opening D)) = none)
    (hclosed : ∀ id ∈ concerned w.manager m, ¬ ChannelOpen w id)
    (h : WorldStep w (.message m res) w') :
    LeavesChannelsAlone w w' ∧ (res = .ok () ∨ Refused w m) := by
  have hgrouped := run_wellGrouped hD hrun
  have hne := hgrouped.nonempty
  cases h with
  | message hmsg =>
    constructor
    · cases handle_cases hD hne hmsg with
      | quiet hsame hcalls =>
        refine ⟨hsame, ?_⟩
        intro kind place r hr
        obtain ⟨r', hr', hgoes | ⟨id, c, _, rfl, ht, _⟩⟩ := hcalls kind place r hr
        · exact ⟨r', hr', hgoes⟩
        · have hopen : ChannelOpen w id :=
            ⟨kind, Option.isSome_of_eq_some (rigAt_eq_some_iff.mp hr).1⟩
          exact absurd hopen (hclosed id (targets_concerned ht))
      | opened ho =>
        rw [hm] at ho
        contradiction
      | @closed c w₁ _ h₁ h' =>
        have hsame := worldOthers_sameRegistry h₁
        have heach : LeavesChannelsAlone w₁
            ((w₁.manager.addressedChannels c.channelId).foldl closeOne w₁) := by
          apply closeEach_alone
          intro id hid
          rw [isOpen_congr hsame]
          rw [hsame.addressedChannels] at hid
          exact hclosed id hid
        have hafter := nonemptyGroups_congr (hsame.trans heach.1) hne
        have hall := heach.trans (retainNonempty_alone hD hafter)
        exact ((worldOthers_alone h₁).trans hall).trans (worldOthers_alone h')
      | @regrouped g redefined w₁ _ _ hlisted h₁ h' =>
        have hnone : g.channelIds = [] := by
          apply List.eq_nil_iff_forall_not_mem.mpr
          intro id hid
          exact hclosed id (List.mem_append_left _ hid) (hlisted.isOpen id hid)
        have hgone : w.manager.groupChannels g.groupChannelId = none :=
          no_group_of_closed hgrouped fun id hid => hclosed id (List.mem_append_right _ hid)
        have hsame := worldOthers_sameRegistry h₁
        rw [← hsame.groups] at hgone
        rw [hnone] at h'
        have hnothing := regroup_nothing hD (nonemptyGroups_congr hsame hne) hgone redefined
        exact ((worldOthers_alone h₁).trans hnothing).trans (worldOthers_alone h')
    · cases res with
      | ok u => exact .inl rfl
      | error e =>
        rcases handle_fails hD hmsg with ⟨hrefused, _⟩ | ⟨_, kind, id, hlocks, r, _, hr, _⟩
        · exact .inr hrefused
        · have hopen : ChannelOpen w id :=
            ⟨kind, Option.isSome_of_eq_some (rigAt_eq_some_iff.mp hr).1⟩
          exact absurd hopen (hclosed id (locks_concerned hlocks))

/-- A prev hash for an id that is neither a channel nor a group. -/
theorem sample_unknown_ignored :
    ∃ w w', play World.execute sampleWorld sampleOpenings = some w ∧
      w.execute (.message (prevHashMessage 9 5) (.ok ())) = some w' ∧
      LeavesChannelsAlone w w' := by
  have hplay : ((play World.execute sampleWorld sampleOpenings).bind fun w =>
      if w.manager.standardChannels.containsKey 9 || w.manager.extendedChannels.containsKey 9 ||
        w.manager.groupChannels.containsKey 9 then none
      else w.execute (.message (prevHashMessage 9 5) (.ok ()))).isSome = true := by decide +kernel
  obtain ⟨w', hw'⟩ := Option.isSome_iff_exists.mp hplay
  obtain ⟨w, hw, hstep⟩ := Option.bind_eq_some_iff.mp hw'
  obtain ⟨hfree, hstep⟩ := Option.ite_none_left_eq_some.mp hstep
  simp only [Bool.or_eq_true, not_or] at hfree
  refine ⟨w, w', hw, hstep, ?_⟩
  refine (unknown_channels_ignored sampleDeps sample_groupContract _ _ _ _ _ _ _ w w'
    (worldRun_of_play hw) (prevHashMessage 9 5) (.ok ()) rfl ?_ (worldStep_of_execute hstep)).1
  intro id hid hopen
  have hnine : id = 9 := by
    have hgroup : w.manager.groupChannels 9 = none := Option.not_isSome_iff_eq_none.mp hfree.2
    change id ∈ w.manager.addressedChannels 9 at hid
    unfold ChannelManager.addressedChannels at hid
    rw [hgroup] at hid
    exact List.mem_singleton.mp hid
  subst hnine
  obtain ⟨kind, hkind⟩ := hopen
  cases kind with
  | standard => exact hfree.1.1 hkind
  | extended => exact hfree.1.2 hkind

end CpuMinerSv2.Addressing
