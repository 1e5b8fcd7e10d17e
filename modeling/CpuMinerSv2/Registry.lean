import CpuMinerSv2.Deliveries

/-!
What opening, closing and regrouping do to the channel maps, the groups and
the miners let go of. Opening either changes nothing but the log, or stores a
new miner that has joined its group.
-/

namespace CpuMinerSv2.Registry

open Messages Channels Primitives Interference MineJob MinerMethods Manager ManagerFrames
  Deliveries Relation

section Effects

variable {D : Deps}

@[simp] theorem minerAt_setGroups (w : World D) (groups : PartialMap UInt32 D.group.GroupChannel)
    (kind : Kind) (place : Place) :
    (w.setGroups groups).minerAt kind place = w.minerAt kind place := by
  cases kind <;> cases place <;> rfl

@[simp] theorem minerAt_logError (w : World D) (e : ErrorLog) (kind : Kind) (place : Place) :
    (w.logError e).minerAt kind place = w.minerAt kind place := by
  cases kind <;> cases place <;> rfl

theorem minerAt_drop_stored (w : World D) (kind kind' : Kind) (miner : ChannelMiner (D.client kind))
    (id : UInt32) :
    (w.drop kind miner).minerAt kind' (.stored id) = w.minerAt kind' (.stored id) := by
  simp only [World.drop, World.minerAt, manager_setDropped]

theorem minerAt_drop_dropped (w : World D) {kind : Kind} {miner : ChannelMiner (D.client kind)}
    {n : ℕ} {m : ChannelMiner (D.client kind)}
    (h : (w.drop kind miner).minerAt kind (.dropped n) = some m) :
    w.minerAt kind (.dropped n) = some m ∨ m = miner := by
  simp only [World.drop, World.minerAt, dropped_setDropped] at h ⊢
  rcases Nat.lt_or_ge n (w.dropped kind).length with hlt | hge
  · rw [List.getElem?_append_left hlt] at h
    exact .inl h
  · rw [List.getElem?_append_right hge] at h
    exact .inr (List.mem_singleton.mp (List.mem_of_getElem? h))

theorem minerAt_drop_of_ne (w : World D) {kind kind' : Kind} (hne : kind' ≠ kind)
    (miner : ChannelMiner (D.client kind)) (place : Place) :
    (w.drop kind miner).minerAt kind' place = w.minerAt kind' place := by
  cases place with
  | stored id => exact minerAt_drop_stored w kind kind' miner id
  | dropped n => simp only [World.drop, World.minerAt, dropped_setDropped_of_ne w _ hne]

theorem minerAt_insertMiner_self (w : World D) (kind : Kind) (id : UInt32)
    (miner : ChannelMiner (D.client kind)) :
    (w.insertMiner kind id miner).minerAt kind (.stored id) = some miner := by
  unfold World.insertMiner
  split <;> simp [World.putMiner, World.minerAt]

theorem minerAt_insertMiner_stored (w : World D) {kind kind' : Kind} {id id' : UInt32}
    (miner : ChannelMiner (D.client kind)) (hne : ¬ (kind' = kind ∧ id' = id)) :
    (w.insertMiner kind id miner).minerAt kind' (.stored id') = w.minerAt kind' (.stored id') := by
  have hplace : ¬ (kind' = kind ∧ Place.stored id' = Place.stored id) := by
    intro h
    exact hne ⟨h.1, Place.stored.inj h.2⟩
  unfold World.insertMiner
  split
  · rw [minerAt_putMiner_of_ne _ _ hplace, minerAt_drop_stored]
  · rw [minerAt_putMiner_of_ne _ _ hplace]

theorem minerAt_insertMiner_dropped (w : World D) {kind kind' : Kind} {id : UInt32}
    {miner : ChannelMiner (D.client kind)} {n : ℕ} {m : ChannelMiner (D.client kind')}
    (h : (w.insertMiner kind id miner).minerAt kind' (.dropped n) = some m) :
    w.minerAt kind' (.dropped n) = some m ∨
      kind' = kind ∧ w.minerAt kind' (.stored id) = some m := by
  have hplace : ¬ (kind' = kind ∧ Place.dropped n = Place.stored id) := fun h => nomatch h.2
  unfold World.insertMiner at h
  split at h
  · rename_i old hold
    rw [minerAt_putMiner_of_ne _ _ hplace] at h
    by_cases hkind : kind' = kind
    · subst hkind
      rcases minerAt_drop_dropped w h with h | h
      · exact .inl h
      · rw [h]
        exact .inr ⟨rfl, hold⟩
    · rw [minerAt_drop_of_ne w hkind] at h
      exact .inl h
  · rw [minerAt_putMiner_of_ne _ _ hplace] at h
    exact .inl h

theorem minerAt_insertMiner_overwritten (w : World D) {kind : Kind} {id : UInt32}
    {old : ChannelMiner (D.client kind)} (miner : ChannelMiner (D.client kind))
    (h : w.minerAt kind (.stored id) = some old) :
    (w.insertMiner kind id miner).minerAt kind (.dropped (w.dropped kind).length) = some old := by
  have hplace : ¬ (kind = kind ∧ Place.dropped (w.dropped kind).length = Place.stored id) :=
    fun hc => nomatch hc.2
  have hold : w.manager.channels kind id = some old := h
  unfold World.insertMiner
  rw [hold]
  dsimp only
  rw [minerAt_putMiner_of_ne _ _ hplace]
  simp [World.drop, World.minerAt]

@[simp] theorem groups_insertMiner (w : World D) (kind : Kind) (id : UInt32)
    (miner : ChannelMiner (D.client kind)) :
    (w.insertMiner kind id miner).manager.groupChannels = w.manager.groupChannels := by
  unfold World.insertMiner
  split <;> simp [World.drop]

@[simp] theorem settings_setGroups (w : World D)
    (groups : PartialMap UInt32 D.group.GroupChannel) :
    settings (w.setGroups groups).manager = settings w.manager := rfl

@[simp] theorem settings_insertMiner (w : World D) (kind : Kind) (id : UInt32)
    (miner : ChannelMiner (D.client kind)) :
    settings (w.insertMiner kind id miner).manager = settings w.manager := by
  unfold World.insertMiner
  split <;> simp [World.drop]

@[simp] theorem ambient_insertMiner (w : World D) (kind : Kind) (id : UInt32)
    (miner : ChannelMiner (D.client kind)) :
    (w.insertMiner kind id miner).ambient = w.ambient := by
  unfold World.insertMiner
  split <;> simp [World.drop]

@[simp] theorem ambient_removeMiner (w : World D) (kind : Kind) (id : UInt32)
    (miner : ChannelMiner (D.client kind)) :
    (w.removeMiner kind id miner).ambient = w.ambient := by
  simp [World.removeMiner, World.drop]

@[simp] theorem settings_removeMiner (w : World D) (kind : Kind) (id : UInt32)
    (miner : ChannelMiner (D.client kind)) :
    settings (w.removeMiner kind id miner).manager = settings w.manager := by
  simp [World.removeMiner, World.drop]

theorem minerAt_removeMiner_self (w : World D) (kind : Kind) (id : UInt32)
    (miner : ChannelMiner (D.client kind)) :
    (w.removeMiner kind id miner).minerAt kind (.stored id) = none := by
  simp [World.removeMiner, World.minerAt]

theorem minerAt_removeMiner_stored (w : World D) {kind kind' : Kind} {id id' : UInt32}
    (miner : ChannelMiner (D.client kind)) (hne : ¬ (kind' = kind ∧ id' = id)) :
    (w.removeMiner kind id miner).minerAt kind' (.stored id') = w.minerAt kind' (.stored id') := by
  simp only [World.removeMiner, World.minerAt, World.drop, manager_setDropped]
  by_cases hkind : kind' = kind
  · subst hkind
    have hid : id' ≠ id := fun h => hne ⟨rfl, h⟩
    simp [hid]
  · rw [channels_setChannels_of_ne _ _ hkind]

theorem minerAt_removeMiner_dropped (w : World D) {kind kind' : Kind} {id : UInt32}
    {miner : ChannelMiner (D.client kind)} {n : ℕ} {m : ChannelMiner (D.client kind')}
    (hstored : w.minerAt kind (.stored id) = some miner)
    (h : (w.removeMiner kind id miner).minerAt kind' (.dropped n) = some m) :
    w.minerAt kind' (.dropped n) = some m ∨
      kind' = kind ∧ w.minerAt kind' (.stored id) = some m := by
  have hdrop : (w.removeMiner kind id miner).minerAt kind' (.dropped n) =
      (w.drop kind miner).minerAt kind' (.dropped n) := by
    cases kind' <;> rfl
  rw [hdrop] at h
  by_cases hkind : kind' = kind
  · subst hkind
    rcases minerAt_drop_dropped w h with h | h
    · exact .inl h
    · rw [h]
      exact .inr ⟨rfl, hstored⟩
  · rw [minerAt_drop_of_ne w hkind] at h
    exact .inl h

@[simp] theorem groups_removeMiner (w : World D) (kind : Kind) (id : UInt32)
    (miner : ChannelMiner (D.client kind)) :
    (w.removeMiner kind id miner).manager.groupChannels = w.manager.groupChannels := by
  simp [World.removeMiner, World.drop]

end Effects

section Opening

variable {D : Deps}

/-- The ids of a new channel and its group do not collide with ids in use. -/
structure Joinable (w : World D) (channelId groupChannelId : UInt32) : Prop where
  notStandard : w.manager.standardChannels.containsKey groupChannelId = false
  notExtended : w.manager.extendedChannels.containsKey groupChannelId = false
  ne : channelId ≠ groupChannelId
  notGroup : w.manager.groupChannels.containsKey channelId = false

/-- The group a channel joins, made on first use. -/
def joinedGroup (w : World D) (groupChannelId : UInt32) : D.group.GroupChannel :=
  (w.manager.groupChannels groupChannelId).getD (D.group.new groupChannelId)

theorem joinGroup_eq (w : World D) (channelId groupChannelId : UInt32) (size : ℕ) :
    (¬ Joinable w channelId groupChannelId ∧
      joinGroup w channelId groupChannelId size =
        (false, w.logError (.idsCollide channelId groupChannelId))) ∨
    (Joinable w channelId groupChannelId ∧
      joinGroup w channelId groupChannelId size =
        match D.group.addChannelId (joinedGroup w groupChannelId) channelId size with
        | (.ok _, group) =>
          (true, w.setGroups (w.manager.groupChannels.insert groupChannelId group))
        | (.error e, group) =>
          (false, ((w.setGroups (w.manager.groupChannels.insert groupChannelId group)).logError
            (.cannotJoinGroup channelId groupChannelId e)).retainNonempty)) := by
  unfold joinGroup
  by_cases hc : (w.manager.standardChannels.containsKey groupChannelId ||
      w.manager.extendedChannels.containsKey groupChannelId || channelId == groupChannelId ||
      w.manager.groupChannels.containsKey channelId) = true
  · refine .inl ⟨?_, if_pos hc⟩
    intro h
    simp [h.notStandard, h.notExtended, h.ne, h.notGroup] at hc
  · refine .inr ⟨?_, if_neg hc⟩
    simp only [Bool.or_eq_true, not_or, Bool.not_eq_true, beq_eq_false_iff_ne] at hc
    obtain ⟨⟨⟨hstd, hext⟩, hne⟩, hgroup⟩ := hc
    exact ⟨hstd, hext, hne, hgroup⟩

/-- Every group has members. -/
def NonemptyGroups (w : World D) : Prop :=
  ∀ (g : UInt32) (group : D.group.GroupChannel), w.manager.groupChannels g = some group →
    D.group.getChannelIds group ≠ []

theorem retain_refused (hD : GroupContract D.group) {w : World D} (hne : NonemptyGroups w)
    (g : UInt32) :
    (w.manager.groupChannels.insert g (joinedGroup w g)).retain
      (fun group => !D.group.isEmpty group) = w.manager.groupChannels := by
  have hkeep : ∀ (k : UInt32) (group : D.group.GroupChannel),
      w.manager.groupChannels k = some group → D.group.isEmpty group = false := by
    intro k group hk
    rw [← Bool.not_eq_true, hD.isEmpty]
    exact hne k group hk
  funext k
  by_cases hk : k = g
  · subst hk
    cases hg : w.manager.groupChannels k with
    | none =>
      have hempty : D.group.isEmpty (D.group.new k) = true := (hD.isEmpty _).mpr (hD.new k)
      simp [PartialMap.retain, joinedGroup, hg, hempty]
    | some group => simp [PartialMap.retain, joinedGroup, hg, hkeep k group hg]
  · cases hg : w.manager.groupChannels k with
    | none => simp [PartialMap.retain, hk, hg]
    | some group => simp [PartialMap.retain, hk, hg, hkeep k group hg]

/-- An opening that goes through. -/
structure Accepts (o : Opening D) (w : World D) (channel : (D.client o.kind).Channel)
    (group : D.group.GroupChannel) : Prop where
  made : ∃ p, D.fromWire o.extranoncePrefix = .ok p ∧ o.newChannel w.manager p = .ok channel
  joinable : Joinable w o.channelId o.groupChannelId
  joined : D.group.addChannelId (joinedGroup w o.groupChannelId) o.channelId o.fullExtranonceSize =
    (.ok (), group)

/-- The world after an opening that goes through. -/
def opened (o : Opening D) (w : World D) (channel : (D.client o.kind).Channel)
    (group : D.group.GroupChannel) : World D :=
  (w.setGroups (w.manager.groupChannels.insert o.groupChannelId group)).insertMiner o.kind
    o.channelId (new channel w.manager.cpuUsagePercent w.manager.singleSubmit)

theorem perform_cases (hD : GroupContract D.group) (o : Opening D) {w : World D}
    (hne : NonemptyGroups w) :
    (∃ channel group, Accepts o w channel group ∧ o.perform w = opened o w channel group) ∨
    ((¬ ∃ channel group, Accepts o w channel group) ∧
      ∃ log, log ≠ w.log ∧ o.perform w = { w with log := log }) := by
  have hlog : ∀ e, (w.logError e).log ≠ w.log := by
    intro e h
    have hlen := congrArg List.length h
    simp [World.logError] at hlen
  unfold Opening.perform
  cases hp : D.fromWire o.extranoncePrefix with
  | error e =>
    refine .inr ⟨?_, _, hlog _, rfl⟩
    intro h
    obtain ⟨_, _, h⟩ := h
    obtain ⟨p, hp', _⟩ := h.made
    rw [hp] at hp'
    contradiction
  | ok p =>
    dsimp only
    cases hc : o.newChannel w.manager p with
    | error e =>
      refine .inr ⟨?_, _, hlog _, rfl⟩
      intro h
      obtain ⟨_, _, h⟩ := h
      obtain ⟨p', hp', hc'⟩ := h.made
      rw [hp] at hp'
      cases hp'
      rw [hc] at hc'
      contradiction
    | ok channel =>
      dsimp only
      rcases joinGroup_eq w o.channelId o.groupChannelId o.fullExtranonceSize with
        ⟨hnot, hjoin⟩ | ⟨hjoinable, hjoin⟩
      · rw [hjoin]
        refine .inr ⟨?_, _, hlog _, rfl⟩
        intro h
        obtain ⟨_, _, h⟩ := h
        exact hnot h.joinable
      · rw [hjoin]
        cases hadd : D.group.addChannelId (joinedGroup w o.groupChannelId) o.channelId
            o.fullExtranonceSize with
        | mk result group =>
          cases result with
          | ok u => exact .inl ⟨channel, group, ⟨⟨p, hp, hc⟩, hjoinable, hadd⟩, rfl⟩
          | error e =>
            have hsame : group = joinedGroup w o.groupChannelId := by
              have hrefused := hD.refused (joinedGroup w o.groupChannelId) o.channelId
                o.fullExtranonceSize e (by rw [hadd])
              rw [hadd] at hrefused
              exact hrefused
            refine .inr ⟨?_, _, hlog (.cannotJoinGroup o.channelId o.groupChannelId e), ?_⟩
            · intro h
              obtain ⟨_, _, h⟩ := h
              have hjoined := congrArg Prod.fst h.joined
              rw [hadd] at hjoined
              contradiction
            · dsimp only
              subst hsame
              simp only [World.retainNonempty, World.logError, World.setGroups,
                retain_refused hD hne]

end Opening

section Closing

variable {D : Deps}

/-- Closing an id removes the miner it resolves to from its map and the id
from every group, or only logs that there is none. -/
theorem closeOne_cases (w : World D) (id : UInt32) :
    (∃ kind miner, Resolves w kind id ∧ w.minerAt kind (.stored id) = some miner ∧
      closeOne w id = leaveGroups (w.removeMiner kind id miner) id) ∨
    ((∀ kind, w.minerAt kind (.stored id) = none) ∧
      closeOne w id = w.logError (.channelNotFound id "CloseChannel")) := by
  unfold closeOne
  cases hstd : w.manager.standardChannels id with
  | some miner => exact .inl ⟨.standard, miner, .inl rfl, hstd, rfl⟩
  | none =>
    have hres : Resolves w .extended id := by
      right
      simp [PartialMap.containsKey, hstd]
    cases hext : w.manager.extendedChannels id with
    | some miner => exact .inl ⟨.extended, miner, hres, hext, rfl⟩
    | none =>
      refine .inr ⟨?_, rfl⟩
      intro kind
      cases kind with
      | standard => exact hstd
      | extended => exact hext

@[simp] theorem minerAt_leaveGroups (w : World D) (id : UInt32) (kind : Kind) (place : Place) :
    (leaveGroups w id).minerAt kind place = w.minerAt kind place :=
  minerAt_setGroups _ _ _ _

@[simp] theorem minerAt_retainNonempty (w : World D) (kind : Kind) (place : Place) :
    w.retainNonempty.minerAt kind place = w.minerAt kind place :=
  minerAt_setGroups _ _ _ _

theorem groups_leaveGroups_iff (w : World D) (id g : UInt32) (group : D.group.GroupChannel) :
    (leaveGroups w id).manager.groupChannels g = some group ↔
      ∃ old, w.manager.groupChannels g = some old ∧ D.group.removeChannelId old id = group :=
  PartialMap.mapValues_eq_some_iff _ _ _ _

theorem groups_retainNonempty_iff (hD : GroupContract D.group) (w : World D) (g : UInt32)
    (group : D.group.GroupChannel) :
    w.retainNonempty.manager.groupChannels g = some group ↔
      w.manager.groupChannels g = some group ∧ D.group.getChannelIds group ≠ [] := by
  have hiff := PartialMap.retain_eq_some_iff w.manager.groupChannels
    (fun group => !D.group.isEmpty group) g group
  rw [Bool.not_eq_true', ← Bool.not_eq_true, hD.isEmpty] at hiff
  exact hiff

theorem retainNonempty_nonempty (hD : GroupContract D.group) (w : World D) :
    NonemptyGroups w.retainNonempty :=
  fun g group hg => ((groups_retainNonempty_iff hD w g group).mp hg).2

end Closing

section Regrouping

variable {D : Deps}

theorem removed_foldl (hD : GroupContract D.group) (group : D.group.GroupChannel)
    (ids : List UInt32) (a : UInt32) :
    a ∈ D.group.getChannelIds (ids.foldl D.group.removeChannelId group) ↔
      a ∉ ids ∧ a ∈ D.group.getChannelIds group := by
  induction ids generalizing group with
  | nil => simp
  | cons id rest ih =>
    rw [List.foldl_cons, ih, hD.removed, List.mem_cons, not_or]
    constructor
    · intro h
      exact ⟨⟨h.2.1, h.1⟩, h.2.2⟩
    · intro h
      exact ⟨h.1.2, h.1.1, h.2⟩

theorem groups_regroup_iff (hD : GroupContract D.group) (w : World D) (g : UInt32)
    (ids : List UInt32) (redefined : D.group.GroupChannel) (k : UInt32)
    (group : D.group.GroupChannel) :
    (regroup w g ids redefined).manager.groupChannels k = some group ↔
      D.group.getChannelIds group ≠ [] ∧
        (k = g ∧ ids ≠ [] ∧ redefined = group ∨
          k ≠ g ∧ ∃ old, w.manager.groupChannels k = some old ∧
            ids.foldl D.group.removeChannelId old = group) := by
  unfold regroup
  rw [groups_retainNonempty_iff hD, and_comm]
  apply and_congr_right
  intro _
  simp only [World.setGroups]
  by_cases hk : k = g
  · subst hk
    cases ids with
    | nil => simp
    | cons id rest => simp
  · cases ids with
    | nil => simp [hk, PartialMap.mapValues]
    | cons id rest => simp [hk, PartialMap.mapValues]

@[simp] theorem minerAt_regroup (w : World D) (g : UInt32) (ids : List UInt32)
    (redefined : D.group.GroupChannel) (kind : Kind) (place : Place) :
    (regroup w g ids redefined).minerAt kind place = w.minerAt kind place := by
  unfold regroup
  rw [minerAt_retainNonempty, minerAt_setGroups]

end Regrouping

end CpuMinerSv2.Registry
