import CpuMinerSv2.Accounts
import CpuMinerSv2.Histories
import CpuMinerSv2.Regrouping

/-!
The registry as a book kept of the server's messages. A message opens a
channel in a group, closes the ids it addresses, regroups open channels or
changes nothing, and the book alone says whether an opening fits. Whatever
tasks, clock and shutdown do in between, the maps of a reachable manager are
what its messages have written, in their order.
-/

namespace CpuMinerSv2.RegistryBooks

open Messages Channels Primitives Interference MineJob Manager ManagerFrames Deliveries Registry
  HandlerRuns GroupRefinement Groups Accounts Histories Regrouping SampleDeps SampleWorlds

open Openings (GroupSizeContract joined_iff sample_groupSizes)

/-- A channel to be opened in a group. -/
structure Entry where
  kind : Kind
  channelId : UInt32
  groupChannelId : UInt32
  fullExtranonceSize : ℕ

/-- The open channels of each kind, and the groups over them with the full
extranonce sizes they have recorded. -/
structure Book where
  opened : Kind → Set UInt32
  table : GroupTable UInt32
  size : UInt32 → ℕ
  active_iff : ∀ id, id ∈ table.active ↔ ∃ kind, id ∈ opened kind

namespace Book

theorem ext_of {b b' : Book} (hopened : b.opened = b'.opened)
    (hmembers : b.table.members = b'.table.members) (hsize : b.size = b'.size) : b = b' := by
  obtain ⟨opened, ⟨active, members, hsub, hapart⟩, size, hactive⟩ := b
  obtain ⟨opened', ⟨active', members', hsub', hapart'⟩, size', hactive'⟩ := b'
  dsimp only at hopened hmembers hsize hactive hactive'
  subst hopened hmembers hsize
  have hsame : active = active' := by
    ext id
    rw [hactive, hactive']
  subst hsame
  rfl

def blank : Book where
  opened _ := ∅
  table := .empty
  size _ := 0
  active_iff id := by
    constructor
    · intro h
      exact h.elim
    · intro h
      obtain ⟨_, h⟩ := h
      exact h.elim

/-- The ids are not in use for something else, and a group with members has
recorded this size. -/
structure Fits (b : Book) (e : Entry) : Prop where
  group : e.groupChannelId ∉ b.table.active
  channel : ¬ (b.table.members e.channelId).Nonempty
  ne : e.groupChannelId ≠ e.channelId
  size : (b.table.members e.groupChannelId).Nonempty →
    b.size e.groupChannelId = e.fullExtranonceSize

def opens (b : Book) (e : Entry) (h : b.Fits e) : Book where
  opened k := {a | a ∈ b.opened k ∨ k = e.kind ∧ a = e.channelId}
  table := b.table.enroll e.channelId e.groupChannelId h.group h.channel h.ne
  size g := if g = e.groupChannelId then e.fullExtranonceSize else b.size g
  active_iff id := by
    constructor
    · intro h
      rcases h with rfl | h
      · exact ⟨e.kind, .inr ⟨rfl, rfl⟩⟩
      · obtain ⟨k, hk⟩ := (b.active_iff id).mp h
        exact ⟨k, .inl hk⟩
    · intro h
      obtain ⟨k, hk | ⟨_, rfl⟩⟩ := h
      · exact .inr ((b.active_iff id).mpr ⟨k, hk⟩)
      · exact .inl rfl

/-- An id stands for its standard channel, if there is one. -/
def left (b : Book) (s : Set UInt32) : Kind → Set UInt32
  | .standard => {a | a ∈ b.opened .standard ∧ a ∉ s}
  | .extended => {a | a ∈ b.opened .extended ∧ (a ∈ s → a ∈ b.opened .standard)}

def closes (b : Book) (s : Set UInt32) : Book where
  opened := b.left s
  table := b.table.retire s {a | ∃ kind, a ∈ b.left s kind}
    (by
      intro a h
      obtain ⟨kind, hk⟩ := h
      apply (b.active_iff a).mpr
      cases kind with
      | standard => exact ⟨.standard, hk.1⟩
      | extended => exact ⟨.extended, hk.1⟩)
    (by
      intro a h
      obtain ⟨kind, hk⟩ := (b.active_iff a).mp h.1
      cases kind with
      | standard => exact ⟨.standard, hk, h.2⟩
      | extended => exact ⟨.extended, hk, fun hs => absurd hs h.2⟩)
  size := b.size
  active_iff _ := Iff.rfl

/-- The members of a group, or the channel itself. -/
def addressed (b : Book) (id : UInt32) : Set UInt32 :=
  {a | a ∈ b.table.members id ∨ ¬ (b.table.members id).Nonempty ∧ a = id}

def regroups (b : Book) (g : UInt32) (l : Set UInt32) (size : ℕ) (hgroup : g ∉ b.table.active)
    (hlisted : l ⊆ b.table.active) : Book where
  opened := b.opened
  table := b.table.regroup g l hgroup hlisted
  size k := if k = g then size else b.size k
  active_iff := b.active_iff

theorem closes_empty (b : Book) : b.closes ∅ = b := by
  apply ext_of
  · funext kind
    cases kind with
    | standard => ext a; simp [closes, left]
    | extended => ext a; simp [closes, left]
  · funext g
    exact Set.sdiff_empty
  · rfl

theorem closes_closed (b : Book) {id : UInt32} (hclosed : ∀ kind, id ∉ b.opened kind) :
    b.closes {id} = b := by
  apply ext_of
  · funext kind
    ext a
    cases kind with
    | standard =>
      apply and_iff_left_of_imp
      intro hstd heq
      exact hclosed .standard (heq ▸ hstd)
    | extended =>
      apply and_iff_left_of_imp
      intro hext heq
      exact absurd (heq ▸ hext) (hclosed .extended)
  · funext g
    ext a
    apply and_iff_left_of_imp
    intro hmem heq
    obtain ⟨kind, hopen⟩ := (b.active_iff a).mp (b.table.members_subset g hmem)
    exact hclosed kind (heq ▸ hopen)
  · rfl

theorem closes_closes (b : Book) {id : UInt32} {s : Set UInt32} (hid : id ∉ s) :
    (b.closes {id}).closes s = b.closes (insert id s) := by
  apply ext_of
  · funext kind
    ext a
    by_cases ha : a = id
    · subst ha
      cases kind <;> simp [closes, left, hid]
    · cases kind <;> simp [closes, left, ha]
  · funext g
    ext a
    simp [closes, GroupTable.retire, and_assoc]
  · rfl

end Book

/-- The channel a message opens, and its group. -/
def openedBy : ServerMessage → Option (Kind × UInt32 × UInt32)
  | .openStandardMiningChannelSuccess m => some (.standard, m.channelId, m.groupChannelId)
  | .openExtendedMiningChannelSuccess m => some (.extended, m.channelId, m.groupChannelId)
  | _ => none

/-- A message and what its handler has returned. -/
abbrev Handled := ServerMessage × Except Sv2CpuMinerError Unit

/-- What a handled message writes, where `entry` knows the openings whose
channel can be made. Such an opening is written when it fits, and only then;
closing is never refused; regrouping, which compares sizes that the book does
not know, may be. -/
inductive Writes (entry : ServerMessage → Option Entry) (b : Book) : Handled → Book → Prop
  | opens {m : ServerMessage} {e : Entry} (he : entry m = some e) (hfits : b.Fits e) :
      Writes entry b (m, .ok ()) (b.opens e hfits)
  | refused {m : ServerMessage} {e : Entry} (he : entry m = some e) (hnot : ¬ b.Fits e) :
      Writes entry b (m, .ok ()) b
  | unmade {m : ServerMessage} (hm : (openedBy m).isSome = true) (he : entry m = none) :
      Writes entry b (m, .ok ()) b
  | closes (m : CloseChannel) :
      Writes entry b (.closeChannel m, .ok ()) (b.closes (b.addressed m.channelId))
  | regroups {m : SetGroupChannel} (size : ℕ) (hgroup : m.groupChannelId ∉ b.table.active)
      (hlisted : {a | a ∈ m.channelIds} ⊆ b.table.active) :
      Writes entry b (.setGroupChannel m, .ok ())
        (b.regroups m.groupChannelId {a | a ∈ m.channelIds} size hgroup hlisted)
  | notRegrouped (m : SetGroupChannel) (res : Except Sv2CpuMinerError Unit) :
      Writes entry b (.setGroupChannel m, res) b
  | nothing {m : ServerMessage} {res : Except Sv2CpuMinerError Unit} (hm : KeepsRegistry m) :
      Writes entry b (m, res) b

section Reading

variable {D : Deps}

/-- The channels of each kind, the members of each group and its size are as
written. -/
structure Reads (w : World D) (b : Book) : Prop where
  channels : ∀ kind id, id ∈ b.opened kind ↔ (w.minerAt kind (.stored id)).isSome = true
  members : ∀ g id, id ∈ b.table.members g ↔ IsMember w g id
  sizes : ∀ g group, w.manager.groupChannels g = some group →
    D.group.getChannelIds group ≠ [] → D.group.recordedSize group = some (b.size g)

variable {w w' : World D} {b : Book}

theorem Reads.isOpen_iff (h : Reads w b) (id : UInt32) :
    id ∈ b.table.active ↔ ChannelOpen w id := by
  rw [b.active_iff]
  exact exists_congr fun kind => h.channels kind id

theorem Reads.shows (h : Reads w b) : Shows w b.table :=
  ⟨h.isOpen_iff, h.members⟩

theorem Reads.congr (h : Reads w b) (hsame : SameRegistry w w') : Reads w' b := by
  refine ⟨?_, (h.shows.congr hsame).members, ?_⟩
  · intro kind id
    rw [h.channels, hsame.places]
  · intro g group hg
    rw [hsame.groups] at hg
    exact h.sizes g group hg

theorem Reads.group_iff (h : Reads w b) (hne : NonemptyGroups w) (g : UInt32) :
    (w.manager.groupChannels g).isSome = true ↔ (b.table.members g).Nonempty := by
  constructor
  · intro hg
    obtain ⟨group, hgroup⟩ := Option.isSome_iff_exists.mp hg
    obtain ⟨id, hid⟩ := List.exists_mem_of_ne_nil _ (hne g group hgroup)
    exact ⟨id, (h.members g id).mpr ⟨group, hgroup, hid⟩⟩
  · intro hmem
    obtain ⟨id, hid⟩ := hmem
    obtain ⟨group, hgroup, _⟩ := (h.members g id).mp hid
    exact Option.isSome_of_eq_some hgroup

/-- What an opening asks for. -/
def entryFor (o : Opening D) : Entry where
  kind := o.kind
  channelId := o.channelId
  groupChannelId := o.groupChannelId
  fullExtranonceSize := o.fullExtranonceSize

/-- The entry for an opening whose channel this manager can make. -/
def entryOf (mgr : ChannelManager D) (m : ServerMessage) : Option Entry :=
  match (opening m : Option (Opening D)) with
  | none => none
  | some o =>
    match D.fromWire o.extranoncePrefix with
    | .error _ => none
    | .ok p =>
      match o.newChannel mgr p with
      | .error _ => none
      | .ok _ => some (entryFor o)

theorem entryOf_iff (mgr : ChannelManager D) {m : ServerMessage} {o : Opening D}
    (ho : opening m = some o) (e : Entry) :
    entryOf mgr m = some e ↔ entryFor o = e ∧ ∃ p channel,
      D.fromWire o.extranoncePrefix = .ok p ∧ o.newChannel mgr p = .ok channel := by
  unfold entryOf
  rw [ho]
  cases hp : D.fromWire o.extranoncePrefix with
  | error => simp [hp]
  | ok p =>
    cases hc : o.newChannel mgr p with
    | error => simp [hp, hc]
    | ok channel => simp [hp, hc]

theorem Reads.fits_iff (hD : GroupContract D.group) (hS : GroupSizeContract D.group)
    (h : Reads w b) (hne : NonemptyGroups w) (o : Opening D) :
    b.Fits (entryFor o) ↔ Joinable w o.channelId o.groupChannelId ∧
      (D.group.addChannelId (joinedGroup w o.groupChannelId) o.channelId o.fullExtranonceSize).1 =
        .ok () := by
  rw [joined_iff hD hS hne]
  have hopen : o.groupChannelId ∈ b.table.active ↔
      w.manager.standardChannels.containsKey o.groupChannelId = true ∨
        w.manager.extendedChannels.containsKey o.groupChannelId = true := by
    rw [h.isOpen_iff]
    constructor
    · intro hopened
      obtain ⟨kind, hkind⟩ := hopened
      cases kind with
      | standard => exact .inl hkind
      | extended => exact .inr hkind
    · intro hkey
      rcases hkey with hkind | hkind
      · exact ⟨.standard, hkind⟩
      · exact ⟨.extended, hkind⟩
  constructor
  · intro hfits
    have hclosed := mt hopen.mpr hfits.group
    rw [not_or] at hclosed
    refine ⟨⟨?_, ?_, hfits.ne.symm, ?_⟩, ?_⟩
    · exact Bool.eq_false_iff.mpr hclosed.1
    · exact Bool.eq_false_iff.mpr hclosed.2
    · exact Bool.eq_false_iff.mpr (mt (h.group_iff hne o.channelId).mp hfits.channel)
    · intro group hg
      have hmem := (h.group_iff hne o.groupChannelId).mp (Option.isSome_of_eq_some hg)
      rw [h.sizes _ _ hg (hne _ _ hg)]
      exact congrArg some (hfits.size hmem)
  · intro hjoin
    obtain ⟨hjoinable, hsize⟩ := hjoin
    refine ⟨?_, ?_, hjoinable.ne.symm, ?_⟩
    · intro hactive
      rcases hopen.mp hactive with hkind | hkind
      · exact Bool.eq_false_iff.mp hjoinable.notStandard hkind
      · exact Bool.eq_false_iff.mp hjoinable.notExtended hkind
    · intro hmem
      exact Bool.eq_false_iff.mp hjoinable.notGroup ((h.group_iff hne o.channelId).mpr hmem)
    · intro hmem
      obtain ⟨group, hg⟩ := Option.isSome_iff_exists.mp
        ((h.group_iff hne o.groupChannelId).mpr hmem)
      have hrecorded := h.sizes _ _ hg (hne _ _ hg)
      rw [hsize group hg] at hrecorded
      exact (Option.some.inj hrecorded).symm

theorem Reads.opens (hD : GroupContract D.group) (hS : GroupSizeContract D.group)
    (hne : NonemptyGroups w) {o : Opening D} {channel : (D.client o.kind).Channel}
    {group : D.group.GroupChannel} (hacc : Accepts o w channel group) (h : Reads w b) :
    ∃ hfits, Reads (opened o w channel group) (b.opens (entryFor o) hfits) := by
  have hok : (D.group.addChannelId (joinedGroup w o.groupChannelId) o.channelId
      o.fullExtranonceSize).1 = .ok () := by rw [hacc.joined]
  obtain ⟨_, _, _, hshows⟩ := shows_opened hD hacc h.shows
  refine ⟨(h.fits_iff hD hS hne o).mpr ⟨hacc.joinable, hok⟩, ?_, hshows.members, ?_⟩
  · intro kind id
    by_cases hid : kind = o.kind ∧ id = o.channelId
    · obtain ⟨rfl, rfl⟩ := hid
      unfold opened
      rw [minerAt_insertMiner_self]
      exact iff_of_true (.inr ⟨rfl, rfl⟩) rfl
    · unfold opened
      rw [minerAt_insertMiner_stored _ _ hid, minerAt_setGroups, ← h.channels]
      exact or_iff_left hid
  · intro g group' hg hids
    unfold opened at hg
    rw [groups_insertMiner] at hg
    by_cases hgroup : g = o.groupChannelId
    · subst hgroup
      have hadded := hS.added _ _ _ hok
      rw [hacc.joined] at hadded
      simp only [World.setGroups, PartialMap.insert_self, Option.some.injEq] at hg
      subst hg
      rw [hadded]
      exact congrArg some (if_pos rfl).symm
    · have hold := (PartialMap.insert_of_ne w.manager.groupChannels group hgroup).symm.trans hg
      rw [h.sizes g group' hold hids]
      exact congrArg some (if_neg hgroup).symm

theorem Reads.left (h : Reads w b) {id : UInt32} {kind : Kind}
    {miner : ChannelMiner (D.client kind)} (hres : Resolves w kind id)
    (hstored : w.minerAt kind (.stored id) = some miner) (kind' : Kind) (a : UInt32) :
    a ∈ b.left {id} kind' ↔
      ((w.removeMiner kind id miner).minerAt kind' (.stored a)).isSome = true := by
  have hkey : (w.minerAt kind (.stored id)).isSome = true := Option.isSome_of_eq_some hstored
  by_cases ha : kind' = kind ∧ a = id
  · obtain ⟨rfl, rfl⟩ := ha
    rw [minerAt_removeMiner_self]
    apply iff_of_false _ (by simp)
    cases kind' with
    | standard => exact fun hleft => hleft.2 rfl
    | extended =>
      intro hleft
      have hstd := (h.channels .standard a).mp (hleft.2 rfl)
      rcases resolves_iff.mp hres with hkind | hkind
      · contradiction
      · rw [hkind] at hstd
        contradiction
  · rw [minerAt_removeMiner_stored w miner ha, ← h.channels]
    cases kind' with
    | standard =>
      apply and_iff_left_of_imp
      rintro hstd rfl
      have hstd' := (h.channels .standard a).mp hstd
      exact ha ⟨resolves_unique hres (.inl rfl) hkey hstd', rfl⟩
    | extended =>
      apply and_iff_left_of_imp
      rintro hext rfl
      cases kind with
      | standard => exact (h.channels .standard a).mpr hkey
      | extended => exact absurd ⟨rfl, rfl⟩ ha

theorem Reads.closes_one (hD : GroupContract D.group) (hS : GroupSizeContract D.group)
    (id : UInt32) (h : Reads w b) : Reads (closeOne w id) (b.closes {id}) := by
  rcases closeOne_cases w id with ⟨kind, miner, hres, hstored, heq⟩ | ⟨hnone, heq⟩
  · rw [heq]
    refine ⟨?_, ?_, ?_⟩
    · intro kind' a
      rw [minerAt_leaveGroups]
      exact h.left hres hstored kind' a
    · intro g a
      rw [isMember_leaveGroups hD]
      have hbefore : IsMember (w.removeMiner kind id miner) g a ↔ IsMember w g a := by
        unfold IsMember
        rw [groups_removeMiner]
      rw [hbefore, ← h.members]
      rfl
    · intro g group hg hids
      obtain ⟨old, hold, rfl⟩ := (groups_leaveGroups_iff _ _ _ _).mp hg
      rw [groups_removeMiner] at hold
      obtain ⟨a, ha⟩ := List.exists_mem_of_ne_nil _ hids
      have hbefore := List.ne_nil_of_mem ((hD.removed old id a).mp ha).2
      rw [hS.removed old id hids]
      exact h.sizes g old hold hbefore
  · have hclosed : ∀ kind, id ∉ b.opened kind := by
      intro kind hid
      have hsome := (h.channels kind id).mp hid
      rw [hnone] at hsome
      contradiction
    rw [heq, b.closes_closed hclosed]
    exact h.congr (onlyLogs_sameRegistry _ _ ⟨_, rfl⟩)

theorem Reads.closes_each (hD : GroupContract D.group) (hS : GroupSizeContract D.group)
    {ids : List UInt32} (hnodup : ids.Nodup) (h : Reads w b) :
    Reads (ids.foldl closeOne w) (b.closes {a | a ∈ ids}) := by
  induction ids generalizing w b with
  | nil =>
    simp only [List.not_mem_nil, Set.ofPred_false, Book.closes_empty]
    exact h
  | cons id rest ih =>
    obtain ⟨hid, hrest⟩ := List.nodup_cons.mp hnodup
    have hset : {a | a ∈ id :: rest} = insert id {a | a ∈ rest} := by
      ext a
      exact List.mem_cons
    rw [hset, ← Book.closes_closes b hid]
    exact ih hrest (h.closes_one hD hS id)

theorem Reads.addressed (h : Reads w b) (hne : NonemptyGroups w) (id : UInt32) :
    {a | a ∈ w.manager.addressedChannels id} = b.addressed id := by
  ext a
  unfold ChannelManager.addressedChannels Book.addressed
  simp only [Set.mem_ofPred_eq, h.members, ← h.group_iff hne]
  cases hg : w.manager.groupChannels id with
  | none => simp [IsMember, hg]
  | some group => simp [IsMember, hg]

theorem Reads.closes (hD : GroupContract D.group) (hS : GroupSizeContract D.group)
    (h : Reads w b) (hne : NonemptyGroups w) (id : UInt32) :
    Reads (closeChannel id w) (b.closes (b.addressed id)) := by
  have heach := h.closes_each hD hS (addressedChannels_nodup hD w.manager id)
  rw [h.addressed hne] at heach
  refine ⟨?_, ?_, ?_⟩
  · intro kind a
    unfold closeChannel
    rw [minerAt_retainNonempty]
    exact heach.channels kind a
  · intro g a
    unfold closeChannel
    rw [isMember_retainNonempty hD]
    exact heach.members g a
  · intro g group hg
    exact heach.sizes g group ((groups_retainNonempty_iff hD _ g group).mp hg).1

theorem listed_recorded (hS : GroupSizeContract D.group) {w₀ : World D}
    {group redefined : D.group.GroupChannel} {ids : List UInt32}
    (h : Listed w₀ group ids redefined) (hids : ids ≠ []) :
    ∃ size, D.group.recordedSize redefined = some size := by
  induction h with
  | nil => contradiction
  | @cons group joined redefined id rest kind w₁ r _ _ _ hadd hrest ih =>
    by_cases hempty : rest = []
    · subst hempty
      cases hrest
      have hadded := hS.added group id _ (by rw [hadd])
      rw [hadd] at hadded
      exact ⟨_, hadded⟩
    · exact ih hempty

theorem Reads.regroups (hD : GroupContract D.group) (hS : GroupSizeContract D.group)
    {w₀ : World D} {m : SetGroupChannel} {redefined : D.group.GroupChannel}
    (hlisted : Listed w₀ (D.group.new m.groupChannelId) m.channelIds redefined)
    (hfree : ¬ ChannelOpen w m.groupChannelId) (hopen : ∀ id ∈ m.channelIds, ChannelOpen w id)
    (h : Reads w b) : ∃ size hgroup hactive,
    Reads (regroup w m.groupChannelId m.channelIds redefined)
      (b.regroups m.groupChannelId {a | a ∈ m.channelIds} size hgroup hactive) := by
  obtain ⟨hgroup, hactive, hshows⟩ := shows_regroup hD hlisted h.shows hfree hopen
  refine ⟨(D.group.recordedSize redefined).getD 0, hgroup, hactive, ?_, hshows.members, ?_⟩
  · intro kind id
    rw [minerAt_regroup]
    exact h.channels kind id
  · intro g group hg _
    obtain ⟨hne, ⟨rfl, hids, rfl⟩ | ⟨hother, old, hold, rfl⟩⟩ :=
      (groups_regroup_iff hD _ _ _ _ _ _).mp hg
    · obtain ⟨size, hsize⟩ := listed_recorded hS hlisted hids
      rw [hsize]
      exact congrArg some (if_pos rfl).symm
    · obtain ⟨a, ha⟩ := List.exists_mem_of_ne_nil _ hne
      have hbefore := List.ne_nil_of_mem ((removed_foldl hD _ m.channelIds a).mp ha).2
      rw [removed_foldl_size hD hS m.channelIds old hne, h.sizes g old hold hbefore]
      exact congrArg some (if_neg hother).symm

end Reading

section Runs

variable {D : Deps} {w w' : World D} {b : Book}

/-- The messages a run handles, with the results of their handlers. -/
def handledIn (ls : List WorldLabel) : List Handled :=
  ls.filterMap fun l => match l with
    | .event _ => none
    | .message m res => some (m, res)

theorem handledIn_event (ls : List WorldLabel) (e : WorldEvent) :
    handledIn (ls ++ [.event e]) = handledIn ls := by
  simp [handledIn]

theorem handledIn_message (ls : List WorldLabel) (m : ServerMessage)
    (res : Except Sv2CpuMinerError Unit) :
    handledIn (ls ++ [.message m res]) = handledIn ls ++ [(m, res)] := by
  simp [handledIn]

theorem opening_openedBy {m : ServerMessage} {o : Opening D} (ho : opening m = some o) :
    openedBy m = some (o.kind, o.channelId, o.groupChannelId) := by
  cases m with
  | openStandardMiningChannelSuccess m =>
    cases ho
    rfl
  | openExtendedMiningChannelSuccess m =>
    cases ho
    rfl
  | _ => contradiction

/-- An opening that does not go through is refused by the book, or its channel
cannot be made. -/
theorem Reads.not_opened (hD : GroupContract D.group) (hS : GroupSizeContract D.group)
    (h : Reads w b) (hne : NonemptyGroups w) {mgr : ChannelManager D}
    (hsettings : settings w.manager = settings mgr) {m : ServerMessage} {o : Opening D}
    (ho : opening m = some o) (hnot : ¬ ∃ channel group, Accepts o w channel group) :
    Writes (entryOf mgr) b (m, .ok ()) b := by
  cases he : entryOf mgr m with
  | none =>
    refine .unmade ?_ he
    rw [opening_openedBy ho]
    rfl
  | some e =>
    obtain ⟨rfl, p, channel, hp, hmade⟩ := (entryOf_iff mgr ho e).mp he
    refine .refused he ?_
    intro hfits
    obtain ⟨hjoinable, hok⟩ := (h.fits_iff hD hS hne o).mp hfits
    rw [← newChannel_congr ho hsettings] at hmade
    exact hnot ⟨channel, _, ⟨p, hp, hmade⟩, hjoinable, Prod.ext hok rfl⟩

/-- A message is written into the book, or changes nothing. -/
theorem handle_writes (hD : GroupContract D.group) (hS : GroupSizeContract D.group)
    {mgr : ChannelManager D} {m : ServerMessage} {res : Except Sv2CpuMinerError Unit}
    (hne : NonemptyGroups w) (hsettings : settings w.manager = settings mgr)
    (h : Runs WorldInterferes (handle m) w res w') (hw : Reads w b) :
    ∃ b', Writes (entryOf mgr) b (m, res) b' ∧ Reads w' b' := by
  by_cases hclose : ∃ c, m = .closeChannel c
  · obtain ⟨c, rfl⟩ := hclose
    obtain ⟨rfl, w₁, h₁, h'⟩ := runs_perform_iff.mp h
    have hsame := worldOthers_sameRegistry h₁
    have hclosed := (hw.congr hsame).closes hD hS (nonemptyGroups_congr hsame hne) c.channelId
    exact ⟨_, .closes c, hclosed.congr (worldOthers_sameRegistry h')⟩
  · have hother : ∀ c, m ≠ .closeChannel c := not_exists.mp hclose
    cases handle_cases hD hne h with
    | quiet hsame _ hopen =>
      refine ⟨b, ?_, hw.congr hsame⟩
      cases ho : (opening m : Option (Opening D)) with
      | some o =>
        obtain ⟨rfl, hnot⟩ := hopen o ho
        exact hw.not_opened hD hS hne hsettings ho hnot
      | none =>
        cases m with
        | setGroupChannel m => exact .notRegrouped m res
        | closeChannel c => exact absurd rfl (hother c)
        | openStandardMiningChannelSuccess m => contradiction
        | openExtendedMiningChannelSuccess m => contradiction
        | _ => exact .nothing trivial
    | opened ho h₁ hacc h' =>
      have hsame := worldOthers_sameRegistry h₁
      obtain ⟨p, hp, hmade⟩ := hacc.made
      rw [newChannel_congr ho (hsame.settings.trans hsettings)] at hmade
      obtain ⟨hfits, hopened⟩ :=
        (hw.congr hsame).opens hD hS (nonemptyGroups_congr hsame hne) hacc
      exact ⟨_, .opens ((entryOf_iff mgr ho _).mpr ⟨rfl, p, _, hp, hmade⟩) hfits,
        hopened.congr (worldOthers_sameRegistry h')⟩
    | closed => exact absurd rfl (hother _)
    | regrouped hfree hlisted h₁ h' =>
      have hsame := worldOthers_sameRegistry h₁
      obtain ⟨size, hgroup, hactive, hregrouped⟩ := (hw.congr hsame).regroups hD hS hlisted
        (fun hopen => hfree ((isOpen_congr hsame).mp hopen))
        (fun id hid => (isOpen_congr hsame).mpr (hlisted.isOpen id hid))
      exact ⟨_, .regroups size hgroup hactive,
        hregrouped.congr (worldOthers_sameRegistry h')⟩

theorem initial_reads (u : String) (f : F32) (single : Bool) (cpu : ℕ) (std : Bool)
    (amb : Ambient) :
    Reads (World.initial (ChannelManager.new (D := D) u f single cpu std) amb) .blank := by
  refine ⟨?_, (initial_shows u f single cpu std amb).members, ?_⟩
  · intro kind id
    apply iff_of_false (Set.notMem_empty id)
    cases kind <;> exact Bool.false_ne_true
  · intro g group hg
    contradiction

/-- The book of a run. -/
theorem run_reads (hD : GroupContract D.group) (hS : GroupSizeContract D.group) {u : String}
    {f : F32} {single : Bool} {cpu : ℕ} {std : Bool} {amb : Ambient} {ls : List WorldLabel}
    {w₀ : World D}
    (hw₀ : w₀ = World.initial (ChannelManager.new u f single cpu std) amb)
    (hrun : Run WorldStep w₀ ls w) :
    ∃ b, Run (Writes (entryOf w₀.manager)) .blank (handledIn ls) b ∧ Reads w b := by
  have hinv : WellGrouped w ∧ settings w.manager = settings w₀.manager ∧
      ∃ b, Run (Writes (entryOf w₀.manager)) .blank (handledIn ls) b ∧ Reads w b := by
    refine Run.history (I := fun ls w => WellGrouped w ∧
      settings w.manager = settings w₀.manager ∧
        ∃ b, Run (Writes (entryOf w₀.manager)) .blank (handledIn ls) b ∧ Reads w b) ?_ ?_ hrun
    · rw [hw₀]
      exact ⟨initial_wellGrouped u f single cpu std amb, rfl, _, .nil,
        initial_reads u f single cpu std amb⟩
    · intro ls w₁ l w₂ hbefore ih hstep
      obtain ⟨hgroups, hsettings, b, hbook, hreads⟩ := ih
      refine ⟨step_wellGrouped hD hgroups hstep,
        (step_settings hD hgroups.nonempty hstep).trans hsettings, ?_⟩
      cases hstep with
      | event he =>
        rw [handledIn_event]
        exact ⟨b, hbook, hreads.congr (interferes_sameRegistry _ _ ⟨_, he⟩)⟩
      | message hmsg =>
        rw [handledIn_message]
        obtain ⟨b', hwrites, hreads'⟩ :=
          handle_writes hD hS hgroups.nonempty hsettings hmsg hreads
        exact ⟨b', hbook.snoc hwrites, hreads'⟩
  exact hinv.2.2

/-- The maps of a reachable manager are what its messages have written, one
after the other, from an empty book: which ids are open as which kind of
channel, which of them are the members of which group with which full
extranonce size, and that a group is kept exactly while it has members. -/
theorem registry_is_written (D : Deps) (hD : GroupContract D.group)
    (hS : GroupSizeContract D.group) (userIdentity : String) (nominalHashrate : F32)
    (singleSubmit : Bool) (cpuUsagePercent : ℕ) (requiresStandardJobs : Bool) (amb : Ambient)
    (ls : List WorldLabel) (w₀ w : World D)
    (hw₀ : w₀ = World.initial (ChannelManager.new userIdentity nominalHashrate singleSubmit
      cpuUsagePercent requiresStandardJobs) amb)
    (hrun : Run WorldStep w₀ ls w) :
    ∃ b, Run (Writes (entryOf w₀.manager)) .blank (handledIn ls) b ∧ Reads w b ∧
      ∀ g, (w.manager.groupChannels g).isSome = true ↔ (b.table.members g).Nonempty := by
  obtain ⟨b, hbook, hreads⟩ := run_reads hD hS hw₀ hrun
  have hne : NonemptyGroups w := by
    rw [hw₀] at hrun
    exact (run_wellGrouped hD hrun).nonempty
  exact ⟨b, hbook, hreads, hreads.group_iff hne⟩

/-- An id that stands for a standard and an extended channel, an opening that
is refused, a channel that is moved to another group, and a close message. -/
def sampleEntries : List ServerMessage :=
  [openStandardMessage 1 10 [1, 2], openExtendedMessage 1 10 0 [1, 3],
    openStandardMessage 2 10 [1, 2], openStandardMessage 10 11 [1], setGroupMessage 11 [2],
    closeMessage 10]

theorem sample_registry_written :
    ∃ w, play World.execute sampleWorld (handled sampleEntries) = some w ∧
      ∃ b, Run (Writes (entryOf sampleWorld.manager)) .blank
          (handledIn (handled sampleEntries)) b ∧ Reads w b ∧
        ∀ g, (w.manager.groupChannels g).isSome = true ↔ (b.table.members g).Nonempty := by
  obtain ⟨w, hw⟩ : ∃ w, play World.execute sampleWorld (handled sampleEntries) = some w :=
    Option.isSome_iff_exists.mp (by decide +kernel)
  exact ⟨w, hw, registry_is_written sampleDeps sample_groupContract sample_groupSizes _ _ _ _ _ _ _
    sampleWorld w rfl (worldRun_of_play hw)⟩

end Runs

section Origins

variable {b b' : Book} {h : Handled} {entry : ServerMessage → Option Entry}

/-- An entry is of the channel that the message opens. -/
def EntriesOpened (entry : ServerMessage → Option Entry) : Prop :=
  ∀ m e, entry m = some e → openedBy m = some (e.kind, e.channelId, e.groupChannelId)

theorem entryOf_opened {D : Deps} (mgr : ChannelManager D) : EntriesOpened (entryOf mgr) := by
  intro m e he
  cases ho : (opening m : Option (Opening D)) with
  | none =>
    unfold entryOf at he
    rw [ho] at he
    contradiction
  | some o =>
    obtain ⟨rfl, _⟩ := (entryOf_iff mgr ho e).mp he
    exact opening_openedBy ho

theorem Writes.close (hentry : EntriesOpened entry) {c : CloseChannel}
    {res : Except Sv2CpuMinerError Unit} (hwrites : Writes entry b (.closeChannel c, res) b') :
    b' = b.closes (b.addressed c.channelId) := by
  cases hwrites with
  | closes => rfl
  | opens he | refused he =>
    have hopened := hentry _ _ he
    contradiction
  | unmade hm => contradiction
  | nothing hm => exact hm.elim

/-- The message puts the channel into the group. -/
def Enrolls (g id : UInt32) (m : ServerMessage) : Prop :=
  (∃ kind, openedBy m = some (kind, id, g)) ∨
    ∃ s : SetGroupChannel, m = .setGroupChannel s ∧ s.groupChannelId = g ∧ id ∈ s.channelIds

/-- It closes neither of the two ids. -/
def Spares (g id : UInt32) (m : ServerMessage) : Prop :=
  ∀ c, m = .closeChannel c → c.channelId ≠ g ∧ c.channelId ≠ id

theorem addressed_of_opened {kind : Kind} {id : UInt32} (hid : id ∈ b.opened kind) :
    b.addressed id = {id} := by
  have hempty : ¬ (b.table.members id).Nonempty := by
    intro hmem
    exact b.table.names_apart id hmem ((b.active_iff id).mpr ⟨kind, hid⟩)
  ext a
  constructor
  · intro ha
    rcases ha with ha | ⟨_, ha⟩
    · exact absurd ⟨a, ha⟩ hempty
    · exact ha
  · intro ha
    exact .inr ⟨hempty, ha⟩

/-- A standard channel has been opened by this message, or was open and is
not what it closes. -/
theorem Writes.standard (hentry : EntriesOpened entry) (hwrites : Writes entry b h b')
    {id : UInt32} (hid : id ∈ b'.opened .standard) :
    (h.2 = .ok () ∧ ∃ g, openedBy h.1 = some (.standard, id, g)) ∨
      id ∈ b.opened .standard ∧ ∀ c, h.1 = .closeChannel c → c.channelId ≠ id := by
  by_cases hclose : ∃ c, h.1 = .closeChannel c
  · obtain ⟨m, res⟩ := h
    obtain ⟨c, rfl⟩ := hclose
    obtain rfl := hwrites.close hentry
    refine .inr ⟨hid.1, ?_⟩
    intro c' hc heq
    cases hc
    subst heq
    rw [addressed_of_opened hid.1] at hid
    exact hid.2 rfl
  · cases hwrites with
    | opens he =>
      rcases hid with hid | ⟨hkind, hid⟩
      · exact .inr ⟨hid, fun c hc => absurd ⟨c, hc⟩ hclose⟩
      · rw [hkind, hid]
        exact .inl ⟨rfl, _, hentry _ _ he⟩
    | closes m => exact absurd ⟨m, rfl⟩ hclose
    | _ => exact .inr ⟨hid, fun c hc => absurd ⟨c, hc⟩ hclose⟩

/-- A member has been put into its group by this message, or was in it and
neither of them is what it closes. -/
theorem Writes.member (hentry : EntriesOpened entry) (hwrites : Writes entry b h b')
    {g id : UInt32} (hid : id ∈ b'.table.members g) :
    (h.2 = .ok () ∧ Enrolls g id h.1) ∨ id ∈ b.table.members g ∧ Spares g id h.1 := by
  by_cases hclose : ∃ c, h.1 = .closeChannel c
  · obtain ⟨m, res⟩ := h
    obtain ⟨c, rfl⟩ := hclose
    obtain rfl := hwrites.close hentry
    refine .inr ⟨hid.1, ?_⟩
    intro c' hc
    cases hc
    constructor
    · intro heq
      subst heq
      exact hid.2 (.inl hid.1)
    · intro heq
      subst heq
      obtain ⟨kind, hopen⟩ := (b.active_iff c.channelId).mp (b.table.members_subset g hid.1)
      apply hid.2
      rw [addressed_of_opened hopen]
      rfl
  · cases hwrites with
    | opens he =>
      rcases hid with hid | ⟨hgroup, hid⟩
      · exact .inr ⟨hid, fun c hc => absurd ⟨c, hc⟩ hclose⟩
      · rw [hgroup, hid]
        exact .inl ⟨rfl, .inl ⟨_, hentry _ _ he⟩⟩
    | closes m => exact absurd ⟨m, rfl⟩ hclose
    | regroups =>
      rcases hid with ⟨rfl, hid⟩ | ⟨_, hid, _⟩
      · exact .inl ⟨rfl, .inr ⟨_, rfl, rfl, hid⟩⟩
      · exact .inr ⟨hid, fun c hc => absurd ⟨c, hc⟩ hclose⟩
    | _ => exact .inr ⟨hid, fun c hc => absurd ⟨c, hc⟩ hclose⟩

/-- Nothing is in the registry out of thin air: a standard channel has been
opened by a message of the run, a member has been put into its group by one,
and since then no message has closed the channel or the group. -/
theorem registry_has_origins (D : Deps) (hD : GroupContract D.group)
    (hS : GroupSizeContract D.group) (userIdentity : String) (nominalHashrate : F32)
    (singleSubmit : Bool) (cpuUsagePercent : ℕ) (requiresStandardJobs : Bool) (amb : Ambient)
    (ls : List WorldLabel) (w : World D)
    (hrun : Run WorldStep (World.initial (ChannelManager.new userIdentity nominalHashrate
      singleSubmit cpuUsagePercent requiresStandardJobs) amb) ls w) :
    (∀ id, w.manager.standardChannels.containsKey id = true →
      Since (fun h => h.2 = .ok () ∧ ∃ g, openedBy h.1 = some (.standard, id, g))
        (fun h => ∀ c, h.1 = .closeChannel c → c.channelId ≠ id) (handledIn ls)) ∧
    ∀ g id, IsMember w g id →
      Since (fun h => h.2 = .ok () ∧ Enrolls g id h.1) (fun h => Spares g id h.1)
        (handledIn ls) := by
  obtain ⟨b, hbook, hreads⟩ := run_reads hD hS rfl hrun
  have hentry := entryOf_opened (World.initial (ChannelManager.new (D := D) userIdentity
    nominalHashrate singleSubmit cpuUsagePercent requiresStandardJobs) amb).manager
  constructor
  · intro id hid
    refine since_of_run (I := fun b => id ∈ b.opened .standard) ?_ hbook (Set.notMem_empty id)
      ((hreads.channels .standard id).mpr hid)
    exact fun _ _ _ hwrites => hwrites.standard hentry
  · intro g id hid
    refine since_of_run (I := fun b => id ∈ b.table.members g) ?_ hbook (Set.notMem_empty id)
      ((hreads.members g id).mpr hid)
    exact fun _ _ _ hwrites => hwrites.member hentry

theorem sample_registry_origins :
    ∃ w, play World.execute sampleWorld (handled sampleEntries) = some w ∧
      w.manager.standardChannels.containsKey 2 = true ∧
      Since (fun h => h.2 = .ok () ∧ ∃ g, openedBy h.1 = some (.standard, 2, g))
        (fun h => ∀ c, h.1 = .closeChannel c → c.channelId ≠ 2)
        (handledIn (handled sampleEntries)) := by
  have hplay : (play World.execute sampleWorld (handled sampleEntries)).map (fun w =>
      w.manager.standardChannels.containsKey 2) = some true := by decide +kernel
  obtain ⟨w, hw, hkey⟩ := Option.map_eq_some_iff.mp hplay
  exact ⟨w, hw, hkey, (registry_has_origins sampleDeps sample_groupContract sample_groupSizes
    _ _ _ _ _ _ _ w (worldRun_of_play hw)).1 2 hkey⟩

end Origins

end CpuMinerSv2.RegistryBooks
