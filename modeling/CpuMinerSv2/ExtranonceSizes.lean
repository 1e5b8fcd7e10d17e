import CpuMinerSv2.GroupRefinement
import CpuMinerSv2.SampleWorlds

/-!
Every member of a group shares one full extranonce size. It is compared when
a channel opens and when a group is redefined, but not when a prefix is set,
nor when an open channel is opened again. Runs that keep the size there keep
it everywhere.
-/

namespace CpuMinerSv2.ExtranonceSizes

open Messages Channels Primitives Interference MineJob MinerMethods TaskSteps MinerRuns Manager
  ManagerFrames Deliveries Registry HandlerRuns GroupRefinement SampleDeps SampleMiners
  SampleWorlds Relation

/-- What a channel does to its full extranonce size. -/
structure ChannelSizeContract (K : ClientChannel) : Prop where
  calls : ∀ (c : Call K) channel, (∀ p, c ≠ .setExtranoncePrefix p) →
    K.fullExtranonceSize (c.outcome channel).2 = K.fullExtranonceSize channel
  stored : ∀ channel p, (K.setExtranoncePrefix channel p).1 = .ok () →
    K.fullExtranonceSize (K.setExtranoncePrefix channel p).2 =
      p.len + K.getRollableExtranonceSize channel
  refused : ∀ channel p e, (K.setExtranoncePrefix channel p).1 = .error e →
    (K.setExtranoncePrefix channel p).2 = channel
  validated : ∀ channel share,
    K.fullExtranonceSize (K.validateShare channel share).2 = K.fullExtranonceSize channel

/-- What the dependencies do to sizes: a new channel has the prefix and the
rollable bytes it is made with, and a group refuses another size than the one
it has recorded. -/
structure SizeContract (D : Deps) : Prop where
  channel : ∀ kind, ChannelSizeContract (D.client kind)
  fromWire : ∀ bytes p, D.fromWire bytes = .ok p → p.len = bytes.length
  newStandard : ∀ id user p target rate channel,
    D.standard.new id user p target rate = .ok channel →
    (D.standard.getExtranoncePrefix channel).len = p.len
  newExtended : ∀ id user p target rate rolling size channel,
    D.extended.new id user p target rate rolling size = .ok channel →
      D.extended.getFullExtranonceSize channel = p.len + size.toNat
  added : ∀ group id size, (D.group.addChannelId group id size).1 = .ok () →
    D.group.recordedSize (D.group.addChannelId group id size).2 = some size ∧
      (D.group.getChannelIds group ≠ [] → D.group.recordedSize group = some size)
  removed : ∀ group id, D.group.getChannelIds (D.group.removeChannelId group id) ≠ [] →
    D.group.recordedSize (D.group.removeChannelId group id) = D.group.recordedSize group

section Rigs

variable {K : ClientChannel}

theorem others_keepSize (hvalid : ∀ channel share, K.fullExtranonceSize
      (K.validateShare channel share).2 = K.fullExtranonceSize channel) {r r' : Rig K}
    (h : Others Unrestricted r r') :
    K.fullExtranonceSize r'.miner.channel.value = K.fullExtranonceSize r.miner.channel.value := by
  refine others_preserve (I := fun s => K.fullExtranonceSize s.miner.channel.value =
    K.fullExtranonceSize r.miner.channel.value) ?_ h rfl
  refine interferes_preserve (I := fun m => K.fullExtranonceSize m.channel.value =
    K.fullExtranonceSize r.miner.channel.value) ?_
  intro m amb i m' hs hm
  cases hs with
  | rejected => exact (hvalid _ _).trans hm
  | accepted => exact (hvalid _ _).trans hm
  | _ => exact hm

theorem others_size (hK : ChannelSizeContract K) {r r' : Rig K} (h : Others Unrestricted r r') :
    K.fullExtranonceSize r'.miner.channel.value = K.fullExtranonceSize r.miner.channel.value :=
  others_keepSize hK.validated h

theorem call_size (hK : ChannelSizeContract K) {c : Call K} (hc : ∀ p, c ≠ .setExtranoncePrefix p)
    {r r' : Rig K} {res : Except Sv2CpuMinerError Unit}
    (h : Runs (Interferes Unrestricted) c.program r res r') :
    K.fullExtranonceSize r'.miner.channel.value = K.fullExtranonceSize r.miner.channel.value := by
  refine call_preserve (I := fun s => K.fullExtranonceSize s.miner.channel.value =
    K.fullExtranonceSize r.miner.channel.value) ?_ ?_ ?_ ?_ h rfl
  · intro a b hab ha
    exact (others_size hK (.single hab)).trans ha
  · intro s hs
    exact (hK.calls c _ hc).trans hs
  · intro s hs
    rw [cancelPast, cancelPast_channel]
    exact hs
  · exact fun _ hs => hs

/-- Setting a prefix keeps the size when, if the channel takes it, it is as
long as the one it replaces. -/
theorem setExtranoncePrefix_size (hK : ChannelSizeContract K) {p : ExtranoncePrefix} {r r' : Rig K}
    (hlen : ∀ r₁, Others Unrestricted r r₁ →
      (K.setExtranoncePrefix r₁.miner.channel.value p).1 = .ok () →
      p.len + K.getRollableExtranonceSize r₁.miner.channel.value =
        K.fullExtranonceSize r₁.miner.channel.value)
    {res : Except Sv2CpuMinerError Unit}
    (h : Runs (Interferes Unrestricted) (Call.program (.setExtranoncePrefix p)) r res r') :
    K.fullExtranonceSize r'.miner.channel.value = K.fullExtranonceSize r.miner.channel.value := by
  cases call_cases h with
  | poisoned h₁ _ h' => exact others_size hK (h₁.trans h')
  | refused h₁ _ hop h' =>
    have hset := hK.refused _ _ _ hop
    refine (others_size hK h').trans (Eq.trans ?_ (others_size hK h₁))
    exact congrArg K.fullExtranonceSize hset
  | quiet h₁ _ hop _ h' =>
    have hstored := (hK.stored _ _ hop).trans (hlen _ h₁ hop)
    exact (others_size hK h').trans (hstored.trans (others_size hK h₁))
  | activated _ _ _ hc => contradiction

end Rigs

section Worlds

variable {D : Deps}

/-- The size `full_extranonce_size` reads for an open channel. -/
def SizeAt (w : World D) (id : UInt32) (size : ℕ) : Prop :=
  ∀ (kind : Kind) (miner : ChannelMiner (D.client kind)), Resolves w kind id →
    w.minerAt kind (.stored id) = some miner →
      (D.client kind).fullExtranonceSize miner.channel.value = size

/-- Every member has the size its group has recorded. -/
def SizesAgree (w : World D) : Prop :=
  ∀ g group, w.manager.groupChannels g = some group → ∀ id ∈ D.group.getChannelIds group,
    ∃ size, D.group.recordedSize group = some size ∧ SizeAt w id size

/-- An accepted re-opening agrees with the sizes already recorded for its id:
its own size when the new miner is the one looked up, else the size of the
standard miner that shadows it. -/
structure AgreesWith (o : Opening D) (w : World D) : Prop where
  groups : Resolves w o.kind o.channelId → ∀ g group, w.manager.groupChannels g = some group →
    o.channelId ∈ D.group.getChannelIds group →
      D.group.recordedSize group = some o.fullExtranonceSize
  shadowed : ¬ Resolves w o.kind o.channelId → SizeAt w o.channelId o.fullExtranonceSize

/-- A prefix set on a member, if its channel takes it, is as long as the one
it replaces; and an accepted re-opening agrees with the recorded sizes. -/
def KeepsSizes (w : World D) : WorldLabel → Prop
  | .event _ => True
  | .message m _ =>
    (∀ s p kind g r r₁, m = .setExtranoncePrefix s → D.fromWire s.extranoncePrefix = .ok p →
      IsMember w g s.channelId → Resolves w kind s.channelId →
      w.rigAt kind (.stored s.channelId) = some r → Others Unrestricted r r₁ →
      ((D.client kind).setExtranoncePrefix r₁.miner.channel.value p).1 = .ok () →
        p.len + (D.client kind).getRollableExtranonceSize r₁.miner.channel.value =
          (D.client kind).fullExtranonceSize r₁.miner.channel.value) ∧
    (∀ o, opening m = some o → ChannelOpen w o.channelId →
      (∃ channel group, Accepts o w channel group) → AgreesWith o w)

theorem SizeAt.of_same {w w' : World D} {id : UInt32} {size : ℕ} (h : SizeAt w id size)
    (hsame : ∀ kind, w'.minerAt kind (.stored id) = w.minerAt kind (.stored id)) :
    SizeAt w' id size := by
  intro kind miner hres hm
  rw [hsame] at hm
  refine h kind miner (resolves_iff.mpr ?_) hm
  rw [← hsame]
  exact resolves_iff.mp hres

/-- The miner stored here has the size of the one stored here before. -/
def KeepsSizeAt (kind : Kind) (id : UInt32) (w w' : World D) : Prop :=
  ∀ r r', w.rigAt kind (.stored id) = some r → w'.rigAt kind (.stored id) = some r' →
    (D.client kind).fullExtranonceSize r'.miner.channel.value =
      (D.client kind).fullExtranonceSize r.miner.channel.value

theorem SizeAt.kept {w w' : World D} (hsame : SameRegistry w w') {id : UInt32} {size : ℕ}
    (h : SizeAt w id size)
    (hkept : ∀ kind, Resolves w kind id → KeepsSizeAt kind id w w') : SizeAt w' id size := by
  intro kind miner' hres hm'
  obtain ⟨r, hr⟩ := hsame.rig_before hm'
  have hbefore := hsame.resolves.mp hres
  rw [← h kind r.miner hbefore (rigAt_eq_some_iff.mp hr).1]
  exact hkept kind hbefore r ⟨w'.ambient, miner'⟩ hr (rigAt_eq_some_iff.mpr ⟨hm', rfl⟩)

theorem rigMoves_keepsSizeAt (hS : SizeContract D) {kind : Kind} {id : UInt32} {w w' : World D}
    (h : RigMoves kind (.stored id) w w') : KeepsSizeAt kind id w w' := by
  intro r r' hr hr'
  obtain ⟨s, hs, hothers⟩ := h r hr
  cases hr'.symm.trans hs
  exact others_size (hS.channel kind) hothers

theorem worldOthers_sizeAt (hS : SizeContract D) {w w' : World D} (h : WorldOthers w w')
    {id : UInt32} {size : ℕ} (hw : SizeAt w id size) : SizeAt w' id size :=
  hw.kept (worldOthers_sameRegistry h)
    (fun kind _ => rigMoves_keepsSizeAt hS (worldOthers_rigMoves h kind (.stored id)))

theorem worldOthers_sizesAgree (hS : SizeContract D) {w w' : World D} (h : WorldOthers w w')
    (hw : SizesAgree w) : SizesAgree w' := by
  intro g group hg id hid
  rw [(worldOthers_sameRegistry h).groups] at hg
  obtain ⟨size, hrecorded, hsize⟩ := hw g group hg id hid
  exact ⟨size, hrecorded, worldOthers_sizeAt hS h hsize⟩

theorem targets_setExtranoncePrefix {w : World D} {m : ServerMessage} {kind : Kind} {id : UInt32}
    {c : Call (D.client kind)} (ht : Targets w m kind id c) {p : ExtranoncePrefix}
    (hc : c = .setExtranoncePrefix p) :
    ∃ s, m = .setExtranoncePrefix s ∧ id = s.channelId ∧ D.fromWire s.extranoncePrefix = .ok p := by
  cases ht with
  | setExtranoncePrefix hp =>
    cases hc
    exact ⟨_, rfl, rfl, hp⟩
  | groupJob => cases kind <;> contradiction
  | _ => contradiction

theorem quiet_sizesAgree (hS : SizeContract D) {m : ServerMessage} {w w' : World D}
    {res : Except Sv2CpuMinerError Unit} (hsame : SameRegistry w w')
    (hcalls : Delivers (Targets w m) w w') (hguard : KeepsSizes w (.message m res))
    (hw : SizesAgree w) : SizesAgree w' := by
  intro g group hg id hid
  rw [hsame.groups] at hg
  obtain ⟨size, hrecorded, hsize⟩ := hw g group hg id hid
  refine ⟨size, hrecorded, hsize.kept hsame ?_⟩
  intro kind hres r r' hr hr'
  obtain ⟨s, hs, hothers | ⟨_, c, res', hplace, ht, hrun⟩⟩ := hcalls kind (.stored id) r hr
  · cases hr'.symm.trans hs
    exact others_size (hS.channel kind) hothers
  · cases hr'.symm.trans hs
    cases hplace
    by_cases hc : ∃ p, c = .setExtranoncePrefix p
    · obtain ⟨p, rfl⟩ := hc
      obtain ⟨s, hm, rfl, hp⟩ := targets_setExtranoncePrefix ht rfl
      refine setExtranoncePrefix_size (hS.channel kind) ?_ hrun
      intro r₁ h₁ hok
      exact hguard.1 s p kind g r r₁ hm hp ⟨group, hg, hid⟩ hres hr h₁ hok
    · exact call_size (hS.channel kind) (fun p hp => hc ⟨p, hp⟩) hrun

end Worlds

section Changes

variable {D : Deps}

theorem opening_size (hS : SizeContract D) {m : ServerMessage} {o : Opening D}
    (ho : opening m = some o) {mgr : ChannelManager D} {p : ExtranoncePrefix}
    {channel : (D.client o.kind).Channel} (hp : D.fromWire o.extranoncePrefix = .ok p)
    (hc : o.newChannel mgr p = .ok channel) :
    (D.client o.kind).fullExtranonceSize channel = o.fullExtranonceSize := by
  have hlen := hS.fromWire _ _ hp
  cases m with
  | openStandardMiningChannelSuccess m =>
    cases ho
    exact (hS.newStandard _ _ _ _ _ _ hc).trans hlen
  | openExtendedMiningChannelSuccess m =>
    cases ho
    exact (hS.newExtended _ _ _ _ _ _ _ _ hc).trans (congrArg (· + m.extranonceSize.toNat) hlen)
  | _ => contradiction

theorem minerAt_opened_self {o : Opening D} {w : World D} {channel : (D.client o.kind).Channel}
    {group : D.group.GroupChannel} :
    (opened o w channel group).minerAt o.kind (.stored o.channelId) =
      some (new channel w.manager.cpuUsagePercent w.manager.singleSubmit) := by
  unfold opened
  rw [minerAt_insertMiner_self]

theorem minerAt_opened_stored {o : Opening D} {w : World D} {channel : (D.client o.kind).Channel}
    {group : D.group.GroupChannel} {kind : Kind} {id : UInt32}
    (hne : ¬ (kind = o.kind ∧ id = o.channelId)) :
    (opened o w channel group).minerAt kind (.stored id) = w.minerAt kind (.stored id) := by
  unfold opened
  rw [minerAt_insertMiner_stored _ _ hne, minerAt_setGroups]

theorem opened_sizeAt_shadowed {o : Opening D} {w : World D} {channel : (D.client o.kind).Channel}
    {group : D.group.GroupChannel} {size : ℕ} (hres : ¬ Resolves w o.kind o.channelId)
    (hw : SizeAt w o.channelId size) :
    SizeAt (opened o w channel group) o.channelId size := by
  rw [resolves_iff, not_or] at hres
  obtain ⟨hkind, hstd⟩ := hres
  have hkeep : (opened o w channel group).minerAt .standard (.stored o.channelId) =
      w.minerAt .standard (.stored o.channelId) :=
    minerAt_opened_stored (fun h => hkind h.1.symm)
  intro kind miner hres' hm
  rcases resolves_iff.mp hres' with rfl | hnone
  · rw [hkeep] at hm
    exact hw .standard miner (.inl rfl) hm
  · rw [hkeep] at hnone
    exact absurd hnone hstd

theorem opened_sizeAt_self (hS : SizeContract D) {m : ServerMessage} {o : Opening D}
    (ho : opening m = some o) {w : World D} {channel : (D.client o.kind).Channel}
    {group : D.group.GroupChannel} (hacc : Accepts o w channel group)
    (hres : Resolves w o.kind o.channelId) :
    SizeAt (opened o w channel group) o.channelId o.fullExtranonceSize := by
  obtain ⟨p, hp, hc⟩ := hacc.made
  intro kind miner hres' hm
  by_cases hkind : kind = o.kind
  · subst hkind
    rw [minerAt_opened_self] at hm
    cases hm
    exact opening_size hS ho hp hc
  · -- a miner of the other kind is not the one looked up
    exfalso
    have hself :
        ((opened o w channel group).minerAt o.kind (.stored o.channelId)).isSome = true := by
      rw [minerAt_opened_self]
      rfl
    have hstored : (opened o w channel group).minerAt kind (.stored o.channelId) =
        w.minerAt kind (.stored o.channelId) := minerAt_opened_stored (fun h => hkind h.1)
    have hother : (w.minerAt kind (.stored o.channelId)).isSome = true := by
      rw [← hstored, hm]
      rfl
    cases hk : o.kind with
    | standard =>
      rcases resolves_iff.mp hres' with h | h
      · exact hkind (h.trans hk.symm)
      · rw [hk, h] at hself
        contradiction
    | extended =>
      have hstd : kind = .standard := by
        cases kind with
        | standard => rfl
        | extended => exact absurd hk.symm hkind
      rcases resolves_iff.mp hres with h | h
      · rw [hk] at h
        contradiction
      · rw [hstd, h] at hother
        contradiction

theorem opened_sizesAgree (hD : GroupContract D.group) (hS : SizeContract D) {m : ServerMessage}
    {o : Opening D} (ho : opening m = some o) {w : World D} {channel : (D.client o.kind).Channel}
    {group : D.group.GroupChannel} (hacc : Accepts o w channel group)
    (hagrees : ChannelOpen w o.channelId → AgreesWith o w) (hgroups : WellGrouped w)
    (hw : SizesAgree w) : SizesAgree (opened o w channel group) := by
  obtain ⟨t, ht⟩ := hgroups.shows
  have hadded := hS.added (joinedGroup w o.groupChannelId) o.channelId o.fullExtranonceSize
    (by rw [hacc.joined])
  have hmem := hD.added (joinedGroup w o.groupChannelId) o.channelId o.fullExtranonceSize
    (by rw [hacc.joined])
  rw [hacc.joined] at hadded hmem
  have hother : ∀ {id size}, id ≠ o.channelId → SizeAt w id size →
      SizeAt (opened o w channel group) id size := by
    intro id size hne hsize
    exact hsize.of_same (fun kind => minerAt_opened_stored (fun h => hne h.2))
  intro g group' hg id hid
  have hgroups' : (opened o w channel group).manager.groupChannels =
      w.manager.groupChannels.insert o.groupChannelId group := by
    unfold opened
    rw [groups_insertMiner]
    rfl
  rw [hgroups'] at hg
  by_cases hk : g = o.groupChannelId
  · subst hk
    rw [PartialMap.insert_self] at hg
    cases hg
    refine ⟨o.fullExtranonceSize, hadded.1, ?_⟩
    by_cases hc : id = o.channelId
    · subst hc
      by_cases hres : Resolves w o.kind o.channelId
      · exact opened_sizeAt_self hS ho hacc hres
      · -- a standard miner is stored under the id, so it is open
        have hopen : ChannelOpen w o.channelId := by
          rw [resolves_iff, not_or] at hres
          exact ⟨.standard, Option.isSome_iff_ne_none.mpr hres.2⟩
        exact opened_sizeAt_shadowed hres ((hagrees hopen).shadowed hres)
    · have hold : id ∈ D.group.getChannelIds (joinedGroup w o.groupChannelId) := by
        rcases (hmem id).mp hid with h | h
        · exact absurd h hc
        · exact h
      have hrecorded := hadded.2 (List.ne_nil_of_mem hold)
      cases hgroup : w.manager.groupChannels o.groupChannelId with
      | none =>
        simp [joinedGroup, hgroup, hD.new] at hold
      | some old =>
        simp only [joinedGroup, hgroup, Option.getD_some] at hold hrecorded
        obtain ⟨size, hsize, hat⟩ := hw o.groupChannelId old hgroup id hold
        cases hsize.symm.trans hrecorded
        exact hother hc hat
  · rw [PartialMap.insert_of_ne _ _ hk] at hg
    obtain ⟨size, hrecorded, hsize⟩ := hw g group' hg id hid
    refine ⟨size, hrecorded, ?_⟩
    by_cases hc : id = o.channelId
    · subst hc
      have hopen : ChannelOpen w o.channelId :=
        (ht.active _).mp (t.members_subset g ((ht.members g _).mpr ⟨group', hg, hid⟩))
      by_cases hres : Resolves w o.kind o.channelId
      · have hsame := (hagrees hopen).groups hres g group' hg hid
        cases hrecorded.symm.trans hsame
        exact opened_sizeAt_self hS ho hacc hres
      · exact opened_sizeAt_shadowed hres hsize
    · exact hother hc hsize

theorem closeOne_sizesAgree (hD : GroupContract D.group) (hS : SizeContract D) {w : World D}
    (hw : SizesAgree w) (id : UInt32) : SizesAgree (closeOne w id) := by
  rcases closeOne_cases w id with ⟨kind, miner, _, _, heq⟩ | ⟨_, heq⟩
  · rw [heq]
    intro g group hg a ha
    obtain ⟨old, hold, rfl⟩ := (groups_leaveGroups_iff _ _ _ _).mp hg
    rw [groups_removeMiner] at hold
    obtain ⟨hne, hmem⟩ := (hD.removed old id a).mp ha
    obtain ⟨size, hrecorded, hsize⟩ := hw g old hold a hmem
    refine ⟨size, (hS.removed old id (List.ne_nil_of_mem ha)).trans hrecorded, ?_⟩
    apply hsize.of_same
    intro kind'
    rw [minerAt_leaveGroups, minerAt_removeMiner_stored w miner (fun h => hne h.2)]
  · rw [heq]
    intro g group hg a ha
    obtain ⟨size, hrecorded, hsize⟩ := hw g group hg a ha
    exact ⟨size, hrecorded, hsize.of_same (fun kind => minerAt_logError _ _ _ _)⟩

theorem retainNonempty_sizesAgree (hD : GroupContract D.group) {w : World D} (hw : SizesAgree w) :
    SizesAgree w.retainNonempty := by
  intro g group hg a ha
  obtain ⟨hold, _⟩ := (groups_retainNonempty_iff hD w g group).mp hg
  obtain ⟨size, hrecorded, hsize⟩ := hw g group hold a ha
  exact ⟨size, hrecorded, hsize.of_same (fun kind => minerAt_retainNonempty _ _ _)⟩

theorem Listed.sizes (hD : GroupContract D.group) (hS : SizeContract D) {w : World D}
    {group redefined : D.group.GroupChannel} {ids : List UInt32}
    (h : Listed w group ids redefined)
    (hgroup : ∀ a ∈ D.group.getChannelIds group,
      ∃ size, D.group.recordedSize group = some size ∧ SizeAt w a size) :
    ∀ a ∈ D.group.getChannelIds redefined,
      ∃ size, D.group.recordedSize redefined = some size ∧ SizeAt w a size := by
  induction h with
  | nil => exact hgroup
  | @cons group joined redefined id rest kind w₁ r hres h₁ hr hadd hrest ih =>
    apply ih
    intro a ha
    have hadded := hS.added group id ((D.client kind).fullExtranonceSize r.miner.channel.value)
      (by rw [hadd])
    have hmem := hD.added group id ((D.client kind).fullExtranonceSize r.miner.channel.value)
      (by rw [hadd]) a
    rw [hadd] at hadded hmem
    refine ⟨_, hadded.1, ?_⟩
    rcases hmem.mp ha with rfl | hold
    · intro kind' miner hres' hm
      have hkey : (w.minerAt kind (.stored a)).isSome = true := by
        rw [← (worldOthers_sameRegistry h₁).places, (rigAt_eq_some_iff.mp hr).1]
        rfl
      cases resolves_unique hres hres' hkey (Option.isSome_of_eq_some hm)
      have hbefore : w.rigAt kind (.stored a) = some ⟨w.ambient, miner⟩ :=
        rigAt_eq_some_iff.mpr ⟨hm, rfl⟩
      exact (rigMoves_keepsSizeAt hS (worldOthers_rigMoves h₁ kind (.stored a)) _ _ hbefore hr).symm
    · obtain ⟨size, hrecorded, hsize⟩ := hgroup a hold
      cases hrecorded.symm.trans (hadded.2 (List.ne_nil_of_mem hold))
      exact hsize

theorem regroup_sizesAgree (hD : GroupContract D.group) (hS : SizeContract D) {w w₀ : World D}
    {g : UInt32} {ids : List UInt32} {redefined : D.group.GroupChannel} (h₀ : WorldOthers w₀ w)
    (hlisted : Listed w₀ (D.group.new g) ids redefined) (hw : SizesAgree w) :
    SizesAgree (regroup w g ids redefined) := by
  have hremoved : ∀ (ids : List UInt32) (old : D.group.GroupChannel) (a : UInt32),
      a ∈ D.group.getChannelIds (ids.foldl D.group.removeChannelId old) →
        D.group.recordedSize (ids.foldl D.group.removeChannelId old) =
          D.group.recordedSize old := by
    intro ids
    induction ids with
    | nil => exact fun _ _ _ => rfl
    | cons id rest ih =>
      intro old a ha
      have hstep := ((removed_foldl hD (D.group.removeChannelId old id) rest a).mp ha).2
      exact (ih _ a ha).trans (hS.removed old id (List.ne_nil_of_mem hstep))
  intro k group hk a ha
  have hsame : ∀ kind, (regroup w g ids redefined).minerAt kind (.stored a) =
      w.minerAt kind (.stored a) := fun kind => minerAt_regroup _ _ _ _ _ _
  rcases (groups_regroup_iff hD w g ids redefined k group).mp hk with
    ⟨_, ⟨_, _, rfl⟩ | ⟨_, old, hold, rfl⟩⟩
  · have hnew : ∀ b ∈ D.group.getChannelIds (D.group.new g),
        ∃ size, D.group.recordedSize (D.group.new g) = some size ∧ SizeAt w₀ b size := by
      simp [hD.new]
    obtain ⟨size, hrecorded, hsize⟩ := Listed.sizes hD hS hlisted hnew a ha
    exact ⟨size, hrecorded, (worldOthers_sizeAt hS h₀ hsize).of_same hsame⟩
  · obtain ⟨size, hrecorded, hsize⟩ := hw k old hold a ((removed_foldl hD old ids a).mp ha).2
    exact ⟨size, (hremoved ids old a ha).trans hrecorded, hsize.of_same hsame⟩

theorem step_sizesAgree (hD : GroupContract D.group) (hS : SizeContract D) {w w' : World D}
    {l : WorldLabel} (hgroups : WellGrouped w) (hw : SizesAgree w) (hguard : KeepsSizes w l)
    (h : WorldStep w l w') : SizesAgree w' := by
  cases h with
  | event he => exact worldOthers_sizesAgree hS (.single ⟨_, he⟩) hw
  | message hrun =>
    cases handle_cases hD hgroups.nonempty hrun with
    | quiet hsame hcalls => exact quiet_sizesAgree hS hsame hcalls hguard hw
    | @opened _ o w₁ _ channel group ho h₁ hacc h' =>
      have hsame := worldOthers_sameRegistry h₁
      obtain ⟨t, ht⟩ := hgroups.shows
      have hgroups₁ : WellGrouped w₁ :=
        ⟨nonemptyGroups_congr hsame hgroups.nonempty, t, ht.congr hsame⟩
      refine worldOthers_sizesAgree hS h' (opened_sizesAgree hD hS ho hacc ?_ hgroups₁
        (worldOthers_sizesAgree hS h₁ hw))
      intro hopen
      obtain ⟨hrecorded, hshadowed⟩ := hguard.2 o ho ((isOpen_congr hsame).mp hopen)
        ⟨channel, group, accepts_congr hsame ho hacc⟩
      refine ⟨?_, ?_⟩
      · intro hres g old hg hmem
        rw [hsame.groups] at hg
        exact hrecorded (hsame.resolves.mp hres) g old hg hmem
      · intro hres
        exact worldOthers_sizeAt hS h₁ (hshadowed (fun hc => hres (hsame.resolves.mpr hc)))
    | @closed m _ _ h₁ h' =>
      have hclosed := closeChannel_preserve (I := SizesAgree)
        (fun _ id h => closeOne_sizesAgree hD hS h id) (fun _ h => retainNonempty_sizesAgree hD h)
        m.channelId (worldOthers_sizesAgree hS h₁ hw)
      exact worldOthers_sizesAgree hS h' hclosed
    | regrouped _ hlisted h₁ h' =>
      exact worldOthers_sizesAgree hS h'
        (regroup_sizesAgree hD hS h₁ hlisted (worldOthers_sizesAgree hS h₁ hw))

end Changes

/-- In every run whose steps meet the condition, all members of a group have
the size that the group has recorded. -/
theorem members_share_recorded_size (D : Deps) (hD : GroupContract D.group) (hS : SizeContract D)
    (userIdentity : String) (nominalHashrate : F32) (singleSubmit : Bool) (cpuUsagePercent : ℕ)
    (requiresStandardJobs : Bool) (amb : Ambient) (ls : List WorldLabel) (w : World D)
    (hrun : Run (Guarded KeepsSizes WorldStep) (World.initial (ChannelManager.new userIdentity
      nominalHashrate singleSubmit cpuUsagePercent requiresStandardJobs) amb) ls w)
    (g : UInt32) (group : D.group.GroupChannel) (hg : w.manager.groupChannels g = some group) :
    ∃ size, D.group.recordedSize group = some size ∧
      ∀ id ∈ D.group.getChannelIds group, SizeAt w id size := by
  have hinv : WellGrouped w ∧ SizesAgree w := by
    refine hrun.invariant (I := fun w => WellGrouped w ∧ SizesAgree w) ?_
      ⟨initial_wellGrouped _ _ _ _ _ _, fun _ _ hg => nomatch hg⟩
    intro s l s' hs hstep
    exact ⟨step_wellGrouped hD hs.1 hstep.2, step_sizesAgree hD hS hs.1 hs.2 hstep.1 hstep.2⟩
  obtain ⟨a, ha⟩ := List.exists_mem_of_ne_nil _ (hinv.1.nonempty g group hg)
  obtain ⟨size, hrecorded, _⟩ := hinv.2 g group hg a ha
  refine ⟨size, hrecorded, ?_⟩
  intro id hid
  obtain ⟨size', hrecorded', hsize⟩ := hinv.2 g group hg id hid
  cases hrecorded.symm.trans hrecorded'
  exact hsize

theorem sample_channelSizes (kind : Kind) : ChannelSizeContract (sampleDeps.client kind) := by
  have hset : ∀ channel p,
      ((sampleDeps.client kind).setExtranoncePrefix channel p).1 = .ok () ∧
        (sampleDeps.client kind).fullExtranonceSize
          ((sampleDeps.client kind).setExtranoncePrefix channel p).2 =
            p.len + (sampleDeps.client kind).getRollableExtranonceSize channel ∨
      ∃ e, (sampleDeps.client kind).setExtranoncePrefix channel p = (.error e, channel) := by
    intro channel p
    cases kind with
    | standard =>
      rcases replacePrefix_cases channel p with h | h
      · left
        rw [show (sampleDeps.client .standard).setExtranoncePrefix channel p = _ from h]
        exact ⟨rfl, rfl⟩
      · exact .inr h
    | extended =>
      rcases replacePrefix_cases channel p with h | h
      · left
        rw [show (sampleDeps.client .extended).setExtranoncePrefix channel p = _ from h]
        exact ⟨rfl, rfl⟩
      · exact .inr h
  refine ⟨?_, ?_, ?_, ?_⟩
  · intro c channel hc
    rcases sample_outcome kind c channel with ⟨_, h⟩ | ⟨_, h, hkeeps⟩
    · rw [h]
    · rw [h]
      exact hkeeps.size hc
  · intro channel p hok
    rcases hset channel p with ⟨_, hsize⟩ | ⟨e, h⟩
    · exact hsize
    · rw [h] at hok
      contradiction
  · intro channel p e he
    rcases hset channel p with ⟨hok, _⟩ | ⟨e', h⟩
    · rw [he] at hok
      contradiction
    · rw [h]
  · intro channel share
    rcases sample_validate kind channel share with ⟨_, h⟩ | ⟨_, h, _, hkeeps⟩
    · rw [h]
    · rw [h]
      exact hkeeps.size

theorem openChannel_ok {Job : Type} {id : UInt32} {p : ExtranoncePrefix} {target : Target}
    {size : UInt16} {channel : SampleChannel Job}
    (h : openChannel id p target size = .ok channel) :
    channel.extranoncePrefix = p ∧ channel.rollableExtranonceSize = size := by
  unfold openChannel at h
  split at h
  · cases h
    exact ⟨rfl, rfl⟩
  · contradiction

theorem sample_sizeContract : SizeContract sampleDeps := by
  refine ⟨sample_channelSizes, ?_, ?_, ?_, ?_, fun _ _ _ => rfl⟩
  · intro bytes p h
    simp only [sampleDeps] at h
    split at h
    · cases h
      rfl
    · contradiction
  · intro id user p target rate channel h
    exact congrArg ExtranoncePrefix.len (openChannel_ok h).1
  · intro id user p target rate rolling size channel h
    obtain ⟨hbytes, hsize⟩ := openChannel_ok h
    change channel.extranoncePrefix.len + channel.rollableExtranonceSize.toNat = _
    rw [hbytes, hsize]
  · intro group id size hok
    simp only [sampleDeps, sampleGroup] at hok ⊢
    split at hok
    · rename_i hfits
      rw [if_pos hfits]
      refine ⟨rfl, ?_⟩
      intro hne
      rcases hfits with h | h
      · exact absurd h hne
      · exact h
    · contradiction

/-- What group 10 has recorded, its members, and the size of channel 1. -/
def sampleSizes (w : World sampleDeps) : Option (Option ℕ × List UInt32) × Option ℕ :=
  ((w.manager.groupChannels 10).map fun group =>
      (sampleDeps.group.recordedSize group, sampleDeps.group.getChannelIds group),
    (w.minerAt .standard (.stored 1)).map fun miner =>
      (sampleDeps.client .standard).fullExtranonceSize miner.channel.value)

/-- The prefix of one of two members is replaced by a shorter one. -/
theorem member_sizes_drift :
    ¬ ∀ (D : Deps), GroupContract D.group → SizeContract D →
      ∀ (amb : Ambient) (ls : List WorldLabel) (w : World D),
      Run WorldStep (World.initial (ChannelManager.new "miner" (.finite 1) false 100 false) amb)
        ls w →
      ∀ g group, w.manager.groupChannels g = some group →
        ∃ size, D.group.recordedSize group = some size ∧
          ∀ id ∈ D.group.getChannelIds group, SizeAt w id size := by
  intro hclaim
  have hplay : (play World.execute sampleWorld (handled [openStandardMessage 1 10 [1, 2],
      openStandardMessage 2 10 [1, 3], setPrefixMessage 1 [1]])).map sampleSizes =
        some (some (some 2, [2, 1]), some 1) := by decide +kernel
  obtain ⟨w, hw, hsizes⟩ := Option.map_eq_some_iff.mp hplay
  obtain ⟨hgroup, hminer⟩ := Prod.mk.inj hsizes
  obtain ⟨group, hg, hrecords⟩ := Option.map_eq_some_iff.mp hgroup
  obtain ⟨hrecorded, hids⟩ := Prod.mk.inj hrecords
  obtain ⟨miner, hm, hone⟩ := Option.map_eq_some_iff.mp hminer
  obtain ⟨size, hrecorded', hshared⟩ := hclaim sampleDeps sample_groupContract sample_sizeContract
    _ _ w (worldRun_of_play hw) 10 group hg
  have htwo : size = 2 := Option.some.inj (hrecorded'.symm.trans hrecorded)
  have hmem : 1 ∈ sampleDeps.group.getChannelIds group := by
    rw [hids]
    decide
  have hsame := hshared 1 hmem .standard miner (.inl rfl) hm
  omega

/-- Openings of fresh ids, and nothing that sets a prefix. -/
def opensOnly (w : World sampleDeps) (l : WorldLabel) : Bool :=
  opensFresh w l && match l with
    | .message (.setExtranoncePrefix _) _ => false
    | _ => true

theorem keepsSizes_of_opensOnly {w : World sampleDeps} {l : WorldLabel}
    (h : opensOnly w l = true) : KeepsSizes w l := by
  obtain ⟨hfresh, hother⟩ := Bool.and_eq_true_iff.mp h
  cases l with
  | event e => trivial
  | message m r =>
    refine ⟨?_, ?_⟩
    · intro s _ _ _ _ _ hs
      subst hs
      contradiction
    · intro o ho hopen
      exact absurd hopen (not_open_of_fresh hfresh ho)

theorem keepsSizes_of_sameLength {w : World sampleDeps}
    (hstd : (w.minerAt .standard (.stored 1)).map (fun miner =>
      (sampleDeps.client .standard).fullExtranonceSize miner.channel.value) = some 2)
    {r : Except Sv2CpuMinerError Unit} : KeepsSizes w (.message (setPrefixMessage 1 [5, 6]) r) := by
  obtain ⟨miner, hm, hsize⟩ := Option.map_eq_some_iff.mp hstd
  refine ⟨?_, fun _ ho => nomatch ho⟩
  intro s p kind g rig r₁ hs hp _ hres hrig hothers _
  cases hs
  have hp' : p = ⟨[5, 6]⟩ := by
    have h : (Except.ok ⟨[5, 6]⟩ : Except ChannelError ExtranoncePrefix) = .ok p := hp
    cases h
    rfl
  have hkind : kind = .standard :=
    resolves_unique (.inl rfl) hres (Option.isSome_of_eq_some hm)
      (Option.isSome_of_eq_some (rigAt_eq_some_iff.mp hrig).1)
  subst hkind hp'
  cases hm.symm.trans (rigAt_eq_some_iff.mp hrig).1
  rw [others_size (sample_channelSizes .standard) hothers, hsize]
  rfl

theorem sample_members_share_size :
    ∃ w group, Run (Guarded KeepsSizes WorldStep) sampleWorld
        (sampleOpenings ++ [.message (setPrefixMessage 1 [5, 6]) (.ok ())]) w ∧
      w.manager.groupChannels 10 = some group ∧
      ∃ size, sampleDeps.group.recordedSize group = some size ∧
        ∀ id ∈ sampleDeps.group.getChannelIds group, SizeAt w id size := by
  have hplay : ((play (fun w l => if opensOnly w l then w.execute l else none) sampleWorld
      sampleOpenings).bind fun w =>
        (w.execute (.message (setPrefixMessage 1 [5, 6]) (.ok ()))).map fun w' =>
          ((sampleSizes w).2, (sampleSizes w').1)) = some (some 2, some (some 2, [2, 1])) := by
    decide +kernel
  obtain ⟨w₁, hw₁, hlast⟩ := Option.bind_eq_some_iff.mp hplay
  obtain ⟨w₂, hw₂, hsizes⟩ := Option.map_eq_some_iff.mp hlast
  obtain ⟨hbefore, hafter⟩ := Prod.mk.inj hsizes
  obtain ⟨group, hg, _⟩ := Option.map_eq_some_iff.mp hafter
  have hopened : Run (Guarded KeepsSizes WorldStep) sampleWorld sampleOpenings w₁ :=
    guardedRun_of_play (fun _ _ => keepsSizes_of_opensOnly) (fun _ _ _ => worldStep_of_execute) hw₁
  have hrun := hopened.snoc
    ⟨keepsSizes_of_sameLength hbefore, worldStep_of_execute hw₂⟩
  exact ⟨w₂, group, hrun, hg, members_share_recorded_size sampleDeps sample_groupContract
    sample_sizeContract "miner" (.finite 1) false 100 false ⟨0, false⟩ _ w₂ hrun 10 group hg⟩

end CpuMinerSv2.ExtranonceSizes
