import CpuMinerSv2.GroupRefinement
import CpuMinerSv2.SampleWorlds

/-!
What an opening does in a reachable world. A refused one leaves the manager
exactly as it was, also when a group was made for it first; one that goes
through stores a new miner, enrols it to its group and does nothing else.
-/

namespace CpuMinerSv2.Openings

open Messages Channels Primitives Interference MineJob MinerMethods MinerRuns Manager
  ManagerFrames Deliveries Registry HandlerRuns GroupRefinement SampleDeps SampleWorlds Relation

/-- A group keeps the size of its first member and refuses any other. -/
structure GroupSizeContract (G : GroupChannelApi) : Prop where
  first : ∀ group id size, G.getChannelIds group = [] →
    (G.addChannelId group id size).1 = .ok ()
  next : ∀ group id size, G.getChannelIds group ≠ [] →
    ((G.addChannelId group id size).1 = .ok () ↔ G.recordedSize group = some size)
  added : ∀ group id size, (G.addChannelId group id size).1 = .ok () →
    G.recordedSize (G.addChannelId group id size).2 = some size
  removed : ∀ group id, G.getChannelIds (G.removeChannelId group id) ≠ [] →
    G.recordedSize (G.removeChannelId group id) = G.recordedSize group

variable {D : Deps}

/-- Why an opening is refused. -/
inductive RefusesOpening (o : Opening D) (w : World D) : Prop
  | invalidPrefix {e : ChannelError} (h : D.fromWire o.extranoncePrefix = .error e)
  | constructorFails {p : ExtranoncePrefix} {e : ChannelError}
      (hp : D.fromWire o.extranoncePrefix = .ok p) (h : o.newChannel w.manager p = .error e)
  | idsCollide (h : ¬ Joinable w o.channelId o.groupChannelId)
  | sizeDiffers {group : D.group.GroupChannel}
      (hg : w.manager.groupChannels o.groupChannelId = some group)
      (h : D.group.recordedSize group ≠ some o.fullExtranonceSize)

/-- The new miner is stored and enrolled, and everything else is as before. -/
structure Stores (o : Opening D) (channel : (D.client o.kind).Channel) (w w' : World D) :
    Prop where
  stored : w'.manager.channels o.kind o.channelId =
    some (new channel w.manager.cpuUsagePercent w.manager.singleSubmit)
  enrolled : IsMember w' o.groupChannelId o.channelId
  channels : ∀ kind id, ¬ (kind = o.kind ∧ id = o.channelId) →
    w'.manager.channels kind id = w.manager.channels kind id
  groups : ∀ g, g ≠ o.groupChannelId → w'.manager.groupChannels g = w.manager.groupChannels g
  members : ∀ id, id ≠ o.channelId →
    (IsMember w' o.groupChannelId id ↔ IsMember w o.groupChannelId id)
  sizes : ∀ group group', w.manager.groupChannels o.groupChannelId = some group →
    w'.manager.groupChannels o.groupChannelId = some group' →
      D.group.recordedSize group' = D.group.recordedSize group
  settings : settings w'.manager = settings w.manager
  ambient : w'.ambient = w.ambient

theorem joined_iff (hD : GroupContract D.group) (hS : GroupSizeContract D.group) {w : World D}
    (hne : NonemptyGroups w) (g id : UInt32) (size : ℕ) :
    (D.group.addChannelId (joinedGroup w g) id size).1 = .ok () ↔
      ∀ group, w.manager.groupChannels g = some group → D.group.recordedSize group = some size := by
  unfold joinedGroup
  cases hg : w.manager.groupChannels g with
  | none =>
    have hfirst := hS.first (D.group.new g) id size (hD.new g)
    simpa using hfirst
  | some group =>
    have hnext := hS.next group id size (hne g group hg)
    simpa using hnext

/-- The reasons are exactly those for which an opening does not go through. -/
theorem refuses_iff (hD : GroupContract D.group) (hS : GroupSizeContract D.group)
    {o : Opening D} {w : World D} (hne : NonemptyGroups w) :
    RefusesOpening o w ↔ ¬ ∃ channel group, Accepts o w channel group := by
  have hjoined := joined_iff hD hS hne o.groupChannelId o.channelId o.fullExtranonceSize
  constructor
  · intro hrefused haccepted
    obtain ⟨channel, group, hacc⟩ := haccepted
    obtain ⟨p, hp, hc⟩ := hacc.made
    cases hrefused with
    | invalidPrefix h =>
      rw [hp] at h
      contradiction
    | constructorFails hp' h =>
      cases hp.symm.trans hp'
      rw [hc] at h
      contradiction
    | idsCollide h => exact h hacc.joinable
    | sizeDiffers hg h =>
      have hok : (D.group.addChannelId (joinedGroup w o.groupChannelId) o.channelId
          o.fullExtranonceSize).1 = .ok () := by rw [hacc.joined]
      exact h (hjoined.mp hok _ hg)
  · intro hnot
    cases hp : D.fromWire o.extranoncePrefix with
    | error e => exact .invalidPrefix hp
    | ok p =>
      cases hc : o.newChannel w.manager p with
      | error e => exact .constructorFails hp hc
      | ok channel =>
        by_cases hjoinable : Joinable w o.channelId o.groupChannelId
        · by_cases hadd : (D.group.addChannelId (joinedGroup w o.groupChannelId) o.channelId
              o.fullExtranonceSize).1 = .ok ()
          · have hacc : Accepts o w channel _ :=
              ⟨⟨p, hp, hc⟩, hjoinable, Prod.ext hadd rfl⟩
            exact absurd ⟨channel, _, hacc⟩ hnot
          · rw [hjoined] at hadd
            simp only [not_forall] at hadd
            obtain ⟨group, hg, hsize⟩ := hadd
            exact .sizeDiffers hg hsize
        · exact .idsCollide hjoinable

theorem opened_stores (hD : GroupContract D.group) (hS : GroupSizeContract D.group)
    {o : Opening D} {w : World D} (hne : NonemptyGroups w)
    {channel : (D.client o.kind).Channel} {group : D.group.GroupChannel}
    (hacc : Accepts o w channel group) : Stores o channel w (opened o w channel group) := by
  refine ⟨minerAt_insertMiner_self _ _ _ _, ?_, ?_, ?_, ?_, ?_, ?_, ?_⟩
  · exact (isMember_opened hD hacc).mpr (.inr ⟨rfl, rfl⟩)
  · intro kind id hne
    have hstored := minerAt_insertMiner_stored
      (w.setGroups (w.manager.groupChannels.insert o.groupChannelId group))
      (new channel w.manager.cpuUsagePercent w.manager.singleSubmit) hne
    rw [minerAt_setGroups] at hstored
    exact hstored
  · intro g hg
    unfold opened
    rw [groups_insertMiner]
    exact PartialMap.insert_of_ne _ _ hg
  · intro id hid
    rw [isMember_opened hD hacc]
    exact or_iff_left (fun h => hid h.2)
  · intro old group' hold hg'
    have hok : (D.group.addChannelId (joinedGroup w o.groupChannelId) o.channelId
        o.fullExtranonceSize).1 = .ok () := by rw [hacc.joined]
    have hadded := hS.added _ _ _ hok
    have hbefore := (joined_iff hD hS hne _ _ _).mp hok old hold
    unfold opened at hg'
    rw [groups_insertMiner] at hg'
    simp only [World.setGroups, PartialMap.insert_self, Option.some.injEq] at hg'
    rw [hacc.joined, hg'] at hadded
    rw [hbefore]
    exact hadded
  · exact settings_insertMiner _ _ _ _
  · exact ambient_insertMiner _ _ _ _

theorem handle_opening {m : ServerMessage} {o : Opening D} (ho : opening m = some o) :
    handle m = Prog.perform o.perform := by
  cases m <;> cases ho <;> rfl

/-- The opening handlers as one action between the steps of others. -/
theorem opening_effect (hD : GroupContract D.group) (hS : GroupSizeContract D.group)
    {m : ServerMessage} {o : Opening D} (ho : opening m = some o) {w w' : World D}
    {r : Except Sv2CpuMinerError Unit} (hne : NonemptyGroups w)
    (h : WorldStep w (.message m r) w') :
    r = .ok () ∧ ∃ w₁ w₂, WorldOthers w w₁ ∧ WorldOthers w₂ w' ∧
      (RefusesOpening o w ∧ w₂.manager = w₁.manager ∨
        ¬ RefusesOpening o w ∧ ∃ p channel, D.fromWire o.extranoncePrefix = .ok p ∧
          o.newChannel w.manager p = .ok channel ∧ Stores o channel w₁ w₂) := by
  cases h with
  | message hrun =>
    rw [handle_opening ho] at hrun
    obtain ⟨rfl, w₁, h₁, h'⟩ := runs_perform_iff.mp hrun
    have hsame := worldOthers_sameRegistry h₁
    refine ⟨rfl, w₁, o.perform w₁, h₁, h', ?_⟩
    rw [refuses_iff hD hS hne]
    rcases perform_cases hD o (nonemptyGroups_congr hsame hne) with
      ⟨channel, group, hacc, heq⟩ | ⟨hnot, log, _, heq⟩
    · have hbefore := accepts_congr hsame ho hacc
      obtain ⟨p, hp, hc⟩ := hbefore.made
      rw [heq]
      exact .inr ⟨fun hn => hn ⟨channel, group, hbefore⟩, p, channel, hp, hc,
        opened_stores hD hS (nonemptyGroups_congr hsame hne) hacc⟩
    · refine .inl ⟨?_, by rw [heq]⟩
      intro haccepted
      obtain ⟨channel, group, hacc⟩ := haccepted
      exact hnot ⟨channel, group, accepts_congr hsame.symm ho hacc⟩

/-- In every reachable world an opening returns `Ok`. Either it has a reason to
be refused and the manager stays exactly as it was, or the new channel is
stored in the map of its kind as a member of its group and nothing else
changes. Tasks, clock and shutdown act before and after. -/
theorem opening_stores_or_changes_nothing (D : Deps) (hD : GroupContract D.group)
    (hS : GroupSizeContract D.group) (userIdentity : String) (nominalHashrate : F32)
    (singleSubmit : Bool) (cpuUsagePercent : ℕ) (requiresStandardJobs : Bool) (amb : Ambient)
    (ls : List WorldLabel) (w : World D)
    (hrun : Run WorldStep (World.initial (ChannelManager.new userIdentity nominalHashrate
      singleSubmit cpuUsagePercent requiresStandardJobs) amb) ls w)
    (m : ServerMessage) (o : Opening D) (r : Except Sv2CpuMinerError Unit) (w' : World D)
    (ho : opening m = some o) (h : WorldStep w (.message m r) w') :
    r = .ok () ∧ ∃ w₁ w₂, WorldOthers w w₁ ∧ WorldOthers w₂ w' ∧
      (RefusesOpening o w ∧ w₂.manager = w₁.manager ∨
        ¬ RefusesOpening o w ∧ ∃ p channel, D.fromWire o.extranoncePrefix = .ok p ∧
          o.newChannel w.manager p = .ok channel ∧ Stores o channel w₁ w₂) :=
  opening_effect hD hS ho (run_wellGrouped hD hrun).nonempty h

theorem sample_groupSizes : GroupSizeContract sampleDeps.group := by
  have hadd : ∀ (group : SampleGroup) (id : UInt32) (size : ℕ),
      ((sampleGroup.addChannelId group id size).1 = .ok () ↔
        group.ids = [] ∨ group.size = some size) ∧
      ((sampleGroup.addChannelId group id size).1 = .ok () →
        (sampleGroup.addChannelId group id size).2.size = some size) := by
    intro group id size
    simp only [sampleGroup]
    split
    · rename_i h
      exact ⟨iff_of_true rfl h, fun _ => rfl⟩
    · rename_i h
      refine ⟨iff_of_false ?_ h, ?_⟩
      · intro hok
        contradiction
      · intro hok
        contradiction
  refine ⟨?_, ?_, fun group id size => (hadd group id size).2, fun _ _ _ => rfl⟩
  · intro group id size hempty
    exact (hadd group id size).1.mpr (.inl hempty)
  · intro group id size hne
    exact (hadd group id size).1.trans (or_iff_right hne)

/-- A third channel whose prefix is too short for the group of the first two. -/
theorem sample_opening_refused :
    ∃ w w' : World sampleDeps, play World.execute sampleWorld sampleOpenings = some w ∧
      ∃ w₁ w₂, WorldOthers w w₁ ∧ WorldOthers w₂ w' ∧
        (RefusesOpening (openStandard ⟨0, 3, [255, 255, 255, 255], [1], 10⟩) w ∧
            w₂.manager = w₁.manager ∨
          ¬ RefusesOpening (openStandard ⟨0, 3, [255, 255, 255, 255], [1], 10⟩) w ∧
            ∃ p channel, sampleDeps.fromWire [1] = .ok p ∧
              (openStandard ⟨0, 3, [255, 255, 255, 255], [1], 10⟩).newChannel w.manager p =
                .ok channel ∧
              Stores (openStandard ⟨0, 3, [255, 255, 255, 255], [1], 10⟩) channel w₁ w₂) := by
  obtain ⟨w, w', hw, hstep⟩ : ∃ w w', play World.execute sampleWorld sampleOpenings = some w ∧
      w.execute (.message (openStandardMessage 3 10 [1]) (.ok ())) = some w' := ⟨_, _, rfl, rfl⟩
  have heffect := opening_stores_or_changes_nothing sampleDeps sample_groupContract
    sample_groupSizes "miner" (.finite 1) false 100 false ⟨0, false⟩ sampleOpenings w
    (worldRun_of_play hw) (openStandardMessage 3 10 [1]) _ (.ok ()) w' rfl
    (worldStep_of_execute hstep)
  exact ⟨w, w', hw, heffect.2⟩

end CpuMinerSv2.Openings
