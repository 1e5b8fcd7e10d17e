import CpuMinerSv2.GroupRefinement
import CpuMinerSv2.SampleWorlds

/-!
Opening a channel whose id is still open. The ids are compared with groups
only, so nothing but a bad prefix, a refused size or a colliding group id
stops the new channel: it replaces the open one, or shadows it as the other
kind. Runs in which this never happens keep the two channel maps disjoint.
-/

namespace CpuMinerSv2.Reopening

open Messages Channels Primitives Interference MineJob MinerMethods MinerRuns Manager
  ManagerFrames Deliveries Registry HandlerRuns GroupRefinement SampleDeps SampleWorlds Relation

variable {D : Deps}

/-- The handler has left the channel maps and the groups alone: no miner is
stored, replaced or removed, and each has only moved on by itself. -/
def LeavesChannelsAlone (w w' : World D) : Prop :=
  SameRegistry w w' ∧ ∀ kind place, RigMoves kind place w w'

theorem LeavesChannelsAlone.trans {a b c : World D} (hab : LeavesChannelsAlone a b)
    (hbc : LeavesChannelsAlone b c) : LeavesChannelsAlone a c :=
  ⟨hab.1.trans hbc.1, fun kind place => (hab.2 kind place).trans (hbc.2 kind place)⟩

theorem worldOthers_alone {w w' : World D} (h : WorldOthers w w') : LeavesChannelsAlone w w' :=
  ⟨worldOthers_sameRegistry h, worldOthers_rigMoves h⟩

theorem logged_alone (w : World D) (e : ErrorLog) : LeavesChannelsAlone w (w.logError e) :=
  ⟨onlyLogs_sameRegistry _ _ ⟨_, rfl⟩, fun kind place => onlyLogs_rigMoves kind place _ _ ⟨_, rfl⟩⟩

/-- An opening that names an open channel does not go through. -/
def NoReopening (w : World D) : WorldLabel → Prop
  | .event _ => True
  | .message m _ => ∀ o, opening m = some o → ChannelOpen w o.channelId →
      ¬ ∃ channel group, Accepts o w channel group

/-- No id names a channel of each kind. -/
def MapsDisjoint (w : World D) : Prop :=
  ∀ id, ¬ ((w.minerAt .standard (.stored id)).isSome = true ∧
    (w.minerAt .extended (.stored id)).isSome = true)

theorem MapsDisjoint.of_fewer {w w' : World D} (h : MapsDisjoint w)
    (hfewer : ∀ kind id, (w'.minerAt kind (.stored id)).isSome = true →
      (w.minerAt kind (.stored id)).isSome = true) : MapsDisjoint w' := by
  intro id hboth
  exact h id ⟨hfewer .standard id hboth.1, hfewer .extended id hboth.2⟩

theorem opened_disjoint {o : Opening D} {w : World D} {channel : (D.client o.kind).Channel}
    {group : D.group.GroupChannel} (hw : MapsDisjoint w) (hfresh : ¬ ChannelOpen w o.channelId) :
    MapsDisjoint (opened o w channel group) := by
  have hold : ∀ kind id, ¬ (kind = o.kind ∧ id = o.channelId) →
      (opened o w channel group).minerAt kind (.stored id) = w.minerAt kind (.stored id) := by
    intro kind id hne
    unfold opened
    rw [minerAt_insertMiner_stored _ _ hne, minerAt_setGroups]
  intro id hboth
  by_cases hid : id = o.channelId
  · -- the other kind stored this id already
    subst hid
    cases hkind : o.kind with
    | standard =>
      have hne : ¬ (Kind.extended = o.kind ∧ o.channelId = o.channelId) := by simp [hkind]
      rw [hold .extended o.channelId hne] at hboth
      exact hfresh ⟨.extended, hboth.2⟩
    | extended =>
      have hne : ¬ (Kind.standard = o.kind ∧ o.channelId = o.channelId) := by simp [hkind]
      rw [hold .standard o.channelId hne] at hboth
      exact hfresh ⟨.standard, hboth.1⟩
  · rw [hold .standard id (fun h => hid h.2), hold .extended id (fun h => hid h.2)] at hboth
    exact hw id hboth

theorem closeOne_disjoint {w : World D} (hw : MapsDisjoint w) (id : UInt32) :
    MapsDisjoint (closeOne w id) := by
  rcases closeOne_cases w id with ⟨kind, miner, _, _, heq⟩ | ⟨_, heq⟩
  · rw [heq]
    apply hw.of_fewer
    intro kind' id' hkey
    rw [minerAt_leaveGroups] at hkey
    by_cases hid : kind' = kind ∧ id' = id
    · obtain ⟨rfl, rfl⟩ := hid
      rw [minerAt_removeMiner_self] at hkey
      contradiction
    · rw [minerAt_removeMiner_stored w miner hid] at hkey
      exact hkey
  · rw [heq]
    apply hw.of_fewer
    intro kind' id' hkey
    rw [minerAt_logError] at hkey
    exact hkey

theorem step_disjoint (hD : GroupContract D.group) {w w' : World D} {l : WorldLabel}
    (hgroups : WellGrouped w) (hw : MapsDisjoint w) (hguard : NoReopening w l)
    (h : WorldStep w l w') : MapsDisjoint w' := by
  have hsame : ∀ a b : World D, SameRegistry a b → MapsDisjoint a → MapsDisjoint b := by
    intro a b hab ha
    apply ha.of_fewer
    intro kind id hkey
    rw [← hab.places]
    exact hkey
  cases h with
  | event he => exact hsame _ _ (interferes_sameRegistry _ _ ⟨_, he⟩) hw
  | message hrun =>
    refine handlerRun_preserve (I := MapsDisjoint) (handle_cases hD hgroups.nonempty hrun) hsame ?_
      (fun w id h => closeOne_disjoint h id) ?_ ?_ hw
    · intro o w₁ channel group ho hbefore hacc hw₁
      apply opened_disjoint hw₁
      intro hopen
      exact hguard o ho ((isOpen_congr hbefore).mp hopen)
        ⟨channel, group, accepts_congr hbefore ho hacc⟩
    · intro w hd
      apply hd.of_fewer
      intro kind id hkey
      rw [minerAt_retainNonempty] at hkey
      exact hkey
    · intro w g ids redefined hd
      apply hd.of_fewer
      intro kind id hkey
      rw [minerAt_regroup] at hkey
      exact hkey

theorem run_disjoint (hD : GroupContract D.group) {userIdentity : String} {nominalHashrate : F32}
    {singleSubmit : Bool} {cpuUsagePercent : ℕ} {requiresStandardJobs : Bool} {amb : Ambient}
    {ls : List WorldLabel} {w : World D}
    (hrun : Run (Guarded NoReopening WorldStep) (World.initial (ChannelManager.new userIdentity
      nominalHashrate singleSubmit cpuUsagePercent requiresStandardJobs) amb) ls w) :
    WellGrouped w ∧ MapsDisjoint w := by
  refine hrun.invariant (I := fun w => WellGrouped w ∧ MapsDisjoint w) ?_
    ⟨initial_wellGrouped _ _ _ _ _ _, fun _ hboth => nomatch hboth.1⟩
  intro s l s' hs hstep
  exact ⟨step_wellGrouped hD hs.1 hstep.2, step_disjoint hD hs.1 hs.2 hstep.1 hstep.2⟩

/-- Storing a new miner is seen in the registry: either the id was not stored
as this kind, or the miner overwritten is dropped. -/
theorem opened_not_same (o : Opening D) (w : World D) (channel : (D.client o.kind).Channel)
    (group : D.group.GroupChannel) : ¬ SameRegistry w (opened o w channel group) := by
  intro hsame
  cases hold : w.minerAt o.kind (.stored o.channelId) with
  | none =>
    have hplace := hsame.places o.kind (.stored o.channelId)
    unfold opened at hplace
    rw [minerAt_insertMiner_self, hold] at hplace
    contradiction
  | some old =>
    have hplace := hsame.places o.kind (.dropped (w.dropped o.kind).length)
    have hdropped : (opened o w channel group).minerAt o.kind
        (.dropped (w.dropped o.kind).length) = some old := by
      unfold opened
      apply minerAt_insertMiner_overwritten
      rw [minerAt_setGroups]
      exact hold
    rw [hdropped] at hplace
    simp [World.minerAt] at hplace

/-- Handling an opening returns `Ok`, and leaves the channels alone exactly
when the opening does not go through. -/
theorem opening_alone_iff (hD : GroupContract D.group) {m : ServerMessage} {o : Opening D}
    {w w' : World D} {r : Except Sv2CpuMinerError Unit} (hgroups : WellGrouped w)
    (ho : opening m = some o) (h : WorldStep w (.message m r) w') :
    (r = .ok () ∧ LeavesChannelsAlone w w') ↔ ¬ ∃ channel group, Accepts o w channel group := by
  cases h with
  | message hrun =>
    cases handle_cases hD hgroups.nonempty hrun with
    | quiet hsame hcalls hopen =>
      obtain ⟨hok, hrefused⟩ := hopen o ho
      have hmoves : ∀ kind place, RigMoves kind place w w' := by
        intro kind place rig hrig
        obtain ⟨rig', hrig', hothers | ⟨_, _, _, _, ht, _⟩⟩ := hcalls kind place rig hrig
        · exact ⟨rig', hrig', hothers⟩
        · -- an opening calls no miner
          cases ht <;> contradiction
      exact iff_of_true ⟨hok, hsame, hmoves⟩ hrefused
    | @opened _ o' w₁ _ channel group ho' h₁ hacc h' =>
      cases ho.symm.trans ho'
      have hbefore := worldOthers_sameRegistry h₁
      refine iff_of_false ?_ ?_
      · intro halone
        have hsame : SameRegistry w₁ w' := hbefore.symm.trans halone.2.1
        exact opened_not_same o w₁ channel group
          (hsame.trans (worldOthers_sameRegistry h').symm)
      · intro hnot
        exact hnot ⟨channel, group, accepts_congr hbefore ho hacc⟩
    | closed => contradiction
    | regrouped => contradiction

/-- In a run without accepted re-openings no id is a channel of both kinds. In
any reachable world, an opening that names an open channel is handled with
`Ok` and leaves everything alone exactly when it does not go through. -/
theorem open_channels_left_alone_iff (D : Deps) (hD : GroupContract D.group)
    (userIdentity : String) (nominalHashrate : F32) (singleSubmit : Bool) (cpuUsagePercent : ℕ)
    (requiresStandardJobs : Bool) (amb : Ambient) (ls : List WorldLabel) (w : World D) :
    (Run (Guarded NoReopening WorldStep) (World.initial (ChannelManager.new userIdentity
        nominalHashrate singleSubmit cpuUsagePercent requiresStandardJobs) amb) ls w →
      ∀ id, ¬ (w.manager.standardChannels.containsKey id = true ∧
        w.manager.extendedChannels.containsKey id = true)) ∧
    (Run WorldStep (World.initial (ChannelManager.new userIdentity nominalHashrate singleSubmit
        cpuUsagePercent requiresStandardJobs) amb) ls w →
      ∀ (m : ServerMessage) (o : Opening D) (r : Except Sv2CpuMinerError Unit) (w' : World D),
        opening m = some o → ChannelOpen w o.channelId → WorldStep w (.message m r) w' →
        ((r = .ok () ∧ LeavesChannelsAlone w w') ↔
          ¬ ∃ channel group, Accepts o w channel group)) := by
  refine ⟨?_, ?_⟩
  · intro hrun
    exact (run_disjoint hD hrun).2
  · intro hrun m o r w' ho _ hstep
    exact opening_alone_iff hD (run_wellGrouped hD hrun) ho hstep

/-- The same id is opened as a standard and as an extended channel. -/
theorem reopened_as_other_kind :
    ¬ ∀ (D : Deps), GroupContract D.group → ∀ (amb : Ambient) (ls : List WorldLabel) (w : World D),
      Run WorldStep (World.initial (ChannelManager.new "miner" (.finite 1) false 100 false) amb)
        ls w →
      (∀ id, ¬ (w.manager.standardChannels.containsKey id = true ∧
        w.manager.extendedChannels.containsKey id = true)) ∧
      ∀ (m : ServerMessage) (o : Opening D) (r : Except Sv2CpuMinerError Unit) (w' : World D),
        opening m = some o → ChannelOpen w o.channelId → WorldStep w (.message m r) w' →
        r = .ok () ∧ LeavesChannelsAlone w w' := by
  intro hclaim
  obtain ⟨w, hw, hboth⟩ : ∃ w, play World.execute sampleWorld
      (handled [openStandardMessage 1 10 [1, 2], openExtendedMessage 1 10 1 [1]]) = some w ∧
        w.manager.standardChannels.containsKey 1 = true ∧
        w.manager.extendedChannels.containsKey 1 = true := ⟨_, rfl, rfl, rfl⟩
  exact (hclaim sampleDeps sample_groupContract _ _ w (worldRun_of_play hw)).1 1 hboth

theorem noReopening_of_fresh {w : World sampleDeps} {l : WorldLabel} (h : opensFresh w l = true) :
    NoReopening w l := by
  cases l with
  | event e => trivial
  | message m r =>
    intro o ho hopen
    exact absurd hopen (not_open_of_fresh h ho)

theorem freshRun_of_play {w w' : World sampleDeps} {ls : List WorldLabel}
    (h : playFresh w ls = some w') :
    Run (Guarded NoReopening WorldStep) w ls w' :=
  guardedRun_of_play (fun _ _ => noReopening_of_fresh) (fun _ _ _ => worldStep_of_execute) h

theorem sample_channels_left_alone :
    ∃ w, Run (Guarded NoReopening WorldStep) sampleWorld sampleOpenings w ∧
      (∀ id, ¬ (w.manager.standardChannels.containsKey id = true ∧
        w.manager.extendedChannels.containsKey id = true)) ∧
      ∀ (m : ServerMessage) (o : Opening sampleDeps) (r : Except Sv2CpuMinerError Unit)
        (w' : World sampleDeps), opening m = some o → ChannelOpen w o.channelId →
        WorldStep w (.message m r) w' →
        ((r = .ok () ∧ LeavesChannelsAlone w w') ↔
          ¬ ∃ channel group, Accepts o w channel group) := by
  obtain ⟨w, hw, hw'⟩ : ∃ w, playFresh sampleWorld sampleOpenings = some w ∧
      play World.execute sampleWorld sampleOpenings = some w := ⟨_, rfl, rfl⟩
  have hboth := open_channels_left_alone_iff sampleDeps sample_groupContract "miner" (.finite 1)
    false 100 false ⟨0, false⟩ sampleOpenings w
  exact ⟨w, freshRun_of_play hw, hboth.1 (freshRun_of_play hw), hboth.2 (worldRun_of_play hw')⟩

end CpuMinerSv2.Reopening
