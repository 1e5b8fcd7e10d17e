import CpuMinerSv2.GroupRefinement
import CpuMinerSv2.SampleWorlds

/-!
Whatever the server sends, group ids and channel ids stay apart, members are
open and no group is empty. So a message addressed to a group finds every one
of its members, and the branches for a member that is missing are dead.
-/

namespace CpuMinerSv2.GroupConsistency

open Messages Channels Primitives Interference MineJob MinerMethods Manager ManagerFrames Deliveries
  Registry HandlerRuns GroupRefinement SampleDeps SampleWorlds

variable {D : Deps}

section Logs

/-- A call on a miner that was found has failed. -/
def CallFailed (e : ErrorLog) : Prop :=
  ∃ message kind id failure, e = .callFailed message kind id failure

variable {α : Type} {message : String}
  {onStandard : Prog (Rig (standardClient D)) Sv2CpuMinerError α}
  {onExtended : Prog (Rig (extendedClient D)) Sv2CpuMinerError α} {missing : UInt32 → ErrorLog}

theorem deliver_logs {id : UInt32} {w w' : World D} {res : Except Sv2CpuMinerError Unit}
    (hopen : ChannelOpen w id)
    (h : Runs WorldInterferes
      (deliver onStandard onExtended (reportFailure message) missing id) w res w') :
    Logs CallFailed w w' := by
  have hfailed : ∀ kind id e, CallFailed (.callFailed message kind id e) :=
    fun kind id e => ⟨message, kind, id, e, rfl⟩
  obtain ⟨w₁, h₁, hrest⟩ := runs_observe_manager h
  have hopen₁ : ChannelOpen w₁ id := (isOpen_congr (worldOthers_sameRegistry h₁)).mpr hopen
  refine Logs.trans (.of_eq (worldOthers_log h₁)) ?_
  split at hrest
  · exact runs_logs (callMiner_logs hfailed _ _ _) hrest
  · split at hrest
    · exact runs_logs (callMiner_logs hfailed _ _ _) hrest
    · rename_i hstd hext
      rcases isOpen_iff_keys.mp hopen₁ with hkey | hkey
      · exact absurd hkey hstd
      · exact absurd hkey hext

theorem forEach_logs {ids : List UInt32} {w w' : World D} {res : Except Sv2CpuMinerError Unit}
    (hopen : ∀ id ∈ ids, ChannelOpen w id)
    (h : Runs WorldInterferes
      (Prog.forEach (deliver onStandard onExtended (reportFailure message) missing) ids) w res w') :
    Logs CallFailed w w' := by
  induction ids generalizing w with
  | nil =>
    obtain ⟨_, h'⟩ := runs_done_iff.mp h
    exact .of_eq (worldOthers_log h')
  | cons a rest ih =>
    rcases runs_bind_iff.mp h with ⟨_, w₁, hhead, htail⟩ | ⟨_, _, hhead⟩
    · have hsame :=
        guarantees_sameRegistry (deliver_sameRegistry (reportFailure_onlyLogs _) a) hhead
      have hrest : ∀ id ∈ rest, ChannelOpen w₁ id :=
        fun id hid => (isOpen_congr hsame).mpr (hopen id (List.mem_cons_of_mem _ hid))
      exact (deliver_logs (hopen a List.mem_cons_self) hhead).trans (ih hrest htail)
    · exact deliver_logs (hopen a List.mem_cons_self) hhead

theorem closeAll_log {ids : List UInt32} (hnodup : ids.Nodup) {w : World D}
    (hopen : ∀ id ∈ ids, ChannelOpen w id) : (ids.foldl closeOne w).log = w.log := by
  induction ids generalizing w with
  | nil => rfl
  | cons a rest ih =>
    obtain ⟨hnot, hrest⟩ := List.nodup_cons.mp hnodup
    rcases closeOne_cases w a with ⟨kind, miner, _, _, heq⟩ | ⟨hnone, _⟩
    · have hlog : (closeOne w a).log = w.log := by
        rw [heq]
        exact log_setDropped _ _ _
      rw [List.foldl_cons, ih hrest, hlog]
      intro id hid
      rw [heq, isOpen_leaveGroups]
      have hne : id ≠ a := fun h => hnot (h ▸ hid)
      exact (isOpen_removeMiner hne).mpr (hopen id (List.mem_cons_of_mem _ hid))
    · obtain ⟨kind, hkey⟩ := hopen a List.mem_cons_self
      rw [hnone kind] at hkey
      contradiction

end Logs

/-- The messages that reach the members of the group they name. -/
def groupAddressed : ServerMessage → Option UInt32
  | .closeChannel m => some m.channelId
  | .newExtendedMiningJob m => some m.channelId
  | .setNewPrevHash m => some m.channelId
  | .setTarget m => some m.channelId
  | _ => none

theorem handle_logs (hD : GroupContract D.group) {m : ServerMessage} {g : UInt32}
    {group : D.group.GroupChannel} {w w' : World D} {res : Except Sv2CpuMinerError Unit}
    (hw : WellGrouped w) (hm : groupAddressed m = some g)
    (hg : w.manager.groupChannels g = some group) (h : Runs WorldInterferes (handle m) w res w') :
    Logs CallFailed w w' := by
  obtain ⟨t, ht⟩ := hw.shows
  have hopen : ∀ {w₁ : World D}, SameRegistry w w₁ → ∀ id ∈ D.group.getChannelIds group,
      ChannelOpen w₁ id := by
    intro w₁ hsame id hid
    rw [isOpen_congr hsame, ← ht.active]
    exact t.members_subset g ((ht.members g id).mpr ⟨group, hg, hid⟩)
  have haddressed : ∀ {w₁ : World D}, SameRegistry w w₁ →
      w₁.manager.addressedChannels g = D.group.getChannelIds group := by
    intro w₁ hsame
    rw [hsame.addressedChannels, ChannelManager.addressedChannels, hg]
  cases m with
  | closeChannel m =>
    cases hm
    obtain ⟨_, w₁, h₁, h'⟩ := runs_perform_iff.mp h
    have hsame := worldOthers_sameRegistry h₁
    refine .of_eq ?_
    rw [worldOthers_log h', ← worldOthers_log h₁]
    simp only [closeChannel, haddressed hsame]
    exact closeAll_log (hD.nodup group) (hopen hsame)
  | newExtendedMiningJob m =>
    cases hm
    obtain ⟨w₁, h₁, hrest⟩ := runs_observe_manager h
    have hsame := worldOthers_sameRegistry h₁
    refine Logs.trans (.of_eq (worldOthers_log h₁)) ?_
    split at hrest
    · obtain ⟨_, h'⟩ := runs_fail_iff.mp hrest
      exact .of_eq (worldOthers_log h')
    · simp only [hsame.groups, hg] at hrest
      exact forEach_logs (hopen hsame) hrest
  | setNewPrevHash m =>
    cases hm
    obtain ⟨w₁, h₁, hrest⟩ := runs_observe_manager h
    have hsame := worldOthers_sameRegistry h₁
    refine Logs.trans (.of_eq (worldOthers_log h₁)) ?_
    rw [haddressed hsame] at hrest
    exact forEach_logs (hopen hsame) hrest
  | setTarget m =>
    cases hm
    obtain ⟨w₁, h₁, hrest⟩ := runs_observe_manager h
    have hsame := worldOthers_sameRegistry h₁
    refine Logs.trans (.of_eq (worldOthers_log h₁)) ?_
    rw [haddressed hsame] at hrest
    exact forEach_logs (hopen hsame) hrest
  | _ => contradiction

/-- In every reachable world the groups are consistent with the channels, and
a message addressed to a group logs neither an unknown nor a missing member. -/
theorem groups_stay_consistent (D : Deps) (hD : GroupContract D.group) (userIdentity : String)
    (nominalHashrate : F32) (singleSubmit : Bool) (cpuUsagePercent : ℕ)
    (requiresStandardJobs : Bool) (amb : Ambient) (ls : List WorldLabel) (w : World D)
    (hrun : Run WorldStep (World.initial (ChannelManager.new userIdentity nominalHashrate
      singleSubmit cpuUsagePercent requiresStandardJobs) amb) ls w) :
    (∀ (g : UInt32) (group : D.group.GroupChannel), w.manager.groupChannels g = some group →
      (w.manager.standardChannels.containsKey g = false ∧
        w.manager.extendedChannels.containsKey g = false) ∧
      (∀ id ∈ D.group.getChannelIds group, w.manager.standardChannels.containsKey id = true ∨
        w.manager.extendedChannels.containsKey id = true) ∧
      D.group.isEmpty group = false) ∧
    (∀ (m : ServerMessage) (g : UInt32) (r : Except Sv2CpuMinerError Unit) (w' : World D),
      groupAddressed m = some g → w.manager.groupChannels.containsKey g = true →
      WorldStep w (.message m r) w' → ∃ added, w'.log = w.log ++ added ∧ ∀ e ∈ added,
        (∀ g' id, e ≠ .groupListsUnknown g' id) ∧
          (∀ id message, e ≠ .channelNotFound id message)) := by
  have hw : WellGrouped w := run_wellGrouped hD hrun
  obtain ⟨t, ht⟩ := hw.shows
  refine ⟨?_, ?_⟩
  · intro g group hg
    have hmember : ∀ id ∈ D.group.getChannelIds group, id ∈ t.members g :=
      fun id hid => (ht.members g id).mpr ⟨group, hg, hid⟩
    refine ⟨?_, ?_, ?_⟩
    · have hclosed : ¬ ChannelOpen w g := by
        rw [← ht.active]
        obtain ⟨id, hid⟩ := List.exists_mem_of_ne_nil _ (hw.nonempty g group hg)
        exact t.names_apart g ⟨id, hmember id hid⟩
      rw [isOpen_iff_keys, not_or] at hclosed
      exact ⟨Bool.eq_false_iff.mpr hclosed.1, Bool.eq_false_iff.mpr hclosed.2⟩
    · intro id hid
      exact isOpen_iff_keys.mp ((ht.active id).mp (t.members_subset g (hmember id hid)))
    · rw [← Bool.not_eq_true, hD.isEmpty]
      exact hw.nonempty g group hg
  · intro m g r w' hm hkey hstep
    obtain ⟨group, hg⟩ := Option.isSome_iff_exists.mp hkey
    cases hstep with
    | message h =>
      obtain ⟨added, hlog, hadded⟩ := handle_logs hD hw hm hg h
      refine ⟨added, hlog, ?_⟩
      intro e he
      obtain ⟨_, _, _, _, rfl⟩ := hadded e he
      exact ⟨(fun _ _ hc => nomatch hc), fun _ _ hc => nomatch hc⟩

/-- Ids that collide or are reused, a group joined by both kinds of channel,
regrouped, and closed as a whole. -/
def sampleMessages : List ServerMessage :=
  [openStandardMessage 1 10 [1, 2], openExtendedMessage 2 10 0 [1, 3],
    openStandardMessage 10 11 [1],
    openStandardMessage 3 1 [1], openExtendedMessage 4 12 2 [1], setGroupMessage 11 [1],
    setGroupMessage 2 [1], prevHashMessage 10 5, closeMessage 10, closeMessage 99]

theorem sample_groups_consistent :
    ∃ w, play World.execute sampleWorld (handled sampleMessages) = some w ∧
      (∀ (g : UInt32) (group : SampleGroup), w.manager.groupChannels g = some group →
        (w.manager.standardChannels.containsKey g = false ∧
          w.manager.extendedChannels.containsKey g = false) ∧
        (∀ id ∈ sampleDeps.group.getChannelIds group,
          w.manager.standardChannels.containsKey id = true ∨
            w.manager.extendedChannels.containsKey id = true) ∧
        sampleDeps.group.isEmpty group = false) ∧
      (∀ (m : ServerMessage) (g : UInt32) (r : Except Sv2CpuMinerError Unit)
          (w' : World sampleDeps),
        groupAddressed m = some g → w.manager.groupChannels.containsKey g = true →
        WorldStep w (.message m r) w' → ∃ added, w'.log = w.log ++ added ∧ ∀ e ∈ added,
          (∀ g' id, e ≠ .groupListsUnknown g' id) ∧
            (∀ id message, e ≠ .channelNotFound id message)) := by
  obtain ⟨w, hw⟩ : ∃ w, play World.execute sampleWorld (handled sampleMessages) = some w :=
    Option.isSome_iff_exists.mp (by decide +kernel)
  exact ⟨w, hw, groups_stay_consistent sampleDeps sample_groupContract _ _ _ _ _ _ _ _
    (worldRun_of_play hw)⟩

end CpuMinerSv2.GroupConsistency
