import CpuMinerSv2.GroupRefinement
import CpuMinerSv2.SampleWorlds

/-!
The tasks of miners that are no longer stored. A miner that is removed or
overwritten is dropped as it is: nothing cancels its token, so a task it has
spawned goes on. Only when every miner let go of has no live task does each
live task belong to a stored miner.
-/

namespace CpuMinerSv2.RemovedMiners

open Messages Channels Primitives MineJob MinerMethods TaskSteps MinerRuns Manager ManagerFrames
  Deliveries Registry HandlerRuns GroupRefinement SampleDeps SampleWorlds

section Rigs

variable {K : ClientChannel}

/-- Every task of the miner sees one of its tokens cancelled. -/
def NoLiveTask (r : Rig K) : Prop :=
  ∀ task ∈ r.miner.tasks, r.miner.cancelled r.ambient task = true

theorem frame_noLiveTask {m m' : ChannelMiner K} {amb : Ambient} (hf : TaskFrame m m')
    (h : NoLiveTask ⟨amb, m⟩) : NoLiveTask ⟨amb, m'⟩ := by
  intro task' ht'
  obtain ⟨i, hi⟩ := List.mem_iff_getElem?.mp ht'
  obtain ⟨task, ht, htoken⟩ := hf.task_before hi
  have hbefore := h task (List.mem_of_getElem? ht)
  simp only [ChannelMiner.cancelled, Bool.or_eq_true] at hbefore ⊢
  rcases hbefore with hglobal | hraised
  · exact .inl hglobal
  · rw [← htoken]
    exact .inr (hf.raised _ hraised)

theorem others_noLiveTask {r r' : Rig K} (h : Others Unrestricted r r') (hr : NoLiveTask r) :
    NoLiveTask r' := by
  refine others_preserve (I := NoLiveTask) ?_ h hr
  intro a b hab ha
  obtain ⟨e, _, he⟩ := hab
  rcases advance_cases he with ⟨i, move, m', rfl, hs, rfl⟩ | ⟨hm, _, hglobal⟩
  · exact frame_noLiveTask hs.frame ha
  · intro task ht
    rw [hm] at ht ⊢
    have hbefore := ha task ht
    simp only [ChannelMiner.cancelled, Bool.or_eq_true] at hbefore ⊢
    rcases hbefore with h | h
    · exact .inl (hglobal h)
    · exact .inr h

end Rigs

section Worlds

variable {D : Deps}

/-- No miner that was let go of has a live task. -/
def DroppedQuiet (w : World D) : Prop :=
  ∀ kind n r, w.rigAt kind (.dropped n) = some r → NoLiveTask r

/-- The miners a step lets go of have no live task: those that a `CloseChannel`
removes, and the one that an accepted opening overwrites. -/
def DropsQuietly (w : World D) : WorldLabel → Prop
  | .event _ => True
  | .message m _ =>
    (∀ c, m = .closeChannel c → ∀ id ∈ w.manager.addressedChannels c.channelId, ∀ kind r,
      Resolves w kind id → w.rigAt kind (.stored id) = some r → NoLiveTask r) ∧
    (∀ o, opening m = some o → (∃ channel group, Accepts o w channel group) →
      ∀ r, w.rigAt o.kind (.stored o.channelId) = some r → NoLiveTask r)

theorem rigMoves_noLiveTask {w w' : World D} (hsame : SameRegistry w w') {kind : Kind}
    {place : Place} (hmoves : RigMoves kind place w w')
    (hw : ∀ r, w.rigAt kind place = some r → NoLiveTask r) {r' : Rig (D.client kind)}
    (hr' : w'.rigAt kind place = some r') : NoLiveTask r' := by
  obtain ⟨r, hr⟩ := hsame.rig_before (rigAt_eq_some_iff.mp hr').1
  obtain ⟨s, hs, hothers⟩ := hmoves r hr
  cases hr'.symm.trans hs
  exact others_noLiveTask hothers (hw _ hr)

theorem worldOthers_noLiveTask {w w' : World D} (h : WorldOthers w w') {kind : Kind}
    {place : Place} (hw : ∀ r, w.rigAt kind place = some r → NoLiveTask r)
    (r' : Rig (D.client kind)) (hr' : w'.rigAt kind place = some r') : NoLiveTask r' :=
  rigMoves_noLiveTask (worldOthers_sameRegistry h) (worldOthers_rigMoves h kind place) hw hr'

theorem worldOthers_droppedQuiet {w w' : World D} (h : WorldOthers w w') (hw : DroppedQuiet w) :
    DroppedQuiet w' :=
  fun kind n => worldOthers_noLiveTask h (hw kind n)

theorem quiet_droppedQuiet {m : ServerMessage} {w w' : World D} (hsame : SameRegistry w w')
    (hcalls : Delivers (Targets w m) w w') (hw : DroppedQuiet w) : DroppedQuiet w' := by
  intro kind n r' hr'
  refine rigMoves_noLiveTask hsame ?_ (hw kind n) hr'
  intro r hr
  obtain ⟨s, hs, hothers | ⟨_, _, _, hplace, _⟩⟩ := hcalls kind (.dropped n) r hr
  · exact ⟨s, hs, hothers⟩
  · contradiction

theorem opened_droppedQuiet {o : Opening D} {w : World D} {channel : (D.client o.kind).Channel}
    {group : D.group.GroupChannel} (hw : DroppedQuiet w)
    (hover : ∀ r, w.rigAt o.kind (.stored o.channelId) = some r → NoLiveTask r) :
    DroppedQuiet (opened o w channel group) := by
  intro kind n r hr
  obtain ⟨hm, hamb⟩ := rigAt_eq_some_iff.mp hr
  unfold opened at hm hamb
  rw [ambient_insertMiner] at hamb
  rcases minerAt_insertMiner_dropped _ hm with hold | ⟨rfl, hstored⟩
  · rw [minerAt_setGroups] at hold
    exact hw kind n r (rigAt_eq_some_iff.mpr ⟨hold, hamb⟩)
  · rw [minerAt_setGroups] at hstored
    exact hover r (rigAt_eq_some_iff.mpr ⟨hstored, hamb⟩)

theorem ambient_closeOne (w : World D) (id : UInt32) : (closeOne w id).ambient = w.ambient := by
  rcases closeOne_cases w id with ⟨kind, miner, _, _, heq⟩ | ⟨_, heq⟩
  · rw [heq]
    exact ambient_setDropped w kind _
  · rw [heq]
    rfl

theorem closeOne_other (w : World D) {id a : UInt32} (hne : a ≠ id) (kind : Kind) :
    (closeOne w id).minerAt kind (.stored a) = w.minerAt kind (.stored a) := by
  rcases closeOne_cases w id with ⟨kind', miner, _, _, heq⟩ | ⟨_, heq⟩
  · rw [heq, minerAt_leaveGroups, minerAt_removeMiner_stored w miner (fun h => hne h.2)]
  · rw [heq, minerAt_logError]

theorem closeOne_droppedQuiet {w : World D} {id : UInt32} (hw : DroppedQuiet w)
    (hclosed : ∀ kind r, Resolves w kind id → w.rigAt kind (.stored id) = some r → NoLiveTask r) :
    DroppedQuiet (closeOne w id) := by
  intro kind n r hr
  obtain ⟨hm, hamb⟩ := rigAt_eq_some_iff.mp hr
  rw [ambient_closeOne] at hamb
  rcases closeOne_cases w id with ⟨kind', miner, hres, hstored, heq⟩ | ⟨_, heq⟩
  · rw [heq, minerAt_leaveGroups] at hm
    rcases minerAt_removeMiner_dropped w hstored hm with hold | ⟨rfl, hsame⟩
    · exact hw kind n r (rigAt_eq_some_iff.mpr ⟨hold, hamb⟩)
    · exact hclosed kind r hres (rigAt_eq_some_iff.mpr ⟨hsame, hamb⟩)
  · rw [heq, minerAt_logError] at hm
    exact hw kind n r (rigAt_eq_some_iff.mpr ⟨hm, hamb⟩)

theorem closeAll_droppedQuiet {ids : List UInt32} (hnodup : ids.Nodup) {w : World D}
    (hw : DroppedQuiet w) (hclosed : ∀ id ∈ ids, ∀ kind r, Resolves w kind id →
      w.rigAt kind (.stored id) = some r → NoLiveTask r) : DroppedQuiet (ids.foldl closeOne w) := by
  induction ids generalizing w with
  | nil => exact hw
  | cons a rest ih =>
    obtain ⟨hnot, hrest⟩ := List.nodup_cons.mp hnodup
    apply ih hrest (closeOne_droppedQuiet hw (hclosed a List.mem_cons_self))
    intro id hid kind r hres hr
    have hne : id ≠ a := fun h => hnot (h ▸ hid)
    obtain ⟨hm, hamb⟩ := rigAt_eq_some_iff.mp hr
    rw [closeOne_other w hne] at hm
    rw [ambient_closeOne] at hamb
    refine hclosed id (List.mem_cons_of_mem _ hid) kind r ?_ (rigAt_eq_some_iff.mpr ⟨hm, hamb⟩)
    rcases hres with hstd | hnone
    · exact .inl hstd
    · right
      have hkey := congrArg Option.isSome (closeOne_other w hne .standard)
      exact hkey.symm.trans hnone

theorem step_droppedQuiet (hD : GroupContract D.group) {w w' : World D} {l : WorldLabel}
    (hgroups : WellGrouped w) (hw : DroppedQuiet w) (hguard : DropsQuietly w l)
    (h : WorldStep w l w') : DroppedQuiet w' := by
  cases h with
  | event he => exact worldOthers_droppedQuiet (.single ⟨_, he⟩) hw
  | message hrun =>
    cases handle_cases hD hgroups.nonempty hrun with
    | quiet hsame hcalls => exact quiet_droppedQuiet hsame hcalls hw
    | @opened _ o w₁ _ channel group ho h₁ hacc h' =>
      have hbefore := worldOthers_sameRegistry h₁
      have hover := hguard.2 o ho ⟨channel, group, accepts_congr hbefore ho hacc⟩
      exact worldOthers_droppedQuiet h' (opened_droppedQuiet (worldOthers_droppedQuiet h₁ hw)
        (worldOthers_noLiveTask h₁ hover))
    | @closed m w₁ _ h₁ h' =>
      have hbefore := worldOthers_sameRegistry h₁
      have hids := hbefore.addressedChannels m.channelId
      have hclosed :
          DroppedQuiet ((w₁.manager.addressedChannels m.channelId).foldl closeOne w₁) := by
        apply closeAll_droppedQuiet (addressedChannels_nodup hD _ _)
          (worldOthers_droppedQuiet h₁ hw)
        intro id hid kind r hres hr
        rw [hids] at hid
        refine worldOthers_noLiveTask h₁ ?_ r hr
        intro r₀ hr₀
        exact hguard.1 m rfl id hid kind r₀ (hbefore.resolves.mp hres) hr₀
      refine worldOthers_droppedQuiet h' ?_
      intro kind n r hr
      obtain ⟨hm, hamb⟩ := rigAt_eq_some_iff.mp hr
      rw [closeChannel, minerAt_retainNonempty] at hm
      exact hclosed kind n r (rigAt_eq_some_iff.mpr ⟨hm, hamb⟩)
    | @regrouped m redefined w₁ _ _ _ h₁ h' =>
      refine worldOthers_droppedQuiet h' ?_
      intro kind n r hr
      obtain ⟨hm, hamb⟩ := rigAt_eq_some_iff.mp hr
      rw [minerAt_regroup] at hm
      exact worldOthers_droppedQuiet h₁ hw kind n r (rigAt_eq_some_iff.mpr ⟨hm, hamb⟩)

end Worlds

/-- In every run in which no miner with a live task is closed or overwritten,
each live task belongs to a stored miner. -/
theorem live_tasks_belong_to_stored_miners (D : Deps) (hD : GroupContract D.group)
    (userIdentity : String) (nominalHashrate : F32) (singleSubmit : Bool) (cpuUsagePercent : ℕ)
    (requiresStandardJobs : Bool) (amb : Ambient) (ls : List WorldLabel) (w : World D)
    (hrun : Run (Guarded DropsQuietly WorldStep) (World.initial (ChannelManager.new userIdentity
      nominalHashrate singleSubmit cpuUsagePercent requiresStandardJobs) amb) ls w)
    (kind : Kind) (place : Place) (miner : ChannelMiner (D.client kind))
    (hm : w.minerAt kind place = some miner) (task : MiningTask (D.client kind))
    (ht : task ∈ miner.tasks) (hlive : miner.cancelled w.ambient task = false) :
    ∃ id, place = .stored id := by
  have hinv : WellGrouped w ∧ DroppedQuiet w := by
    refine hrun.invariant (I := fun w => WellGrouped w ∧ DroppedQuiet w) ?_
      ⟨initial_wellGrouped _ _ _ _ _ _, ?_⟩
    · intro s l s' hs hstep
      exact ⟨step_wellGrouped hD hs.1 hstep.2, step_droppedQuiet hD hs.1 hs.2 hstep.1 hstep.2⟩
    · intro kind n r hr
      cases kind <;> exact nomatch hr
  cases place with
  | stored id => exact ⟨id, rfl⟩
  | dropped n =>
    have hcancelled := hinv.2 kind n ⟨w.ambient, miner⟩ (rigAt_eq_some_iff.mpr ⟨hm, rfl⟩) task ht
    rw [hcancelled] at hlive
    contradiction

/-- The tasks of the first standard miner dropped, whether they are cancelled,
and the number of shares it has sent. -/
def droppedTasks (w : World sampleDeps) : Option (List Bool × ℕ) :=
  (w.minerAt .standard (.dropped 0)).map fun miner =>
    (miner.tasks.map (miner.cancelled w.ambient), miner.sent.length)

/-- A channel is closed while it mines. Its task stays live and then sends a
share for the closed channel. -/
def closedWhileMining : List WorldLabel :=
  handled [openStandardMessage 1 10 [1, 2], newJobMessage 1 5 none, prevHashMessage 1 5,
    closeMessage 1] ++ List.replicate 8 (.event (.task .standard (.dropped 0) 0 .next))

theorem closed_channel_still_mines :
    ¬ ∀ (D : Deps), GroupContract D.group → ∀ (amb : Ambient) (ls : List WorldLabel) (w : World D),
      Run WorldStep (World.initial (ChannelManager.new "miner" (.finite 1) false 100 false) amb)
        ls w →
      ∀ (kind : Kind) (place : Place) (miner : ChannelMiner (D.client kind)),
        w.minerAt kind place = some miner → ∀ task ∈ miner.tasks,
          miner.cancelled w.ambient task = false → ∃ id, place = .stored id := by
  intro hclaim
  have hplay : (play World.execute sampleWorld closedWhileMining).map droppedTasks =
      some (some ([false], 1)) := by decide +kernel
  obtain ⟨w, hw, htasks⟩ := Option.map_eq_some_iff.mp hplay
  obtain ⟨miner, hm, hlist⟩ := Option.map_eq_some_iff.mp htasks
  have hlive : false ∈ miner.tasks.map (miner.cancelled w.ambient) := by
    rw [(Prod.mk.inj hlist).1]
    exact List.mem_singleton_self false
  obtain ⟨task, ht, hcancelled⟩ := List.mem_map.mp hlive
  obtain ⟨id, hplace⟩ := hclaim sampleDeps sample_groupContract _ _ w (worldRun_of_play hw)
    .standard (.dropped 0) miner hm task ht hcancelled
  contradiction

/-- Fresh ids are opened, and the channels closed have cancelled tasks only. -/
def dropsCancelled (w : World sampleDeps) (l : WorldLabel) : Bool :=
  opensFresh w l && match l with
    | .message (.closeChannel c) _ => (w.manager.addressedChannels c.channelId).all fun id =>
        (w.minerAt .standard (.stored id)).all (fun miner =>
          miner.tasks.all (miner.cancelled w.ambient)) &&
        (w.minerAt .extended (.stored id)).all (fun miner =>
          miner.tasks.all (miner.cancelled w.ambient))
    | _ => true

theorem dropsQuietly_of_cancelled {w : World sampleDeps} {l : WorldLabel}
    (h : dropsCancelled w l = true) : DropsQuietly w l := by
  obtain ⟨hfresh, hcancelled⟩ := Bool.and_eq_true_iff.mp h
  cases l with
  | event e => trivial
  | message m r =>
    refine ⟨?_, ?_⟩
    · intro c hm id hid kind rig _ hrig
      subst hm
      have hboth := Bool.and_eq_true_iff.mp (List.all_eq_true.mp hcancelled id hid)
      obtain ⟨hminer, hamb⟩ := rigAt_eq_some_iff.mp hrig
      have hall : rig.miner.tasks.all (rig.miner.cancelled w.ambient) = true := by
        cases kind with
        | standard =>
          rw [hminer] at hboth
          exact hboth.1
        | extended =>
          rw [hminer] at hboth
          exact hboth.2
      rw [← hamb] at hall
      exact List.all_eq_true.mp hall
    · intro o ho _ rig hrig
      have hopen : ChannelOpen w o.channelId :=
        ⟨o.kind, Option.isSome_of_eq_some (rigAt_eq_some_iff.mp hrig).1⟩
      exact absurd hopen (not_open_of_fresh hfresh ho)

/-- One channel is closed before it mines, another one mines. -/
def sampleClosing : List WorldLabel :=
  handled [openStandardMessage 1 10 [1, 2], closeMessage 1, openStandardMessage 2 10 [1, 2],
    newJobMessage 2 5 none, prevHashMessage 2 5]

/-- The connection is shut down before a channel that mines is closed. -/
def sampleShutdown : List WorldLabel :=
  handled [openStandardMessage 1 10 [1, 2], newJobMessage 1 5 none, prevHashMessage 1 5] ++
    [.event .shutdown] ++ handled [closeMessage 1]

theorem droppedRun_of_play {ls : List WorldLabel} {w : World sampleDeps}
    (h : play (fun w l => if dropsCancelled w l then w.execute l else none) sampleWorld ls =
      some w) : Run (Guarded DropsQuietly WorldStep) sampleWorld ls w :=
  guardedRun_of_play (fun _ _ => dropsQuietly_of_cancelled) (fun _ _ _ => worldStep_of_execute) h

/-- A live task is one of a stored miner, and that of a miner dropped after the
shutdown is not live. -/
theorem sample_live_task_stored :
    (∃ w miner task, Run (Guarded DropsQuietly WorldStep) sampleWorld sampleClosing w ∧
      w.minerAt .standard (.stored 2) = some miner ∧ task ∈ miner.tasks ∧
      miner.cancelled w.ambient task = false ∧ ∃ id, Place.stored 2 = .stored id) ∧
    ∃ w miner task, Run (Guarded DropsQuietly WorldStep) sampleWorld sampleShutdown w ∧
      w.minerAt .standard (.dropped 0) = some miner ∧ task ∈ miner.tasks ∧
      miner.cancelled w.ambient task = true := by
  have hplay : (play (fun w l => if dropsCancelled w l then w.execute l else none) sampleWorld
      sampleClosing).map (fun w => (w.minerAt .standard (.stored 2)).map fun miner =>
        miner.tasks.map (miner.cancelled w.ambient)) = some (some [false]) := by decide +kernel
  have hplay' : ((play (fun w l => if dropsCancelled w l then w.execute l else none) sampleWorld
      sampleShutdown).bind fun w => (w.minerAt .standard (.dropped 0)).bind fun miner =>
        miner.tasks[0]?).isSome = true := by decide +kernel
  constructor
  · obtain ⟨w, hw, htasks⟩ := Option.map_eq_some_iff.mp hplay
    obtain ⟨miner, hm, hlist⟩ := Option.map_eq_some_iff.mp htasks
    have hlive : false ∈ miner.tasks.map (miner.cancelled w.ambient) := by
      rw [hlist]
      exact List.mem_singleton_self false
    obtain ⟨task, ht, hcancelled⟩ := List.mem_map.mp hlive
    have hrun := droppedRun_of_play hw
    exact ⟨w, miner, task, hrun, hm, ht, hcancelled, live_tasks_belong_to_stored_miners sampleDeps
      sample_groupContract "miner" (.finite 1) false 100 false ⟨0, false⟩ _ w hrun .standard
      (.stored 2) miner hm task ht hcancelled⟩
  · obtain ⟨task, htask⟩ := Option.isSome_iff_exists.mp hplay'
    obtain ⟨w, hw, htask⟩ := Option.bind_eq_some_iff.mp htask
    obtain ⟨miner, hm, htask⟩ := Option.bind_eq_some_iff.mp htask
    have hrun := droppedRun_of_play hw
    have ht := List.mem_of_getElem? htask
    refine ⟨w, miner, task, hrun, hm, ht, ?_⟩
    by_contra hlive
    obtain ⟨id, hplace⟩ := live_tasks_belong_to_stored_miners sampleDeps
      sample_groupContract "miner" (.finite 1) false 100 false ⟨0, false⟩ _ w hrun .standard
      (.dropped 0) miner hm task ht (Bool.eq_false_iff.mpr hlive)
    contradiction

end CpuMinerSv2.RemovedMiners
