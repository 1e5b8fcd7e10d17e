import CpuMinerSv2.GroupRefinement

/-!
An invariant of each miner by itself, over the runs of the manager: it holds
of every miner, stored or dropped, when a new miner has it, the events of a
miner keep it, and so do the calls a handler makes.
-/

namespace CpuMinerSv2.MinerInvariants

open Messages Channels Primitives Interference MineJob MinerMethods MinerRuns Manager
  ManagerFrames Deliveries Registry HandlerRuns GroupRefinement Relation

variable {D : Deps}

/-- Every miner has the property, stored or dropped. -/
def AllMiners (J : (kind : Kind) → ChannelMiner (D.client kind) → Prop) (w : World D) : Prop :=
  ∀ (kind : Kind) (place : Place) (miner : ChannelMiner (D.client kind)),
    w.minerAt kind place = some miner → J kind miner

section Lifting

variable {J : (kind : Kind) → ChannelMiner (D.client kind) → Prop}

theorem allMiners_of_rigs {w w' : World D} (hsame : SameRegistry w w')
    (hrigs : ∀ kind place r, w.rigAt kind place = some r → J kind r.miner →
      ∃ r', w'.rigAt kind place = some r' ∧ J kind r'.miner)
    (hw : AllMiners J w) : AllMiners J w' := by
  intro kind place miner' hm'
  obtain ⟨r, hr⟩ := hsame.rig_before hm'
  obtain ⟨r', hr', hJ⟩ := hrigs kind place r hr (hw kind place _ (rigAt_eq_some_iff.mp hr).1)
  have heq : r'.miner = miner' := Option.some.inj ((rigAt_eq_some_iff.mp hr').1.symm.trans hm')
  rw [← heq]
  exact hJ

theorem allMiners_of_subset {w w' : World D}
    (hsub : ∀ kind place miner, w'.minerAt kind place = some miner →
      ∃ place', w.minerAt kind place' = some miner) (hw : AllMiners J w) : AllMiners J w' := by
  intro kind place miner hm
  obtain ⟨place', hold⟩ := hsub kind place miner hm
  exact hw kind place' miner hold

theorem worldOthers_allMiners
    (hevents : ∀ kind r r', Others Unrestricted r r' → J kind r.miner → J kind r'.miner)
    {w w' : World D} (h : WorldOthers w w') (hw : AllMiners J w) : AllMiners J w' := by
  refine allMiners_of_rigs (worldOthers_sameRegistry h) ?_ hw
  intro kind place r hr hJ
  obtain ⟨r', hr', hothers⟩ := worldOthers_rigMoves h kind place r hr
  exact ⟨r', hr', hevents kind r r' hothers hJ⟩

theorem delivers_allMiners
    (hevents : ∀ kind r r', Others Unrestricted r r' → J kind r.miner → J kind r'.miner)
    {targets : (kind : Kind) → UInt32 → Call (D.client kind) → Prop} {w w' : World D}
    (hcalls : ∀ kind id c r r' res, targets kind id c → w.rigAt kind (.stored id) = some r →
      Runs (Interferes Unrestricted) c.program r res r' → J kind r.miner → J kind r'.miner)
    (hsame : SameRegistry w w') (h : Delivers targets w w') (hw : AllMiners J w) :
    AllMiners J w' := by
  refine allMiners_of_rigs hsame ?_ hw
  intro kind place r hr hJ
  obtain ⟨r', hr', hothers | ⟨id, c, res, rfl, ht, hrun⟩⟩ := h kind place r hr
  · exact ⟨r', hr', hevents kind r r' hothers hJ⟩
  · exact ⟨r', hr', hcalls kind id c r r' res ht hr hrun hJ⟩

theorem opened_allMiners {o : Opening D} {w : World D} {channel : (D.client o.kind).Channel}
    {group : D.group.GroupChannel}
    (hnew : J o.kind (new channel w.manager.cpuUsagePercent w.manager.singleSubmit))
    (hw : AllMiners J w) : AllMiners J (opened o w channel group) := by
  intro kind place miner hm
  unfold opened at hm
  cases place with
  | stored id =>
    by_cases hself : kind = o.kind ∧ id = o.channelId
    · obtain ⟨rfl, rfl⟩ := hself
      rw [minerAt_insertMiner_self] at hm
      cases hm
      exact hnew
    · rw [minerAt_insertMiner_stored _ _ hself, minerAt_setGroups] at hm
      exact hw kind (.stored id) miner hm
  | dropped n =>
    rcases minerAt_insertMiner_dropped _ hm with hold | ⟨rfl, hold⟩
    · rw [minerAt_setGroups] at hold
      exact hw kind (.dropped n) miner hold
    · rw [minerAt_setGroups] at hold
      exact hw _ (.stored o.channelId) miner hold

theorem closeOne_allMiners {w : World D} {id : UInt32} (hw : AllMiners J w) :
    AllMiners J (closeOne w id) := by
  refine allMiners_of_subset ?_ hw
  intro kind place miner hm
  rcases closeOne_cases w id with ⟨kind', old, _, hstored, heq⟩ | ⟨_, heq⟩
  · rw [heq, minerAt_leaveGroups] at hm
    cases place with
    | stored a =>
      by_cases hself : kind = kind' ∧ a = id
      · obtain ⟨rfl, rfl⟩ := hself
        rw [minerAt_removeMiner_self] at hm
        contradiction
      · rw [minerAt_removeMiner_stored w old hself] at hm
        exact ⟨.stored a, hm⟩
    | dropped n =>
      rcases minerAt_removeMiner_dropped w hstored hm with hold | ⟨rfl, hold⟩
      · exact ⟨.dropped n, hold⟩
      · exact ⟨.stored id, hold⟩
  · rw [heq, minerAt_logError] at hm
    exact ⟨place, hm⟩

theorem handlerRun_allMiners
    (hevents : ∀ kind r r', Others Unrestricted r r' → J kind r.miner → J kind r'.miner)
    {m : ServerMessage} {w w' : World D} {res : Except Sv2CpuMinerError Unit}
    (hnew : ∀ (o : Opening D) channel group, opening m = some o → Accepts o w channel group →
      J o.kind (new channel w.manager.cpuUsagePercent w.manager.singleSubmit))
    (hcalls : ∀ kind id c r r' res, Targets w m kind id c → w.rigAt kind (.stored id) = some r →
      Runs (Interferes Unrestricted) c.program r res r' → J kind r.miner → J kind r'.miner)
    (h : HandlerRun w m res w') (hw : AllMiners J w) : AllMiners J w' := by
  have hothers : ∀ {a b : World D}, WorldOthers a b → AllMiners J a → AllMiners J b :=
    fun hab ha => worldOthers_allMiners hevents hab ha
  cases h with
  | quiet hsame hdelivers => exact delivers_allMiners hevents hcalls hsame hdelivers hw
  | opened ho h₁ hacc h' =>
    have hsame := worldOthers_sameRegistry h₁
    have hmade := hnew _ _ _ ho (accepts_congr hsame ho hacc)
    rw [← hsame.cpuUsagePercent, ← hsame.singleSubmit] at hmade
    exact hothers h' (opened_allMiners hmade (hothers h₁ hw))
  | @closed m _ _ h₁ h' =>
    refine hothers h' (closeChannel_preserve (I := AllMiners J) ?_ ?_ _ (hothers h₁ hw))
    · exact fun _ _ ha => closeOne_allMiners ha
    · intro a ha kind place miner hm
      rw [minerAt_retainNonempty] at hm
      exact ha kind place miner hm
  | regrouped hfree hlisted h₁ h' =>
    refine hothers h' ?_
    intro kind place miner hm
    rw [minerAt_regroup] at hm
    exact hothers h₁ hw kind place miner hm

theorem step_allMiners (hD : GroupContract D.group)
    (hevents : ∀ kind r r', Others Unrestricted r r' → J kind r.miner → J kind r'.miner)
    {w w' : World D} {l : WorldLabel}
    (hnew : ∀ m x (o : Opening D) channel group, l = .message m x → opening m = some o →
      Accepts o w channel group →
        J o.kind (new channel w.manager.cpuUsagePercent w.manager.singleSubmit))
    (hcalls : ∀ m x kind id c r r' res, l = .message m x → Targets w m kind id c →
      w.rigAt kind (.stored id) = some r → Runs (Interferes Unrestricted) c.program r res r' →
        J kind r.miner → J kind r'.miner)
    (hne : NonemptyGroups w) (h : WorldStep w l w') (hw : AllMiners J w) : AllMiners J w' := by
  cases h with
  | event he => exact worldOthers_allMiners hevents (.single ⟨_, he⟩) hw
  | message hmessage =>
    refine handlerRun_allMiners hevents ?_ ?_ (handle_cases hD hne hmessage) hw
    · exact fun o channel group => hnew _ _ o channel group rfl
    · exact fun kind id c r r' res => hcalls _ _ kind id c r r' res rfl

theorem run_allMiners (hD : GroupContract D.group) {guard : World D → WorldLabel → Prop}
    (hevents : ∀ kind r r', Others Unrestricted r r' → J kind r.miner → J kind r'.miner)
    {userIdentity : String} {nominalHashrate : F32} {singleSubmit : Bool} {cpuUsagePercent : ℕ}
    {requiresStandardJobs : Bool} {amb : Ambient} {ls : List WorldLabel} {w : World D}
    (hnew : ∀ kind channel, J kind (new channel cpuUsagePercent singleSubmit))
    (hcalls : ∀ w m x kind id c r r' res, guard w (.message m x) → Targets w m kind id c →
      w.rigAt kind (.stored id) = some r → Runs (Interferes Unrestricted) c.program r res r' →
        J kind r.miner → J kind r'.miner)
    (hrun : Run (Guarded guard WorldStep) (World.initial (ChannelManager.new userIdentity
      nominalHashrate singleSubmit cpuUsagePercent requiresStandardJobs) amb) ls w) :
    AllMiners J w := by
  have hinv : WellGrouped w ∧ settings w.manager = (userIdentity, nominalHashrate, singleSubmit,
      cpuUsagePercent, requiresStandardJobs) ∧ AllMiners J w := by
    refine hrun.invariant (I := fun w => WellGrouped w ∧ settings w.manager = (userIdentity,
      nominalHashrate, singleSubmit, cpuUsagePercent, requiresStandardJobs) ∧ AllMiners J w) ?_
      ⟨initial_wellGrouped _ _ _ _ _ _, rfl, ?_⟩
    · intro s l s' hs hstep
      obtain ⟨hgroups, hsettings, hall⟩ := hs
      refine ⟨step_wellGrouped hD hgroups hstep.2,
        (step_settings hD hgroups.nonempty hstep.2).trans hsettings, ?_⟩
      refine step_allMiners hD hevents ?_ ?_ hgroups.nonempty hstep.2 hall
      · intro _ _ o channel _ _ _ _
        have hcpu : s.manager.cpuUsagePercent = cpuUsagePercent :=
          congrArg (fun s => s.2.2.2.1) hsettings
        have hsingle : s.manager.singleSubmit = singleSubmit :=
          congrArg (fun s => s.2.2.1) hsettings
        rw [hcpu, hsingle]
        exact hnew o.kind channel
      · intro m x kind id c r r' res hl
        subst hl
        exact hcalls s m x kind id c r r' res hstep.1
    · intro kind place miner hm
      cases kind <;> cases place <;> exact nomatch hm
  exact hinv.2.2

end Lifting

end CpuMinerSv2.MinerInvariants
