import CpuMinerSv2.MinerInvariants
import CpuMinerSv2.RemovedMiners

/-!
Where a miner of the manager comes from. Whatever the server sends, a miner
found in the world, stored or dropped, is one that an opening has made and
that has since gone on by itself: events, and calls that the messages of the
run make. What is known of the runs of a single miner holds of each of them.
-/

namespace CpuMinerSv2.Histories

open Messages Channels Primitives Interference MineJob MinerMethods MinerRuns Manager ManagerFrames
  Deliveries Registry HandlerRuns GroupRefinement RemovedMiners

variable {D : Deps}

section Lifting

/-- Stored under this id, or not stored any more. -/
def Under (id : UInt32) (place : Place) : Prop := ∀ a, place = .stored a → a = id

/-- Every rig has the property, with the id it is or was stored under. -/
def AllRigs (J : (kind : Kind) → UInt32 → Rig (D.client kind) → Prop) (w : World D) : Prop :=
  ∀ (kind : Kind) (place : Place) (miner : ChannelMiner (D.client kind)),
    w.minerAt kind place = some miner → ∃ id, Under id place ∧ J kind id ⟨w.ambient, miner⟩

variable {J : (kind : Kind) → UInt32 → Rig (D.client kind) → Prop}

theorem AllRigs.rig {w : World D} (h : AllRigs J w) {kind : Kind} {place : Place}
    {r : Rig (D.client kind)} (hr : w.rigAt kind place = some r) :
    ∃ id, Under id place ∧ J kind id r := by
  obtain ⟨hm, hamb⟩ := rigAt_eq_some_iff.mp hr
  obtain ⟨id, hid, hJ⟩ := h kind place r.miner hm
  rw [← hamb] at hJ
  exact ⟨id, hid, hJ⟩

theorem AllRigs.mono {J' : (kind : Kind) → UInt32 → Rig (D.client kind) → Prop} {w : World D}
    (h : AllRigs J w) (hJ : ∀ kind id r, J kind id r → J' kind id r) : AllRigs J' w := by
  intro kind place miner hm
  obtain ⟨id, hid, hmJ⟩ := h kind place miner hm
  exact ⟨id, hid, hJ kind id _ hmJ⟩

theorem allRigs_of_moved {w w' : World D} (hamb : w'.ambient = w.ambient)
    (hmoved : ∀ kind place miner, w'.minerAt kind place = some miner →
      ∃ place', w.minerAt kind place' = some miner ∧ ∀ a, place = .stored a → place' = .stored a)
    (hw : AllRigs J w) : AllRigs J w' := by
  intro kind place miner hm
  obtain ⟨place', hm', hplace⟩ := hmoved kind place miner hm
  obtain ⟨id, hid, hJ⟩ := hw kind place' miner hm'
  rw [hamb]
  exact ⟨id, fun a ha => hid a (hplace a ha), hJ⟩

theorem allRigs_of_delivers {targets : (kind : Kind) → UInt32 → Call (D.client kind) → Prop}
    (hevents : ∀ kind id r r', Others Unrestricted r r' → J kind id r → J kind id r')
    (hcalls : ∀ kind id c r r' res, targets kind id c →
      Runs (Interferes Unrestricted) c.program r res r' → J kind id r → J kind id r')
    {w w' : World D} (hsame : SameRegistry w w') (h : Delivers targets w w') (hw : AllRigs J w) :
    AllRigs J w' := by
  intro kind place miner' hm'
  obtain ⟨r, hr⟩ := hsame.rig_before hm'
  obtain ⟨id, hid, hJ⟩ := hw.rig hr
  have hafter : w'.rigAt kind place = some ⟨w'.ambient, miner'⟩ :=
    rigAt_eq_some_iff.mpr ⟨hm', rfl⟩
  obtain ⟨r', hr', hgoes⟩ := h kind place r hr
  have hsame' : r' = ⟨w'.ambient, miner'⟩ := Option.some.inj (hr'.symm.trans hafter)
  subst hsame'
  refine ⟨id, hid, ?_⟩
  rcases hgoes with hothers | ⟨a, c, res, hplace, ht, hrun⟩
  · exact hevents kind id r _ hothers hJ
  · rw [hid a hplace] at ht
    exact hcalls kind id c r _ res ht hrun hJ

theorem worldOthers_allRigs
    (hevents : ∀ kind id r r', Others Unrestricted r r' → J kind id r → J kind id r')
    {w w' : World D} (h : WorldOthers w w') (hw : AllRigs J w) : AllRigs J w' := by
  have hnone : Delivers (fun _ _ _ => False) w w' := Delivers.of_rigMoves (worldOthers_rigMoves h)
  refine allRigs_of_delivers hevents ?_ (worldOthers_sameRegistry h) hnone hw
  intro kind id c r r' res ht
  contradiction

theorem closeOne_allRigs {w : World D} {id : UInt32} (hw : AllRigs J w) :
    AllRigs J (closeOne w id) := by
  refine allRigs_of_moved (ambient_closeOne w id) ?_ hw
  intro kind place miner hm
  rcases closeOne_cases w id with ⟨kind', old, _, hstored, heq⟩ | ⟨_, heq⟩
  · rw [heq, minerAt_leaveGroups] at hm
    cases place with
    | stored a =>
      have hother : ¬ (kind = kind' ∧ a = id) := by
        rintro ⟨rfl, rfl⟩
        rw [minerAt_removeMiner_self] at hm
        contradiction
      rw [minerAt_removeMiner_stored w old hother] at hm
      exact ⟨.stored a, hm, fun _ ha => ha⟩
    | dropped n =>
      rcases minerAt_removeMiner_dropped w hstored hm with hold | ⟨_, hold⟩
      · exact ⟨.dropped n, hold, fun _ ha => ha⟩
      · refine ⟨.stored id, hold, ?_⟩
        intro a ha
        contradiction
  · rw [heq, minerAt_logError] at hm
    exact ⟨place, hm, fun _ ha => ha⟩

theorem closeChannel_allRigs {w : World D} {id : UInt32} (hw : AllRigs J w) :
    AllRigs J (closeChannel id w) := by
  refine closeChannel_preserve (fun w id hw => closeOne_allRigs hw) ?_ id hw
  intro w hw
  refine allRigs_of_moved rfl ?_ hw
  intro kind place miner hm
  rw [minerAt_retainNonempty] at hm
  exact ⟨place, hm, fun _ ha => ha⟩

theorem opened_allRigs {o : Opening D} {w : World D} {channel : (D.client o.kind).Channel}
    {group : D.group.GroupChannel}
    (hnew : J o.kind o.channelId
      ⟨w.ambient, new channel w.manager.cpuUsagePercent w.manager.singleSubmit⟩)
    (hw : AllRigs J w) : AllRigs J (opened o w channel group) := by
  intro kind place miner hm
  have hamb : (opened o w channel group).ambient = w.ambient := ambient_insertMiner _ _ _ _
  rw [hamb]
  unfold opened at hm
  cases place with
  | stored a =>
    by_cases hself : kind = o.kind ∧ a = o.channelId
    · obtain ⟨rfl, rfl⟩ := hself
      rw [minerAt_insertMiner_self] at hm
      cases hm
      exact ⟨o.channelId, fun _ ha => (Place.stored.inj ha).symm, hnew⟩
    · rw [minerAt_insertMiner_stored _ _ hself, minerAt_setGroups] at hm
      exact hw kind (.stored a) miner hm
  | dropped n =>
    rcases minerAt_insertMiner_dropped _ hm with hold | ⟨rfl, hold⟩
    · rw [minerAt_setGroups] at hold
      exact hw kind (.dropped n) miner hold
    · rw [minerAt_setGroups] at hold
      obtain ⟨id, _, hJ⟩ := hw _ (.stored o.channelId) miner hold
      refine ⟨id, ?_, hJ⟩
      intro a ha
      contradiction

/-- A handler: what openings make has the property, and events and the calls
of its message keep it. -/
theorem handlerRun_allRigs
    (hevents : ∀ kind id r r', Others Unrestricted r r' → J kind id r → J kind id r')
    {m : ServerMessage} {w w' : World D} {res : Except Sv2CpuMinerError Unit}
    (hnew : ∀ (o : Opening D) channel group amb, opening m = some o → Accepts o w channel group →
      J o.kind o.channelId ⟨amb, new channel w.manager.cpuUsagePercent w.manager.singleSubmit⟩)
    (hcalls : ∀ kind id c r r' res, Targets w m kind id c →
      Runs (Interferes Unrestricted) c.program r res r' → J kind id r → J kind id r')
    (h : HandlerRun w m res w') (hw : AllRigs J w) : AllRigs J w' := by
  have hothers : ∀ {a b : World D}, WorldOthers a b → AllRigs J a → AllRigs J b :=
    fun hab ha => worldOthers_allRigs hevents hab ha
  cases h with
  | quiet hsame hdelivers => exact allRigs_of_delivers hevents hcalls hsame hdelivers hw
  | @opened _ o w₁ _ channel group ho h₁ hacc h' =>
    have hsame := worldOthers_sameRegistry h₁
    have hmade := hnew o channel group w₁.ambient ho (accepts_congr hsame ho hacc)
    rw [← hsame.cpuUsagePercent, ← hsame.singleSubmit] at hmade
    exact hothers h' (opened_allRigs hmade (hothers h₁ hw))
  | closed h₁ h' => exact hothers h' (closeChannel_allRigs (hothers h₁ hw))
  | @regrouped m redefined w₁ _ _ _ h₁ h' =>
    have hbefore : AllRigs J w₁ := hothers h₁ hw
    refine hothers h' (allRigs_of_moved rfl ?_ hbefore)
    intro kind place miner hm
    rw [minerAt_regroup] at hm
    exact ⟨place, hm, fun _ ha => ha⟩

end Lifting

section Descent

/-- The messages a run handles. -/
def messagesOf (ls : List WorldLabel) : List ServerMessage :=
  ls.filterMap fun l => match l with
    | .event _ => none
    | .message m _ => some m

/-- After what is done, these labels have the message handled, from this world. -/
def Handles (w₀ : World D) (done ls : List WorldLabel) (m : ServerMessage) (w : World D) : Prop :=
  ∃ before res after, ls = before ++ .message m res :: after ∧
    Run WorldStep w₀ (done ++ before) w

/-- A message handled makes the call on the miner that is stored under the id. -/
def Asked (w₀ : World D) (done ls : List WorldLabel) (kind : Kind) (id : UInt32)
    (c : Call (D.client kind)) : Prop :=
  ∃ m w, Handles w₀ done ls m w ∧ Targets w m kind id c

/-- A rig that a message of the run has opened under this id, and that a single
miner can reach from there on events and on calls that later messages of the
run make on this id. -/
inductive Descends (w₀ : World D) (ls : List WorldLabel) :
    (kind : Kind) → UInt32 → Rig (D.client kind) → Prop
  | intro {before after : List WorldLabel} {m : ServerMessage}
      {res : Except Sv2CpuMinerError Unit} {o : Opening D} {p : ExtranoncePrefix}
      {channel : (D.client o.kind).Channel} {amb : Ambient}
      {calls : List (Label (D.client o.kind))} {r : Rig (D.client o.kind)}
      (hls : ls = before ++ .message m res :: after) (ho : opening m = some o)
      (hp : D.fromWire o.extranoncePrefix = .ok p)
      (hmade : o.newChannel w₀.manager p = .ok channel)
      (hcalls : ∀ c r, .call c r ∈ calls →
        Asked w₀ (before ++ [.message m res]) after o.kind o.channelId c)
      (hrun : Run (Step Unrestricted)
        ⟨amb, new channel w₀.manager.cpuUsagePercent w₀.manager.singleSubmit⟩ calls r) :
      Descends w₀ ls o.kind o.channelId r

variable {w₀ : World D} {ls : List WorldLabel}

theorem Asked.more {done : List WorldLabel} {kind : Kind} {id : UInt32}
    {c : Call (D.client kind)} (h : Asked w₀ done ls kind id c) (l : WorldLabel) :
    Asked w₀ done (ls ++ [l]) kind id c := by
  obtain ⟨m, w, ⟨before, res, after, rfl, hrun⟩, ht⟩ := h
  exact ⟨m, w, ⟨before, res, after ++ [l], by simp, hrun⟩, ht⟩

theorem Descends.more {kind : Kind} {id : UInt32} {r : Rig (D.client kind)}
    (h : Descends w₀ ls kind id r) (l : WorldLabel) : Descends w₀ (ls ++ [l]) kind id r := by
  obtain ⟨rfl, ho, hp, hmade, hcalls, hrun⟩ := h
  exact .intro (by simp) ho hp hmade (fun c r hmem => (hcalls c r hmem).more l) hrun

theorem Descends.others {kind : Kind} {id : UInt32} {r r' : Rig (D.client kind)}
    (hothers : Others Unrestricted r r') (h : Descends w₀ ls kind id r) :
    Descends w₀ ls kind id r' := by
  refine others_preserve (I := Descends w₀ ls kind id) ?_ hothers h
  intro a b hab ha
  obtain ⟨e, _, he⟩ := hab
  obtain ⟨hls, ho, hp, hmade, hcalls, hrun⟩ := ha
  refine .intro hls ho hp hmade ?_ (hrun.snoc (.event trivial he))
  intro c res hmem
  rcases List.mem_append.mp hmem with hold | hlast
  · exact hcalls c res hold
  · cases List.mem_singleton.mp hlast

theorem opening_of_targets {w : World D} {m : ServerMessage} {kind : Kind} {id : UInt32}
    {c : Call (D.client kind)} (h : Targets w m kind id c) : opening (D := D) m = none := by
  cases h <;> rfl

theorem Descends.called {kind : Kind} {id : UInt32} {r r' : Rig (D.client kind)} {w : World D}
    {m : ServerMessage} {res res' : Except Sv2CpuMinerError Unit} {c : Call (D.client kind)}
    (h : Descends w₀ (ls ++ [.message m res]) kind id r) (hbefore : Run WorldStep w₀ ls w)
    (ht : Targets w m kind id c) (hcall : Runs (Interferes Unrestricted) c.program r res' r') :
    Descends w₀ (ls ++ [.message m res]) kind id r' := by
  cases h with
  | @intro before after m₀ res₀ o p channel amb calls _ hls ho hp hmade hcalls hrun =>
    refine .intro hls ho hp hmade ?_ (hrun.snoc (.call hcall))
    intro c' r₁ hmem
    rcases List.mem_append.mp hmem with hold | hlast
    · exact hcalls c' r₁ hold
    · cases List.mem_singleton.mp hlast
      rcases List.eq_nil_or_concat after with rfl | ⟨middle, l, rfl⟩
      · obtain ⟨_, hlast⟩ := List.append_inj' hls rfl
        cases hlast
        rw [opening_of_targets ht] at ho
        contradiction
      · have hsplit : ls ++ [.message m res] = (before ++ .message m₀ res₀ :: middle) ++ [l] := by
          rw [hls]
          simp
        obtain ⟨rfl, hlast⟩ := List.append_inj' hsplit rfl
        cases hlast
        refine ⟨m, w, ⟨middle, res, [], by simp, ?_⟩, ht⟩
        rw [List.append_assoc]
        exact hbefore

theorem newChannel_congr {m : ServerMessage} {o : Opening D} (ho : opening m = some o)
    {mgr mgr' : ChannelManager D} (h : settings mgr = settings mgr') (p : ExtranoncePrefix) :
    o.newChannel mgr p = o.newChannel mgr' p := by
  have huser : mgr.userIdentity = mgr'.userIdentity := congrArg Prod.fst h
  have hrate : mgr.nominalHashratePerChannel = mgr'.nominalHashratePerChannel :=
    congrArg (fun s => s.2.1) h
  cases m with
  | openStandardMiningChannelSuccess m =>
    cases ho
    simp only [openStandard, huser, hrate]
    rfl
  | openExtendedMiningChannelSuccess m =>
    cases ho
    simp only [openExtended, huser, hrate]
    rfl
  | _ => contradiction

theorem step_descends (hD : GroupContract D.group) {w w' : World D} {l : WorldLabel}
    (hne : NonemptyGroups w) (hsettings : settings w.manager = settings w₀.manager)
    (hbefore : Run WorldStep w₀ ls w) (h : WorldStep w l w') (hw : AllRigs (Descends w₀ ls) w) :
    AllRigs (Descends w₀ (ls ++ [l])) w' := by
  have hmore : AllRigs (Descends w₀ (ls ++ [l])) w := hw.mono fun _ _ _ hr => hr.more l
  cases h with
  | event he =>
    refine worldOthers_allRigs ?_ (.single ⟨_, he⟩) hmore
    exact fun _ _ _ _ hothers hr => hr.others hothers
  | @message _ m res hrun =>
    refine handlerRun_allRigs ?_ ?_ ?_ (handle_cases hD hne hrun) hmore
    · exact fun _ _ _ _ hothers hr => hr.others hothers
    · intro o channel group amb ho hacc
      obtain ⟨p, hp, hmade⟩ := hacc.made
      rw [newChannel_congr ho hsettings] at hmade
      have hcpu : w.manager.cpuUsagePercent = w₀.manager.cpuUsagePercent :=
        congrArg (fun s => s.2.2.2.1) hsettings
      have hsingle : w.manager.singleSubmit = w₀.manager.singleSubmit :=
        congrArg (fun s => s.2.2.1) hsettings
      rw [hcpu, hsingle]
      refine .intro rfl ho hp hmade ?_ .nil
      intro c res hmem
      contradiction
    · exact fun kind id c r r' res' ht hcall hr => hr.called hbefore ht hcall

/-- In every run of a new manager each miner, stored or dropped, descends from
an opening of the run by a run of its own. -/
theorem run_descends (hD : GroupContract D.group) {userIdentity : String} {nominalHashrate : F32}
    {singleSubmit : Bool} {cpuUsagePercent : ℕ} {requiresStandardJobs : Bool} {amb : Ambient}
    {w : World D}
    (hinitial : w₀ = World.initial (ChannelManager.new userIdentity nominalHashrate singleSubmit
      cpuUsagePercent requiresStandardJobs) amb) (hrun : Run WorldStep w₀ ls w) :
    AllRigs (Descends w₀ ls) w := by
  have hinv : WellGrouped w ∧ settings w.manager = settings w₀.manager ∧
      AllRigs (Descends w₀ ls) w := by
    refine Run.history (I := fun ls w => WellGrouped w ∧ settings w.manager = settings w₀.manager ∧
      AllRigs (Descends w₀ ls) w) ?_ ?_ hrun
    · refine ⟨?_, rfl, ?_⟩
      · rw [hinitial]
        exact initial_wellGrouped _ _ _ _ _ _
      · intro kind place miner hm
        rw [hinitial] at hm
        cases kind <;> cases place <;> contradiction
    · intro ls w l w' hbefore ih hstep
      obtain ⟨hgroups, hsettings, hrigs⟩ := ih
      exact ⟨step_wellGrouped hD hgroups hstep,
        (step_settings hD hgroups.nonempty hstep).trans hsettings,
        step_descends hD hgroups.nonempty hsettings hbefore hstep hrigs⟩
  exact hinv.2.2

end Descent

end CpuMinerSv2.Histories
