import CpuMinerSv2.GroupConsistency
import CpuMinerSv2.Serving

/-!
A message for a group: every member runs its call exactly once, whichever of
them refuse it, and nothing else changes. Run without interruption, the loop
over the members ends in the same world for every order of them.
-/

namespace CpuMinerSv2.FanOut

open Messages Channels Primitives Interference MineJob MinerMethods MinerRuns Manager
  ManagerFrames Deliveries Registry HandlerRuns HandlerErrors Serving GroupRefinement
  GroupConsistency SampleDeps SampleWorlds Relation

variable {D : Deps}

section Calls

variable {K : ClientChannel}

theorem others_none {r r' : Rig K} (h : Others (fun _ _ => False) r r') : r' = r := by
  induction h with
  | refl => rfl
  | tail _ hstep _ =>
    obtain ⟨_, hnone, _⟩ := hstep
    exact hnone.elim

theorem call_usable {kind : Kind} (c : Call (D.client kind)) {r : Rig (D.client kind)}
    (hlock : r.miner.channel.poisoned = false) :
    (c.program.eval r).1 ≠ .error .poisonLock ∧ (c.program.eval r).2.ambient = r.ambient ∧
      (c.program.eval r).2.miner.channel.poisoned = false := by
  have hrun : Runs (Interferes fun _ _ => False) c.program r _ _ := runs_eval c.program r
  generalize c.program.eval r = out at hrun
  obtain ⟨res, r'⟩ := out
  cases call_cases hrun with
  | poisoned h₁ hpoisoned =>
    rw [others_none h₁, hlock] at hpoisoned
    contradiction
  | refused h₁ _ _ h' =>
    have heq := others_none h'
    rw [others_none h₁] at heq
    subst heq
    refine ⟨?_, rfl, hlock⟩
    cases kind <;> exact fun he => nomatch he
  | quiet h₁ _ _ _ h' =>
    have heq := others_none h'
    rw [others_none h₁] at heq
    subst heq
    exact ⟨(fun he => nomatch he), rfl, hlock⟩
  | activated h₁ _ _ _ h₂ h₃ h' =>
    have heq := others_none h'
    rw [others_none h₃, others_none h₂, others_none h₁] at heq
    subst heq
    refine ⟨(fun he => nomatch he), rfl, ?_⟩
    change (cancelPastTask _).channel.poisoned = false
    rw [cancelPast_channel]
    exact hlock

end Calls

theorem putRig_putRig (kind : Kind) (place : Place) (w : World D) (r r' : Rig (D.client kind)) :
    World.putRig kind place r' (World.putRig kind place r w) = World.putRig kind place r' w := by
  cases place with
  | stored id =>
    have hmap : ((w.manager.channels kind).insert id r.miner).insert id r'.miner =
        (w.manager.channels kind).insert id r'.miner := Function.update_idem _ _ _
    simp only [World.putRig, World.putMiner]
    rw [channels_setChannels, hmap]
    cases kind <;> rfl
  | dropped n =>
    have hlist : ((w.dropped kind).set n r.miner).set n r'.miner =
        (w.dropped kind).set n r'.miner := List.set_set ..
    simp only [World.putRig, World.putMiner]
    rw [← hlist]
    cases kind <;> rfl

/-- Each channel of the set has made its call once; all else is as before. -/
structure Served (calls : (kind : Kind) → Call (D.client kind)) (s : Set UInt32)
    (w w' : World D) : Prop where
  called : ∀ (kind : Kind) (id : UInt32) (r : Rig (D.client kind)), id ∈ s → Resolves w kind id →
    w.rigAt kind (.stored id) = some r →
      w'.rigAt kind (.stored id) = some ((calls kind).program.eval r).2
  others : ∀ kind place, (∀ id ∈ s, Resolves w kind id → place ≠ .stored id) →
    w'.minerAt kind place = w.minerAt kind place
  same : SameRegistry w w'
  ambient : w'.ambient = w.ambient

theorem rigAt_congr {w w' : World D} {kind : Kind} {place : Place}
    (hminer : w'.minerAt kind place = w.minerAt kind place) (hamb : w'.ambient = w.ambient) :
    w'.rigAt kind place = w.rigAt kind place := by
  simp only [World.rigAt, hminer, hamb]

theorem Served.rigAt_of_not_mem {calls : (kind : Kind) → Call (D.client kind)} {s : Set UInt32}
    {w w' : World D} (h : Served calls s w w') (kind : Kind) {id : UInt32} (hid : id ∉ s) :
    w'.rigAt kind (.stored id) = w.rigAt kind (.stored id) := by
  refine rigAt_congr (h.others kind _ ?_) h.ambient
  intro a ha _ hplace
  cases hplace
  exact hid ha

theorem Served.trans {calls : (kind : Kind) → Call (D.client kind)} {s t : Set UInt32}
    {w w₁ w' : World D} (h₁ : Served calls s w w₁) (h : Served calls t w₁ w')
    (hst : Disjoint s t) : Served calls (s ∪ t) w w' := by
  refine ⟨?_, ?_, h₁.same.trans h.same, h.ambient.trans h₁.ambient⟩
  · intro kind id r hid hres hr
    rcases hid with hid | hid
    · rw [h.rigAt_of_not_mem kind (Set.disjoint_left.mp hst hid)]
      exact h₁.called kind id r hid hres hr
    · refine h.called kind id r hid (h₁.same.resolves.mpr hres) ?_
      rw [h₁.rigAt_of_not_mem kind (Set.disjoint_right.mp hst hid)]
      exact hr
  · intro kind place hplace
    rw [h.others kind place, h₁.others kind place]
    · exact fun id hid hres => hplace id (.inl hid) hres
    · exact fun id hid hres => hplace id (.inr hid) (h₁.same.resolves.mp hres)

theorem world_eq_of_minerAt {w w' : World D}
    (hminer : ∀ kind place, w'.minerAt kind place = w.minerAt kind place)
    (hgroups : w'.manager.groupChannels = w.manager.groupChannels)
    (hsettings : settings w'.manager = settings w.manager) (hamb : w'.ambient = w.ambient) :
    w' = { w with log := w'.log } := by
  have hstored : ∀ kind, w'.manager.channels kind = w.manager.channels kind :=
    fun kind => funext fun id => hminer kind (.stored id)
  have hdropped : ∀ kind, w'.dropped kind = w.dropped kind :=
    fun kind => List.ext_getElem? fun n => hminer kind (.dropped n)
  have hstd := hstored .standard
  have hext := hstored .extended
  have hstd' := hdropped .standard
  have hext' := hdropped .extended
  obtain ⟨mgr', droppedStandard', droppedExtended', amb', log'⟩ := w'
  obtain ⟨mgr, droppedStandard, droppedExtended, amb, log⟩ := w
  obtain ⟨u', f', single', cpu', std', ext', stds', groups'⟩ := mgr'
  obtain ⟨u, f, single, cpu, std, ext, stds, groups⟩ := mgr
  simp only [settings, Prod.mk.injEq] at hsettings
  obtain ⟨rfl, rfl, rfl, rfl, rfl⟩ := hsettings
  simp only [ChannelManager.channels, World.dropped] at *
  subst hstd hext hstd' hext' hgroups hamb
  rfl

/-- What the calls lead to is determined, whatever their order. -/
theorem Served.ext {calls : (kind : Kind) → Call (D.client kind)} {s : Set UInt32}
    {w w₁ w₂ : World D} (h₁ : Served calls s w w₁) (h₂ : Served calls s w w₂) :
    w₂ = { w₁ with log := w₂.log } := by
  have hamb := h₂.ambient.trans h₁.ambient.symm
  have hsame := h₁.same.symm.trans h₂.same
  refine world_eq_of_minerAt ?_ hsame.groups hsame.settings hamb
  intro kind place
  by_cases hplace : ∃ id ∈ s, Resolves w kind id ∧ place = .stored id
  · obtain ⟨id, hid, hres, rfl⟩ := hplace
    cases hm : w.minerAt kind (.stored id) with
    | none =>
      have hnone : ∀ {w'}, SameRegistry w w' → w'.minerAt kind (.stored id) = none := by
        intro w' hsame'
        have hkey := hsame'.places kind (.stored id)
        rw [hm] at hkey
        exact Option.isNone_iff_eq_none.mp (Option.isSome_eq_false_iff.mp hkey)
      rw [hnone h₁.same, hnone h₂.same]
    | some miner =>
      have hr : w.rigAt kind (.stored id) = some ⟨w.ambient, miner⟩ :=
        rigAt_eq_some_iff.mpr ⟨hm, rfl⟩
      have hr₁ := rigAt_eq_some_iff.mp (h₁.called kind id _ hid hres hr)
      have hr₂ := rigAt_eq_some_iff.mp (h₂.called kind id _ hid hres hr)
      rw [hr₁.1, hr₂.1]
  · have hothers : ∀ id ∈ s, Resolves w kind id → place ≠ .stored id :=
      fun id hid hres heq => hplace ⟨id, hid, hres, heq⟩
    rw [h₁.others kind place hothers, h₂.others kind place hothers]

section Loops

/-- The miner the id resolves to can be used. -/
def Usable (w : World D) (id : UInt32) : Prop :=
  ∃ kind, ∃ r : Rig (D.client kind), Resolves w kind id ∧
    w.rigAt kind (.stored id) = some r ∧ r.miner.channel.poisoned = false

theorem callMiner_eval {α : Type} {kind : Kind} {id : UInt32}
    {method : Prog (Rig (D.client kind)) Sv2CpuMinerError α}
    {report : Kind → UInt32 → Except Sv2CpuMinerError (Option α) → Handler D} {w : World D}
    {r : Rig (D.client kind)} (hr : w.rigAt kind (.stored id) = some r) :
    (callMiner kind id method report).eval w =
      (report kind id ((method.eval r).1.map some)).eval
        (World.putRig kind (.stored id) (method.eval r).2 w) := by
  have hfocus := eval_focus
    (fun s t t' hs => rigAt_putRig_self kind (.stored id) s t t' hs)
    (fun s t hs => putRig_rigAt hs)
    (fun s t t' t'' _ => putRig_putRig kind (.stored id) s t' t'') method hr
  unfold callMiner
  rw [eval_bind_ok (eval_attempt _ w), hfocus]

theorem deliver_eval {α : Type}
    (methods : (kind : Kind) → Prog (Rig (D.client kind)) Sv2CpuMinerError α)
    {report : Kind → UInt32 → Except Sv2CpuMinerError (Option α) → Handler D}
    {missing : UInt32 → ErrorLog} {w : World D} {kind : Kind} {id : UInt32}
    {r : Rig (D.client kind)} (hres : Resolves w kind id)
    (hr : w.rigAt kind (.stored id) = some r) :
    (deliver (methods .standard) (methods .extended) report missing id).eval w =
      (report kind id (((methods kind).eval r).1.map some)).eval
        (World.putRig kind (.stored id) ((methods kind).eval r).2 w) := by
  have hkey : (w.manager.channels kind id).isSome = true :=
    Option.isSome_of_eq_some (rigAt_eq_some_iff.mp hr).1
  rw [← callMiner_eval hr]
  cases kind with
  | standard =>
    have hstd : w.manager.standardChannels.containsKey id = true := hkey
    simp [deliver, Prog.observe, Prog.eval, hstd]
  | extended =>
    have hstd : w.manager.standardChannels.containsKey id = false := by
      rcases hres with hk | hnone
      · contradiction
      · exact hnone
    have hext : w.manager.extendedChannels.containsKey id = true := hkey
    simp [deliver, Prog.observe, Prog.eval, hstd, hext]

theorem reportFailure_eval {α : Type} (message : String) {kind : Kind} {id : UInt32}
    {x : Except Sv2CpuMinerError α} (hx : x ≠ .error .poisonLock) (w : World D) :
    ∃ log, (reportFailure message kind id x).eval w = (.ok (), { w with log := log }) := by
  unfold reportFailure
  split
  · exact ⟨w.log, rfl⟩
  · exact absurd rfl hx
  · exact ⟨_, rfl⟩

variable (message : String) (missing : UInt32 → ErrorLog)

theorem deliver_served (calls : (kind : Kind) → Call (D.client kind)) {w : World D} {id : UInt32}
    (h : Usable w id) :
    ∃ w', (deliver (calls .standard).program (calls .extended).program (reportFailure message)
      missing id).eval w = (.ok (), w') ∧ Served calls {id} w w' := by
  obtain ⟨kind, r, hres, hr, hlock⟩ := h
  obtain ⟨hresult, hamb, _⟩ := call_usable (calls kind) hlock
  have hfound : (((calls kind).program.eval r).1.map some) ≠ .error .poisonLock := by
    cases hc : ((calls kind).program.eval r).1 with
    | ok u => exact fun he => nomatch he
    | error e =>
      rw [hc] at hresult
      intro he
      cases he
      exact hresult rfl
  obtain ⟨log, heval⟩ := reportFailure_eval message hfound
    (World.putRig kind (.stored id) ((calls kind).program.eval r).2 w)
  have hput := putRig_sameRegistry hr ((calls kind).program.eval r).2
  refine ⟨_, (deliver_eval (fun kind => (calls kind).program) hres hr).trans heval,
    ?_, ?_, hput.trans (onlyLogs_sameRegistry _ _ ⟨log, rfl⟩), ?_⟩
  · intro kind' id' r' hid' hres' hr'
    obtain rfl := Set.mem_singleton_iff.mp hid'
    obtain rfl := resolves_unique hres hres'
      (Option.isSome_of_eq_some (rigAt_eq_some_iff.mp hr).1)
      (Option.isSome_of_eq_some (rigAt_eq_some_iff.mp hr').1)
    cases hr.symm.trans hr'
    exact rigAt_putRig_self _ _ _ _ _ hr
  · intro kind' place hplace
    have hne : ¬ (kind' = kind ∧ place = .stored id) := by
      intro heq
      obtain ⟨rfl, rfl⟩ := heq
      exact hplace id rfl hres rfl
    have hlog : ∀ w₁ : World D, World.minerAt { w₁ with log := log } kind' place =
        w₁.minerAt kind' place := by
      intro w₁
      cases kind' <;> cases place <;> rfl
    rw [hlog, minerAt_putRig, minerAt_putMiner_of_ne w _ hne]
  · exact hamb.trans (rigAt_eq_some_iff.mp hr).2

theorem Usable.of_served {calls : (kind : Kind) → Call (D.client kind)} {s : Set UInt32}
    {w w' : World D} (h : Served calls s w w') {id : UInt32} (hid : id ∉ s) (hu : Usable w id) :
    Usable w' id := by
  obtain ⟨kind, r, hres, hr, hlock⟩ := hu
  exact ⟨kind, r, h.same.resolves.mpr hres, (h.rigAt_of_not_mem kind hid).trans hr, hlock⟩

/-- Whichever of the members refuse, all of them are called. -/
theorem forEach_served (calls : (kind : Kind) → Call (D.client kind)) {ids : List UInt32}
    (hnodup : ids.Nodup) {w : World D} (h : ∀ id ∈ ids, Usable w id) :
    ∃ w', (Prog.forEach (deliver (calls .standard).program (calls .extended).program
      (reportFailure message) missing) ids).eval w = (.ok (), w') ∧
        Served calls {id | id ∈ ids} w w' := by
  induction ids generalizing w with
  | nil =>
    refine ⟨w, rfl, ?_, fun _ _ _ => rfl, SameRegistry.refl w, rfl⟩
    intro kind id r hid
    exact absurd hid List.not_mem_nil
  | cons a rest ih =>
    obtain ⟨hnot, hrest⟩ := List.nodup_cons.mp hnodup
    obtain ⟨w₁, heval, hserved⟩ :=
      deliver_served message missing calls (h a List.mem_cons_self)
    have hafter : ∀ id ∈ rest, Usable w₁ id := by
      intro id hid
      have hne : id ∉ ({a} : Set UInt32) := fun heq => hnot (heq ▸ hid)
      exact (h id (List.mem_cons_of_mem _ hid)).of_served hserved hne
    obtain ⟨w', heval', hserved'⟩ := ih hrest hafter
    refine ⟨w', (eval_bind_ok heval).trans heval', ?_⟩
    have hdisjoint : Disjoint ({a} : Set UInt32) {id | id ∈ rest} :=
      Set.disjoint_singleton_left.mpr hnot
    have hset : ({id | id ∈ a :: rest} : Set UInt32) = {a} ∪ {id | id ∈ rest} := by
      ext id
      simp
    rw [hset]
    exact hserved.trans hserved' hdisjoint

end Loops

/-- What the loops over the members of a group differ in. -/
structure MemberLoop (D : Deps) where
  message : String
  missing : UInt32 → ErrorLog
  calls : (kind : Kind) → Call (D.client kind)

/-- The loop over these members in this order. -/
def MemberLoop.program (l : MemberLoop D) (members : List UInt32) : Handler D :=
  .forEach (deliver (l.calls .standard).program (l.calls .extended).program
    (reportFailure l.message) l.missing) members

/-- The loop that handles a message for a group. -/
def memberLoop : ServerMessage → Option (MemberLoop D)
  | .newExtendedMiningJob m => some
    { message := "NewExtendedMiningJob", missing := .groupListsUnknown m.channelId,
      calls := fun kind => groupJob kind m }
  | .setNewPrevHash m => some
    { message := "SetNewPrevHash", missing := (.channelNotFound · "SetNewPrevHash"),
      calls := fun _ => .setNewPrevHash m }
  | .setTarget m => some
    { message := "SetTarget", missing := (.channelNotFound · "SetTarget"),
      calls := fun _ => .setTarget (Target.fromLeBytes m.maximumTarget) }
  | _ => none

/-- A connection that only takes standard jobs refuses an extended one. -/
def Taken (w : World D) (m : ServerMessage) : Prop :=
  ∀ job, m = .newExtendedMiningJob job → w.manager.requiresStandardJobs = false

theorem runs_memberLoop {env : World D → World D → Prop}
    (henv : ∀ a b, env a b → WorldInterferes a b) {m : ServerMessage} {l : MemberLoop D}
    {g : UInt32} {group : D.group.GroupChannel} {w w' : World D}
    {res : Except Sv2CpuMinerError Unit} (hl : memberLoop m = some l)
    (hm : groupAddressed m = some g) (hg : w.manager.groupChannels g = some group)
    (htaken : Taken w m) (h : Runs env (handle m) w res w') :
    ∃ w₁, ReflTransGen env w w₁ ∧
      Runs env (l.program (D.group.getChannelIds group)) w₁ res w' := by
  cases m with
  | newExtendedMiningJob job =>
    cases hl
    cases hm
    obtain ⟨w₁, h₁, hrest⟩ := runs_observe_manager h
    have hsame := env_sameRegistry henv h₁
    refine ⟨w₁, h₁, ?_⟩
    have hstd := hsame.requiresStandardJobs.trans (htaken job rfl)
    simp only [hstd, hsame.groups, hg, Bool.false_eq_true, ↓reduceIte] at hrest
    exact hrest
  | setNewPrevHash m =>
    cases hl
    cases hm
    obtain ⟨w₁, h₁, hrest⟩ := runs_observe_manager h
    have hsame := env_sameRegistry henv h₁
    refine ⟨w₁, h₁, ?_⟩
    rw [hsame.addressedChannels, ChannelManager.addressedChannels, hg] at hrest
    exact hrest
  | setTarget m =>
    cases hl
    cases hm
    obtain ⟨w₁, h₁, hrest⟩ := runs_observe_manager h
    have hsame := env_sameRegistry henv h₁
    refine ⟨w₁, h₁, ?_⟩
    rw [hsame.addressedChannels, ChannelManager.addressedChannels, hg] at hrest
    exact hrest
  | _ => contradiction

theorem handle_eval {m : ServerMessage} {l : MemberLoop D} {g : UInt32}
    {group : D.group.GroupChannel} {w : World D} (hl : memberLoop m = some l)
    (hm : groupAddressed m = some g) (hg : w.manager.groupChannels g = some group)
    (htaken : Taken w m) :
    (handle m).eval w = (l.program (D.group.getChannelIds group)).eval w := by
  obtain ⟨w₁, h₁, hrun⟩ := runs_memberLoop (fun _ _ => False.elim)
    hl hm hg htaken (runs_eval (handle m) w)
  rw [eq_of_still h₁] at hrun
  exact (eval_of_runs hrun).symm

/-- No lock of a stored channel is poisoned. -/
def NoLockPoisoned (w : World D) : Prop :=
  ∀ kind id miner, w.minerAt kind (.stored id) = some miner → miner.channel.poisoned = false

theorem usable_of_open {w : World D} (hlocks : NoLockPoisoned w) {id : UInt32}
    (h : ChannelOpen w id) : Usable w id := by
  obtain ⟨kind, r, hres, hr⟩ := h.resolved
  exact ⟨kind, r, hres, hr, hlocks kind id r.miner (rigAt_eq_some_iff.mp hr).1⟩

theorem memberLoop_interleaved {l : MemberLoop D} {ids : List UInt32} (hnodup : ids.Nodup)
    {w w' : World D} {res : Except Sv2CpuMinerError Unit}
    (h : Runs WorldInterferes (l.program ids) w res w') (hlocks : NoLockPoisoned w') :
    res = .ok () ∧ SameRegistry w w' ∧ (∀ id ∈ ids, RunsCall l.calls id w w') ∧
      ∀ kind place, (∀ id ∈ ids, Resolves w kind id → place ≠ .stored id) →
        RigMoves kind place w w' := by
  have hsame : SameRegistry w w' := guarantees_sameRegistry
    (guarantees_forEach (fun id => deliver_sameRegistry (reportFailure_onlyLogs _) id) _) h
  have hok : res = .ok () := by
    rcases (forEach_poisoned l.calls h).2 with hok | ⟨_, id, _, kind, r, _, hr, hlock⟩
    · exact hok
    · rw [hlocks kind id r.miner (rigAt_eq_some_iff.mp hr).1] at hlock
      contradiction
  subst hok
  have hstd := performs_program (l.calls .standard)
  have hext := performs_program (l.calls .extended)
  refine ⟨rfl, hsame,
    fun id hid => (forEach_reports hnodup h id hid).runsCall, ?_⟩
  intro kind place hplace r hr
  obtain ⟨r', hr', hothers | ⟨id, _, _, rfl, ⟨hid, hres, _⟩, _⟩⟩ :=
    forEach_delivers l.calls (reportFailure_onlyLogs _) hstd hext hnodup h kind place r hr
  · exact ⟨r', hr', hothers⟩
  · exact absurd rfl (hplace id hid hres)

/-- In a reachable world without poisoned locks, a message for a group is
handled without error. Every member runs its call once and nothing else
changes; the order of the members does not matter. -/
theorem group_message_serves_members (D : Deps) (hD : GroupContract D.group)
    (userIdentity : String) (nominalHashrate : F32) (singleSubmit : Bool) (cpuUsagePercent : ℕ)
    (requiresStandardJobs : Bool) (amb : Ambient) (ls : List WorldLabel) (w : World D)
    (hrun : Run WorldStep (World.initial (ChannelManager.new userIdentity nominalHashrate
      singleSubmit cpuUsagePercent requiresStandardJobs) amb) ls w) (hlocks : NoLockPoisoned w)
    (m : ServerMessage) (l : MemberLoop D) (hl : memberLoop m = some l) (htaken : Taken w m)
    (g : UInt32) (hm : groupAddressed m = some g) (group : D.group.GroupChannel)
    (hg : w.manager.groupChannels g = some group) :
    (∀ id ∈ D.group.getChannelIds group, Usable w id) ∧
    (∃ w', Served l.calls {id | id ∈ D.group.getChannelIds group} w w' ∧
      (∃ log, (handle m).eval w = (.ok (), { w' with log := log })) ∧
      ∀ members, members.Perm (D.group.getChannelIds group) →
        ∃ log, (l.program members).eval w = (.ok (), { w' with log := log })) ∧
    (∀ (r : Except Sv2CpuMinerError Unit) (w' : World D), WorldStep w (.message m r) w' →
      NoLockPoisoned w' →
        r = .ok () ∧ SameRegistry w w' ∧
        (∀ id ∈ D.group.getChannelIds group, RunsCall l.calls id w w') ∧
        ∀ kind place,
          (∀ id ∈ D.group.getChannelIds group, Resolves w kind id → place ≠ .stored id) →
            RigMoves kind place w w') := by
  have husable : ∀ id ∈ D.group.getChannelIds group, Usable w id := by
    obtain ⟨t, ht⟩ := (run_wellGrouped hD hrun).shows
    intro id hid
    apply usable_of_open hlocks
    rw [← ht.active]
    exact t.members_subset g ((ht.members g id).mpr ⟨group, hg, hid⟩)
  have hnodup := hD.nodup group
  refine ⟨husable, ?_, ?_⟩
  · obtain ⟨w', heval, hserved⟩ :=
      forEach_served l.message l.missing l.calls hnodup husable
    refine ⟨w', hserved, ⟨w'.log, (handle_eval hl hm hg htaken).trans heval⟩, ?_⟩
    intro members hperm
    obtain ⟨w'', heval', hserved'⟩ :=
      forEach_served l.message l.missing l.calls
        (hperm.nodup_iff.mpr hnodup) (fun id hid => husable id (hperm.mem_iff.mp hid))
    have hset : ({id | id ∈ members} : Set UInt32) = {id | id ∈ D.group.getChannelIds group} :=
      Set.ext fun id => hperm.mem_iff
    rw [hset] at hserved'
    refine ⟨w''.log, ?_⟩
    rw [← hserved.ext hserved']
    exact heval'
  · intro r w' hstep hafter
    cases hstep with
    | message h =>
      obtain ⟨w₁, h₁, hloop⟩ := runs_memberLoop (fun _ _ hab => hab) hl hm hg htaken h
      have hsame := worldOthers_sameRegistry h₁
      obtain ⟨hok, hafter', hcalls, hothers⟩ := memberLoop_interleaved hnodup hloop hafter
      refine ⟨hok, hsame.trans hafter', ?_, ?_⟩
      · intro id hid
        exact (hcalls id hid).prepend hsame (fun kind => worldOthers_rigMoves h₁ kind _)
      · intro kind place hplace
        refine (worldOthers_rigMoves h₁ kind place).trans (hothers kind place ?_)
        exact fun id hid hres => hplace id hid (hsame.resolves.mp hres)

theorem sampleOpenings_unpoisoned {w : World sampleDeps}
    (h : play World.execute sampleWorld sampleOpenings = some w) : NoLockPoisoned w := by
  have honly : ∀ (kind : Kind) (key : UInt32) {id : UInt32}
      {stored miner : ChannelMiner (sampleDeps.client kind)},
      stored.channel.poisoned = false →
      (PartialMap.empty.insert key stored) id = some miner → miner.channel.poisoned = false := by
    intro kind key id stored miner hlock hm
    by_cases hid : id = key
    · rw [hid, PartialMap.insert_self] at hm
      cases hm
      exact hlock
    · rw [PartialMap.insert_of_ne _ _ hid] at hm
      exact nomatch hm
  cases h
  intro kind id miner hm
  cases kind with
  | standard => exact honly .standard 1 rfl hm
  | extended => exact honly .extended 2 rfl hm

/-- A job for a standard and an extended channel. -/
theorem sample_group_served :
    ∃ w w', play World.execute sampleWorld sampleOpenings = some w ∧
      (∀ id ∈ [2, 1], Usable w id) ∧
      Served (D := sampleDeps) (fun kind => groupJob kind
        { channelId := 10, jobId := 5, minNtime := some 50, version := 2,
          versionRollingAllowed := true, merklePath := [], coinbaseTxPrefix := [6],
          coinbaseTxSuffix := [8] }) {id | id ∈ [2, 1]} w w' ∧
      ∃ log, (handle (newExtendedJobMessage 10 5 (some 50) [6])).eval w =
        (.ok (), { w' with log := log }) := by
  obtain ⟨w, hw⟩ : ∃ w, play World.execute sampleWorld sampleOpenings = some w := ⟨_, rfl⟩
  obtain ⟨group, hg, hids⟩ : ∃ group, w.manager.groupChannels 10 = some group ∧
      sampleDeps.group.getChannelIds group = [2, 1] := by
    cases hw
    exact ⟨_, rfl, rfl⟩
  have htaken : Taken w (newExtendedJobMessage 10 5 (some 50) [6]) := by
    cases hw
    exact fun _ _ => rfl
  have hserves := group_message_serves_members sampleDeps sample_groupContract _ _ _ _ _ _ _ w
    (worldRun_of_play hw) (sampleOpenings_unpoisoned hw) (newExtendedJobMessage 10 5 (some 50) [6])
    _ rfl htaken 10 rfl group hg
  obtain ⟨husable, ⟨w', hserved, hhandled, _⟩, _⟩ := hserves
  rw [hids] at husable hserved
  exact ⟨w, w', hw, husable, hserved, hhandled⟩

end CpuMinerSv2.FanOut
