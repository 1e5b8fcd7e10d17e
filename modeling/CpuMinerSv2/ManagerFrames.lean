import CpuMinerSv2.Manager
import CpuMinerSv2.MinerRuns

/-!
What the tasks and the methods of a stored miner leave alone: the keys of the
channel maps, the groups, the settings and every other miner. A miner sees
the world as its own tasks, the clock and the shutdown.
-/

namespace CpuMinerSv2.ManagerFrames

open Messages Channels Primitives Interference MineJob MinerMethods MinerRuns Manager Relation

section Access

variable {D : Deps}

@[simp] theorem channels_setChannels (mgr : ChannelManager D) (kind : Kind)
    (channels : PartialMap UInt32 (ChannelMiner (D.client kind))) :
    (mgr.setChannels kind channels).channels kind = channels := by
  cases kind <;> rfl

theorem channels_setChannels_of_ne (mgr : ChannelManager D) {kind kind' : Kind}
    (channels : PartialMap UInt32 (ChannelMiner (D.client kind))) (hne : kind' ≠ kind) :
    (mgr.setChannels kind channels).channels kind' = mgr.channels kind' := by
  cases kind <;> cases kind' <;> first | rfl | contradiction

@[simp] theorem groupChannels_setChannels (mgr : ChannelManager D) (kind : Kind)
    (channels : PartialMap UInt32 (ChannelMiner (D.client kind))) :
    (mgr.setChannels kind channels).groupChannels = mgr.groupChannels := by
  cases kind <;> rfl

/-- What is fixed when the manager is made. -/
def settings (mgr : ChannelManager D) : String × F32 × Bool × ℕ × Bool :=
  (mgr.userIdentity, mgr.nominalHashratePerChannel, mgr.singleSubmit, mgr.cpuUsagePercent,
    mgr.requiresStandardJobs)

@[simp] theorem settings_setChannels (mgr : ChannelManager D) (kind : Kind)
    (channels : PartialMap UInt32 (ChannelMiner (D.client kind))) :
    settings (mgr.setChannels kind channels) = settings mgr := by
  cases kind <;> rfl

@[simp] theorem dropped_setDropped (w : World D) (kind : Kind)
    (miners : List (ChannelMiner (D.client kind))) :
    (w.setDropped kind miners).dropped kind = miners := by
  cases kind <;> rfl

theorem dropped_setDropped_of_ne (w : World D) {kind kind' : Kind}
    (miners : List (ChannelMiner (D.client kind))) (hne : kind' ≠ kind) :
    (w.setDropped kind miners).dropped kind' = w.dropped kind' := by
  cases kind <;> cases kind' <;> first | rfl | contradiction

@[simp] theorem manager_setDropped (w : World D) (kind : Kind)
    (miners : List (ChannelMiner (D.client kind))) :
    (w.setDropped kind miners).manager = w.manager := by
  cases kind <;> rfl

@[simp] theorem ambient_setDropped (w : World D) (kind : Kind)
    (miners : List (ChannelMiner (D.client kind))) :
    (w.setDropped kind miners).ambient = w.ambient := by
  cases kind <;> rfl

@[simp] theorem log_setDropped (w : World D) (kind : Kind)
    (miners : List (ChannelMiner (D.client kind))) :
    (w.setDropped kind miners).log = w.log := by
  cases kind <;> rfl

@[simp] theorem ambient_putMiner (w : World D) (kind : Kind) (miner : ChannelMiner (D.client kind))
    (place : Place) : (w.putMiner kind miner place).ambient = w.ambient := by
  cases place
  · rfl
  · exact ambient_setDropped _ _ _

@[simp] theorem log_putMiner (w : World D) (kind : Kind) (miner : ChannelMiner (D.client kind))
    (place : Place) : (w.putMiner kind miner place).log = w.log := by
  cases place
  · rfl
  · exact log_setDropped _ _ _

@[simp] theorem groups_putMiner (w : World D) (kind : Kind) (miner : ChannelMiner (D.client kind))
    (place : Place) :
    (w.putMiner kind miner place).manager.groupChannels = w.manager.groupChannels := by
  cases place with
  | stored channelId => exact groupChannels_setChannels _ _ _
  | dropped n => rw [World.putMiner, manager_setDropped]

@[simp] theorem settings_putMiner (w : World D) (kind : Kind) (miner : ChannelMiner (D.client kind))
    (place : Place) : settings (w.putMiner kind miner place).manager = settings w.manager := by
  cases place with
  | stored channelId => exact settings_setChannels _ _ _
  | dropped n => rw [World.putMiner, manager_setDropped]

theorem minerAt_putMiner_self {w : World D} {kind : Kind} {place : Place}
    {old : ChannelMiner (D.client kind)} (h : w.minerAt kind place = some old)
    (miner : ChannelMiner (D.client kind)) :
    (w.putMiner kind miner place).minerAt kind place = some miner := by
  cases place with
  | stored channelId => simp [World.putMiner, World.minerAt]
  | dropped n =>
    have hlt : n < (w.dropped kind).length := (List.getElem?_eq_some_iff.mp h).1
    simp [World.putMiner, World.minerAt, hlt]

theorem minerAt_putMiner_of_ne (w : World D) {kind kind' : Kind} {place place' : Place}
    (miner : ChannelMiner (D.client kind)) (hne : ¬ (kind' = kind ∧ place' = place)) :
    (w.putMiner kind miner place).minerAt kind' place' = w.minerAt kind' place' := by
  by_cases hkind : kind' = kind
  · subst hkind
    have hplace : place' ≠ place := fun h => hne ⟨rfl, h⟩
    cases place with
    | stored channelId =>
      cases place' with
      | stored id =>
        have hid : id ≠ channelId := fun h => hplace (congrArg _ h)
        simp [World.putMiner, World.minerAt, hid]
      | dropped n =>
        simp only [World.putMiner, World.minerAt]
        cases kind' <;> rfl
    | dropped n =>
      cases place' with
      | stored id => simp [World.putMiner, World.minerAt]
      | dropped n' =>
        have hn : n ≠ n' := fun h => hplace (congrArg _ h.symm)
        simp [World.putMiner, World.minerAt, List.getElem?_set_ne hn]
  · cases place with
    | stored channelId =>
      cases place' with
      | stored id =>
        simp only [World.putMiner, World.minerAt, channels_setChannels_of_ne _ _ hkind]
      | dropped n =>
        simp only [World.putMiner, World.minerAt]
        cases kind' <;> rfl
    | dropped n =>
      cases place' with
      | stored id => simp [World.putMiner, World.minerAt]
      | dropped n' =>
        simp only [World.putMiner, World.minerAt, dropped_setDropped_of_ne _ _ hkind]

/-- The same miners in the same places, the same groups and settings. -/
structure SameRegistry (w w' : World D) : Prop where
  places : ∀ (kind : Kind) (place : Place),
    (w'.minerAt kind place).isSome = (w.minerAt kind place).isSome
  groups : w'.manager.groupChannels = w.manager.groupChannels
  settings : settings w'.manager = settings w.manager

theorem SameRegistry.refl (w : World D) : SameRegistry w w := ⟨fun _ _ => rfl, rfl, rfl⟩

theorem SameRegistry.trans {a b c : World D} (hab : SameRegistry a b) (hbc : SameRegistry b c) :
    SameRegistry a c :=
  ⟨fun kind place => (hbc.places kind place).trans (hab.places kind place),
    hbc.groups.trans hab.groups, hbc.settings.trans hab.settings⟩

theorem SameRegistry.symm {w w' : World D} (h : SameRegistry w w') : SameRegistry w' w :=
  ⟨fun kind place => (h.places kind place).symm, h.groups.symm, h.settings.symm⟩

theorem SameRegistry.keys {w w' : World D} (h : SameRegistry w w') (kind : Kind) (id : UInt32) :
    (w'.manager.channels kind id).isSome = (w.manager.channels kind id).isSome :=
  h.places kind (.stored id)

theorem SameRegistry.addressedChannels {w w' : World D} (h : SameRegistry w w') (id : UInt32) :
    w'.manager.addressedChannels id = w.manager.addressedChannels id := by
  simp only [ChannelManager.addressedChannels, h.groups]

theorem SameRegistry.singleSubmit {w w' : World D} (h : SameRegistry w w') :
    w'.manager.singleSubmit = w.manager.singleSubmit := congrArg (fun s => s.2.2.1) h.settings

theorem SameRegistry.cpuUsagePercent {w w' : World D} (h : SameRegistry w w') :
    w'.manager.cpuUsagePercent = w.manager.cpuUsagePercent :=
  congrArg (fun s => s.2.2.2.1) h.settings

theorem SameRegistry.requiresStandardJobs {w w' : World D} (h : SameRegistry w w') :
    w'.manager.requiresStandardJobs = w.manager.requiresStandardJobs :=
  congrArg (fun s => s.2.2.2.2) h.settings

theorem putMiner_sameRegistry {w : World D} {kind : Kind} {place : Place}
    {old : ChannelMiner (D.client kind)} (h : w.minerAt kind place = some old)
    (miner : ChannelMiner (D.client kind)) : SameRegistry w (w.putMiner kind miner place) := by
  refine ⟨?_, groups_putMiner _ _ _ _, settings_putMiner _ _ _ _⟩
  intro kind' place'
  by_cases heq : kind' = kind ∧ place' = place
  · obtain ⟨rfl, rfl⟩ := heq
    rw [minerAt_putMiner_self h miner, h]
    rfl
  · rw [minerAt_putMiner_of_ne w miner heq]

end Access

section Rigs

variable {D : Deps}

theorem rigAt_eq_some_iff {w : World D} {kind : Kind} {place : Place} {r : Rig (D.client kind)} :
    w.rigAt kind place = some r ↔ w.minerAt kind place = some r.miner ∧ r.ambient = w.ambient := by
  simp only [World.rigAt, Option.map_eq_some_iff]
  constructor
  · intro h
    obtain ⟨miner, hm, rfl⟩ := h
    exact ⟨hm, rfl⟩
  · intro h
    obtain ⟨hm, hamb⟩ := h
    refine ⟨r.miner, hm, ?_⟩
    rw [← hamb]

theorem SameRegistry.rig_before {w w' : World D} (h : SameRegistry w w') {kind : Kind}
    {place : Place} {miner' : ChannelMiner (D.client kind)}
    (hm' : w'.minerAt kind place = some miner') : ∃ r, w.rigAt kind place = some r := by
  have hsome : (w.minerAt kind place).isSome = true := by
    rw [← h.places, hm']
    rfl
  obtain ⟨miner, hm⟩ := Option.isSome_iff_exists.mp hsome
  exact ⟨⟨w.ambient, miner⟩, rigAt_eq_some_iff.mpr ⟨hm, rfl⟩⟩

theorem minerAt_putRig (kind kind' : Kind) (place place' : Place) (rig : Rig (D.client kind))
    (w : World D) : (World.putRig kind place rig w).minerAt kind' place' =
      (w.putMiner kind rig.miner place).minerAt kind' place' := by
  cases place' with
  | stored id => rfl
  | dropped n => cases kind' <;> rfl

theorem rigAt_putRig_self (kind : Kind) (place : Place) (w : World D)
    (old rig : Rig (D.client kind))
    (h : w.rigAt kind place = some old) :
    (World.putRig kind place rig w).rigAt kind place = some rig := by
  apply rigAt_eq_some_iff.mpr
  rw [minerAt_putRig]
  exact ⟨minerAt_putMiner_self (rigAt_eq_some_iff.mp h).1 _, rfl⟩

theorem rigAt_putRig_of_ne {kind kind' : Kind} {place place' : Place} {w : World D}
    {old rig : Rig (D.client kind)} (h : w.rigAt kind place = some old)
    (hamb : rig.ambient = old.ambient) (hne : ¬ (kind' = kind ∧ place' = place)) :
    (World.putRig kind place rig w).rigAt kind' place' = w.rigAt kind' place' := by
  simp only [World.rigAt, minerAt_putRig, minerAt_putMiner_of_ne w _ hne]
  have hsame : (World.putRig kind place rig w).ambient = w.ambient :=
    hamb.trans (rigAt_eq_some_iff.mp h).2
  rw [hsame]

theorem putRig_sameRegistry {kind : Kind} {place : Place} {w : World D}
    {old : Rig (D.client kind)} (h : w.rigAt kind place = some old) (rig : Rig (D.client kind)) :
    SameRegistry w (World.putRig kind place rig w) := by
  have hput := putMiner_sameRegistry (rigAt_eq_some_iff.mp h).1 rig.miner
  refine ⟨?_, hput.groups, hput.settings⟩
  intro kind' place'
  rw [minerAt_putRig]
  exact hput.places kind' place'

/-- An event of the world is a step of one task, or changes the clock or the
token only. -/
theorem world_advance_cases {w w' : World D} {e : WorldEvent} (h : w.advance e = some w') :
    (∃ (kind : Kind) (place : Place) (r r' : Rig (D.client kind)) (event : Event),
      w.rigAt kind place = some r ∧ r.advance event = some r' ∧ r'.ambient = r.ambient ∧
        w' = World.putRig kind place r' w) ∨
    (∃ event : Event, (∀ (kind : Kind) (r : Rig (D.client kind)), r.ambient = w.ambient →
        r.advance event = some { r with ambient := w'.ambient }) ∧
      w' = { w with ambient := w'.ambient }) := by
  cases e with
  | task kind place i move =>
    obtain ⟨miner, hm, h⟩ := Option.bind_eq_some_iff.mp h
    obtain ⟨miner', hs, rfl⟩ := Option.map_eq_some_iff.mp h
    refine .inl
      ⟨kind, place, ⟨w.ambient, miner⟩, ⟨w.ambient, miner'⟩, .task i move, ?_, ?_, rfl, ?_⟩
    · exact rigAt_eq_some_iff.mpr ⟨hm, rfl⟩
    · simp [Rig.advance, hs]
    · simp only [World.putRig]
      rw [← ambient_putMiner w kind miner' place]
  | tick elapsed =>
    cases h
    refine .inr ⟨.tick elapsed, fun kind r hamb => ?_, rfl⟩
    simp [Rig.advance, hamb]
  | shutdown =>
    cases h
    refine .inr ⟨.shutdown, fun kind r hamb => ?_, rfl⟩
    simp [Rig.advance, hamb]

theorem interferes_sameRegistry (w w' : World D) (h : WorldInterferes w w') :
    SameRegistry w w' := by
  obtain ⟨e, he⟩ := h
  rcases world_advance_cases he with ⟨kind, place, r, r', _, hr, _, _, rfl⟩ | ⟨_, _, hw⟩
  · exact putRig_sameRegistry hr r'
  · rw [hw]
    refine ⟨?_, rfl, rfl⟩
    intro kind place
    cases kind <;> cases place <;> rfl

theorem interferes_log (w w' : World D) (h : WorldInterferes w w') : w'.log = w.log := by
  obtain ⟨e, he⟩ := h
  rcases world_advance_cases he with ⟨kind, place, _, r', _, _, _, _, rfl⟩ | ⟨_, _, hw⟩
  · exact log_putMiner w kind r'.miner place
  · rw [hw]

/-- The rig at a place is still there, moved on by events of its own only. -/
def RigMoves (kind : Kind) (place : Place) (w w' : World D) : Prop :=
  ∀ r, w.rigAt kind place = some r →
    ∃ r', w'.rigAt kind place = some r' ∧ Others Unrestricted r r'

theorem RigMoves.refl (kind : Kind) (place : Place) (w : World D) : RigMoves kind place w w :=
  fun r hr => ⟨r, hr, .refl⟩

theorem RigMoves.trans {kind : Kind} {place : Place} {a b c : World D}
    (hab : RigMoves kind place a b) (hbc : RigMoves kind place b c) : RigMoves kind place a c := by
  intro r hr
  obtain ⟨r₁, hr₁, h₁⟩ := hab r hr
  obtain ⟨r₂, hr₂, h₂⟩ := hbc r₁ hr₁
  exact ⟨r₂, hr₂, h₁.trans h₂⟩

theorem interferes_rigMoves (kind : Kind) (place : Place) (w w' : World D)
    (h : WorldInterferes w w') : RigMoves kind place w w' := by
  intro r hr
  obtain ⟨e, he⟩ := h
  rcases world_advance_cases he with ⟨kind', place', r₁, r', event, hr₁, hadv, hamb, rfl⟩ |
    ⟨event, hadv, hw⟩
  · by_cases hsame : kind = kind' ∧ place = place'
    · obtain ⟨rfl, rfl⟩ := hsame
      have heq : r₁ = r := Option.some.inj (hr₁.symm.trans hr)
      subst heq
      exact ⟨r', rigAt_putRig_self _ _ _ _ _ hr, .single ⟨event, trivial, hadv⟩⟩
    · exact ⟨r, (rigAt_putRig_of_ne hr₁ hamb hsame).trans hr, .refl⟩
  · have hamb := (rigAt_eq_some_iff.mp hr).2
    refine ⟨{ r with ambient := w'.ambient }, ?_, .single ⟨event, trivial, hadv kind r hamb⟩⟩
    apply rigAt_eq_some_iff.mpr
    refine ⟨?_, rfl⟩
    have hm := (rigAt_eq_some_iff.mp hr).1
    rw [hw]
    cases kind <;> cases place <;> exact hm

theorem worldOthers_sameRegistry {w w' : World D} (h : ReflTransGen WorldInterferes w w') :
    SameRegistry w w' := by
  induction h with
  | refl => exact SameRegistry.refl _
  | tail _ hstep ih => exact ih.trans (interferes_sameRegistry _ _ hstep)

theorem worldOthers_rigMoves {w w' : World D} (h : ReflTransGen WorldInterferes w w')
    (kind : Kind) (place : Place) : RigMoves kind place w w' := by
  induction h with
  | refl => exact RigMoves.refl _ _ _
  | tail _ hstep ih => exact ih.trans (interferes_rigMoves _ _ _ _ hstep)

theorem worldOthers_log {w w' : World D} (h : ReflTransGen WorldInterferes w w') :
    w'.log = w.log := by
  induction h with
  | refl => rfl
  | tail _ hstep ih => exact (interferes_log _ _ hstep).trans ih

end Rigs

section Calls

variable {D : Deps}

/-- A handler that only adds to the log. -/
def OnlyLogs {α : Type} (p : Prog (World D) Sv2CpuMinerError α) : Prop :=
  Guarantees (fun w w' => ∃ log, w' = { w with log := log }) p

theorem onlyLogs_sameRegistry (w w' : World D) (h : ∃ log, w' = { w with log := log }) :
    SameRegistry w w' := by
  obtain ⟨log, rfl⟩ := h
  refine ⟨?_, rfl, rfl⟩
  intro kind place
  cases kind <;> cases place <;> rfl

theorem onlyLogs_rigMoves (kind : Kind) (place : Place) (w w' : World D)
    (h : ∃ log, w' = { w with log := log }) : RigMoves kind place w w' := by
  obtain ⟨log, rfl⟩ := h
  intro r hr
  refine ⟨r, ?_, .refl⟩
  cases kind <;> cases place <;> exact hr

theorem logError_onlyLogs (e : ErrorLog) : OnlyLogs (logError e : Handler D) :=
  guarantees_perform (fun _ => ⟨_, rfl⟩)

theorem reportFailure_onlyLogs {α : Type} (message : String) (kind : Kind) (channelId : UInt32)
    (x : Except Sv2CpuMinerError α) :
    OnlyLogs (reportFailure message kind channelId x : Handler D) := by
  unfold reportFailure
  split
  · trivial
  · trivial
  · exact logError_onlyLogs _

theorem logFailure_onlyLogs {α : Type} (message : String) (kind : Kind) (channelId : UInt32)
    (x : Except Sv2CpuMinerError α) :
    OnlyLogs (logFailure message kind channelId x : Handler D) := by
  unfold logFailure
  split
  · trivial
  · exact logError_onlyLogs _

/-- What is added to the log is of this sort. -/
def Logs (sort : ErrorLog → Prop) (w w' : World D) : Prop :=
  ∃ added, w'.log = w.log ++ added ∧ ∀ e ∈ added, sort e

theorem Logs.of_eq {sort : ErrorLog → Prop} {w w' : World D} (h : w'.log = w.log) :
    Logs sort w w' := by
  refine ⟨[], ?_, ?_⟩
  · rw [h, List.append_nil]
  · exact fun e he => absurd he List.not_mem_nil

theorem Logs.trans {sort : ErrorLog → Prop} {a b c : World D} (hab : Logs sort a b)
    (hbc : Logs sort b c) : Logs sort a c := by
  obtain ⟨first, hb, hfirst⟩ := hab
  obtain ⟨second, hc, hsecond⟩ := hbc
  refine ⟨first ++ second, ?_, ?_⟩
  · rw [hc, hb, List.append_assoc]
  · intro e he
    exact (List.mem_append.mp he).elim (hfirst e) (hsecond e)

theorem logError_logs {sort : ErrorLog → Prop} {e : ErrorLog} (he : sort e) :
    Guarantees (Logs sort) (logError e : Handler D) := by
  refine guarantees_perform (fun w => ⟨[e], rfl, ?_⟩)
  intro a ha
  rw [List.mem_singleton.mp ha]
  exact he

theorem runs_logs {α : Type} {sort : ErrorLog → Prop} {p : Prog (World D) Sv2CpuMinerError α}
    (hp : Guarantees (Logs sort) p) {w w' : World D} {res : Except Sv2CpuMinerError α}
    (h : Runs WorldInterferes p w res w') : Logs sort w w' :=
  Runs.within (R := Logs sort) (fun _ => .of_eq rfl) (fun _ _ _ => Logs.trans)
    (fun a b hab => .of_eq (interferes_log a b hab)) hp h

theorem reportFailure_logs {α : Type} {sort : ErrorLog → Prop} {message : String}
    (hfailed : ∀ kind id e, sort (.callFailed message kind id e)) (kind : Kind) (id : UInt32)
    (x : Except Sv2CpuMinerError α) :
    Guarantees (Logs sort) (reportFailure message kind id x : Handler D) := by
  unfold reportFailure
  split
  · trivial
  · trivial
  · exact logError_logs (hfailed kind id _)

theorem callMiner_logs {α : Type} {sort : ErrorLog → Prop} {message : String}
    (hfailed : ∀ kind id e, sort (.callFailed message kind id e)) (kind : Kind) (id : UInt32)
    (method : Prog (Rig (D.client kind)) Sv2CpuMinerError α) :
    Guarantees (Logs sort) (callMiner kind id method (reportFailure message)) := by
  refine guarantees_bind (guarantees_attempt ?_) (fun x => reportFailure_logs hfailed kind id x)
  refine guarantees_focus (fun _ => .of_eq rfl) ?_ (guarantees_true method)
  intro w r r' _ _
  exact .of_eq (log_putMiner w kind r'.miner (.stored id))

/-- The methods of a miner leave the clock and the connection's token alone. -/
def KeepsAmbient {K : ClientChannel} {α : Type} (p : Prog (Rig K) Sv2CpuMinerError α) : Prop :=
  Guarantees (fun r r' => r'.ambient = r.ambient) p

theorem writeChannel_keepsAmbient {K : ClientChannel} {α : Type}
    (op : K.Channel → Outcome K.Channel α) : KeepsAmbient (writeChannel op) := by
  intro r
  refine ⟨rfl, ?_⟩
  dsimp only
  split
  · trivial
  · split <;> trivial

theorem respawn_keepsAmbient {K : ClientChannel} :
    KeepsAmbient (respawnMiningTask (K := K)) :=
  guarantees_bind (guarantees_perform (fun _ => rfl)) (fun _ => guarantees_perform (fun _ => rfl))

theorem program_keepsAmbient {K : ClientChannel} (c : Call K) : KeepsAmbient c.program := by
  rw [program_eq]
  refine guarantees_bind (writeChannel_keepsAmbient _) (fun _ => ?_)
  split
  · exact respawn_keepsAmbient
  · trivial

/-- The method does what a call does, whatever value it returns. -/
structure Performs {K : ClientChannel} {α : Type} (method : Prog (Rig K) Sv2CpuMinerError α)
    (c : Call K) : Prop where
  runs : ∀ r r₀ r', Runs (Interferes Unrestricted) method r r₀ r' →
    ∃ res, Runs (Interferes Unrestricted) c.program r res r'
  keepsAmbient : KeepsAmbient method

theorem performs_of_bind {K : ClientChannel} {α : Type} {method : Prog (Rig K) Sv2CpuMinerError α}
    {c : Call K} (h : c.program = method.bind fun _ => .done ()) (hamb : KeepsAmbient method) :
    Performs method c := by
  refine ⟨?_, hamb⟩
  intro r r₀ r' hrun
  rw [h]
  cases r₀ with
  | ok a => exact ⟨.ok (), runs_bind_iff.mpr (.inl ⟨a, r', hrun, .done .refl⟩)⟩
  | error e => exact ⟨.error e, runs_bind_iff.mpr (.inr ⟨e, rfl, hrun⟩)⟩

theorem performs_program {K : ClientChannel} (c : Call K) : Performs c.program c :=
  ⟨fun _ r₀ _ hrun => ⟨r₀, hrun⟩, program_keepsAmbient c⟩

variable {α : Type} {report : Kind → UInt32 → Except Sv2CpuMinerError (Option α) → Handler D}

theorem callMiner_other {kind kind' : Kind} {id : UInt32} {place' : Place}
    {method : Prog (Rig (D.client kind)) Sv2CpuMinerError α}
    (hreport : ∀ kind id x, OnlyLogs (report kind id x)) (hamb : KeepsAmbient method)
    (hne : ¬ (kind' = kind ∧ place' = .stored id)) :
    Guarantees (RigMoves kind' place') (callMiner kind id method report) := by
  refine guarantees_bind (guarantees_attempt ?_) (fun x => ?_)
  · refine guarantees_focus (RigMoves.refl kind' place') ?_ hamb
    intro w r r' hr hkeep r₁ hr₁
    exact ⟨r₁, (rigAt_putRig_of_ne hr hkeep hne).trans hr₁, .refl⟩
  · exact guarantees_mono (onlyLogs_rigMoves kind' place') (hreport kind id x)

theorem callMiner_self {kind : Kind} {id : UInt32}
    {method : Prog (Rig (D.client kind)) Sv2CpuMinerError α}
    (hreport : ∀ kind id x, OnlyLogs (report kind id x)) {w w' : World D}
    {res : Except Sv2CpuMinerError Unit} {r : Rig (D.client kind)}
    (h : Runs WorldInterferes (callMiner kind id method report) w res w')
    (hr : w.rigAt kind (.stored id) = some r) :
    ∃ r₀ r', w'.rigAt kind (.stored id) = some r' ∧
      Runs (Interferes Unrestricted) method r r₀ r' := by
  rcases runs_bind_iff.mp h with ⟨x, w₁, hfocus, hrest⟩ | ⟨_, _, hfocus⟩
  · obtain ⟨r₀, _, hrun⟩ := runs_attempt_iff.mp hfocus
    obtain ⟨r₁, t, _, ht, hown⟩ := runs_focus
      (fun s t t' hs => rigAt_putRig_self kind (.stored id) s t t' hs)
      (fun s s' t hs ht => interferes_rigMoves kind (.stored id) s s' hs t ht) hrun hr
    have hmoves : RigMoves kind (.stored id) w₁ w' :=
      Runs.within (RigMoves.refl _ _) (fun _ _ _ => RigMoves.trans)
        (interferes_rigMoves kind (.stored id))
        (guarantees_mono (onlyLogs_rigMoves kind (.stored id)) (hreport kind id x)) hrest
    obtain ⟨r', hr', hothers⟩ := hmoves t ht
    exact ⟨r₁, r', hr', hown.append hothers⟩
  · obtain ⟨_, he, _⟩ := runs_attempt_iff.mp hfocus
    contradiction

/-- The standard miner is looked up first. -/
def Resolves (w : World D) (kind : Kind) (id : UInt32) : Prop :=
  kind = .standard ∨ w.manager.standardChannels.containsKey id = false

theorem SameRegistry.resolves {w w' : World D} (h : SameRegistry w w') {kind : Kind} {id : UInt32} :
    Resolves w' kind id ↔ Resolves w kind id := by
  have hkey : w'.manager.standardChannels.containsKey id =
      w.manager.standardChannels.containsKey id := h.keys .standard id
  unfold Resolves
  rw [hkey]

/-- Every rig has moved on by itself, or has run the call meant for it. -/
def Delivers (targets : (kind : Kind) → UInt32 → Call (D.client kind) → Prop) (w w' : World D) :
    Prop :=
  ∀ (kind : Kind) (place : Place) (r : Rig (D.client kind)), w.rigAt kind place = some r →
    ∃ r', w'.rigAt kind place = some r' ∧
      (Others Unrestricted r r' ∨
        ∃ id c res, place = .stored id ∧ targets kind id c ∧
          Runs (Interferes Unrestricted) c.program r res r')

theorem Delivers.of_rigMoves {targets : (kind : Kind) → UInt32 → Call (D.client kind) → Prop}
    {w w' : World D} (h : ∀ kind place, RigMoves kind place w w') : Delivers targets w w' := by
  intro kind place r hr
  obtain ⟨r', hr', hothers⟩ := h kind place r hr
  exact ⟨r', hr', .inl hothers⟩

theorem Delivers.mono {targets targets' : (kind : Kind) → UInt32 → Call (D.client kind) → Prop}
    {w w' : World D} (h : Delivers targets w w')
    (hsub : ∀ kind id c, targets kind id c → targets' kind id c) : Delivers targets' w w' := by
  intro kind place r hr
  obtain ⟨r', hr', hothers | ⟨id, c, res, hp, ht, hrun⟩⟩ := h kind place r hr
  · exact ⟨r', hr', .inl hothers⟩
  · exact ⟨r', hr', .inr ⟨id, c, res, hp, hsub kind id c ht, hrun⟩⟩

theorem Delivers.append {first second : (kind : Kind) → UInt32 → Call (D.client kind) → Prop}
    {w w₁ w' : World D} (h₁ : Delivers first w w₁) (h₂ : Delivers second w₁ w')
    (hapart : ∀ kind id c c', first kind id c → second kind id c' → False) :
    Delivers (fun kind id c => first kind id c ∨ second kind id c) w w' := by
  intro kind place r hr
  obtain ⟨r₁, hr₁, hstep₁⟩ := h₁ kind place r hr
  obtain ⟨r', hr', hstep₂⟩ := h₂ kind place r₁ hr₁
  refine ⟨r', hr', ?_⟩
  rcases hstep₁ with hothers₁ | ⟨id, c, res, rfl, ht, hrun⟩
  · rcases hstep₂ with hothers₂ | ⟨id, c, res, hp, ht, hrun⟩
    · exact .inl (hothers₁.trans hothers₂)
    · exact .inr ⟨id, c, res, hp, .inr ht, hrun.prepend hothers₁⟩
  · rcases hstep₂ with hothers₂ | ⟨id', c', res', hp, ht', hrun'⟩
    · exact .inr ⟨id, c, res, rfl, .inl ht, hrun.append hothers₂⟩
    · cases hp
      exact (hapart kind id c c' ht ht').elim

theorem callMiner_delivers {kind : Kind} {id : UInt32}
    {method : Prog (Rig (D.client kind)) Sv2CpuMinerError α} {c : Call (D.client kind)}
    (hreport : ∀ kind id x, OnlyLogs (report kind id x)) (hm : Performs method c) {w w' : World D}
    {res : Except Sv2CpuMinerError Unit}
    (h : Runs WorldInterferes (callMiner kind id method report) w res w') :
    Delivers (fun kind' id' c' => id' = id ∧ ∃ hk : kind' = kind, hk ▸ c' = c) w w' := by
  intro kind' place r hr
  by_cases hsame : kind' = kind ∧ place = .stored id
  · obtain ⟨rfl, rfl⟩ := hsame
    obtain ⟨r₀, r', hr', hrun⟩ := callMiner_self hreport h hr
    obtain ⟨res', hcall⟩ := hm.runs _ _ _ hrun
    exact ⟨r', hr', .inr ⟨id, c, res', rfl, ⟨rfl, rfl, rfl⟩, hcall⟩⟩
  · have hmoves : RigMoves kind' place w w' :=
      Runs.within (RigMoves.refl _ _) (fun _ _ _ => RigMoves.trans) (interferes_rigMoves _ _)
        (callMiner_other hreport hm.keepsAmbient hsame) h
    obtain ⟨r', hr', hothers⟩ := hmoves r hr
    exact ⟨r', hr', .inl hothers⟩

end Calls

end CpuMinerSv2.ManagerFrames
