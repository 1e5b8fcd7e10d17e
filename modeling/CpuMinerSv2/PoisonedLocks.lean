import CpuMinerSv2.FanOut

/-!
Handlers on channels whose lock is poisoned. A message fails with a poisoned
lock exactly when a channel it has to use has one, except for the responses to
shares: their handlers log this failure like any other and go on.
-/

namespace CpuMinerSv2.PoisonedLocks

open Messages Channels Primitives Interference MineJob MinerMethods MinerRuns Manager
  ManagerFrames Deliveries Registry HandlerRuns HandlerErrors Serving SampleDeps SampleWorlds
  Relation

variable {D : Deps}

/-- A channel that the message has to use has a poisoned lock. -/
def NeedsPoisoned (w : World D) (m : ServerMessage) : Prop :=
  ∃ (kind : Kind) (id : UInt32) (r : Rig (D.client kind)), (∃ c, Targets w m kind id c) ∧
    w.rigAt kind (.stored id) = some r ∧ r.miner.channel.poisoned = true

/-- Messages for channels that are open, taken on this connection. -/
def ForChannels (w : World D) : ServerMessage → Prop
  | .newMiningJob _ | .setNewPrevHash _ | .setTarget _ => True
  | .submitSharesSuccess _ | .submitSharesError _ => True
  | .newExtendedMiningJob _ => w.manager.requiresStandardJobs = false
  | .setExtranoncePrefix m => ∃ p, D.fromWire m.extranoncePrefix = .ok p
  | _ => False

/-- The handler fails with a poisoned lock exactly when it needs one, and with
nothing else. While it runs alone this is a matter of the state it starts in;
else a lock it needs at the start makes it fail, and one it fails at is
poisoned at the end. -/
structure FailsWhenPoisoned (w : World D) (m : ServerMessage) : Prop where
  alone : ((handle m).eval w).1 = .error .poisonLock ↔ NeedsPoisoned w m
  started : ∀ (r : Except Sv2CpuMinerError Unit) (w' : World D), WorldStep w (.message m r) w' →
    NeedsPoisoned w m → r = .error .poisonLock
  ended : ∀ (r : Except Sv2CpuMinerError Unit) (w' : World D), WorldStep w (.message m r) w' →
    r = .error .poisonLock → NeedsPoisoned w' m
  noOther : ∀ (r : Except Sv2CpuMinerError Unit) (w' : World D), WorldStep w (.message m r) w' →
    r = .ok () ∨ r = .error .poisonLock

/-- Locks that are poisoned now were before. -/
def PoisonsNone (w w' : World D) : Prop :=
  ∀ kind place miner', w'.minerAt kind place = some miner' → miner'.channel.poisoned = true →
    ∃ miner, w.minerAt kind place = some miner ∧ miner.channel.poisoned = true

theorem program_poisonsNone {K : ClientChannel} (c : Call K) :
    Guarantees (fun r r' : Rig K => r'.miner.channel.poisoned = true →
      r.miner.channel.poisoned = true) c.program := by
  rw [program_eq]
  refine guarantees_bind ?_ (fun _ => ?_)
  · intro r
    refine ⟨?_, ?_⟩
    · intro hlock
      by_contra hfree
      rw [Bool.not_eq_true] at hfree
      simp only [RwCell.write, hfree, Bool.false_eq_true, ↓reduceIte] at hlock
      contradiction
    · dsimp only
      split
      · trivial
      · split <;> trivial
  · split
    · refine guarantees_bind (guarantees_perform ?_) (fun _ => guarantees_perform ?_)
      · intro r
        change (cancelPastTask r.miner).channel.poisoned = true → _
        rw [cancelPast_channel]
        exact fun hlock => hlock
      · exact fun _ hlock => hlock
    · trivial

theorem handle_poisonsNone {m : ServerMessage} (hm : KeepsRegistry m) (w : World D) :
    PoisonsNone w ((handle m).eval w).2 := by
  have hactions : Guarantees PoisonsNone (handle m : Handler D) := by
    refine handle_guarantees hm ⟨?_, ?_⟩ (fun kind c => program_poisonsNone c)
    · intro w log kind place miner' hm' hlock
      refine ⟨miner', ?_, hlock⟩
      cases kind <;> cases place <;> exact hm'
    · intro kind id _ w r r' hr hS kind' place miner' hm' hlock
      rw [minerAt_putRig] at hm'
      have hstored := (rigAt_eq_some_iff.mp hr).1
      by_cases hplace : kind' = kind ∧ place = .stored id
      · obtain ⟨rfl, rfl⟩ := hplace
        rw [minerAt_putMiner_self hstored] at hm'
        cases hm'
        exact ⟨r.miner, hstored, hS hlock⟩
      · rw [minerAt_putMiner_of_ne w _ hplace] at hm'
        exact ⟨miner', hm', hlock⟩
  refine Runs.within ?_ ?_ (fun _ _ => False.elim) hactions
    (runs_eval (handle m) w)
  · exact fun w kind place miner hm hlock => ⟨miner, hm, hlock⟩
  · intro a b c hab hbc kind place miner hm hlock
    obtain ⟨miner₁, hm₁, hlock₁⟩ := hbc kind place miner hm hlock
    exact hab kind place miner₁ hm₁ hlock₁

theorem targets_congr {w w' : World D} (h : SameRegistry w w') {m : ServerMessage} {kind : Kind}
    {id : UInt32} {c : Call (D.client kind)} (ht : Targets w' m kind id c) :
    Targets w m kind id c := by
  cases ht with
  | setExtranoncePrefix hp => exact .setExtranoncePrefix hp
  | shareAcknowledgement hr => exact .shareAcknowledgement (h.resolves.mp hr)
  | shareRejection hr => exact .shareRejection (h.resolves.mp hr)
  | newMiningJob => exact .newMiningJob
  | channelJob hstd hg =>
    rw [h.requiresStandardJobs] at hstd
    rw [h.groups] at hg
    exact .channelJob hstd hg
  | groupJob hstd hg hid hr =>
    rw [h.requiresStandardJobs] at hstd
    rw [h.groups] at hg
    exact .groupJob hstd hg hid (h.resolves.mp hr)
  | setNewPrevHash hid hr =>
    rw [h.addressedChannels] at hid
    exact .setNewPrevHash hid (h.resolves.mp hr)
  | setTarget hid hr =>
    rw [h.addressedChannels] at hid
    exact .setTarget hid (h.resolves.mp hr)

theorem NeedsPoisoned.of_poisonsNone {w w' : World D} {m : ServerMessage}
    (hsame : SameRegistry w w') (h : PoisonsNone w w') (hp : NeedsPoisoned w' m) :
    NeedsPoisoned w m := by
  obtain ⟨kind, id, r, ⟨c, ht⟩, hr, hlock⟩ := hp
  obtain ⟨miner, hm, hbefore⟩ := h kind (.stored id) r.miner (rigAt_eq_some_iff.mp hr).1 hlock
  exact ⟨kind, id, ⟨w.ambient, miner⟩, ⟨c, targets_congr hsame ht⟩,
    rigAt_eq_some_iff.mpr ⟨hm, rfl⟩, hbefore⟩

/-- The run fails when a lock it needs was poisoned at the start, and only
when one is at the end. -/
def FindsPoisoned (m : ServerMessage) (w : World D) (r : Except Sv2CpuMinerError Unit)
    (w' : World D) : Prop :=
  (NeedsPoisoned w m → r = .error .poisonLock) ∧
    (r = .ok () ∨ r = .error .poisonLock ∧ NeedsPoisoned w' m)

theorem loop_findsPoisoned {m : ServerMessage} {message : String} {missing : UInt32 → ErrorLog}
    (calls : (kind : Kind) → Call (D.client kind)) {ids : List UInt32} {w w₁ w' : World D}
    {r : Except Sv2CpuMinerError Unit} (h₁ : WorldOthers w w₁)
    (htargets : ∀ w₂, SameRegistry w w₂ → ∀ kind id,
      (∃ c, Targets w₂ m kind id c) ↔ id ∈ ids ∧ Resolves w₂ kind id)
    (h : Runs WorldInterferes (Prog.forEach (deliver (calls .standard).program
      (calls .extended).program (reportFailure message) missing) ids) w₁ r w') :
    FindsPoisoned m w r w' := by
  have hsame : SameRegistry w₁ w' := guarantees_sameRegistry
    (guarantees_forEach (fun id => deliver_sameRegistry (reportFailure_onlyLogs _) id) _) h
  obtain ⟨hstart, hend⟩ := forEach_poisoned calls h
  refine ⟨?_, ?_⟩
  · intro hp
    obtain ⟨kind, id, r₀, htarget, hr, hlock⟩ := hp
    obtain ⟨hid, hres⟩ := (htargets w (SameRegistry.refl w) kind id).mp htarget
    have hlocked : LockPoisoned w id := ⟨kind, r₀, hres, hr, hlock⟩
    exact hstart ⟨id, hid, hlocked.of_worldOthers h₁⟩
  · rcases hend with hok | ⟨he, id, hid, kind, r', hres, hr', hlock⟩
    · exact .inl hok
    · have hafter := (worldOthers_sameRegistry h₁).trans hsame
      exact .inr ⟨he, kind, id, r', (htargets w' hafter kind id).mpr ⟨hid, hres⟩, hr', hlock⟩

theorem lookup_findsPoisoned {m : ServerMessage} {message : String} (kind : Kind) (id : UInt32)
    {c : Call (D.client kind)} {e : ErrorLog} {w w₁ w' : World D}
    {r : Except Sv2CpuMinerError Unit} (h₁ : WorldOthers w w₁)
    (htargets : ∀ w₂, SameRegistry w w₂ → ∀ kind' id',
      (∃ c, Targets w₂ m kind' id' c) ↔ kind' = kind ∧ id' = id)
    (h : Runs WorldInterferes (if (w₁.manager.channels kind).containsKey id = true then
      callMiner kind id c.program (reportFailure message) else Manager.logError e) w₁ r w') :
    FindsPoisoned m w r w' := by
  split at h
  · rename_i hkey
    obtain ⟨miner, hm⟩ := Option.isSome_iff_exists.mp hkey
    have hr₁ : w₁.rigAt kind (.stored id) = some ⟨w₁.ambient, miner⟩ :=
      rigAt_eq_some_iff.mpr ⟨hm, rfl⟩
    obtain ⟨hstart, hend⟩ := callMiner_poisoned h hr₁
    refine ⟨?_, ?_⟩
    · intro hp
      obtain ⟨kind', id', r₀, htarget, hr, hlock⟩ := hp
      obtain ⟨rfl, rfl⟩ := (htargets w (SameRegistry.refl w) kind' id').mp htarget
      obtain ⟨r₁, hmoved, hothers⟩ := worldOthers_rigMoves h₁ kind' _ r₀ hr
      cases hr₁.symm.trans hmoved
      exact hstart (others_poisoned hothers hlock)
    · rcases hend with hok | ⟨he, r', hr', hlock⟩
      · exact .inl hok
      · have hafter := (worldOthers_sameRegistry h₁).trans
          (guarantees_sameRegistry (callMiner_sameRegistry (reportFailure_onlyLogs _)) h)
        exact .inr ⟨he, kind, id, r', (htargets w' hafter kind id).mpr ⟨rfl, rfl⟩, hr', hlock⟩
  · rename_i hkey
    refine ⟨?_, .inl (logError_ok h)⟩
    intro hp
    obtain ⟨kind', id', r₀, htarget, hr, _⟩ := hp
    obtain ⟨rfl, rfl⟩ := (htargets w (SameRegistry.refl w) kind' id').mp htarget
    have hstored := Option.isSome_of_eq_some (rigAt_eq_some_iff.mp hr).1
    rw [← (worldOthers_sameRegistry h₁).places] at hstored
    exact absurd hstored hkey

theorem newMiningJob_findsPoisoned {m : NewMiningJob} {w w' : World D}
    {r : Except Sv2CpuMinerError Unit} (h : Runs WorldInterferes (handleNewMiningJob m) w r w') :
    FindsPoisoned (.newMiningJob m) w r w' := by
  obtain ⟨w₁, h₁, hrest⟩ := runs_observe_manager h
  refine lookup_findsPoisoned .standard m.channelId
    (c := (.job (StandardJobMessage.newMiningJob m) : Call (D.client .standard))) h₁ ?_ hrest
  intro w₂ _ kind id
  constructor
  · intro ht
    obtain ⟨c, ht⟩ := ht
    cases ht
    exact ⟨rfl, rfl⟩
  · intro heq
    obtain ⟨rfl, rfl⟩ := heq
    exact ⟨_, .newMiningJob⟩

theorem newExtendedMiningJob_findsPoisoned {m : NewExtendedMiningJob} {w w' : World D}
    {r : Except Sv2CpuMinerError Unit} (hstd : w.manager.requiresStandardJobs = false)
    (h : Runs WorldInterferes (handleNewExtendedMiningJob m) w r w') :
    FindsPoisoned (.newExtendedMiningJob m) w r w' := by
  obtain ⟨w₁, h₁, hrest⟩ := runs_observe_manager h
  have hsame := worldOthers_sameRegistry h₁
  simp only [hsame.requiresStandardJobs, hstd, Bool.false_eq_true, ↓reduceIte,
    hsame.groups] at hrest
  split at hrest
  · rename_i hg
    refine lookup_findsPoisoned .extended m.channelId
      (c := groupJob .extended m) h₁ ?_ hrest
    intro w₂ hsame₂ kind id
    constructor
    · intro ht
      obtain ⟨c, ht⟩ := ht
      cases ht with
      | channelJob => exact ⟨rfl, rfl⟩
      | groupJob _ hg₂ =>
        rw [hsame₂.groups, hg] at hg₂
        contradiction
    · intro heq
      obtain ⟨rfl, rfl⟩ := heq
      exact ⟨_, .channelJob (hsame₂.requiresStandardJobs.trans hstd)
        ((congrFun hsame₂.groups _).trans hg)⟩
  · rename_i group hg
    refine loop_findsPoisoned (fun kind => groupJob kind m) h₁ ?_ hrest
    intro w₂ hsame₂ kind id
    have hg₂ : w₂.manager.groupChannels m.channelId = some group :=
      (congrFun hsame₂.groups _).trans hg
    constructor
    · intro ht
      obtain ⟨c, ht⟩ := ht
      cases ht with
      | channelJob _ hnone =>
        rw [hg₂] at hnone
        contradiction
      | groupJob _ hg' hid hr =>
        cases hg₂.symm.trans hg'
        exact ⟨hid, hr⟩
    · intro hmember
      exact ⟨_, .groupJob (hsame₂.requiresStandardJobs.trans hstd) hg₂ hmember.1 hmember.2⟩

theorem setNewPrevHash_findsPoisoned {m : SetNewPrevHash} {w w' : World D}
    {r : Except Sv2CpuMinerError Unit} (h : Runs WorldInterferes (handleSetNewPrevHash m) w r w') :
    FindsPoisoned (.setNewPrevHash m) w r w' := by
  obtain ⟨w₁, h₁, hrest⟩ := runs_observe_manager h
  refine loop_findsPoisoned (fun _ => .setNewPrevHash m) h₁ ?_ hrest
  intro w₂ hsame₂ kind id
  rw [(worldOthers_sameRegistry h₁).addressedChannels, ← hsame₂.addressedChannels]
  constructor
  · intro ht
    obtain ⟨c, ht⟩ := ht
    cases ht with
    | setNewPrevHash hid hr => exact ⟨hid, hr⟩
  · exact fun hmember => ⟨_, .setNewPrevHash hmember.1 hmember.2⟩

theorem setTarget_findsPoisoned {m : SetTarget} {w w' : World D}
    {r : Except Sv2CpuMinerError Unit} (h : Runs WorldInterferes (handleSetTarget m) w r w') :
    FindsPoisoned (.setTarget m) w r w' := by
  obtain ⟨w₁, h₁, hrest⟩ := runs_observe_manager h
  refine loop_findsPoisoned (fun _ => .setTarget (Target.fromLeBytes m.maximumTarget)) h₁ ?_ hrest
  intro w₂ hsame₂ kind id
  rw [(worldOthers_sameRegistry h₁).addressedChannels, ← hsame₂.addressedChannels]
  constructor
  · intro ht
    obtain ⟨c, ht⟩ := ht
    cases ht with
    | setTarget hid hr => exact ⟨hid, hr⟩
  · exact fun hmember => ⟨_, .setTarget hmember.1 hmember.2⟩

theorem callPrefix_poisoned {kind : Kind} {id : UInt32} {p : ExtranoncePrefix} {message : String}
    {b : Bool} {w w' : World D} {r : Except Sv2CpuMinerError Unit}
    (hb : b = (w.minerAt kind (.stored id)).isSome)
    (h : Runs WorldInterferes (onlyIf b (callMiner kind id
      (setExtranoncePrefix (K := D.client kind) p) (reportFailure message))) w r w') :
    (PoisonedAt w kind id → r = .error .poisonLock) ∧
      (r = .ok () ∨ r = .error .poisonLock ∧ PoisonedAt w' kind id) := by
  cases hm : w.minerAt kind (.stored id) with
  | none =>
    rw [hm] at hb
    subst hb
    refine ⟨?_, .inl (runs_done_iff.mp h).1⟩
    intro hp
    obtain ⟨r₀, hr, _⟩ := hp
    rw [(rigAt_eq_some_iff.mp hr).1] at hm
    contradiction
  | some miner =>
    rw [hm] at hb
    subst hb
    have hr : w.rigAt kind (.stored id) = some ⟨w.ambient, miner⟩ :=
      rigAt_eq_some_iff.mpr ⟨hm, rfl⟩
    obtain ⟨hstart, hend⟩ := callMiner_poisoned (c := .setExtranoncePrefix p) h hr
    refine ⟨?_, hend⟩
    intro hp
    obtain ⟨r₀, hr₀, hlock⟩ := hp
    cases hr.symm.trans hr₀
    exact hstart hlock

theorem setExtranoncePrefix_findsPoisoned {m : SetExtranoncePrefix} {p : ExtranoncePrefix}
    (hp : D.fromWire m.extranoncePrefix = .ok p) {w w' : World D}
    {r : Except Sv2CpuMinerError Unit}
    (h : Runs WorldInterferes (handleSetExtranoncePrefix m) w r w') :
    FindsPoisoned (.setExtranoncePrefix m) w r w' := by
  have hneeds : ∀ {w₂ : World D}, NeedsPoisoned w₂ (.setExtranoncePrefix m) ↔
      ∃ kind, PoisonedAt w₂ kind m.channelId := by
    intro w₂
    constructor
    · intro hneed
      obtain ⟨kind, id, r₀, ⟨c, htarget⟩, hr, hlock⟩ := hneed
      cases htarget
      exact ⟨kind, r₀, hr, hlock⟩
    · intro hpoisoned
      obtain ⟨kind, r₀, hr, hlock⟩ := hpoisoned
      exact ⟨kind, _, r₀, ⟨_, .setExtranoncePrefix hp⟩, hr, hlock⟩
  simp only [handleSetExtranoncePrefix, hp] at h
  obtain ⟨w₁, h₁, hrest⟩ := runs_observe_manager h
  have hbefore : ∀ kind, PoisonedAt w kind m.channelId → PoisonedAt w₁ kind m.channelId :=
    fun kind => PoisonedAt.moved (worldOthers_rigMoves h₁ kind _)
  have hpresent : w₁.manager.standardChannels.containsKey m.channelId =
      (w₁.minerAt .standard (.stored m.channelId)).isSome := rfl
  unfold FindsPoisoned
  rw [hneeds, hneeds]
  rcases runs_bind_iff.mp hrest with ⟨_, w₂, hstd, hnext⟩ | ⟨e, he, hstd⟩
  · obtain ⟨hfirst, _⟩ := callPrefix_poisoned hpresent hstd
    have hmoves : RigMoves .extended (.stored m.channelId) w₁ w₂ := by
      intro r₀ hr₀
      obtain ⟨r', hr', hothers | ⟨_, _, _, _, htarget, _⟩⟩ :=
        callSetPrefix_delivers .standard hp w hstd .extended _ r₀ hr₀
      · exact ⟨r', hr', hothers⟩
      · obtain ⟨hkind, _⟩ := htarget
        contradiction
    have hsame := guarantees_sameRegistry
      (guarantees_onlyIf (callMiner_sameRegistry (reportFailure_onlyLogs _))) hstd
    have hkey := (hsame.places .extended (.stored m.channelId)).symm
    rcases runs_bind_iff.mp hnext with ⟨_, w₃, hext, hlog⟩ | ⟨e, he, hext⟩
    · obtain ⟨hsecond, _⟩ := callPrefix_poisoned hkey hext
      refine ⟨?_, .inl ?_⟩
      · intro hpoisoned
        obtain ⟨kind, hpoisoned⟩ := hpoisoned
        cases kind with
        | standard =>
          have herr := hfirst (hbefore .standard hpoisoned)
          contradiction
        | extended =>
          have herr := hsecond ((hbefore .extended hpoisoned).moved hmoves)
          contradiction
      · unfold onlyIf at hlog
        split at hlog
        · exact logError_ok hlog
        · exact (runs_done_iff.mp hlog).1
    · obtain ⟨_, hok | ⟨he', hpoisoned⟩⟩ := callPrefix_poisoned hkey hext
      · contradiction
      · rw [he, he']
        exact ⟨fun _ => rfl, .inr ⟨rfl, .extended, hpoisoned⟩⟩
  · obtain ⟨_, hok | ⟨he', hpoisoned⟩⟩ := callPrefix_poisoned hpresent hstd
    · contradiction
    · rw [he, he']
      exact ⟨fun _ => rfl, .inr ⟨rfl, .standard, hpoisoned⟩⟩

theorem handle_findsPoisoned {m : ServerMessage} {w w' : World D}
    {r : Except Sv2CpuMinerError Unit} (hm : ForChannels w m) (hlogs : ¬ LogsFailures m)
    (h : Runs WorldInterferes (handle m) w r w') : FindsPoisoned m w r w' := by
  cases m with
  | setExtranoncePrefix m =>
    obtain ⟨p, hp⟩ := hm
    exact setExtranoncePrefix_findsPoisoned hp h
  | submitSharesSuccess m => exact absurd trivial hlogs
  | submitSharesError m => exact absurd trivial hlogs
  | newMiningJob m => exact newMiningJob_findsPoisoned h
  | newExtendedMiningJob m => exact newExtendedMiningJob_findsPoisoned hm h
  | setNewPrevHash m => exact setNewPrevHash_findsPoisoned h
  | setTarget m => exact setTarget_findsPoisoned h
  | _ => exact hm.elim

theorem handle_logs_ok {m : ServerMessage} {w w' : World D} {r : Except Sv2CpuMinerError Unit}
    (hlogs : LogsFailures m) (h : Runs WorldInterferes (handle m) w r w') : r = .ok () := by
  cases m with
  | submitSharesSuccess m =>
    simp only [handle, handleSubmitSharesSuccess] at h
    exact deliver_logs_ok h
  | submitSharesError m =>
    simp only [handle, handleSubmitSharesError] at h
    exact deliver_logs_ok h
  | _ => exact hlogs.elim

/-- In any state, whichever locks are poisoned, a message for channels fails
with a poisoned lock exactly when it needs one, unless it is a response to
shares: then it does not fail. -/
theorem fails_when_poisoned_iff (D : Deps) (w : World D) (m : ServerMessage)
    (hm : ForChannels w m) :
    FailsWhenPoisoned w m ↔ ¬ (LogsFailures m ∧ NeedsPoisoned w m) := by
  have hkeeps : KeepsRegistry m := by
    cases m <;> trivial
  by_cases hlogs : LogsFailures m
  · have hok : ∀ {r : Except Sv2CpuMinerError Unit} {w' : World D},
        WorldStep w (.message m r) w' → r = .ok () := by
      intro r w' hstep
      cases hstep with
      | message h => exact handle_logs_ok hlogs h
    have halone : ((handle m).eval w).1 = .ok () := handle_logs_ok hlogs (runs_eval (handle m) w)
    constructor
    · intro hfails hneeds
      have herror := hfails.alone.mpr hneeds.2
      rw [halone] at herror
      contradiction
    · intro hneeds
      have hnone : ¬ NeedsPoisoned w m := fun h => hneeds ⟨hlogs, h⟩
      refine ⟨?_, ?_, ?_, ?_⟩
      · rw [halone]
        exact iff_of_false (fun he => nomatch he) hnone
      · exact fun r w' _ h => absurd h hnone
      · intro r w' hstep he
        rw [hok hstep] at he
        contradiction
      · exact fun r w' hstep => .inl (hok hstep)
  · have hfinds : ∀ {r : Except Sv2CpuMinerError Unit} {w' : World D},
        WorldStep w (.message m r) w' → FindsPoisoned m w r w' := by
      intro r w' hstep
      cases hstep with
      | message h => exact handle_findsPoisoned hm hlogs h
    refine iff_of_true ⟨?_, ?_, ?_, ?_⟩ (fun h => hlogs h.1)
    · obtain ⟨hstart, hend⟩ := handle_findsPoisoned hm hlogs (runs_eval (handle m) w)
      refine ⟨?_, hstart⟩
      intro he
      rcases hend with hok | ⟨_, hneeds⟩
      · rw [hok] at he
        contradiction
      · exact hneeds.of_poisonsNone
          (guarantees_sameRegistry (handle_sameRegistry m hkeeps) (runs_eval (handle m) w))
          (handle_poisonsNone hkeeps w)
    · exact fun r w' hstep => (hfinds hstep).1
    · intro r w' hstep he
      rcases (hfinds hstep).2 with hok | ⟨_, hneeds⟩
      · rw [hok] at he
        contradiction
      · exact hneeds
    · intro r w' hstep
      rcases (hfinds hstep).2 with hok | ⟨he, _⟩
      · exact .inl hok
      · exact .inr he

/-- A task has panicked while it held this lock. -/
def poisonLock (w : World D) (kind : Kind) (id : UInt32) : World D :=
  match w.minerAt kind (.stored id) with
  | some miner => w.putMiner kind (miner.setChannel miner.channel.poison) (.stored id)
  | none => w

/-- The lock of an open channel is poisoned, and the acknowledgement for it is
handled without an error. -/
theorem acknowledgement_hides_poisoned_lock :
    ∃ w, play World.execute sampleWorld sampleOpenings = some w ∧
      NeedsPoisoned (poisonLock w .standard 1) (acknowledgeMessage 1 1 1) ∧
      ((handle (acknowledgeMessage 1 1 1)).eval (poisonLock w .standard 1)).1 = .ok () ∧
      ¬ FailsWhenPoisoned (poisonLock w .standard 1) (acknowledgeMessage 1 1 1) := by
  obtain ⟨w, hw⟩ : ∃ w, play World.execute sampleWorld sampleOpenings = some w := ⟨_, rfl⟩
  have hneeds : NeedsPoisoned (poisonLock w .standard 1) (acknowledgeMessage 1 1 1) := by
    cases hw
    exact ⟨.standard, 1, _, ⟨_, .shareAcknowledgement (.inl rfl)⟩, rfl, rfl⟩
  have hok : ((handle (acknowledgeMessage 1 1 1)).eval (poisonLock w .standard 1)).1 = .ok () :=
    handle_logs_ok (m := acknowledgeMessage 1 1 1) trivial (runs_eval _ _)
  refine ⟨w, hw, hneeds, hok, ?_⟩
  intro hfails
  have herror := hfails.alone.mpr hneeds
  rw [hok] at herror
  contradiction

/-- A new target for the group of that channel ends the connection. -/
theorem sample_target_fails :
    ∃ w, play World.execute sampleWorld sampleOpenings = some w ∧
      FailsWhenPoisoned (poisonLock w .standard 1)
        (.setTarget { channelId := 10, maximumTarget := [7] }) ∧
      ((handle (.setTarget { channelId := 10, maximumTarget := [7] })).eval
        (poisonLock w .standard 1)).1 = .error .poisonLock := by
  obtain ⟨w, hw⟩ : ∃ w, play World.execute sampleWorld sampleOpenings = some w := ⟨_, rfl⟩
  have hfails := (fails_when_poisoned_iff sampleDeps (poisonLock w .standard 1)
    (.setTarget { channelId := 10, maximumTarget := [7] }) trivial).mpr (fun h => h.1)
  refine ⟨w, hw, hfails, hfails.alone.mpr ?_⟩
  cases hw
  exact ⟨.standard, 1, _, ⟨_, .setTarget (by decide) (.inl rfl)⟩, rfl, rfl⟩

end CpuMinerSv2.PoisonedLocks
