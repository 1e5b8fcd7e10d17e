import CpuMinerSv2.HandlerRuns

/-!
Which errors end the connection. A handler fails on a message that the
connection has ruled out, or on the poisoned lock of a channel it has to use;
every other problem is logged.
-/

namespace CpuMinerSv2.HandlerErrors

open Messages Channels Interference MinerMethods MinerRuns Manager ManagerFrames Deliveries
  HandlerRuns

variable {D : Deps}

/-- Messages that are never taken on this connection. -/
def Refused (w : World D) : ServerMessage → Prop
  | .setCustomMiningJobSuccess _ | .setCustomMiningJobError _ => True
  | .newExtendedMiningJob _ | .setGroupChannel _ => w.manager.requiresStandardJobs = true
  | _ => False

instance (w : World D) : (m : ServerMessage) → Decidable (Refused w m)
  | .setCustomMiningJobSuccess _ | .setCustomMiningJobError _ => isTrue trivial
  | .newExtendedMiningJob _ | .setGroupChannel _ =>
    inferInstanceAs (Decidable (w.manager.requiresStandardJobs = true))
  | .openStandardMiningChannelSuccess _ | .openExtendedMiningChannelSuccess _
  | .openMiningChannelError _ | .updateChannelError _ | .closeChannel _
  | .setExtranoncePrefix _ | .submitSharesSuccess _ | .submitSharesError _ | .newMiningJob _
  | .setNewPrevHash _ | .setTarget _ => isFalse (fun h => h)

/-- The error by which a message is refused. -/
def refusal (D : Deps) : ServerMessage → Option Sv2CpuMinerError
  | .setCustomMiningJobSuccess _ =>
    some (.unexpectedMessage 0 D.messageTypeSetCustomMiningJobSuccess)
  | .setCustomMiningJobError _ => some (.unexpectedMessage 0 D.messageTypeSetCustomMiningJobError)
  | .newExtendedMiningJob _ => some (.standardJobsOnly "NewExtendedMiningJob")
  | .setGroupChannel _ => some (.standardJobsOnly "SetGroupChannel")
  | _ => none

/-- Every failure of a share response is only logged. -/
def LogsFailures : ServerMessage → Prop
  | .submitSharesSuccess _ | .submitSharesError _ => True
  | _ => False

/-- The channels whose lock a handler has to take: those it calls, and those
whose size it reads for a new group, up to the first that cannot join. -/
inductive Locks (w : World D) : ServerMessage → Kind → UInt32 → Prop
  | called {m : ServerMessage} {kind : Kind} {id : UInt32} {c : Call (D.client kind)}
      (ht : Targets w m kind id c) (hm : ¬ LogsFailures m) : Locks w m kind id
  | listed {m : SetGroupChannel} {kind : Kind} {before after : List UInt32} {id : UInt32}
      {joined : D.group.GroupChannel} (hfree : ¬ ChannelOpen w m.groupChannelId)
      (hids : m.channelIds = before ++ id :: after)
      (hlisted : Listed w (D.group.new m.groupChannelId) before joined)
      (hres : Resolves w kind id) : Locks w (.setGroupChannel m) kind id

/-- The channel stored here has a poisoned lock. -/
def PoisonedAt (w : World D) (kind : Kind) (id : UInt32) : Prop :=
  ∃ r, w.rigAt kind (.stored id) = some r ∧ r.miner.channel.poisoned = true

theorem PoisonedAt.moved {w w' : World D} {kind : Kind} {id : UInt32}
    (hmoves : RigMoves kind (.stored id) w w') (h : PoisonedAt w kind id) :
    PoisonedAt w' kind id := by
  obtain ⟨r, hr, hlock⟩ := h
  obtain ⟨r', hr', hothers⟩ := hmoves r hr
  exact ⟨r', hr', others_poisoned hothers hlock⟩

/-- The lock of the channel stored here is poisoned when the handler is done,
and the handler has done nothing to that channel. -/
def FoundPoisoned (w w' : World D) (kind : Kind) (id : UInt32) : Prop :=
  ∃ r r', w.rigAt kind (.stored id) = some r ∧ w'.rigAt kind (.stored id) = some r' ∧
    Others Unrestricted r r' ∧ r'.miner.channel.poisoned = true

theorem FoundPoisoned.poisonedAt {w w' : World D} {kind : Kind} {id : UInt32}
    (h : FoundPoisoned w w' kind id) : PoisonedAt w' kind id := by
  obtain ⟨_, r', _, hr', _, hlock⟩ := h
  exact ⟨r', hr', hlock⟩

/-- The error is that of a refused message, or of a poisoned lock that the
message had to take. -/
def Violates (w : World D) (m : ServerMessage) (e : Sv2CpuMinerError) (w' : World D) : Prop :=
  (Refused w m ∧ refusal D m = some e) ∨
    (e = .poisonLock ∧ ∃ kind id, Locks w m kind id ∧ FoundPoisoned w w' kind id)

theorem FoundPoisoned.of_rigMoves {w w₁ w' : World D} {kind : Kind} {id : UInt32}
    (hsame : SameRegistry w w₁) (hmoves : RigMoves kind (.stored id) w w₁)
    (h : FoundPoisoned w₁ w' kind id) : FoundPoisoned w w' kind id := by
  obtain ⟨r₁, r', hr₁, hr', hothers, hlock⟩ := h
  obtain ⟨r, hr⟩ := hsame.rig_before (rigAt_eq_some_iff.mp hr₁).1
  obtain ⟨s, hs, hbefore⟩ := hmoves r hr
  cases hr₁.symm.trans hs
  exact ⟨r, r', hr, hr', hbefore.trans hothers, hlock⟩

theorem FoundPoisoned.of_worldOthers {w w₁ w' : World D} {kind : Kind} {id : UInt32}
    (h : WorldOthers w w₁) (hp : FoundPoisoned w₁ w' kind id) : FoundPoisoned w w' kind id :=
  hp.of_rigMoves (worldOthers_sameRegistry h) (worldOthers_rigMoves h kind (.stored id))

theorem logError_ok {e : ErrorLog} {w w' : World D} {res : Except Sv2CpuMinerError Unit}
    (h : Runs WorldInterferes (Manager.logError e) w res w') : res = .ok () :=
  (runs_perform_iff.mp h).1

theorem reportFailure_fails {α : Type} {message : String} {kind : Kind} {id : UInt32}
    {x : Except Sv2CpuMinerError α} {w w' : World D} {e : Sv2CpuMinerError}
    (h : Runs WorldInterferes (reportFailure message kind id x) w (.error e) w') :
    x = .error .poisonLock ∧ e = .poisonLock ∧ WorldOthers w w' := by
  unfold reportFailure at h
  split at h
  · exact nomatch (runs_done_iff.mp h).1
  · obtain ⟨he, h'⟩ := runs_fail_iff.mp h
    exact ⟨rfl, Except.error.inj he, h'⟩
  · exact nomatch logError_ok h

theorem logFailure_ok {α : Type} {message : String} {kind : Kind} {id : UInt32}
    {x : Except Sv2CpuMinerError α} {w w' : World D} {res : Except Sv2CpuMinerError Unit}
    (h : Runs WorldInterferes (logFailure message kind id x) w res w') : res = .ok () := by
  unfold logFailure at h
  split at h
  · exact (runs_done_iff.mp h).1
  · exact logError_ok h

theorem call_poisonLock {kind : Kind} {c : Call (D.client kind)} {r r' : Rig (D.client kind)}
    (h : Runs (Interferes Unrestricted) c.program r (.error .poisonLock) r') :
    Others Unrestricted r r' ∧ r'.miner.channel.poisoned = true := by
  generalize hres : (Except.error .poisonLock : Except Sv2CpuMinerError Unit) = res at h
  cases call_cases h with
  | poisoned h₁ hlock h' => exact ⟨h₁.trans h', others_poisoned h' hlock⟩
  | refused => cases kind <;> exact nomatch hres
  | quiet => exact nomatch hres
  | activated => exact nomatch hres

theorem callMiner_fails {kind : Kind} {id : UInt32} {c : Call (D.client kind)} {message : String}
    {w w' : World D} {e : Sv2CpuMinerError}
    (h : Runs WorldInterferes (callMiner kind id c.program (reportFailure message))
      w (.error e) w') :
    e = .poisonLock ∧ FoundPoisoned w w' kind id := by
  rcases runs_bind_iff.mp h with ⟨x, w₁, hfocus, hrest⟩ | ⟨_, _, hfocus⟩
  · obtain ⟨rfl, rfl, h₁⟩ := reportFailure_fails hrest
    obtain ⟨r₀, hr₀, hrun⟩ := runs_attempt_iff.mp hfocus
    cases hr₀
    cases hr : w.rigAt kind (.stored id) with
    | some r =>
      obtain ⟨res, r', hres, hr', hown⟩ := runs_focus
        (fun s t t' hs => rigAt_putRig_self kind (.stored id) s t t' hs)
        (fun s s' t hs ht => interferes_rigMoves kind (.stored id) s s' hs t ht) hrun hr
      cases res with
      | ok u => exact nomatch hres
      | error e' =>
        cases hres
        obtain ⟨hothers, hlock⟩ := call_poisonLock hown
        obtain ⟨r₂, hr₂, hafter⟩ := worldOthers_rigMoves h₁ kind (.stored id) r' hr'
        exact ⟨rfl, r, r₂, hr, hr₂, hothers.trans hafter, others_poisoned hafter hlock⟩
    | none =>
      rw [program_eq] at hrun
      have hnone := runs_focus_none (fun s s' hs hv => ?_) hrun hr
      · exact nomatch hnone.1
      · have hsame := (interferes_sameRegistry s s' hs).places kind (.stored id)
        simp only [World.rigAt, Option.map_eq_none_iff] at hv ⊢
        rw [hv] at hsame
        exact Option.isSome_eq_false_iff.mp hsame |> Option.isNone_iff_eq_none.mp
  · obtain ⟨_, he, _⟩ := runs_attempt_iff.mp hfocus
    contradiction

theorem deliver_fails (calls : (kind : Kind) → Call (D.client kind)) {message : String}
    {missing : UInt32 → ErrorLog} {id : UInt32} {w w' : World D} {e : Sv2CpuMinerError}
    (h : Runs WorldInterferes (deliver (calls .standard).program (calls .extended).program
      (reportFailure message) missing id) w (.error e) w') :
    e = .poisonLock ∧ ∃ kind, Resolves w kind id ∧ FoundPoisoned w w' kind id := by
  obtain ⟨w₁, h₁, hrest⟩ := runs_observe_manager h
  have hsame := worldOthers_sameRegistry h₁
  split at hrest
  · obtain ⟨he, hp⟩ := callMiner_fails hrest
    exact ⟨he, .standard, .inl rfl, hp.of_worldOthers h₁⟩
  · rename_i hnone
    have hres : Resolves w .extended id := hsame.resolves.mp (.inr (Bool.eq_false_iff.mpr hnone))
    split at hrest
    · obtain ⟨he, hp⟩ := callMiner_fails hrest
      exact ⟨he, .extended, hres, hp.of_worldOthers h₁⟩
    · exact nomatch logError_ok hrest

theorem forEach_fails (calls : (kind : Kind) → Call (D.client kind)) {message : String}
    {missing : UInt32 → ErrorLog} {ids : List UInt32} (hnodup : ids.Nodup) {w w' : World D}
    {e : Sv2CpuMinerError}
    (h : Runs WorldInterferes (Prog.forEach (deliver (calls .standard).program
      (calls .extended).program (reportFailure message) missing) ids) w (.error e) w') :
    e = .poisonLock ∧ ∃ kind, ∃ id ∈ ids, Resolves w kind id ∧ FoundPoisoned w w' kind id := by
  induction ids generalizing w with
  | nil => exact nomatch (runs_done_iff.mp h).1
  | cons a rest ih =>
    obtain ⟨hnot, hrest⟩ := List.nodup_cons.mp hnodup
    rcases runs_bind_iff.mp h with ⟨_, w₁, hhead, htail⟩ | ⟨e', he, hhead⟩
    · obtain ⟨hpoison, kind, id, hid, hres, hp⟩ := ih hrest htail
      have hsame :=
        guarantees_sameRegistry (deliver_sameRegistry (reportFailure_onlyLogs _) a) hhead
      have hdelivers := deliver_delivers calls (reportFailure_onlyLogs _)
        (performs_program (calls .standard)) (performs_program (calls .extended)) hhead
      have hmoves : RigMoves kind (.stored id) w w₁ := by
        intro r hr
        obtain ⟨r', hr', hothers | ⟨id', c, res, hplace, ⟨hid', _⟩, _⟩⟩ := hdelivers kind _ r hr
        · exact ⟨r', hr', hothers⟩
        · cases hplace
          exact absurd (hid' ▸ hid) hnot
      exact ⟨hpoison, kind, id, List.mem_cons_of_mem _ hid, hsame.resolves.mp hres,
        hp.of_rigMoves hsame hmoves⟩
    · cases he
      obtain ⟨hpoison, kind, hres, hp⟩ := deliver_fails calls hhead
      exact ⟨hpoison, kind, a, List.mem_cons_self, hres, hp⟩

theorem deliver_logs_ok {α : Type} {onStandard : Prog (Rig (standardClient D)) Sv2CpuMinerError α}
    {onExtended : Prog (Rig (extendedClient D)) Sv2CpuMinerError α} {message : String}
    {missing : UInt32 → ErrorLog} {id : UInt32} {w w' : World D}
    {res : Except Sv2CpuMinerError Unit}
    (h : Runs WorldInterferes (deliver onStandard onExtended (logFailure message) missing id)
      w res w') : res = .ok () := by
  have hcall : ∀ {kind : Kind} {method : Prog (Rig (D.client kind)) Sv2CpuMinerError α}
      {w₁ : World D},
      Runs WorldInterferes (callMiner kind id method (logFailure message)) w₁ res w' →
        res = .ok () := by
    intro kind method w₁ hrun
    rcases runs_bind_iff.mp hrun with ⟨_, _, _, hreport⟩ | ⟨_, _, hattempt⟩
    · exact logFailure_ok hreport
    · obtain ⟨_, he, _⟩ := runs_attempt_iff.mp hattempt
      contradiction
  obtain ⟨w₁, _, hrest⟩ := runs_observe_manager h
  split at hrest
  · exact hcall hrest
  · split at hrest
    · exact hcall hrest
    · exact logError_ok hrest

theorem fullExtranonceSize_fails {id : UInt32} {w w' : World D} {e : Sv2CpuMinerError}
    (h : Runs WorldInterferes (Manager.fullExtranonceSize id) w (.error e) w') :
    e = .poisonLock ∧ ∃ kind, Resolves w kind id ∧ FoundPoisoned w w' kind id := by
  obtain ⟨w₁, h₁, h', hsize⟩ := fullExtranonceSize_cases (fun _ _ hab => hab) h
  cases hsize with
  | @poisoned kind r hres hr hlock =>
    obtain ⟨r', hr', hothers⟩ := worldOthers_rigMoves h' kind (.stored id) r hr
    have hp : FoundPoisoned w₁ w' kind id :=
      ⟨r, r', hr, hr', hothers, others_poisoned hothers hlock⟩
    exact ⟨rfl, kind, (worldOthers_sameRegistry h₁).resolves.mp hres, hp.of_worldOthers h₁⟩

theorem addListed_fails {g : UInt32} {ids : List UInt32} {group : D.group.GroupChannel}
    {w w' : World D} {e : Sv2CpuMinerError}
    (h : Runs WorldInterferes (addListed g group ids) w (.error e) w') :
    e = .poisonLock ∧ ∃ before id after joined kind, ids = before ++ id :: after ∧
      Listed w group before joined ∧ Resolves w kind id ∧ FoundPoisoned w w' kind id := by
  have hlogged : ∀ {w₁ : World D} {log : ErrorLog}, ¬ Runs WorldInterferes
      ((Manager.logError log).bind fun _ => Prog.done (none : Option D.group.GroupChannel))
      w₁ (.error e) w' := by
    intro w₁ log hrun
    rcases runs_bind_iff.mp hrun with ⟨_, _, _, hdone⟩ | ⟨_, _, hlog⟩
    · exact nomatch (runs_done_iff.mp hdone).1
    · exact nomatch logError_ok hlog
  induction ids generalizing group w with
  | nil => exact nomatch (runs_done_iff.mp h).1
  | cons a rest ih =>
    simp only [addListed, Prog.bind_eq] at h
    rcases runs_bind_iff.mp h with ⟨found, w₁, hread, hrest⟩ | ⟨e', he, hread⟩
    · obtain ⟨w₂, h₂, h₃, hsize⟩ := fullExtranonceSize_cases (fun _ _ hab => hab) hread
      have h₁ : WorldOthers w w₁ := h₂.trans h₃
      cases hsize with
      | closed => exact (hlogged hrest).elim
      | read hres hr =>
        have hbefore := (worldOthers_sameRegistry h₂).resolves.mp hres
        dsimp only at hrest
        split at hrest
        · rename_i u joined hadd
          obtain ⟨hpoison, before, id, after, redefined, kind', rfl, hl, hres', hp⟩ := ih hrest
          exact ⟨hpoison, a :: before, id, after, redefined, kind', rfl,
            .cons hbefore h₂ hr hadd (hl.prepend h₁),
            (worldOthers_sameRegistry h₁).resolves.mp hres', hp.of_worldOthers h₁⟩
        · exact (hlogged hrest).elim
    · cases he
      obtain ⟨hpoison, kind, hres, hp⟩ := fullExtranonceSize_fails hread
      exact ⟨hpoison, [], a, rest, group, kind, rfl, .nil, hres, hp⟩

theorem setGroupChannel_fails {m : SetGroupChannel} {w w' : World D} {e : Sv2CpuMinerError}
    (h : Runs WorldInterferes (handleSetGroupChannel m) w (.error e) w') :
    Violates w (.setGroupChannel m) e w' := by
  obtain ⟨w₁, h₁, hrest⟩ := runs_observe_manager h
  have hsame := worldOthers_sameRegistry h₁
  split at hrest
  · rename_i hstd
    rw [hsame.requiresStandardJobs] at hstd
    exact .inl ⟨hstd, congrArg some (Except.error.inj (runs_fail_iff.mp hrest).1).symm⟩
  · split at hrest
    · exact nomatch logError_ok hrest
    · rename_i hkeys
      have hfree : ¬ ChannelOpen w m.groupChannelId := by
        rw [← isOpen_congr hsame, isOpen_iff_keys]
        simpa only [Bool.or_eq_true] using hkeys
      rcases runs_bind_iff.mp hrest with ⟨listed, w₂, _, hlast⟩ | ⟨e', he, hadd⟩
      · cases listed with
        | none => exact nomatch (runs_done_iff.mp hlast).1
        | some redefined => exact nomatch (runs_perform_iff.mp hlast).1
      · cases he
        obtain ⟨hpoison, before, id, after, joined, kind, hids, hl, hres, hp⟩ :=
          addListed_fails hadd
        exact .inr ⟨hpoison, kind, id,
          .listed hfree hids (hl.prepend h₁) (hsame.resolves.mp hres), hp.of_worldOthers h₁⟩

theorem setExtranoncePrefix_fails {m : SetExtranoncePrefix} {w w' : World D} {e : Sv2CpuMinerError}
    (h : Runs WorldInterferes (handleSetExtranoncePrefix m) w (.error e) w') :
    Violates w (.setExtranoncePrefix m) e w' := by
  unfold handleSetExtranoncePrefix at h
  split at h
  · exact nomatch logError_ok h
  · rename_i p hp
    obtain ⟨w₁, h₁, hrest⟩ := runs_observe_manager h
    have hcalled : ∀ {kind : Kind} {b : Bool} {w₂ : World D},
        Runs WorldInterferes (onlyIf b (callMiner kind m.channelId
          (setExtranoncePrefix (K := D.client kind) p) (reportFailure "SetExtranoncePrefix")))
          w₂ (.error e) w' → e = .poisonLock ∧ FoundPoisoned w₂ w' kind m.channelId := by
      intro kind b w₂ hcall
      unfold onlyIf at hcall
      split at hcall
      · exact callMiner_fails (c := Call.setExtranoncePrefix p) hcall
      · exact nomatch (runs_done_iff.mp hcall).1
    rcases runs_bind_iff.mp hrest with ⟨_, w₂, hstd, hnext⟩ | ⟨e', he, hstd⟩
    · rcases runs_bind_iff.mp hnext with ⟨_, w₃, _, hlast⟩ | ⟨e', he, hext⟩
      · unfold onlyIf at hlast
        split at hlast
        · exact nomatch logError_ok hlast
        · exact nomatch (runs_done_iff.mp hlast).1
      · cases he
        have hmoves : RigMoves .extended (.stored m.channelId) w₁ w₂ := by
          intro r hr
          obtain ⟨r', hr', hothers | ⟨_, _, _, _, htarget, _⟩⟩ :=
            callSetPrefix_delivers .standard hp w hstd .extended _ r hr
          · exact ⟨r', hr', hothers⟩
          · exact nomatch htarget.1
        have hsame := guarantees_sameRegistry
          (guarantees_onlyIf (callMiner_sameRegistry (reportFailure_onlyLogs _))) hstd
        obtain ⟨hpoison, hfound⟩ := hcalled hext
        exact .inr ⟨hpoison, .extended, m.channelId,
          .called (.setExtranoncePrefix hp) (fun hm => hm),
          (hfound.of_rigMoves hsame hmoves).of_worldOthers h₁⟩
    · cases he
      obtain ⟨hpoison, hfound⟩ := hcalled hstd
      exact .inr ⟨hpoison, .standard, m.channelId,
        .called (.setExtranoncePrefix hp) (fun hm => hm), hfound.of_worldOthers h₁⟩

theorem fanOut_fails (hD : GroupContract D.group) {m : ServerMessage} {id : UInt32}
    (calls : (kind : Kind) → Call (D.client kind)) {message : String}
    {missing : UInt32 → ErrorLog} (hm : ¬ LogsFailures m) {w w₁ w' : World D}
    (h₁ : WorldOthers w w₁) {e : Sv2CpuMinerError}
    (htargets : ∀ kind a, a ∈ w.manager.addressedChannels id → Resolves w kind a →
      Targets w m kind a (calls kind))
    (h : Runs WorldInterferes (Prog.forEach (deliver (calls .standard).program
      (calls .extended).program (reportFailure message) missing)
      (w₁.manager.addressedChannels id)) w₁ (.error e) w') :
    Violates w m e w' := by
  have hsame := worldOthers_sameRegistry h₁
  rw [hsame.addressedChannels] at h
  obtain ⟨he, kind, a, ha, hres, hp⟩ := forEach_fails calls (addressedChannels_nodup hD _ _) h
  exact .inr ⟨he, kind, a, .called (htargets kind a ha (hsame.resolves.mp hres)) hm,
    hp.of_worldOthers h₁⟩

theorem newExtendedMiningJob_fails (hD : GroupContract D.group) {m : NewExtendedMiningJob}
    {w w' : World D} {e : Sv2CpuMinerError}
    (h : Runs WorldInterferes (handleNewExtendedMiningJob m) w (.error e) w') :
    Violates w (.newExtendedMiningJob m) e w' := by
  obtain ⟨w₁, h₁, hrest⟩ := runs_observe_manager h
  have hsame := worldOthers_sameRegistry h₁
  split at hrest
  · rename_i hstd
    rw [hsame.requiresStandardJobs] at hstd
    exact .inl ⟨hstd, congrArg some (Except.error.inj (runs_fail_iff.mp hrest).1).symm⟩
  · rename_i hstd
    rw [hsame.requiresStandardJobs, Bool.not_eq_true] at hstd
    split at hrest
    · rename_i hgroup
      rw [hsame.groups] at hgroup
      split at hrest
      · obtain ⟨he, hp⟩ := callMiner_fails (c := groupJob .extended m) hrest
        exact .inr ⟨he, .extended, m.channelId, .called (.channelJob hstd hgroup) (fun hm => hm),
          hp.of_worldOthers h₁⟩
      · exact nomatch logError_ok hrest
    · rename_i group hgroup
      rw [hsame.groups] at hgroup
      obtain ⟨he, kind, id, hid, hres, hp⟩ := forEach_fails (fun kind => groupJob kind m)
        (hD.nodup group) hrest
      exact .inr ⟨he, kind, id, .called (.groupJob hstd hgroup hid (hsame.resolves.mp hres))
        (fun hm => hm), hp.of_worldOthers h₁⟩

theorem logged_fails {log : ErrorLog} {e e' : Sv2CpuMinerError} {w w' : World D}
    (h : Runs WorldInterferes ((Manager.logError log).bind fun _ => (.fail e : Handler D))
      w (.error e') w') : e = e' := by
  rcases runs_bind_iff.mp h with ⟨_, _, _, hfail⟩ | ⟨_, _, hlog⟩
  · exact (Except.error.inj (runs_fail_iff.mp hfail).1).symm
  · exact nomatch logError_ok hlog

/-- A handler fails on a message that is refused, or on a poisoned lock. -/
theorem handle_fails (hD : GroupContract D.group) {m : ServerMessage} {w w' : World D}
    {e : Sv2CpuMinerError} (h : Runs WorldInterferes (handle m) w (.error e) w') :
    Violates w m e w' := by
  cases m with
  | openStandardMiningChannelSuccess m => exact nomatch (runs_perform_iff.mp h).1
  | openExtendedMiningChannelSuccess m => exact nomatch (runs_perform_iff.mp h).1
  | openMiningChannelError m => exact nomatch (runs_done_iff.mp h).1
  | updateChannelError m => exact nomatch (runs_done_iff.mp h).1
  | closeChannel m => exact nomatch (runs_perform_iff.mp h).1
  | setExtranoncePrefix m => exact setExtranoncePrefix_fails h
  | submitSharesSuccess m =>
    simp only [handle, handleSubmitSharesSuccess] at h
    exact nomatch deliver_logs_ok h
  | submitSharesError m =>
    simp only [handle, handleSubmitSharesError] at h
    exact nomatch deliver_logs_ok h
  | newMiningJob m =>
    obtain ⟨w₁, h₁, hrest⟩ := runs_observe_manager h
    split at hrest
    · obtain ⟨he, hp⟩ := callMiner_fails
        (c := (.job (StandardJobMessage.newMiningJob m) : Call (D.client .standard))) hrest
      exact .inr ⟨he, .standard, m.channelId, .called .newMiningJob (fun hm => hm),
        hp.of_worldOthers h₁⟩
    · exact nomatch logError_ok hrest
  | newExtendedMiningJob m => exact newExtendedMiningJob_fails hD h
  | setNewPrevHash m =>
    obtain ⟨w₁, h₁, hrest⟩ := runs_observe_manager h
    exact fanOut_fails hD (m := .setNewPrevHash m) (fun _ => Call.setNewPrevHash m) (fun hm => hm)
      h₁
      (fun _ _ ha hres => .setNewPrevHash ha hres) hrest
  | setCustomMiningJobSuccess m => exact .inl ⟨trivial, congrArg some (logged_fails h)⟩
  | setCustomMiningJobError m => exact .inl ⟨trivial, congrArg some (logged_fails h)⟩
  | setTarget m =>
    obtain ⟨w₁, h₁, hrest⟩ := runs_observe_manager h
    exact fanOut_fails hD (m := .setTarget m)
      (fun _ => Call.setTarget (Target.fromLeBytes m.maximumTarget)) (fun hm => hm) h₁
      (fun _ _ ha hres => .setTarget ha hres) hrest
  | setGroupChannel m => exact setGroupChannel_fails h

end CpuMinerSv2.HandlerErrors
