import CpuMinerSv2.HandlerErrors

/-!
A channel that a handler reaches is served for certain: unless an earlier one
has ended the loop, its miner runs the call. The call fails with a poisoned
lock when the lock was poisoned at the start, and only when it is at the end;
a lock once poisoned stays poisoned.
-/

namespace CpuMinerSv2.Serving

open Messages Channels Interference MinerMethods MinerRuns Manager ManagerFrames Deliveries
  HandlerRuns HandlerErrors

variable {D : Deps}

/-- The miner an id resolves to has a poisoned lock. -/
def LockPoisoned (w : World D) (id : UInt32) : Prop :=
  ∃ kind, ∃ r : Rig (D.client kind), Resolves w kind id ∧
    w.rigAt kind (.stored id) = some r ∧ r.miner.channel.poisoned = true

theorem call_poisoned {K : ClientChannel} {c : Call K} {r r' : Rig K}
    {res : Except Sv2CpuMinerError Unit}
    (h : Runs (Interferes Unrestricted) c.program r res r')
    (hlock : r.miner.channel.poisoned = true) :
    res = .error .poisonLock ∧ r'.miner.channel.poisoned = true := by
  have hstays : ∀ {r₁ : Rig K}, Others Unrestricted r r₁ → r₁.miner.channel.poisoned = false →
      False := by
    intro r₁ h₁ hfree
    rw [others_poisoned h₁ hlock] at hfree
    contradiction
  cases call_cases h with
  | poisoned h₁ _ h' => exact ⟨rfl, others_poisoned (h₁.trans h') hlock⟩
  | refused h₁ hfree => exact (hstays h₁ hfree).elim
  | quiet h₁ hfree => exact (hstays h₁ hfree).elim
  | activated h₁ hfree => exact (hstays h₁ hfree).elim

theorem LockPoisoned.of_delivers {targets : (kind : Kind) → UInt32 → Call (D.client kind) → Prop}
    {w w' : World D} (h : Delivers targets w w') (hsame : SameRegistry w w') {id : UInt32}
    (hp : LockPoisoned w id) : LockPoisoned w' id := by
  obtain ⟨kind, r, hres, hr, hlock⟩ := hp
  obtain ⟨r', hr', hothers | ⟨_, _, _, _, _, hrun⟩⟩ := h kind (.stored id) r hr
  · exact ⟨kind, r', hsame.resolves.mpr hres, hr', others_poisoned hothers hlock⟩
  · exact ⟨kind, r', hsame.resolves.mpr hres, hr', (call_poisoned hrun hlock).2⟩

theorem LockPoisoned.of_worldOthers {w w' : World D} (h : WorldOthers w w') {id : UInt32}
    (hp : LockPoisoned w id) : LockPoisoned w' id :=
  hp.of_delivers
    (Delivers.of_rigMoves (worldOthers_rigMoves h) : Delivers (fun _ _ _ => False) w w')
    (worldOthers_sameRegistry h)

section Served

/-- The miner that the id resolves to has run the call meant for it. -/
def RunsCall (calls : (kind : Kind) → Call (D.client kind)) (id : UInt32) (w w' : World D) : Prop :=
  ∀ (kind : Kind) (r : Rig (D.client kind)), Resolves w kind id →
    w.rigAt kind (.stored id) = some r → ∃ r₀ r', w'.rigAt kind (.stored id) = some r' ∧
      Runs (Interferes Unrestricted) (calls kind).program r r₀ r'

theorem RunsCall.prepend {calls : (kind : Kind) → Call (D.client kind)} {id : UInt32}
    {w w₁ w' : World D} (hsame : SameRegistry w w₁)
    (hmoves : ∀ kind, RigMoves kind (.stored id) w w₁) (h : RunsCall calls id w₁ w') :
    RunsCall calls id w w' := by
  intro kind r hres hr
  obtain ⟨r₁, hr₁, hothers⟩ := hmoves kind r hr
  obtain ⟨r₀, r', hr', hrun⟩ := h kind r₁ (hsame.resolves.mpr hres) hr₁
  exact ⟨r₀, r', hr', hrun.prepend hothers⟩

variable {α : Type} {report : Kind → UInt32 → Except Sv2CpuMinerError (Option α) → Handler D}
  {onStandard : Prog (Rig (standardClient D)) Sv2CpuMinerError α}
  {onExtended : Prog (Rig (extendedClient D)) Sv2CpuMinerError α} {missing : UInt32 → ErrorLog}

theorem deliver_calls (methods : (kind : Kind) → Prog (Rig (D.client kind)) Sv2CpuMinerError α)
    {id : UInt32} {w w' : World D} {res : Except Sv2CpuMinerError Unit}
    (h : Runs WorldInterferes (deliver (methods .standard) (methods .extended) report missing id)
      w res w') {kind : Kind} {r : Rig (D.client kind)} (hres : Resolves w kind id)
    (hr : w.rigAt kind (.stored id) = some r) :
    ∃ w₁, WorldOthers w w₁ ∧
      Runs WorldInterferes (callMiner kind id (methods kind) report) w₁ res w' := by
  obtain ⟨w₁, h₁, hrest⟩ := runs_observe_manager h
  have hsame := worldOthers_sameRegistry h₁
  refine ⟨w₁, h₁, ?_⟩
  have hkey : (w₁.manager.channels kind).containsKey id = true :=
    (hsame.keys kind id).trans (Option.isSome_of_eq_some (rigAt_eq_some_iff.mp hr).1)
  cases kind with
  | standard =>
    have hstd : w₁.manager.standardChannels.containsKey id = true := hkey
    simp only [hstd, ↓reduceIte] at hrest
    exact hrest
  | extended =>
    have hstd : w₁.manager.standardChannels.containsKey id = false := by
      rcases hsame.resolves.mpr hres with hk | hnone
      · contradiction
      · exact hnone
    have hext : w₁.manager.extendedChannels.containsKey id = true := hkey
    simp only [hstd, hext, Bool.false_eq_true, ↓reduceIte] at hrest
    exact hrest

theorem deliver_runsCall {methods : (kind : Kind) → Prog (Rig (D.client kind)) Sv2CpuMinerError α}
    (calls : (kind : Kind) → Call (D.client kind))
    (hreport : ∀ kind id x, OnlyLogs (report kind id x))
    (hmethods : ∀ kind, Performs (methods kind) (calls kind)) {id : UInt32} {w w' : World D}
    {res : Except Sv2CpuMinerError Unit}
    (h : Runs WorldInterferes (deliver (methods .standard) (methods .extended) report missing id)
      w res w') : RunsCall calls id w w' := by
  intro kind r hres hr
  obtain ⟨w₁, h₁, hcall⟩ := deliver_calls methods h hres hr
  obtain ⟨r₁, hr₁, hothers⟩ := worldOthers_rigMoves h₁ kind _ r hr
  obtain ⟨_, r', hr', hrun⟩ := callMiner_self hreport hcall hr₁
  obtain ⟨res', hown⟩ := (hmethods kind).runs _ _ _ hrun
  exact ⟨res', r', hr', hown.prepend hothers⟩

theorem deliver_other (calls : (kind : Kind) → Call (D.client kind))
    (hreport : ∀ kind id x, OnlyLogs (report kind id x))
    (hstd : Performs onStandard (calls .standard)) (hext : Performs onExtended (calls .extended))
    {id id' : UInt32} (hne : id' ≠ id) {w w' : World D} {res : Except Sv2CpuMinerError Unit}
    (h : Runs WorldInterferes (deliver onStandard onExtended report missing id) w res w')
    (kind : Kind) : RigMoves kind (.stored id') w w' := by
  intro r hr
  obtain ⟨r', hr', hothers | ⟨_, _, _, hplace, ⟨hid, _⟩, _⟩⟩ :=
    deliver_delivers calls hreport hstd hext h kind (.stored id') r hr
  · exact ⟨r', hr', hothers⟩
  · cases hplace
    exact absurd hid hne

end Served

section Reports

/-- An entry that was not there has been added to the log. -/
def NewEntry (e : ErrorLog) (w w' : World D) : Prop :=
  ∃ added, w'.log = w.log ++ added ∧ e ∈ added

theorem NewEntry.within {e : ErrorLog} {w₀ w w' w₁ : World D} (h : NewEntry e w w')
    (hbefore : Logs (fun _ => True) w₀ w) (hafter : Logs (fun _ => True) w' w₁) :
    NewEntry e w₀ w₁ := by
  obtain ⟨added, hlog, he⟩ := h
  obtain ⟨first, hfirst, _⟩ := hbefore
  obtain ⟨last, hlast, _⟩ := hafter
  refine ⟨first ++ (added ++ last), ?_, ?_⟩
  · rw [hlast, hlog, hfirst, List.append_assoc, List.append_assoc]
  · exact List.mem_append_right _ (List.mem_append_left _ he)

/-- The miner that the id resolves to has run the call meant for it, and a
failure of the call is now in the log. -/
def CallReported (message : String) (calls : (kind : Kind) → Call (D.client kind)) (id : UInt32)
    (w w' : World D) : Prop :=
  ∀ (kind : Kind) (r : Rig (D.client kind)), Resolves w kind id →
    w.rigAt kind (.stored id) = some r → ∃ res r', w'.rigAt kind (.stored id) = some r' ∧
      Runs (Interferes Unrestricted) (calls kind).program r res r' ∧
      ∀ e, res = .error e → NewEntry (.callFailed message kind id e) w w'

variable {message : String} {calls : (kind : Kind) → Call (D.client kind)}
  {missing : UInt32 → ErrorLog}

theorem CallReported.runsCall {id : UInt32} {w w' : World D}
    (h : CallReported message calls id w w') : RunsCall calls id w w' := by
  intro kind r hres hr
  obtain ⟨res, r', hr', hrun, _⟩ := h kind r hres hr
  exact ⟨res, r', hr', hrun⟩

theorem CallReported.within {id : UInt32} {w₀ w w' w₁ : World D}
    (h : CallReported message calls id w w') (hsame : SameRegistry w₀ w)
    (hbefore : ∀ kind, RigMoves kind (.stored id) w₀ w) (hlog : Logs (fun _ => True) w₀ w)
    (hafter : ∀ kind, RigMoves kind (.stored id) w' w₁) (hlog' : Logs (fun _ => True) w' w₁) :
    CallReported message calls id w₀ w₁ := by
  intro kind r₀ hres hr₀
  obtain ⟨r, hr, hothers⟩ := hbefore kind r₀ hr₀
  obtain ⟨res, r', hr', hrun, hfailed⟩ := h kind r (hsame.resolves.mpr hres) hr
  obtain ⟨r₁, hr₁, hothers'⟩ := hafter kind r' hr'
  exact ⟨res, r₁, hr₁, (hrun.prepend hothers).append hothers',
    fun e he => (hfailed e he).within hlog hlog'⟩

theorem callMiner_reports {kind : Kind} {id : UInt32} {c : Call (D.client kind)} {w w' : World D}
    {r : Rig (D.client kind)}
    (h : Runs WorldInterferes (callMiner kind id c.program (reportFailure message)) w (.ok ()) w')
    (hr : w.rigAt kind (.stored id) = some r) :
    ∃ res r', w'.rigAt kind (.stored id) = some r' ∧
      Runs (Interferes Unrestricted) c.program r res r' ∧
      ∀ e, res = .error e → NewEntry (.callFailed message kind id e) w w' := by
  rcases runs_bind_iff.mp h with ⟨x, w₁, hfocus, hrest⟩ | ⟨_, _, hfocus⟩
  · obtain ⟨r₀, hx, hrun⟩ := runs_attempt_iff.mp hfocus
    cases hx
    obtain ⟨res, t, hres, ht, hown⟩ := runs_focus
      (fun s t t' hs => rigAt_putRig_self kind (.stored id) s t t' hs)
      (fun s s' t hs ht => interferes_rigMoves kind (.stored id) s s' hs t ht) hrun hr
    subst hres
    have hmoves : RigMoves kind (.stored id) w₁ w' :=
      Runs.within (RigMoves.refl _ _) (fun _ _ _ => RigMoves.trans)
        (interferes_rigMoves kind (.stored id)) (guarantees_mono
          (onlyLogs_rigMoves kind (.stored id)) (reportFailure_onlyLogs message kind id _)) hrest
    obtain ⟨r', hr', hothers⟩ := hmoves t ht
    refine ⟨res, r', hr', hown.append hothers, ?_⟩
    rintro e rfl
    have hcall : Logs (fun _ => True) w w₁ := by
      refine runs_logs (guarantees_attempt (guarantees_focus (fun _ => .of_eq rfl) ?_
        (guarantees_true c.program))) hfocus
      intro v t₁ t₂ _ _
      exact .of_eq (log_putMiner v kind t₂.miner (.stored id))
    -- a poisoned lock would have ended the handler
    have hlogged : NewEntry (.callFailed message kind id e) w₁ w' := by
      simp only [reportFailure, Except.map] at hrest
      split at hrest
      · contradiction
      · exact absurd (runs_fail_iff.mp hrest).1 (fun he => by contradiction)
      · rename_i he
        cases he
        obtain ⟨_, v, hv, hv'⟩ := runs_perform_iff.mp hrest
        refine ⟨[.callFailed message kind id e], ?_, List.mem_singleton_self _⟩
        rw [worldOthers_log hv', World.logError, worldOthers_log hv]
    exact hlogged.within hcall (.of_eq rfl)
  · obtain ⟨_, he, _⟩ := runs_attempt_iff.mp hfocus
    contradiction

theorem deliver_logs (methods : (kind : Kind) → Prog (Rig (D.client kind)) Sv2CpuMinerError Unit)
    (id : UInt32) : Guarantees (Logs (D := D) fun _ => True)
      (deliver (methods .standard) (methods .extended) (reportFailure message) missing id) := by
  refine guarantees_bind (guarantees_observe (fun _ => .of_eq rfl) _) (fun mgr => ?_)
  split
  · exact callMiner_logs (fun _ _ _ => trivial) _ _ _
  · split
    · exact callMiner_logs (fun _ _ _ => trivial) _ _ _
    · exact logError_logs trivial

theorem deliver_reports {id : UInt32} {w w' : World D}
    (h : Runs WorldInterferes (deliver (calls .standard).program (calls .extended).program
      (reportFailure message) missing id) w (.ok ()) w') :
    CallReported message calls id w w' := by
  intro kind r hres hr
  obtain ⟨w₁, h₁, hcall⟩ := deliver_calls (fun kind => (calls kind).program) h hres hr
  obtain ⟨r₁, hr₁, hothers⟩ := worldOthers_rigMoves h₁ kind _ r hr
  obtain ⟨res, r', hr', hrun, hfailed⟩ := callMiner_reports hcall hr₁
  exact ⟨res, r', hr', hrun.prepend hothers,
    fun e he => (hfailed e he).within (.of_eq (worldOthers_log h₁)) (.of_eq rfl)⟩

theorem forEach_reports {ids : List UInt32} (hnodup : ids.Nodup) {w w' : World D}
    (h : Runs WorldInterferes (Prog.forEach (deliver (calls .standard).program
      (calls .extended).program (reportFailure message) missing) ids) w (.ok ()) w') :
    ∀ id ∈ ids, CallReported message calls id w w' := by
  have hstd := performs_program (calls .standard)
  have hext := performs_program (calls .extended)
  induction ids generalizing w with
  | nil => exact fun id hid => absurd hid List.not_mem_nil
  | cons a rest ih =>
    obtain ⟨hnot, hrest⟩ := List.nodup_cons.mp hnodup
    rcases runs_bind_iff.mp h with ⟨_, w₁, hhead, htail⟩ | ⟨_, he, _⟩
    · have hsame :=
        guarantees_sameRegistry (deliver_sameRegistry (reportFailure_onlyLogs _) a) hhead
      have hlog := runs_logs (deliver_logs (fun kind => (calls kind).program) a) hhead
      have hlog' := runs_logs
        (guarantees_forEach (deliver_logs fun kind => (calls kind).program) rest) htail
      intro id hid
      rcases List.mem_cons.mp hid with rfl | hid
      · refine (deliver_reports hhead).within (SameRegistry.refl w)
          (fun kind => RigMoves.refl _ _ w)
          (.of_eq rfl) ?_ hlog'
        intro kind r hr
        obtain ⟨r', hr', hothers | ⟨_, _, _, hplace, ⟨hmem, _⟩, _⟩⟩ :=
          forEach_delivers calls (reportFailure_onlyLogs _) hstd hext hrest htail kind (.stored id)
            r hr
        · exact ⟨r', hr', hothers⟩
        · cases hplace
          exact absurd hmem hnot
      · have hne : id ≠ a := fun heq => hnot (heq ▸ hid)
        exact (ih hrest htail id hid).within hsame
          (deliver_other calls (reportFailure_onlyLogs _) hstd hext hne hhead) hlog
          (fun kind => RigMoves.refl _ _ w') (.of_eq rfl)
    · contradiction

end Reports

section Results

variable {message : String} {missing : UInt32 → ErrorLog}

theorem callMiner_poisoned {kind : Kind} {id : UInt32} {c : Call (D.client kind)} {w w' : World D}
    {res : Except Sv2CpuMinerError Unit} {r : Rig (D.client kind)}
    (h : Runs WorldInterferes (callMiner kind id c.program (reportFailure message)) w res w')
    (hr : w.rigAt kind (.stored id) = some r) :
    (r.miner.channel.poisoned = true → res = .error .poisonLock) ∧
    (res = .ok () ∨ res = .error .poisonLock ∧ PoisonedAt w' kind id) := by
  refine ⟨?_, ?_⟩
  · intro hlock
    rcases runs_bind_iff.mp h with ⟨x, w₁, hfocus, hrest⟩ | ⟨_, _, hfocus⟩
    · obtain ⟨r₀, hx, hrun⟩ := runs_attempt_iff.mp hfocus
      cases hx
      obtain ⟨r₁, t, hres, _, hown⟩ := runs_focus
        (fun s t t' hs => rigAt_putRig_self kind (.stored id) s t t' hs)
        (fun s s' t hs ht => interferes_rigMoves kind (.stored id) s s' hs t ht) hrun hr
      subst hres
      obtain ⟨rfl, _⟩ := call_poisoned hown hlock
      exact (runs_fail_iff.mp hrest).1
    · obtain ⟨_, he, _⟩ := runs_attempt_iff.mp hfocus
      contradiction
  · cases res with
    | ok u => exact .inl rfl
    | error e =>
      obtain ⟨rfl, hp⟩ := callMiner_fails h
      exact .inr ⟨rfl, hp.poisonedAt⟩

theorem deliver_poisoned (calls : (kind : Kind) → Call (D.client kind))
    {id : UInt32} {w w' : World D} {res : Except Sv2CpuMinerError Unit}
    (h : Runs WorldInterferes (deliver (calls .standard).program (calls .extended).program
      (reportFailure message) missing id) w res w') :
    (LockPoisoned w id → res = .error .poisonLock) ∧
    (res = .ok () ∨ res = .error .poisonLock ∧ LockPoisoned w' id) := by
  have hreg : SameRegistry w w' :=
    guarantees_sameRegistry (deliver_sameRegistry (reportFailure_onlyLogs _) id) h
  obtain ⟨w₁, h₁, hrest⟩ := runs_observe_manager h
  have hsame := worldOthers_sameRegistry h₁
  have hcalled : ∀ kind : Kind, (w₁.manager.channels kind id).isSome = true →
      Resolves w kind id → (∀ kind', Resolves w kind' id →
        (w₁.manager.channels kind' id).isSome = true → kind' = kind) →
      Runs WorldInterferes (callMiner kind id (calls kind).program (reportFailure message))
        w₁ res w' →
      (LockPoisoned w id → res = .error .poisonLock) ∧
      (res = .ok () ∨ res = .error .poisonLock ∧ LockPoisoned w' id) := by
    intro kind hkey hres honly hrun
    obtain ⟨miner, hm⟩ := Option.isSome_iff_exists.mp hkey
    have hr : w₁.rigAt kind (.stored id) = some ⟨w₁.ambient, miner⟩ :=
      rigAt_eq_some_iff.mpr ⟨hm, rfl⟩
    obtain ⟨hstart, hend⟩ := callMiner_poisoned hrun hr
    refine ⟨?_, ?_⟩
    · intro hp
      obtain ⟨kind', r', hres', hr', hlock⟩ := hp.of_worldOthers h₁
      have hkind := honly kind' (hsame.resolves.mp hres')
        (Option.isSome_of_eq_some (rigAt_eq_some_iff.mp hr').1)
      subst hkind
      cases hr.symm.trans hr'
      exact hstart hlock
    · rcases hend with hok | ⟨he, r', hr', hlock⟩
      · exact .inl hok
      · exact .inr ⟨he, kind, r', hreg.resolves.mpr hres, hr', hlock⟩
  split at hrest
  · rename_i hstd
    refine hcalled .standard hstd (.inl rfl) ?_ hrest
    intro kind' hres' _
    rcases hsame.resolves.mpr hres' with hk | hnone
    · exact hk
    · rw [hnone] at hstd
      contradiction
  · rename_i hstd
    have hres : Resolves w .extended id :=
      hsame.resolves.mp (.inr (Bool.eq_false_iff.mpr hstd))
    have honly : ∀ kind', Resolves w kind' id →
        (w₁.manager.channels kind' id).isSome = true → kind' = .extended := by
      intro kind' _ hkey
      cases kind' with
      | standard => exact absurd hkey hstd
      | extended => rfl
    split at hrest
    · rename_i hext
      exact hcalled .extended hext hres honly hrest
    · rename_i hext
      refine ⟨?_, .inl (logError_ok hrest)⟩
      intro hp
      obtain ⟨kind', r', hres', hr', _⟩ := hp.of_worldOthers h₁
      have hkey := Option.isSome_of_eq_some (rigAt_eq_some_iff.mp hr').1
      cases honly kind' (hsame.resolves.mp hres') hkey
      exact absurd hkey hext

theorem forEach_poisoned (calls : (kind : Kind) → Call (D.client kind))
    {ids : List UInt32} {w w' : World D} {res : Except Sv2CpuMinerError Unit}
    (h : Runs WorldInterferes (Prog.forEach (deliver (calls .standard).program
      (calls .extended).program (reportFailure message) missing) ids) w res w') :
    ((∃ id ∈ ids, LockPoisoned w id) → res = .error .poisonLock) ∧
    (res = .ok () ∨ res = .error .poisonLock ∧ ∃ id ∈ ids, LockPoisoned w' id) := by
  induction ids generalizing w with
  | nil =>
    refine ⟨?_, .inl (runs_done_iff.mp h).1⟩
    rintro ⟨id, hid, _⟩
    exact absurd hid List.not_mem_nil
  | cons a rest ih =>
    rcases runs_bind_iff.mp h with ⟨_, w₁, hhead, htail⟩ | ⟨e, he, hhead⟩
    · obtain ⟨hstart, _⟩ := deliver_poisoned calls hhead
      obtain ⟨hstart', hend'⟩ := ih htail
      refine ⟨?_, ?_⟩
      · rintro ⟨id, hid, hp⟩
        rcases List.mem_cons.mp hid with rfl | hid
        · exact nomatch hstart hp
        · have hsame :=
            guarantees_sameRegistry (deliver_sameRegistry (reportFailure_onlyLogs _) a) hhead
          have hdelivers := deliver_delivers calls (reportFailure_onlyLogs _)
            (performs_program (calls .standard)) (performs_program (calls .extended)) hhead
          exact hstart' ⟨id, hid, hp.of_delivers hdelivers hsame⟩
      · rcases hend' with hok | ⟨he, id, hid, hp⟩
        · exact .inl hok
        · exact .inr ⟨he, id, List.mem_cons_of_mem _ hid, hp⟩
    · obtain ⟨_, hend⟩ := deliver_poisoned calls hhead
      rcases hend with hok | ⟨he', hp⟩
      · contradiction
      · rw [he, he']
        exact ⟨fun _ => rfl, .inr ⟨rfl, a, List.mem_cons_self, hp⟩⟩

end Results

end CpuMinerSv2.Serving
