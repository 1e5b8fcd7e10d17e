import CpuMinerSv2.ManagerFrames

/-!
Which stored miners a message reaches, and with which call. Every miner that
is not reached only moves on by itself, and one that is runs the call at most
once: the members of a group are pairwise different.
-/

namespace CpuMinerSv2.Deliveries

open Messages Channels Primitives Interference MineJob MinerMethods MinerRuns Manager
  ManagerFrames Relation

/-- What the manager relies on: a group is a set of ids. -/
structure GroupContract (G : GroupChannelApi) : Prop where
  new : ∀ id, G.getChannelIds (G.new id) = []
  nodup : ∀ group, (G.getChannelIds group).Nodup
  isEmpty : ∀ group, G.isEmpty group = true ↔ G.getChannelIds group = []
  added : ∀ group id size, (G.addChannelId group id size).1 = .ok () →
    ∀ a, a ∈ G.getChannelIds (G.addChannelId group id size).2 ↔ a = id ∨ a ∈ G.getChannelIds group
  refused : ∀ group id size e, (G.addChannelId group id size).1 = .error e →
    (G.addChannelId group id size).2 = group
  removed : ∀ group id a,
    a ∈ G.getChannelIds (G.removeChannelId group id) ↔ a ≠ id ∧ a ∈ G.getChannelIds group

section Targets

variable {D : Deps}

/-- The call a group's job makes on a member. -/
def groupJob : (kind : Kind) → NewExtendedMiningJob → Call (D.client kind)
  | .standard, m => .job (StandardJobMessage.groupChannelJob m)
  | .extended, m => .job m

/-- The calls a message makes on the miners stored in this world. -/
inductive Targets (w : World D) :
    ServerMessage → (kind : Kind) → UInt32 → Call (D.client kind) → Prop
  | setExtranoncePrefix {m : SetExtranoncePrefix} {kind : Kind} {p : ExtranoncePrefix}
      (hp : D.fromWire m.extranoncePrefix = .ok p) :
      Targets w (.setExtranoncePrefix m) kind m.channelId (.setExtranoncePrefix p)
  | shareAcknowledgement {m : SubmitSharesSuccess} {kind : Kind}
      (hr : Resolves w kind m.channelId) :
      Targets w (.submitSharesSuccess m) kind m.channelId
        (.shareAcknowledgement m.newSubmitsAcceptedCount m.newSharesSum)
  | shareRejection {m : SubmitSharesError} {kind : Kind} (hr : Resolves w kind m.channelId) :
      Targets w (.submitSharesError m) kind m.channelId (.shareRejection m.errorCode)
  | newMiningJob {m : NewMiningJob} :
      Targets w (.newMiningJob m) .standard m.channelId (.job (StandardJobMessage.newMiningJob m))
  | channelJob {m : NewExtendedMiningJob} (hstd : w.manager.requiresStandardJobs = false)
      (hg : w.manager.groupChannels m.channelId = none) :
      Targets w (.newExtendedMiningJob m) .extended m.channelId (groupJob .extended m)
  | groupJob {m : NewExtendedMiningJob} {group : D.group.GroupChannel} {kind : Kind} {id : UInt32}
      (hstd : w.manager.requiresStandardJobs = false)
      (hg : w.manager.groupChannels m.channelId = some group)
      (hid : id ∈ D.group.getChannelIds group) (hr : Resolves w kind id) :
      Targets w (.newExtendedMiningJob m) kind id (groupJob kind m)
  | setNewPrevHash {m : SetNewPrevHash} {kind : Kind} {id : UInt32}
      (hid : id ∈ w.manager.addressedChannels m.channelId) (hr : Resolves w kind id) :
      Targets w (.setNewPrevHash m) kind id (.setNewPrevHash m)
  | setTarget {m : SetTarget} {kind : Kind} {id : UInt32}
      (hid : id ∈ w.manager.addressedChannels m.channelId) (hr : Resolves w kind id) :
      Targets w (.setTarget m) kind id (.setTarget (Target.fromLeBytes m.maximumTarget))

end Targets

section Rules

variable {D : Deps}

theorem Delivers.prepend {targets : (kind : Kind) → UInt32 → Call (D.client kind) → Prop}
    {w w₁ w' : World D} (h₁ : ReflTransGen WorldInterferes w w₁) (h : Delivers targets w₁ w') :
    Delivers targets w w' := by
  intro kind place r hr
  obtain ⟨r₁, hr₁, hothers₁⟩ := worldOthers_rigMoves h₁ kind place r hr
  obtain ⟨r', hr', hothers | ⟨id, c, res, hp, ht, hrun⟩⟩ := h kind place r₁ hr₁
  · exact ⟨r', hr', .inl (hothers₁.trans hothers)⟩
  · exact ⟨r', hr', .inr ⟨id, c, res, hp, ht, hrun.prepend hothers₁⟩⟩

theorem delivers_of_guarantees {α : Type}
    {targets : (kind : Kind) → UInt32 → Call (D.client kind) → Prop}
    {p : Prog (World D) Sv2CpuMinerError α} (hp : ∀ kind place, Guarantees (RigMoves kind place) p)
    {w w' : World D} {res : Except Sv2CpuMinerError α} (h : Runs WorldInterferes p w res w') :
    Delivers targets w w' := by
  apply Delivers.of_rigMoves
  intro kind place
  exact Runs.within (RigMoves.refl _ _) (fun _ _ _ => RigMoves.trans) (interferes_rigMoves _ _)
    (hp kind place) h

theorem onlyLogs_delivers {α : Type}
    {targets : (kind : Kind) → UInt32 → Call (D.client kind) → Prop}
    {p : Prog (World D) Sv2CpuMinerError α} (hp : OnlyLogs p) {w w' : World D}
    {res : Except Sv2CpuMinerError α} (h : Runs WorldInterferes p w res w') :
    Delivers targets w w' :=
  delivers_of_guarantees (fun kind place => guarantees_mono (onlyLogs_rigMoves kind place) hp) h

theorem guarantees_sameRegistry {α : Type} {p : Prog (World D) Sv2CpuMinerError α}
    (hp : Guarantees SameRegistry p) {w w' : World D} {res : Except Sv2CpuMinerError α}
    (h : Runs WorldInterferes p w res w') : SameRegistry w w' :=
  Runs.within SameRegistry.refl (fun _ _ _ => SameRegistry.trans) interferes_sameRegistry hp h

theorem runs_observe_manager {env : World D → World D → Prop} {α : Type}
    {f : ChannelManager D → Prog (World D) Sv2CpuMinerError α} {w w' : World D}
    {res : Except Sv2CpuMinerError α}
    (h : Runs env ((Prog.observe World.manager).bind f) w res w') :
    ∃ w₁, ReflTransGen env w w₁ ∧ Runs env (f w₁.manager) w₁ res w' := by
  rcases runs_bind_iff.mp h with ⟨mgr, w₁, hobs, hrest⟩ | ⟨_, _, hobs⟩
  · obtain ⟨w₀, h₀, hmgr, h₁⟩ := runs_observe_iff.mp hobs
    cases hmgr
    exact ⟨w₀, h₀, hrest.prepend h₁⟩
  · obtain ⟨_, _, he, _⟩ := runs_observe_iff.mp hobs
    contradiction

variable {α : Type} {report : Kind → UInt32 → Except Sv2CpuMinerError (Option α) → Handler D}
  {onStandard : Prog (Rig (standardClient D)) Sv2CpuMinerError α}
  {onExtended : Prog (Rig (extendedClient D)) Sv2CpuMinerError α} {missing : UInt32 → ErrorLog}

/-- A relation that logging stays within, and putting back the rig of one of
these ids after a change that stays within `S`. -/
structure Respects (R : World D → World D → Prop)
    (S : (kind : Kind) → Rig (D.client kind) → Rig (D.client kind) → Prop) (ids : Set UInt32) :
    Prop where
  logs : ∀ w log, R w { w with log := log }
  puts : ∀ kind, ∀ id ∈ ids, ∀ w r r', w.rigAt kind (.stored id) = some r → S kind r r' →
    R w (World.putRig kind (.stored id) r' w)

section Respects

variable {R : World D → World D → Prop}
  {S : (kind : Kind) → Rig (D.client kind) → Rig (D.client kind) → Prop} {ids : Set UInt32}

theorem Respects.onlyLogs (hR : Respects R S ids) (w w' : World D)
    (h : ∃ log, w' = { w with log := log }) : R w w' := by
  obtain ⟨log, rfl⟩ := h
  exact hR.logs w log

theorem Respects.refl (hR : Respects R S ids) (w : World D) : R w w := hR.logs w w.log

theorem Respects.observe (hR : Respects R S ids) :
    Guarantees R (Prog.observe World.manager : Prog (World D) Sv2CpuMinerError _) :=
  guarantees_observe hR.refl _

theorem Respects.logError (hR : Respects R S ids) (e : ErrorLog) :
    Guarantees R (Manager.logError e : Handler D) :=
  guarantees_mono hR.onlyLogs (logError_onlyLogs e)

theorem Respects.callMiner (hR : Respects R S ids)
    (hreport : ∀ kind id x, OnlyLogs (report kind id x)) {kind : Kind} {id : UInt32}
    (hid : id ∈ ids) {method : Prog (Rig (D.client kind)) Sv2CpuMinerError α}
    (hm : Guarantees (S kind) method) : Guarantees R (callMiner kind id method report) := by
  refine guarantees_bind (guarantees_attempt ?_) (fun x => ?_)
  · exact guarantees_focus hR.refl (fun w r r' => hR.puts kind id hid w r r') hm
  · exact guarantees_mono hR.onlyLogs (hreport kind id x)

theorem Respects.deliver (hR : Respects R S ids)
    (hreport : ∀ kind id x, OnlyLogs (report kind id x)) {id : UInt32} (hid : id ∈ ids)
    (hstd : Guarantees (S .standard) onStandard) (hext : Guarantees (S .extended) onExtended) :
    Guarantees R (deliver onStandard onExtended report missing id) := by
  refine guarantees_bind hR.observe (fun mgr => ?_)
  split
  · exact hR.callMiner hreport hid hstd
  · split
    · exact hR.callMiner hreport hid hext
    · exact hR.logError _

theorem guarantees_onlyIf {b : Bool} {p : Handler D} (hp : Guarantees R p) :
    Guarantees R (onlyIf b p) := by
  unfold onlyIf
  split
  · exact hp
  · trivial

end Respects

theorem sameRegistry_respects :
    Respects (D := D) SameRegistry (fun _ _ _ => True) Set.univ := by
  refine ⟨?_, ?_⟩
  · exact fun w log => onlyLogs_sameRegistry _ _ ⟨log, rfl⟩
  · exact fun kind id _ w r r' hr _ => putRig_sameRegistry hr r'

theorem callMiner_sameRegistry (hreport : ∀ kind id x, OnlyLogs (report kind id x)) {kind : Kind}
    {id : UInt32} {method : Prog (Rig (D.client kind)) Sv2CpuMinerError α} :
    Guarantees SameRegistry (callMiner kind id method report) :=
  sameRegistry_respects.callMiner hreport trivial (guarantees_true method)

theorem deliver_sameRegistry (hreport : ∀ kind id x, OnlyLogs (report kind id x)) (id : UInt32) :
    Guarantees SameRegistry (deliver onStandard onExtended report missing id) :=
  sameRegistry_respects.deliver hreport trivial (guarantees_true _) (guarantees_true _)

theorem deliver_delivers (calls : (kind : Kind) → Call (D.client kind))
    (hreport : ∀ kind id x, OnlyLogs (report kind id x))
    (hstd : Performs onStandard (calls .standard)) (hext : Performs onExtended (calls .extended))
    {id : UInt32} {w w' : World D} {res : Except Sv2CpuMinerError Unit}
    (h : Runs WorldInterferes (deliver onStandard onExtended report missing id) w res w') :
    Delivers (fun kind id' c => id' = id ∧ Resolves w kind id ∧ c = calls kind) w w' := by
  obtain ⟨w₁, h₁, hrest⟩ := runs_observe_manager h
  have hsame := worldOthers_sameRegistry h₁
  refine Delivers.prepend h₁ ?_
  split at hrest
  · refine (callMiner_delivers hreport hstd hrest).mono ?_
    rintro kind id' c ⟨rfl, rfl, rfl⟩
    exact ⟨rfl, .inl rfl, rfl⟩
  · rename_i hnone
    have hres : Resolves w .extended id := by
      rw [← hsame.resolves]
      exact .inr (Bool.eq_false_iff.mpr hnone)
    split at hrest
    · refine (callMiner_delivers hreport hext hrest).mono ?_
      rintro kind id' c ⟨rfl, rfl, rfl⟩
      exact ⟨rfl, hres, rfl⟩
    · exact onlyLogs_delivers (logError_onlyLogs _) hrest

theorem forEach_delivers (calls : (kind : Kind) → Call (D.client kind))
    (hreport : ∀ kind id x, OnlyLogs (report kind id x))
    (hstd : Performs onStandard (calls .standard)) (hext : Performs onExtended (calls .extended))
    {ids : List UInt32} (hnodup : ids.Nodup) {w w' : World D} {res : Except Sv2CpuMinerError Unit}
    (h : Runs WorldInterferes
      (Prog.forEach (deliver onStandard onExtended report missing) ids) w res w') :
    Delivers (fun kind id c => id ∈ ids ∧ Resolves w kind id ∧ c = calls kind) w w' := by
  induction ids generalizing w with
  | nil => exact onlyLogs_delivers (guarantees_done _ _) h
  | cons a rest ih =>
    obtain ⟨hnot, hrest⟩ := List.nodup_cons.mp hnodup
    rcases runs_bind_iff.mp h with ⟨_, w₁, hhead, htail⟩ | ⟨e, rfl, hhead⟩
    · have hsame := guarantees_sameRegistry (deliver_sameRegistry hreport a) hhead
      have hfirst := deliver_delivers calls hreport hstd hext hhead
      have hsecond := ih hrest htail
      refine (hfirst.append hsecond ?_).mono ?_
      · rintro kind id c c' ⟨rfl, _⟩ ⟨hmem, _⟩
        exact hnot hmem
      · rintro kind id c (⟨rfl, hr, hc⟩ | ⟨hmem, hr, hc⟩)
        · exact ⟨List.mem_cons_self, hr, hc⟩
        · exact ⟨List.mem_cons_of_mem _ hmem, hsame.resolves.mp hr, hc⟩
    · refine (deliver_delivers calls hreport hstd hext hhead).mono ?_
      rintro kind id c ⟨rfl, hr, hc⟩
      exact ⟨List.mem_cons_self, hr, hc⟩

end Rules

section Messages

variable {D : Deps}

/-- Opening, closing and regrouping change the registry; no other message does. -/
def KeepsRegistry : ServerMessage → Prop
  | .openStandardMiningChannelSuccess _ | .openExtendedMiningChannelSuccess _
  | .closeChannel _ | .setGroupChannel _ => False
  | _ => True

theorem setTarget_performs {K : ClientChannel} (target : Target) :
    Performs (setTarget (K := K) target) (.setTarget target) :=
  performs_program (.setTarget target)

theorem setExtranoncePrefix_performs {K : ClientChannel} (p : ExtranoncePrefix) :
    Performs (setExtranoncePrefix (K := K) p) (.setExtranoncePrefix p) :=
  performs_program (.setExtranoncePrefix p)

theorem onJob_performs {K : ClientChannel} (message : K.JobMessage) :
    Performs (onJob message) (.job message) :=
  performs_program (.job message)

theorem onSetNewPrevHash_performs {K : ClientChannel} (m : SetNewPrevHash) :
    Performs (onSetNewPrevHash (K := K) m) (.setNewPrevHash m) :=
  performs_program (.setNewPrevHash m)

theorem onShareAcknowledgement_performs {K : ClientChannel} (n : UInt32) (s : UInt64) :
    Performs (onShareAcknowledgement (K := K) n s) (.shareAcknowledgement n s) :=
  performs_of_bind rfl (writeChannel_keepsAmbient _)

theorem onShareRejection_performs {K : ClientChannel} (code : String) :
    Performs (onShareRejection (K := K) code) (.shareRejection code) :=
  performs_of_bind rfl (writeChannel_keepsAmbient _)

theorem onlyIf_delivers {b : Bool} {p : Handler D}
    {targets : (kind : Kind) → UInt32 → Call (D.client kind) → Prop} {w w' : World D}
    {res : Except Sv2CpuMinerError Unit}
    (hp : Runs WorldInterferes p w res w' → Delivers targets w w')
    (h : Runs WorldInterferes (onlyIf b p) w res w') : Delivers targets w w' := by
  unfold onlyIf at h
  split at h
  · exact hp h
  · exact onlyLogs_delivers (guarantees_done _ _) h

/-- The channel that a message for a single channel names. -/
def addressee : ServerMessage → Option UInt32
  | .setExtranoncePrefix m => some m.channelId
  | .newMiningJob m => some m.channelId
  | .submitSharesSuccess m => some m.channelId
  | .submitSharesError m => some m.channelId
  | _ => none

/-- A message for a single channel reaches no other id. -/
def reaches (m : ServerMessage) : Set UInt32 := {id | ∀ a, addressee m = some a → id = a}

theorem handle_guarantees {R : World D → World D → Prop}
    {S : (kind : Kind) → Rig (D.client kind) → Rig (D.client kind) → Prop} {m : ServerMessage}
    (hm : KeepsRegistry m) (hR : Respects R S (reaches m))
    (hcalls : ∀ kind (c : Call (D.client kind)), Guarantees (S kind) c.program) :
    Guarantees R (handle m : Handler D) := by
  cases m with
  | openMiningChannelError m => trivial
  | updateChannelError m => trivial
  | setExtranoncePrefix m =>
    have hid : m.channelId ∈ reaches (.setExtranoncePrefix m) := fun _ ha => Option.some.inj ha
    simp only [handle, handleSetExtranoncePrefix]
    split
    · exact hR.logError _
    · rename_i p _
      refine guarantees_bind hR.observe (fun mgr => guarantees_bind (guarantees_onlyIf ?_)
        (fun _ => guarantees_bind (guarantees_onlyIf ?_) (fun _ => guarantees_onlyIf ?_)))
      · exact hR.callMiner (reportFailure_onlyLogs _) hid (hcalls _ (.setExtranoncePrefix p))
      · exact hR.callMiner (reportFailure_onlyLogs _) hid (hcalls _ (.setExtranoncePrefix p))
      · exact hR.logError _
  | submitSharesSuccess m =>
    have hacknowledge : ∀ kind, Guarantees (S kind)
        (onShareAcknowledgement m.newSubmitsAcceptedCount m.newSharesSum) :=
      fun kind => guarantees_of_bind (hcalls kind (.shareAcknowledgement _ _))
    simp only [handle, handleSubmitSharesSuccess]
    exact hR.deliver (logFailure_onlyLogs _) (fun _ ha => Option.some.inj ha)
      (hacknowledge .standard) (hacknowledge .extended)
  | submitSharesError m =>
    have hreject : ∀ kind, Guarantees (S kind) (onShareRejection m.errorCode) :=
      fun kind => guarantees_of_bind (hcalls kind (.shareRejection _))
    simp only [handle, handleSubmitSharesError]
    exact hR.deliver (logFailure_onlyLogs _) (fun _ ha => Option.some.inj ha)
      (hreject .standard) (hreject .extended)
  | newMiningJob m =>
    refine guarantees_bind hR.observe (fun mgr => ?_)
    split
    · exact hR.callMiner (reportFailure_onlyLogs _) (fun _ ha => Option.some.inj ha)
        (hcalls .standard (.job (StandardJobMessage.newMiningJob m)))
    · exact hR.logError _
  | newExtendedMiningJob m =>
    refine guarantees_bind hR.observe (fun mgr => ?_)
    split
    · trivial
    · split
      · split
        · exact hR.callMiner (reportFailure_onlyLogs _) (fun _ ha => nomatch ha)
            (hcalls .extended (groupJob .extended m))
        · exact hR.logError _
      · exact guarantees_forEach (fun id => hR.deliver (reportFailure_onlyLogs _)
          (fun _ ha => nomatch ha) (hcalls .standard (groupJob .standard m))
          (hcalls .extended (groupJob .extended m))) _
  | setNewPrevHash m =>
    refine guarantees_bind hR.observe (fun mgr => ?_)
    exact guarantees_forEach (fun id => hR.deliver (reportFailure_onlyLogs _)
      (fun _ ha => nomatch ha) (hcalls .standard (.setNewPrevHash m))
      (hcalls .extended (.setNewPrevHash m))) _
  | setCustomMiningJobSuccess m =>
    exact guarantees_bind (hR.logError _) (fun _ => guarantees_fail _ _)
  | setCustomMiningJobError m =>
    exact guarantees_bind (hR.logError _) (fun _ => guarantees_fail _ _)
  | setTarget m =>
    refine guarantees_bind hR.observe (fun mgr => ?_)
    exact guarantees_forEach (fun id => hR.deliver (reportFailure_onlyLogs _)
      (fun _ ha => nomatch ha) (hcalls .standard (.setTarget (Target.fromLeBytes m.maximumTarget)))
      (hcalls .extended (.setTarget (Target.fromLeBytes m.maximumTarget)))) _
  | _ => exact hm.elim

theorem handle_sameRegistry (m : ServerMessage) (hm : KeepsRegistry m) :
    Guarantees SameRegistry (handle m : Handler D) :=
  handle_guarantees hm
    ⟨sameRegistry_respects.logs, fun kind id _ => sameRegistry_respects.puts kind id trivial⟩
    (fun _ _ => guarantees_true _)

theorem addressedChannels_nodup (hD : GroupContract D.group) (mgr : ChannelManager D)
    (id : UInt32) : (mgr.addressedChannels id).Nodup := by
  unfold ChannelManager.addressedChannels
  split
  · exact hD.nodup _
  · simp

theorem callSetPrefix_delivers (kind : Kind) {m : SetExtranoncePrefix} {p : ExtranoncePrefix}
    (hp : D.fromWire m.extranoncePrefix = .ok p) (w : World D) {b : Bool} {w₁ w' : World D}
    {res : Except Sv2CpuMinerError Unit}
    (h : Runs WorldInterferes (onlyIf b (callMiner kind m.channelId
      (setExtranoncePrefix (K := D.client kind) p) (reportFailure "SetExtranoncePrefix")))
      w₁ res w') :
    Delivers (fun kind' id c => kind' = kind ∧ Targets w (.setExtranoncePrefix m) kind' id c)
      w₁ w' := by
  refine onlyIf_delivers (fun hrun => ?_) h
  refine (callMiner_delivers (reportFailure_onlyLogs _) (setExtranoncePrefix_performs p)
    hrun).mono ?_
  rintro kind' id c ⟨rfl, rfl, rfl⟩
  exact ⟨rfl, .setExtranoncePrefix hp⟩

theorem handleSetExtranoncePrefix_delivers {m : SetExtranoncePrefix} {w w' : World D}
    {res : Except Sv2CpuMinerError Unit}
    (h : Runs WorldInterferes (handleSetExtranoncePrefix m) w res w') :
    Delivers (Targets w (.setExtranoncePrefix m)) w w' := by
  unfold handleSetExtranoncePrefix at h
  split at h
  · exact onlyLogs_delivers (logError_onlyLogs _) h
  · rename_i p hp
    obtain ⟨w₁, h₁, hrest⟩ := runs_observe_manager h
    refine Delivers.prepend h₁ ?_
    rcases runs_bind_iff.mp hrest with ⟨_, w₂, hstd, hrest⟩ | ⟨_, _, hstd⟩
    · have hfirst := callSetPrefix_delivers .standard hp w hstd
      rcases runs_bind_iff.mp hrest with ⟨_, w₃, hext, hlog⟩ | ⟨_, _, hext⟩
      · have hsecond := callSetPrefix_delivers .extended hp w hext
        have hthird : Delivers (fun kind id c => False) w₃ w' :=
          onlyIf_delivers (onlyLogs_delivers (logError_onlyLogs _)) hlog
        refine ((hfirst.append hsecond ?_).append hthird ?_).mono ?_
        · rintro kind id c c' ⟨rfl, _⟩ ⟨hk, _⟩
          contradiction
        · exact fun _ _ _ _ _ hf => hf
        · rintro kind id c ((⟨_, ht⟩ | ⟨_, ht⟩) | hf)
          · exact ht
          · exact ht
          · exact hf.elim
      · refine (hfirst.append (callSetPrefix_delivers .extended hp w hext) ?_).mono ?_
        · rintro kind id c c' ⟨rfl, _⟩ ⟨hk, _⟩
          contradiction
        · rintro kind id c (⟨_, ht⟩ | ⟨_, ht⟩)
          · exact ht
          · exact ht
    · exact (callSetPrefix_delivers .standard hp w hstd).mono (fun _ _ _ ht => ht.2)

/-- A message calls the miners it targets, and leaves the others to themselves. -/
theorem handle_delivers (hD : GroupContract D.group) {m : ServerMessage} (hm : KeepsRegistry m)
    {w w' : World D} {res : Except Sv2CpuMinerError Unit}
    (h : Runs WorldInterferes (handle m) w res w') : Delivers (Targets w m) w w' := by
  cases m with
  | openMiningChannelError m => exact onlyLogs_delivers (guarantees_done _ _) h
  | updateChannelError m => exact onlyLogs_delivers (guarantees_done _ _) h
  | setExtranoncePrefix m => exact handleSetExtranoncePrefix_delivers h
  | submitSharesSuccess m =>
    simp only [handle, handleSubmitSharesSuccess] at h
    refine (deliver_delivers
      (fun _ => .shareAcknowledgement m.newSubmitsAcceptedCount m.newSharesSum)
      (logFailure_onlyLogs _) (onShareAcknowledgement_performs _ _)
      (onShareAcknowledgement_performs _ _) h).mono ?_
    rintro kind id c ⟨rfl, hr, rfl⟩
    exact .shareAcknowledgement hr
  | submitSharesError m =>
    simp only [handle, handleSubmitSharesError] at h
    refine (deliver_delivers (fun _ => .shareRejection m.errorCode)
      (logFailure_onlyLogs _) (onShareRejection_performs _) (onShareRejection_performs _) h).mono ?_
    rintro kind id c ⟨rfl, hr, rfl⟩
    exact .shareRejection hr
  | newMiningJob m =>
    obtain ⟨w₁, h₁, hrest⟩ := runs_observe_manager h
    refine Delivers.prepend h₁ ?_
    split at hrest
    · refine (callMiner_delivers (reportFailure_onlyLogs _) (onJob_performs _) hrest).mono ?_
      rintro kind id c ⟨rfl, rfl, rfl⟩
      exact .newMiningJob
    · exact onlyLogs_delivers (logError_onlyLogs _) hrest
  | newExtendedMiningJob m =>
    obtain ⟨w₁, h₁, hrest⟩ := runs_observe_manager h
    have hsame := worldOthers_sameRegistry h₁
    refine Delivers.prepend h₁ ?_
    split at hrest
    · exact onlyLogs_delivers (guarantees_fail _ _) hrest
    · rename_i hstd
      rw [hsame.requiresStandardJobs, Bool.not_eq_true] at hstd
      rw [hsame.groups] at hrest
      split at hrest
      · rename_i hg
        split at hrest
        · refine (callMiner_delivers (reportFailure_onlyLogs _) (onJob_performs _) hrest).mono ?_
          rintro kind id c ⟨rfl, rfl, rfl⟩
          exact .channelJob hstd hg
        · exact onlyLogs_delivers (logError_onlyLogs _) hrest
      · rename_i group hg
        refine (forEach_delivers (fun kind => groupJob kind m) (reportFailure_onlyLogs _)
          (onJob_performs _) (onJob_performs _) (hD.nodup group) hrest).mono ?_
        rintro kind id c ⟨hmem, hr, rfl⟩
        exact .groupJob hstd hg hmem (hsame.resolves.mp hr)
  | setNewPrevHash m =>
    obtain ⟨w₁, h₁, hrest⟩ := runs_observe_manager h
    have hsame := worldOthers_sameRegistry h₁
    refine Delivers.prepend h₁ ?_
    refine (forEach_delivers (fun _ => .setNewPrevHash m) (reportFailure_onlyLogs _)
      (onSetNewPrevHash_performs _) (onSetNewPrevHash_performs _)
      (addressedChannels_nodup hD _ _) hrest).mono ?_
    rintro kind id c ⟨hmem, hr, rfl⟩
    exact .setNewPrevHash (hsame.addressedChannels _ ▸ hmem) (hsame.resolves.mp hr)
  | setCustomMiningJobSuccess m =>
    exact onlyLogs_delivers (guarantees_bind (logError_onlyLogs _) (fun _ => guarantees_fail _ _)) h
  | setCustomMiningJobError m =>
    exact onlyLogs_delivers (guarantees_bind (logError_onlyLogs _) (fun _ => guarantees_fail _ _)) h
  | setTarget m =>
    obtain ⟨w₁, h₁, hrest⟩ := runs_observe_manager h
    have hsame := worldOthers_sameRegistry h₁
    refine Delivers.prepend h₁ ?_
    refine (forEach_delivers (fun _ => .setTarget (Target.fromLeBytes m.maximumTarget))
      (reportFailure_onlyLogs _) (setTarget_performs _) (setTarget_performs _)
      (addressedChannels_nodup hD _ _) hrest).mono ?_
    rintro kind id c ⟨hmem, hr, rfl⟩
    exact .setTarget (hsame.addressedChannels _ ▸ hmem) (hsame.resolves.mp hr)
  | _ => exact hm.elim

end Messages

end CpuMinerSv2.Deliveries
