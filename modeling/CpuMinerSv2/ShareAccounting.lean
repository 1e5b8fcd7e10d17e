import CpuMinerSv2.Reopening
import CpuMinerSv2.Serving

/-!
A message for a single channel touches that channel only, and nothing when the
id belongs to a group or to no channel. So the totals a channel keeps of its
shares are the sums of the verdicts that named it since it was opened.
-/

namespace CpuMinerSv2.ShareAccounting

open Messages Channels Primitives Interference MineJob MinerMethods TaskSteps MinerRuns Manager
  ManagerFrames Deliveries Registry HandlerRuns GroupRefinement Serving Reopening SampleDeps
  SampleWorlds Relation

/-- Shares acknowledged, the work they sum up to, and shares rejected. -/
@[ext] structure Totals where
  acknowledgedShares : ℕ
  acknowledgedWorkSum : ℕ
  rejectedShares : ℕ
deriving DecidableEq

namespace Totals

instance : Zero Totals := ⟨⟨0, 0, 0⟩⟩

instance : Add Totals :=
  ⟨fun s t => ⟨s.acknowledgedShares + t.acknowledgedShares,
    s.acknowledgedWorkSum + t.acknowledgedWorkSum, s.rejectedShares + t.rejectedShares⟩⟩

instance : AddMonoid Totals where
  add_assoc s t u := Totals.ext (Nat.add_assoc ..) (Nat.add_assoc ..) (Nat.add_assoc ..)
  zero_add t := Totals.ext (Nat.zero_add _) (Nat.zero_add _) (Nat.zero_add _)
  add_zero _ := rfl
  nsmul := nsmulRec

/-- The totals fit into the counters of a channel. -/
def Fits (t : Totals) : Prop :=
  t.acknowledgedShares < 2 ^ 32 ∧ t.acknowledgedWorkSum < 2 ^ 64 ∧ t.rejectedShares < 2 ^ 32

theorem Fits.left {s t : Totals} (h : (s + t).Fits) : s.Fits := by
  obtain ⟨hshares, hwork, hrejected⟩ := h
  change s.acknowledgedShares + t.acknowledgedShares < _ at hshares
  change s.acknowledgedWorkSum + t.acknowledgedWorkSum < _ at hwork
  change s.rejectedShares + t.rejectedShares < _ at hrejected
  refine ⟨?_, ?_, ?_⟩ <;> omega

end Totals

/-- The totals a channel keeps. -/
def channelTotals (K : ClientChannel) (channel : K.Channel) : Totals where
  acknowledgedShares := (K.getAcknowledgedShares channel).toNat
  acknowledgedWorkSum := (K.getAcknowledgedWorkSum channel).toNat
  rejectedShares := (K.getRejectedSharesCount channel).toNat

/-- What a call adds to the totals of its channel. -/
def callVerdict {K : ClientChannel} : Call K → Totals
  | .shareAcknowledgement n s => ⟨n.toNat, s.toNat, 0⟩
  | .shareRejection _ => ⟨0, 0, 1⟩
  | _ => 0

/-- What a message says of the shares of a channel. -/
def messageVerdict (id : UInt32) : ServerMessage → Totals
  | .submitSharesSuccess m =>
    if m.channelId = id then ⟨m.newSubmitsAcceptedCount.toNat, m.newSharesSum.toNat, 0⟩ else 0
  | .submitSharesError m => if m.channelId = id then ⟨0, 0, 1⟩ else 0
  | _ => 0

def verdict (id : UInt32) : WorldLabel → Totals
  | .event _ => 0
  | .message m _ => messageVerdict id m

/-- The server answers an open with this id. -/
def opens (id : UInt32) : WorldLabel → Bool
  | .message (.openStandardMiningChannelSuccess m) _ => m.channelId == id
  | .message (.openExtendedMiningChannelSuccess m) _ => m.channelId == id
  | _ => false

/-- The labels after the last one that opens the id. -/
def sinceOpened (id : UInt32) (ls : List WorldLabel) : List WorldLabel :=
  (ls.reverse.takeWhile fun l => !opens id l).reverse

/-- The sums of the verdicts that named the id since it was opened. -/
def tally (id : UInt32) (ls : List WorldLabel) : Totals :=
  ((sinceOpened id ls).map (verdict id)).sum

theorem tally_opens {id : UInt32} {l : WorldLabel} (h : opens id l = true)
    (ls : List WorldLabel) : tally id (ls ++ [l]) = 0 := by
  simp [tally, sinceOpened, h]

theorem tally_snoc {id : UInt32} {l : WorldLabel} (h : opens id l = false)
    (ls : List WorldLabel) : tally id (ls ++ [l]) = tally id ls + verdict id l := by
  simp [tally, sinceOpened, h, List.sum_append]

/-- What the channels do to their totals: a new channel starts at zero, an
acknowledgement and a rejection add what they report unless that overflows,
and nothing else changes them. -/
structure TotalsContract (D : Deps) : Prop where
  newStandard : ∀ id user p target rate channel,
    D.standard.new id user p target rate = .ok channel →
      channelTotals (standardClient D) channel = 0
  newExtended : ∀ id user p target rate rolling size channel,
    D.extended.new id user p target rate rolling size = .ok channel →
      channelTotals (extendedClient D) channel = 0
  called : ∀ kind (c : Call (D.client kind)) channel,
    (channelTotals (D.client kind) channel + callVerdict c).Fits →
      channelTotals (D.client kind) (c.outcome channel).2 =
        channelTotals (D.client kind) channel + callVerdict c
  validated : ∀ kind channel share,
    channelTotals (D.client kind) ((D.client kind).validateShare channel share).2 =
      channelTotals (D.client kind) channel

variable {D : Deps}

section Rigs

variable {kind : Kind}

theorem others_totals (hT : TotalsContract D) {r r' : Rig (D.client kind)}
    (h : Others Unrestricted r r') :
    channelTotals (D.client kind) r'.miner.channel.value =
      channelTotals (D.client kind) r.miner.channel.value := by
  refine others_preserve (I := fun s => channelTotals (D.client kind) s.miner.channel.value =
    channelTotals (D.client kind) r.miner.channel.value) ?_ h rfl
  refine interferes_preserve (I := fun m => channelTotals (D.client kind) m.channel.value =
    channelTotals (D.client kind) r.miner.channel.value) ?_
  intro m amb i m' hs hm
  cases hs with
  | rejected => exact (hT.validated kind _ _).trans hm
  | accepted => exact (hT.validated kind _ _).trans hm
  | _ => exact hm

theorem call_totals (hT : TotalsContract D) {c : Call (D.client kind)} {r r' : Rig (D.client kind)}
    {res : Except Sv2CpuMinerError Unit} (h : Runs (Interferes Unrestricted) c.program r res r')
    (hlock : r'.miner.channel.poisoned = false)
    (hfits : (channelTotals (D.client kind) r.miner.channel.value + callVerdict c).Fits) :
    channelTotals (D.client kind) r'.miner.channel.value =
      channelTotals (D.client kind) r.miner.channel.value + callVerdict c := by
  have hvalue : ∀ {r₁ : Rig (D.client kind)}, Others Unrestricted r r₁ →
      channelTotals (D.client kind) (c.outcome r₁.miner.channel.value).2 =
        channelTotals (D.client kind) r.miner.channel.value + callVerdict c := by
    intro r₁ h₁
    rw [← others_totals hT h₁] at hfits ⊢
    exact hT.called kind c _ hfits
  cases call_cases h with
  | poisoned _ hpoisoned h' =>
    rw [others_poisoned h' hpoisoned] at hlock
    contradiction
  | refused h₁ _ _ h' => exact (others_totals hT h').trans (hvalue h₁)
  | quiet h₁ _ _ _ h' => exact (others_totals hT h').trans (hvalue h₁)
  | activated h₁ _ _ _ h₂ h₃ h' =>
    have hcancel := others_totals hT h₃
    rw [cancelPast, cancelPast_channel] at hcancel
    exact (others_totals hT h').trans (hcancel.trans ((others_totals hT h₂).trans (hvalue h₁)))

end Rigs

theorem runs_logError {env : World D → World D → Prop} {e : ErrorLog} {w w' : World D}
    {res : Except Sv2CpuMinerError Unit} (h : Runs env (Manager.logError e) w res w') :
    res = .ok () ∧ ∃ w₁ e, ReflTransGen env w w₁ ∧ ReflTransGen env (w₁.logError e) w' := by
  obtain ⟨hok, w₁, h₁, h'⟩ := runs_perform_iff.mp h
  exact ⟨hok, w₁, e, h₁, h'⟩

theorem deliver_unaddressed {env : World D → World D → Prop}
    (henv : ∀ a b, env a b → WorldInterferes a b) {α : Type}
    {onStandard : Prog (Rig (standardClient D)) Sv2CpuMinerError α}
    {onExtended : Prog (Rig (extendedClient D)) Sv2CpuMinerError α}
    {report : Kind → UInt32 → Except Sv2CpuMinerError (Option α) → Handler D}
    {missing : UInt32 → ErrorLog} {id : UInt32} {w w' : World D}
    {res : Except Sv2CpuMinerError Unit} (hclosed : ¬ ChannelOpen w id)
    (h : Runs env (deliver onStandard onExtended report missing id) w res w') :
    res = .ok () ∧ ∃ w₁ e, ReflTransGen env w w₁ ∧ ReflTransGen env (w₁.logError e) w' := by
  obtain ⟨w₀, h₀, hrest⟩ := runs_observe_manager h
  rw [← isOpen_congr (env_sameRegistry henv h₀), isOpen_iff_keys, not_or] at hclosed
  rw [if_neg hclosed.1, if_neg hclosed.2] at hrest
  obtain ⟨hok, w₁, e, h₁, h'⟩ := runs_logError hrest
  exact ⟨hok, w₁, e, h₀.trans h₁, h'⟩

theorem handle_unaddressed {env : World D → World D → Prop}
    (henv : ∀ a b, env a b → WorldInterferes a b) {m : ServerMessage} {id : UInt32}
    (hm : addressee m = some id) {w w' : World D} {res : Except Sv2CpuMinerError Unit}
    (hclosed : ¬ ChannelOpen w id) (h : Runs env (handle m) w res w') :
    res = .ok () ∧ ∃ w₁ e, ReflTransGen env w w₁ ∧ ReflTransGen env (w₁.logError e) w' := by
  cases m with
  | setExtranoncePrefix m =>
    cases hm
    simp only [handle, handleSetExtranoncePrefix] at h
    split at h
    · exact runs_logError h
    · obtain ⟨w₀, h₀, hrest⟩ := runs_observe_manager h
      rw [← isOpen_congr (env_sameRegistry henv h₀), isOpen_iff_keys, not_or] at hclosed
      simp only [onlyIf, hclosed.1, hclosed.2, Bool.not_false, Bool.and_self, ↓reduceIte,
        Bool.false_eq_true, Prog.bind_eq, Prog.done_bind] at hrest
      obtain ⟨hok, w₁, e, h₁, h'⟩ := runs_logError hrest
      exact ⟨hok, w₁, e, h₀.trans h₁, h'⟩
  | newMiningJob m =>
    cases hm
    obtain ⟨w₀, h₀, hrest⟩ := runs_observe_manager h
    rw [← isOpen_congr (env_sameRegistry henv h₀), isOpen_iff_keys, not_or] at hclosed
    rw [if_neg hclosed.1] at hrest
    obtain ⟨hok, w₁, e, h₁, h'⟩ := runs_logError hrest
    exact ⟨hok, w₁, e, h₀.trans h₁, h'⟩
  | submitSharesSuccess m =>
    cases hm
    simp only [handle, handleSubmitSharesSuccess] at h
    exact deliver_unaddressed henv hclosed h
  | submitSharesError m =>
    cases hm
    simp only [handle, handleSubmitSharesError] at h
    exact deliver_unaddressed henv hclosed h
  | _ => contradiction

/-- Only the channel with this id may have changed. -/
def Untouched (id : UInt32) (w w' : World D) : Prop :=
  ∀ kind place, place ≠ .stored id → w'.minerAt kind place = w.minerAt kind place

theorem keepsRegistry_of_addressee {m : ServerMessage} {id : UInt32}
    (hm : addressee m = some id) : KeepsRegistry m := by
  cases m <;> trivial

theorem handle_untouched {m : ServerMessage} {id : UInt32} (hm : addressee m = some id) :
    Guarantees (Untouched id) (handle m : Handler D) := by
  refine handle_guarantees (keepsRegistry_of_addressee hm) ⟨?_, ?_⟩
    (fun kind c => guarantees_true c.program)
  · intro w log kind place _
    cases kind <;> cases place <;> rfl
  · intro kind a ha w r r' _ _ kind' place hplace
    have hne : ¬ (kind' = kind ∧ place = .stored a) := by
      rw [ha id hm]
      exact fun heq => hplace heq.2
    rw [minerAt_putRig, minerAt_putMiner_of_ne w r'.miner hne]

theorem target_addressee {w : World D} {m : ServerMessage} {id id' : UInt32} {kind : Kind}
    {c : Call (D.client kind)} (hm : addressee m = some id) (h : Targets w m kind id' c) :
    id' = id := by
  cases h <;> first | exact Option.some.inj hm | exact nomatch hm

theorem handle_others (hD : GroupContract D.group) {m : ServerMessage} {id : UInt32}
    (hm : addressee m = some id) {w w' : World D} {res : Except Sv2CpuMinerError Unit}
    (h : Runs WorldInterferes (handle m) w res w') {kind : Kind} {place : Place}
    (hplace : place ≠ .stored id) : RigMoves kind place w w' := by
  intro r hr
  obtain ⟨r', hr', hothers | ⟨id', _, _, rfl, htarget, _⟩⟩ :=
    handle_delivers hD (keepsRegistry_of_addressee hm) h kind place r hr
  · exact ⟨r', hr', hothers⟩
  · exact absurd (congrArg Place.stored (target_addressee hm htarget)) hplace

section Tallies

/-- The miner stored here, if its lock is usable, has these totals, if they fit. -/
def Tallied (w : World D) (kind : Kind) (id : UInt32) (t : Totals) : Prop :=
  ∀ miner, w.minerAt kind (.stored id) = some miner → miner.channel.poisoned = false → t.Fits →
    channelTotals (D.client kind) miner.channel.value = t

theorem Tallied.called (hT : TotalsContract D) {w w' : World D} (hsame : SameRegistry w w')
    {kind : Kind} {id : UInt32} {t : Totals} {c : Call (D.client kind)}
    (hcall : ∀ r, w.rigAt kind (.stored id) = some r → ∃ res r',
      w'.rigAt kind (.stored id) = some r' ∧ Runs (Interferes Unrestricted) c.program r res r')
    (h : Tallied w kind id t) : Tallied w' kind id (t + callVerdict c) := by
  intro miner hm hlock hfits
  obtain ⟨r, hr⟩ := hsame.rig_before hm
  obtain ⟨res, r', hr', hrun⟩ := hcall r hr
  have hminer := hm.symm.trans (rigAt_eq_some_iff.mp hr').1
  cases hminer
  have hfree : r.miner.channel.poisoned = false := by
    by_contra hpoisoned
    rw [Bool.not_eq_false] at hpoisoned
    rw [(call_poisoned hrun hpoisoned).2] at hlock
    contradiction
  have hbefore := h r.miner (rigAt_eq_some_iff.mp hr).1 hfree hfits.left
  rw [← hbefore] at hfits ⊢
  exact call_totals hT hrun hlock hfits

theorem Tallied.moved (hT : TotalsContract D) {w w' : World D} (hsame : SameRegistry w w')
    {kind : Kind} {id : UInt32} {t : Totals} (hmoves : RigMoves kind (.stored id) w w')
    (h : Tallied w kind id t) : Tallied w' kind id t := by
  intro miner hm hlock hfits
  obtain ⟨r, hr⟩ := hsame.rig_before hm
  obtain ⟨r', hr', hothers⟩ := hmoves r hr
  have hminer := hm.symm.trans (rigAt_eq_some_iff.mp hr').1
  cases hminer
  have hfree : r.miner.channel.poisoned = false := by
    by_contra hpoisoned
    rw [Bool.not_eq_false] at hpoisoned
    rw [others_poisoned hothers hpoisoned] at hlock
    contradiction
  rw [others_totals hT hothers]
  exact h r.miner (rigAt_eq_some_iff.mp hr).1 hfree hfits

theorem Tallied.same {w w' : World D} {kind : Kind} {id : UInt32} {t : Totals}
    (hminer : w'.minerAt kind (.stored id) = w.minerAt kind (.stored id))
    (h : Tallied w kind id t) : Tallied w' kind id t := by
  intro miner hm
  rw [hminer] at hm
  exact h miner hm

/-- The answer to an open never carries the id of an open channel. -/
def OpensFresh (w : World D) : WorldLabel → Prop
  | .event _ => True
  | .message m _ => ∀ o : Opening D, opening m = some o → ¬ ChannelOpen w o.channelId

theorem noReopening_of_fresh {w : World D} {l : WorldLabel} (h : OpensFresh w l) :
    NoReopening w l := by
  cases l with
  | event e => trivial
  | message m r => exact fun o ho hopen => absurd hopen (h o ho)

theorem opens_iff {id : UInt32} {m : ServerMessage} {r : Except Sv2CpuMinerError Unit} :
    opens id (.message m r) = true ↔ ∃ o : Opening D, opening m = some o ∧ o.channelId = id := by
  cases m with
  | openStandardMiningChannelSuccess m =>
    simp [opens, opening, openStandard]
  | openExtendedMiningChannelSuccess m =>
    simp [opens, opening, openExtended]
  | _ => simp [opens, opening]

theorem tallied_of_closed {w : World D} {id : UInt32} (hclosed : ¬ ChannelOpen w id) (kind : Kind)
    (t : Totals) : Tallied w kind id t :=
  fun _ hm => absurd ⟨kind, Option.isSome_of_eq_some hm⟩ hclosed

theorem deliver_tallied (hT : TotalsContract D) {α : Type}
    {report : Kind → UInt32 → Except Sv2CpuMinerError (Option α) → Handler D}
    {missing : UInt32 → ErrorLog}
    (methods : (kind : Kind) → Prog (Rig (D.client kind)) Sv2CpuMinerError α)
    (calls : (kind : Kind) → Call (D.client kind))
    (hreport : ∀ kind id x, OnlyLogs (report kind id x))
    (hmethods : ∀ kind, Performs (methods kind) (calls kind)) {id : UInt32} {w w' : World D}
    {res : Except Sv2CpuMinerError Unit} (hd : MapsDisjoint w)
    (h : Runs WorldInterferes (deliver (methods .standard) (methods .extended) report missing id)
      w res w')
    {kind : Kind} {id' : UInt32} {t : Totals} (ht : Tallied w kind id' t) :
    Tallied w' kind id' (t + if id = id' then callVerdict (calls kind) else 0) := by
  have hsame := guarantees_sameRegistry (deliver_sameRegistry hreport id) h
  by_cases hid : id = id'
  · subst hid
    rw [if_pos rfl]
    refine ht.called hT hsame ?_
    intro r hr
    refine deliver_runsCall calls hreport hmethods h kind r (resolves_iff.mpr ?_) hr
    cases kind with
    | standard => exact .inl rfl
    | extended =>
      right
      by_contra hstored
      have hkey := Option.isSome_of_eq_some (rigAt_eq_some_iff.mp hr).1
      exact hd id ⟨Option.isSome_iff_ne_none.mpr hstored, hkey⟩
  · rw [if_neg hid, add_zero]
    exact ht.moved hT hsame (deliver_other calls hreport (hmethods .standard)
      (hmethods .extended) (Ne.symm hid) h kind)

theorem target_verdict {w : World D} {m : ServerMessage} {kind : Kind} {id : UInt32}
    {c : Call (D.client kind)} (h : Targets w m kind id c)
    (hack : ∀ a, m ≠ .submitSharesSuccess a) (hreject : ∀ e, m ≠ .submitSharesError e) :
    callVerdict c = 0 := by
  cases h with
  | shareAcknowledgement => exact absurd rfl (hack _)
  | shareRejection => exact absurd rfl (hreject _)
  | groupJob => cases kind <;> rfl
  | _ => rfl

theorem delivers_tallied (hT : TotalsContract D)
    {targets : (kind : Kind) → UInt32 → Call (D.client kind) → Prop} {w w' : World D}
    (hsame : SameRegistry w w') (h : Delivers targets w w') {kind : Kind} {id : UInt32}
    (hzero : ∀ c, targets kind id c → callVerdict c = 0) {t : Totals} (ht : Tallied w kind id t) :
    Tallied w' kind id t := by
  intro miner hm
  obtain ⟨r, hr⟩ := hsame.rig_before hm
  obtain ⟨r', hr', hothers | ⟨id', c, res, hplace, htarget, hrun⟩⟩ := h kind (.stored id) r hr
  · refine ht.moved hT hsame ?_ miner hm
    intro s hs
    cases hr.symm.trans hs
    exact ⟨r', hr', hothers⟩
  · cases hplace
    rw [← add_zero t, ← hzero c htarget]
    refine ht.called hT hsame ?_ miner hm
    intro s hs
    cases hr.symm.trans hs
    exact ⟨res, r', hr', hrun⟩

theorem closeOne_tallied {w : World D} {kind : Kind} {id a : UInt32} {t : Totals}
    (ht : Tallied w kind id t) : Tallied (closeOne w a) kind id t := by
  rcases closeOne_cases w a with ⟨kind', miner, _, _, heq⟩ | ⟨_, heq⟩
  · rw [heq]
    intro found hm
    rw [minerAt_leaveGroups] at hm
    by_cases hremoved : kind = kind' ∧ id = a
    · obtain ⟨rfl, rfl⟩ := hremoved
      rw [minerAt_removeMiner_self] at hm
      contradiction
    · rw [minerAt_removeMiner_stored w miner hremoved] at hm
      exact ht found hm
  · rw [heq]
    exact ht.same (minerAt_logError _ _ _ _)

theorem opened_totals (hT : TotalsContract D) {m : ServerMessage} {o : Opening D}
    (ho : opening m = some o) {w : World D} {channel : (D.client o.kind).Channel}
    {group : D.group.GroupChannel} (hacc : Accepts o w channel group) :
    channelTotals (D.client o.kind) channel = 0 := by
  obtain ⟨p, _, hnew⟩ := hacc.made
  cases m with
  | openStandardMiningChannelSuccess m =>
    cases ho
    exact hT.newStandard _ _ _ _ _ _ hnew
  | openExtendedMiningChannelSuccess m =>
    cases ho
    exact hT.newExtended _ _ _ _ _ _ _ _ hnew
  | _ => contradiction

theorem opened_tallied (hT : TotalsContract D) {m : ServerMessage}
    {r : Except Sv2CpuMinerError Unit} {o : Opening D} (ho : opening m = some o) {w : World D}
    {channel : (D.client o.kind).Channel} {group : D.group.GroupChannel}
    (hacc : Accepts o w channel group) (hfresh : ¬ ChannelOpen w o.channelId)
    {ls : List WorldLabel} {kind : Kind} {id : UInt32} (ht : Tallied w kind id (tally id ls)) :
    Tallied (opened o w channel group) kind id (tally id (ls ++ [.message m r])) := by
  have hstored : ∀ {kind' id'}, ¬ (kind' = o.kind ∧ id' = o.channelId) →
      (opened o w channel group).minerAt kind' (.stored id') = w.minerAt kind' (.stored id') := by
    intro kind' id' hne
    unfold opened
    rw [minerAt_insertMiner_stored _ _ hne, minerAt_setGroups]
  by_cases hid : id = o.channelId
  · have hopens : opens id (.message m r) = true := opens_iff.mpr ⟨o, ho, hid.symm⟩
    rw [tally_opens hopens]
    by_cases hkind : kind = o.kind
    · subst hkind hid
      intro miner hm _ _
      unfold opened at hm
      rw [minerAt_insertMiner_self] at hm
      cases hm
      exact opened_totals hT ho hacc
    · refine Tallied.same (hstored fun h => hkind h.1) ?_
      exact tallied_of_closed (hid ▸ hfresh) kind 0
  · have hopens : opens id (.message m r) = false := by
      rw [← Bool.not_eq_true, opens_iff (D := D)]
      intro hother
      obtain ⟨o', ho', hid'⟩ := hother
      cases ho.symm.trans ho'
      exact hid hid'.symm
    have hverdict : verdict id (.message m r) = 0 := by
      cases m <;> first | rfl | contradiction
    rw [tally_snoc hopens, hverdict, add_zero]
    exact ht.same (hstored fun h => hid h.2)

theorem handlerRun_tallied (hT : TotalsContract D) {m : ServerMessage}
    {r : Except Sv2CpuMinerError Unit} (hack : ∀ a, m ≠ .submitSharesSuccess a)
    (hreject : ∀ e, m ≠ .submitSharesError e) {w w' : World D} (h : HandlerRun w m r w')
    (hfresh : OpensFresh w (.message m r)) {ls : List WorldLabel} {kind : Kind} {id : UInt32}
    (ht : Tallied w kind id (tally id ls)) :
    Tallied w' kind id (tally id (ls ++ [.message m r])) := by
  have hverdict : verdict id (.message m r) = 0 := by
    cases m with
    | submitSharesSuccess a => exact absurd rfl (hack a)
    | submitSharesError e => exact absurd rfl (hreject e)
    | _ => rfl
  have hothers : ∀ {a b : World D} {t : Totals}, WorldOthers a b → Tallied a kind id t →
      Tallied b kind id t :=
    fun hab hta => hta.moved hT (worldOthers_sameRegistry hab) (worldOthers_rigMoves hab kind _)
  have hunopened : opening (D := D) m = none →
      tally id (ls ++ [.message m r]) = tally id ls := by
    intro hnone
    have hopens : opens id (.message m r) = false := by
      rw [← Bool.not_eq_true, opens_iff (D := D), hnone]
      simp
    rw [tally_snoc hopens, hverdict, add_zero]
  cases h with
  | quiet hsame hcalls _ _ =>
    cases ho : opening (D := D) m with
    | none =>
      rw [hunopened ho]
      exact delivers_tallied hT hsame hcalls (fun c hc => target_verdict hc hack hreject) ht
    | some o =>
      by_cases hid : o.channelId = id
      · apply tallied_of_closed
        rw [isOpen_congr hsame, ← hid]
        exact hfresh o ho
      · have hopens : opens id (.message m r) = false := by
          rw [← Bool.not_eq_true, opens_iff (D := D), ho]
          simpa using hid
        rw [tally_snoc hopens, hverdict, add_zero]
        exact delivers_tallied hT hsame hcalls (fun c hc => target_verdict hc hack hreject) ht
  | opened ho h₁ hacc h' =>
    have hsame := worldOthers_sameRegistry h₁
    have hclosed := fun hopen => hfresh _ ho ((isOpen_congr hsame).mp hopen)
    exact hothers h' (opened_tallied hT ho hacc hclosed (hothers h₁ ht))
  | @closed m _ _ h₁ h' =>
    rw [hunopened rfl]
    refine hothers h' (closeChannel_preserve (I := fun w => Tallied w kind id (tally id ls))
      (fun w a hw => closeOne_tallied hw) ?_ m.channelId (hothers h₁ ht))
    exact fun w hw => hw.same (minerAt_retainNonempty w kind _)
  | regrouped _ _ h₁ h' =>
    rw [hunopened rfl]
    exact hothers h' ((hothers h₁ ht).same (minerAt_regroup _ _ _ _ _ _))

theorem step_tallied (hD : GroupContract D.group) (hT : TotalsContract D) {w w' : World D}
    {l : WorldLabel} (hw : WellGrouped w) (hd : MapsDisjoint w) (hfresh : OpensFresh w l)
    (h : WorldStep w l w') {ls : List WorldLabel} {kind : Kind} {id : UInt32}
    (ht : Tallied w kind id (tally id ls)) : Tallied w' kind id (tally id (ls ++ [l])) := by
  cases h with
  | @event _ e he =>
    have hstep : WorldInterferes w w' := ⟨e, he⟩
    have htally : tally id (ls ++ [.event e]) = tally id ls := tally_snoc rfl ls
    rw [htally]
    exact ht.moved hT (interferes_sameRegistry _ _ hstep) (interferes_rigMoves kind _ _ _ hstep)
  | @message _ m r hrun =>
    cases m with
    | submitSharesSuccess m =>
      have htally : tally id (ls ++ [.message (.submitSharesSuccess m) r]) = _ := tally_snoc rfl ls
      rw [htally]
      simp only [handle, handleSubmitSharesSuccess] at hrun
      exact deliver_tallied hT
        (fun _ => onShareAcknowledgement m.newSubmitsAcceptedCount m.newSharesSum)
        (fun _ => .shareAcknowledgement m.newSubmitsAcceptedCount m.newSharesSum)
        (logFailure_onlyLogs _) (fun _ => onShareAcknowledgement_performs _ _) hd hrun ht
    | submitSharesError m =>
      have htally : tally id (ls ++ [.message (.submitSharesError m) r]) = _ := tally_snoc rfl ls
      rw [htally]
      simp only [handle, handleSubmitSharesError] at hrun
      exact deliver_tallied hT (fun _ => onShareRejection m.errorCode)
        (fun _ => .shareRejection m.errorCode) (logFailure_onlyLogs _)
        (fun _ => onShareRejection_performs _) hd hrun ht
    | _ =>
      refine handlerRun_tallied hT ?_ ?_ (handle_cases hD hw.nonempty hrun) hfresh ht
      · intro _ he
        contradiction
      · intro _ he
        contradiction

/-- The totals are the tallies, in every run that opens fresh ids only. -/
theorem run_tallied (hD : GroupContract D.group) (hT : TotalsContract D) {userIdentity : String}
    {nominalHashrate : F32} {singleSubmit : Bool} {cpuUsagePercent : ℕ}
    {requiresStandardJobs : Bool} {amb : Ambient} {ls : List WorldLabel} {w : World D}
    (hrun : Run (Guarded OpensFresh WorldStep) (World.initial (ChannelManager.new userIdentity
      nominalHashrate singleSubmit cpuUsagePercent requiresStandardJobs) amb) ls w) :
    ∀ kind id, Tallied w kind id (tally id ls) := by
  have hinv := hrun.history
    (I := fun ls w => WellGrouped w ∧ MapsDisjoint w ∧ ∀ kind id, Tallied w kind id (tally id ls))
    ?_ ?_
  · exact hinv.2.2
  · refine ⟨initial_wellGrouped _ _ _ _ _ _, (fun _ hboth => nomatch hboth.1), ?_⟩
    intro kind id
    refine tallied_of_closed ?_ kind _
    intro hopen
    obtain ⟨kind, hkey⟩ := hopen
    cases kind <;> exact nomatch hkey
  · intro ls s l s' _ hs hstep
    obtain ⟨hw, hd, htallied⟩ := hs
    refine ⟨step_wellGrouped hD hw hstep.2,
      step_disjoint hD hw hd (noReopening_of_fresh hstep.1) hstep.2, ?_⟩
    exact fun kind id => step_tallied hD hT hw hd hstep.1 hstep.2 (htallied kind id)

/-- A message for a single channel changes nothing when its id belongs to a
group or to no channel, and else only the channel with this id. So the totals
of an open channel are the sums of the verdicts that named it since it was
opened, unless its lock is poisoned or they overflow. -/
theorem single_channel_messages_account (D : Deps) (hD : GroupContract D.group)
    (hT : TotalsContract D) (userIdentity : String) (nominalHashrate : F32) (singleSubmit : Bool)
    (cpuUsagePercent : ℕ) (requiresStandardJobs : Bool) (amb : Ambient) (ls : List WorldLabel)
    (w : World D) :
    (Run WorldStep (World.initial (ChannelManager.new userIdentity nominalHashrate singleSubmit
        cpuUsagePercent requiresStandardJobs) amb) ls w →
      ∀ (m : ServerMessage) (id : UInt32), addressee m = some id →
        (w.manager.groupChannels.containsKey id = true ∨ ¬ ChannelOpen w id →
          (∃ e, (handle m).eval w = (.ok (), w.logError e)) ∧
          ∀ (r : Except Sv2CpuMinerError Unit) (w' : World D), WorldStep w (.message m r) w' →
            r = .ok () ∧ ∃ w₁ e, WorldOthers w w₁ ∧ WorldOthers (w₁.logError e) w') ∧
        Untouched id w ((handle m).eval w).2 ∧ SameRegistry w ((handle m).eval w).2 ∧
        ∀ (r : Except Sv2CpuMinerError Unit) (w' : World D), WorldStep w (.message m r) w' →
          SameRegistry w w' ∧ ∀ kind place, place ≠ .stored id → RigMoves kind place w w') ∧
    (Run (Guarded OpensFresh WorldStep) (World.initial (ChannelManager.new userIdentity
        nominalHashrate singleSubmit cpuUsagePercent requiresStandardJobs) amb) ls w →
      ∀ (kind : Kind) (id : UInt32) (miner : ChannelMiner (D.client kind)),
        w.manager.channels kind id = some miner → miner.channel.poisoned = false →
        (tally id ls).Fits →
          channelTotals (D.client kind) miner.channel.value = tally id ls) := by
  refine ⟨?_, fun hrun => run_tallied hD hT hrun⟩
  intro hrun m id hm
  have hkeeps := keepsRegistry_of_addressee hm
  refine ⟨?_, ?_, ?_, ?_⟩
  · intro hunused
    have hclosed : ¬ ChannelOpen w id := by
      intro hopen
      rcases hunused with hgroup | hclosed
      · obtain ⟨group, hg⟩ := Option.isSome_iff_exists.mp hgroup
        rw [not_group_of_open (run_wellGrouped hD hrun) hopen] at hg
        contradiction
      · exact hclosed hopen
    refine ⟨?_, ?_⟩
    · obtain ⟨hok, w₁, e, h₁, h'⟩ :=
        handle_unaddressed (fun _ _ => False.elim) hm hclosed (runs_eval (handle m) w)
      refine ⟨e, Prod.ext hok ?_⟩
      rw [eq_of_still h₁] at h'
      exact eq_of_still h'
    · intro r w' hstep
      cases hstep with
      | message h => exact handle_unaddressed (fun _ _ hab => hab) hm hclosed h
  · exact Runs.within (fun _ _ _ _ => rfl)
      (fun _ _ _ hab hbc kind place hplace => (hbc kind place hplace).trans (hab kind place hplace))
      (fun _ _ => False.elim) (handle_untouched hm) (runs_eval (handle m) w)
  · exact guarantees_sameRegistry (handle_sameRegistry m hkeeps) (runs_eval (handle m) w)
  · intro r w' hstep
    cases hstep with
    | message h =>
      refine ⟨guarantees_sameRegistry (handle_sameRegistry m hkeeps) h, ?_⟩
      exact fun kind place hplace => handle_others hD hm h hplace

end Tallies

section Samples

def sampleTotals {Job : Type} (channel : SampleChannel Job) : Totals where
  acknowledgedShares := channel.acknowledgedShares.toNat
  acknowledgedWorkSum := channel.acknowledgedWorkSum.toNat
  rejectedShares := channel.rejectedShares.toNat

section Operations

variable {Job : Type} (channel : SampleChannel Job)

theorem openChannel_totals {id : UInt32} {p : ExtranoncePrefix} {target : Target} {size : UInt16}
    {opened : SampleChannel Job} (h : openChannel id p target size = .ok opened) :
    sampleTotals opened = 0 := by
  unfold openChannel at h
  split at h
  · cases h
    rfl
  · contradiction

theorem replacePrefix_totals (p : ExtranoncePrefix) :
    sampleTotals (replacePrefix channel p).2 = sampleTotals channel := by
  rcases replacePrefix_cases channel p with h | ⟨e, h⟩
  · rw [h]
    rfl
  · rw [h]

theorem storeJob_totals (id : UInt32) (active : Bool) (job : Job) :
    sampleTotals (storeJob channel id active job).2 = sampleTotals channel := by
  unfold storeJob
  split
  · rfl
  · rfl

theorem activateJob_totals (withMinNtime : Job → UInt32 → Job) (m : SetNewPrevHash) :
    sampleTotals (activateJob withMinNtime channel m).2 = sampleTotals channel := by
  rcases activateJob_cases withMinNtime channel m with ⟨job, _, h⟩ | ⟨e, h⟩
  · rw [h]
    rfl
  · rw [h]

theorem acknowledge_totals (n : UInt32) (sum : UInt64)
    (h : (sampleTotals channel + ⟨n.toNat, sum.toNat, 0⟩).Fits) :
    sampleTotals (acknowledge channel n sum) = sampleTotals channel + ⟨n.toNat, sum.toNat, 0⟩ := by
  obtain ⟨hshares, hwork, _⟩ := h
  refine Totals.ext ?_ ?_ rfl
  · exact (UInt32.toNat_add _ _).trans (Nat.mod_eq_of_lt hshares)
  · exact (UInt64.toNat_add _ _).trans (Nat.mod_eq_of_lt hwork)

theorem reject_totals (code : String) (h : (sampleTotals channel + ⟨0, 0, 1⟩).Fits) :
    sampleTotals (reject channel code) = sampleTotals channel + ⟨0, 0, 1⟩ := by
  obtain ⟨_, _, hrejected⟩ := h
  refine Totals.ext rfl rfl ?_
  exact (UInt32.toNat_add _ _).trans (Nat.mod_eq_of_lt hrejected)

theorem validate_totals (jobId : Job → UInt32) (jobTarget hash : Job → Target) (id n : UInt32) :
    sampleTotals (validate jobId jobTarget hash channel id n).2 = sampleTotals channel := by
  rcases validate_cases jobId jobTarget hash channel id n with h | ⟨e, h⟩
  · rw [h]
    rfl
  · rw [h]

end Operations

theorem sample_totalsContract : TotalsContract sampleDeps := by
  refine ⟨?_, ?_, ?_, ?_⟩
  · intro id user p target rate channel h
    exact openChannel_totals h
  · intro id user p target rate rolling size channel h
    exact openChannel_totals h
  · intro kind c channel hfits
    cases c with
    | fullExtranonceSize => rfl
    | setExtranoncePrefix p => cases kind <;> exact replacePrefix_totals channel p
    | setTarget target => cases kind <;> rfl
    | job message =>
      cases kind with
      | standard =>
        cases message with
        | newMiningJob m => exact storeJob_totals channel _ _ _
        | groupChannelJob m =>
          rcases groupJob_cases channel m with ⟨job, _, h⟩ | ⟨e, h⟩
          · exact (congrArg (fun out => sampleTotals out.2) h).trans (storeJob_totals channel _ _ _)
          · exact congrArg (fun out => sampleTotals out.2) h
      | extended => exact storeJob_totals channel _ _ _
    | setNewPrevHash m => cases kind <;> exact activateJob_totals channel _ m
    | shareAcknowledgement n sum => cases kind <;> exact acknowledge_totals channel n sum hfits
    | shareRejection code => cases kind <;> exact reject_totals channel code hfits
  · intro kind channel share
    cases kind <;> exact validate_totals channel _ _ _ _ _

/-- Verdicts on a channel, its group and its neighbour; the channel is closed
and its id opened again in between. -/
def sampleVerdicts : List WorldLabel :=
  sampleOpenings ++ handled [acknowledgeMessage 1 3 30, rejectMessage 1, acknowledgeMessage 10 7 70,
    closeMessage 1, openStandardMessage 1 10 [1, 2], acknowledgeMessage 1 2 20, rejectMessage 2,
    rejectMessage 1, acknowledgeMessage 1 4 40]

theorem guarded_of_playFresh {ls : List WorldLabel} {w : World sampleDeps}
    (h : playFresh sampleWorld ls = some w) :
    Run (Guarded OpensFresh WorldStep) sampleWorld ls w := by
  refine guardedRun_of_play ?_ (fun _ _ _ => worldStep_of_execute) h
  intro s l hl
  cases l with
  | event e => trivial
  | message m r => exact fun o ho => not_open_of_fresh hl ho

theorem sample_accounting :
    ∃ w miner e, playFresh sampleWorld sampleVerdicts = some w ∧
      w.manager.channels .standard 1 = some miner ∧
      channelTotals (standardClient sampleDeps) miner.channel.value = ⟨6, 60, 1⟩ ∧
      (handle (acknowledgeMessage 10 7 70)).eval w = (.ok (), w.logError e) := by
  have hplay : ((playFresh sampleWorld sampleVerdicts).bind fun w =>
      (w.manager.channels .standard 1).map fun miner =>
        (miner.channel.poisoned, w.manager.groupChannels.containsKey 10)) = some (false, true) := by
    decide +kernel
  obtain ⟨w, hw, hstored⟩ := Option.bind_eq_some_iff.mp hplay
  obtain ⟨miner, hm, hfound⟩ := Option.map_eq_some_iff.mp hstored
  obtain ⟨hlock, hgroup⟩ := Prod.mk.inj hfound
  have hrun := guarded_of_playFresh hw
  have hplain : Run WorldStep sampleWorld sampleVerdicts w := hrun.mono (fun _ _ _ h => h.2)
  have haccounts := single_channel_messages_account sampleDeps sample_groupContract
    sample_totalsContract "miner" (.finite 1) false 100 false ⟨0, false⟩ sampleVerdicts w
  obtain ⟨⟨e, hlogged⟩, _⟩ :=
    (haccounts.1 hplain (acknowledgeMessage 10 7 70) 10 rfl).1 (.inl hgroup)
  have htally : tally 1 sampleVerdicts = ⟨6, 60, 1⟩ := by decide
  refine ⟨w, miner, e, hw, hm, ?_, hlogged⟩
  rw [← htally]
  refine haccounts.2 hrun .standard 1 miner hm hlock ?_
  rw [htally]
  exact ⟨by decide, by decide, by decide⟩

end Samples

end CpuMinerSv2.ShareAccounting
