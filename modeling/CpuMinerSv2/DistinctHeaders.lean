import CpuMinerSv2.ShareTargets

/-!
No task hashes the same header twice. Its nonce counts the iterations and
wraps, its time is a clock rounded down to seconds, and neither knows of the
other; a second that passes before the nonce comes round is what keeps their
pairs apart.
-/

namespace CpuMinerSv2.DistinctHeaders

open Messages Channels Primitives Interference MineJob MinerMethods TaskSteps MinerRuns Moments
  Ntime ShareTargets SampleDeps SampleMiners

section Readings

variable {wrap tick start : ℕ}

theorem round_apart {k l : ℕ} (hkl : k < l) (h : k % wrap = l % wrap) : k + wrap ≤ l := by
  have hrounds : wrap ∣ l - k := Nat.dvd_of_mod_eq_zero (Nat.sub_mod_eq_zero_of_mod_eq h.symm)
  have hround : wrap ≤ l - k := Nat.le_of_dvd (by omega) hrounds
  omega

theorem tick_counts {a b : ℕ} (htick : 0 < tick) (hstart : start ≤ a) (h : a + tick ≤ b) :
    (a - start) / tick < (b - start) / tick := by
  calc
    (a - start) / tick < (a - start) / tick + 1 := Nat.lt_succ_self _
    _ = (a - start + tick) / tick := (Nat.add_div_right _ htick).symm
    _ ≤ (b - start) / tick := Nat.div_le_div_right (by omega)

end Readings

variable {K : ClientChannel}

/-- One header that a task hashes, with the instant its time is read at. -/
structure Iteration (K : ClientChannel) where
  hand : JobInHand K
  nonce : UInt32
  instant : Instant

namespace Iteration

def ntime (a : Iteration K) : UInt32 := ntimeAt a.hand a.instant

def header (a : Iteration K) : Header := headerAt a.hand a.nonce a.instant

/-- `min_ntime` plus the elapsed seconds does not exceed `u32::MAX`. -/
def Unsaturated (a : Iteration K) : Prop :=
  a.hand.jobMinNtime.toNat + (a.instant - a.hand.jobActivatedAt) / 1000000000 ≤ 2 ^ 32 - 1

/-- The share is built from this header. -/
def Offers (a : Iteration K) (share : K.Share) : Prop :=
  ∃ sequenceNumber, K.submitShares a.hand.snapshot.channelId sequenceNumber
    (K.jobId a.hand.snapshot.activeJob) a.nonce a.ntime (K.version a.hand.snapshot.activeJob)
    a.hand.snapshot.extranonceSize = some share

end Iteration

/-- What a step from this phase hashes. -/
def hashed (now : Instant) : Phase K → List (Iteration K)
  | .hashing hand roll => [⟨hand, roll.nonce, now⟩]
  | _ => []

/-- What task `i` hashes at this moment. -/
def hashedBy (i : ℕ) (p : Point K) : Moment K → List (Iteration K)
  | .event (.task j _) =>
    if j = i then (p.rig.miner.tasks[i]?.map fun task =>
      hashed p.rig.ambient.now task.phase).getD []
    else []
  | _ => []

/-- The iterations of task `i` in a run. -/
def iterations (i : ℕ) : Point K → List (Moment K) → List (Iteration K)
  | _, [] => []
  | p, l :: ms => hashedBy i p l ++ ((p.next l).map fun p' => iterations i p' ms).getD []

theorem iterations_append {i : ℕ} {p q : Point K} {ms : List (Moment K)}
    (h : Run PointStep p ms q) (ms' : List (Moment K)) :
    iterations i p (ms ++ ms') = iterations i p ms ++ iterations i q ms' := by
  induction h generalizing ms' with
  | nil => rfl
  | @snoc ms l q₁ q₂ _ hstep ih =>
    have hlast : iterations i q₁ (l :: ms') = hashedBy i q₁ l ++ iterations i q₂ ms' := by
      rw [iterations, show q₁.next l = some q₂ from hstep]
      rfl
    have hone : iterations i q₁ [l] = hashedBy i q₁ l := by
      rw [iterations, show q₁.next l = some q₂ from hstep]
      exact List.append_nil _
    rw [List.append_assoc, ih, ih, List.singleton_append, hlast, hone, List.append_assoc]

theorem iterations_snoc {i : ℕ} {p q q' : Point K} {ms : List (Moment K)} {l : Moment K}
    (h : Run PointStep p ms q) (hstep : PointStep q l q') :
    iterations i p (ms ++ [l]) = iterations i p ms ++ hashedBy i q l := by
  rw [iterations_append h, iterations, show q.next l = some q' from hstep]
  exact congrArg _ (List.append_nil _)

/-- A second passes during any `2 ^ 32` iterations in a row. -/
def SecondPasses (log : List (Iteration K)) : Prop :=
  ∀ k a b, log[k]? = some a → log[k + 2 ^ 32]? = some b → a.instant + 1000000000 ≤ b.instant

section Invariant

/-- The log of one loop: its nonces count, its instants follow the clock, and
the loop values stay. -/
structure Chronicle (log : List (Iteration K)) (now : Instant) : Prop where
  counted : ∀ k a, log[k]? = some a → a.nonce = UInt32.ofNat k
  ordered : log.Pairwise fun a b => a.instant ≤ b.instant
  past : ∀ a ∈ log, a.hand.jobActivatedAt ≤ a.instant ∧ a.instant ≤ now
  uniform : ∀ a ∈ log, ∀ b ∈ log, a.hand = b.hand

namespace Chronicle

variable {log : List (Iteration K)} {now later : Instant}

theorem empty : Chronicle ([] : List (Iteration K)) now := by
  refine ⟨?_, List.Pairwise.nil, ?_, ?_⟩
  · intro k a ha
    contradiction
  · intro a ha
    contradiction
  · intro a ha
    contradiction

theorem mono (h : Chronicle log now) (hle : now ≤ later) : Chronicle log later :=
  ⟨h.counted, h.ordered, fun a ha => ⟨(h.past a ha).1, (h.past a ha).2.trans hle⟩, h.uniform⟩

theorem snoc (h : Chronicle log now) {hand : JobInHand K} {nonce : UInt32}
    (hnonce : nonce = UInt32.ofNat log.length) (hentered : hand.jobActivatedAt ≤ now)
    (hhand : ∀ a ∈ log, a.hand = hand) : Chronicle (log ++ [⟨hand, nonce, now⟩]) now := by
  have hall : ∀ a ∈ log ++ [⟨hand, nonce, now⟩], a.hand = hand := by
    intro a ha
    rcases List.mem_append.mp ha with hold | hnew
    · exact hhand a hold
    · rw [List.mem_singleton.mp hnew]
  refine ⟨?_, ?_, ?_, ?_⟩
  · intro k a ha
    by_cases hk : k < log.length
    · rw [List.getElem?_append_left hk] at ha
      exact h.counted k a ha
    · have hlength := (List.getElem?_eq_some_iff.mp ha).1
      rw [List.length_append, List.length_singleton] at hlength
      have hlast : k = log.length := by omega
      subst hlast
      rw [List.getElem?_concat_length] at ha
      cases ha
      exact hnonce
  · rw [List.pairwise_append]
    refine ⟨h.ordered, List.pairwise_singleton _ _, ?_⟩
    intro a ha b hb
    rw [List.mem_singleton.mp hb]
    exact (h.past a ha).2
  · intro a ha
    rcases List.mem_append.mp ha with hold | hnew
    · exact h.past a hold
    · rw [List.mem_singleton.mp hnew]
      exact ⟨hentered, Nat.le_refl _⟩
  · intro a ha b hb
    exact (hall a ha).trans (hall b hb).symm

theorem ordered_at (h : Chronicle log now) {k l : ℕ} {a b : Iteration K} (hkl : k ≤ l)
    (ha : log[k]? = some a) (hb : log[l]? = some b) : a.instant ≤ b.instant := by
  obtain ⟨hk, rfl⟩ := List.getElem?_eq_some_iff.mp ha
  obtain ⟨hl, rfl⟩ := List.getElem?_eq_some_iff.mp hb
  rcases Nat.lt_or_eq_of_le hkl with hlt | rfl
  · exact List.pairwise_iff_getElem.mp h.ordered k l hk hl hlt
  · exact Nat.le_refl _

theorem ntime_lt (h : Chronicle log now) (hclock : SecondPasses log) {k l : ℕ}
    {a b : Iteration K} (hkl : k < l) (ha : log[k]? = some a) (hb : log[l]? = some b)
    (hnonce : a.nonce = b.nonce) (hmax : b.Unsaturated) : a.ntime < b.ntime := by
  have hl : l < log.length := (List.getElem?_eq_some_iff.mp hb).1
  have hwrap : k % 2 ^ 32 = l % 2 ^ 32 := by
    have hsame := congrArg UInt32.toNat (((h.counted k a ha).symm.trans hnonce).trans
      (h.counted l b hb))
    rwa [UInt32.toNat_ofNat', UInt32.toNat_ofNat'] at hsame
  have hhand : a.hand = b.hand :=
    h.uniform a (List.mem_of_getElem? ha) b (List.mem_of_getElem? hb)
  -- a whole round lies between the two, and with it a second
  have hapart : k + 2 ^ 32 ≤ l := round_apart hkl hwrap
  obtain ⟨c, hc⟩ : ∃ c, log[k + 2 ^ 32]? = some c :=
    ⟨_, List.getElem?_eq_getElem (Nat.lt_of_le_of_lt hapart hl)⟩
  have hpassed : a.instant + 1000000000 ≤ b.instant :=
    (hclock k a c ha hc).trans (h.ordered_at hapart hc hb)
  have hentered : a.hand.jobActivatedAt ≤ a.instant := (h.past a (List.mem_of_getElem? ha)).1
  have hlater := tick_counts (by decide) hentered hpassed
  unfold Iteration.Unsaturated at hmax
  rw [UInt32.lt_iff_toNat_lt, Iteration.ntime, Iteration.ntime, toNat_ntimeAt, toNat_ntimeAt]
  rw [hhand] at hlater ⊢
  generalize (a.instant - b.hand.jobActivatedAt) / 1000000000 = early at hlater ⊢
  generalize (b.instant - b.hand.jobActivatedAt) / 1000000000 = late at hlater hmax ⊢
  omega

theorem header_ne_of_lt (h : Chronicle log now) (hclock : SecondPasses log) {k l : ℕ}
    {a b : Iteration K} (hkl : k < l) (ha : log[k]? = some a) (hb : log[l]? = some b)
    (hmax : b.Unsaturated) : ¬ (a.nonce = b.nonce ∧ a.ntime = b.ntime) := by
  intro hsame
  have hlt := h.ntime_lt hclock hkl ha hb hsame.1 hmax
  rw [hsame.2] at hlt
  exact UInt32.lt_irrefl _ hlt

theorem pairs_differ (h : Chronicle log now) (hclock : SecondPasses log) {k l : ℕ}
    {a b : Iteration K} (hkl : k ≠ l) (ha : log[k]? = some a) (hb : log[l]? = some b)
    (hmax : a.Unsaturated) (hmax' : b.Unsaturated) :
    ¬ (a.nonce = b.nonce ∧ a.ntime = b.ntime) := by
  rcases Nat.lt_or_gt_of_ne hkl with hlt | hgt
  · exact h.header_ne_of_lt hclock hlt ha hb hmax'
  · intro hsame
    exact h.header_ne_of_lt hclock hgt hb ha hmax ⟨hsame.1.symm, hsame.2.symm⟩

end Chronicle

/-- The loop has hashed this log and goes on with this nonce. -/
structure InLoop (log : List (Iteration K)) (now : Instant) (hand : JobInHand K)
    (nonce : UInt32) : Prop where
  next : nonce = UInt32.ofNat log.length
  entered : hand.jobActivatedAt ≤ now
  hands : ∀ a ∈ log, a.hand = hand

/-- What a task in each phase has hashed. A share in hand is that of the last
header. -/
def Kept (log : List (Iteration K)) (now : Instant) : Phase K → Prop
  | .spawned | .checked | .read _ => log = []
  | .polling hand roll | .yielded hand roll | .sleeping hand roll _ | .hashing hand roll =>
    InLoop log now hand roll.nonce
  | .found hand roll ntime => InLoop log now hand (roll.nonce + 1) ∧
    ∃ a, log.getLast? = some a ∧ a.hand = hand ∧ a.nonce = roll.nonce ∧ a.ntime = ntime
  | .submitting hand roll share => InLoop log now hand (roll.nonce + 1) ∧
    ∃ a, log.getLast? = some a ∧ a.Offers share
  | .submitted | .finished | .panicked _ => True

theorem Kept.mono {log : List (Iteration K)} {now later : Instant} {phase : Phase K}
    (h : Kept log now phase) (hle : now ≤ later) : Kept log later phase := by
  have hloop : ∀ {hand nonce}, InLoop log now hand nonce → InLoop log later hand nonce :=
    fun hl => ⟨hl.next, hl.entered.trans hle, hl.hands⟩
  cases phase with
  | polling hand roll => exact hloop h
  | yielded hand roll => exact hloop h
  | sleeping hand roll wakeAt => exact hloop h
  | hashing hand roll => exact hloop h
  | found hand roll ntime => exact ⟨hloop h.1, h.2⟩
  | submitting hand roll share => exact ⟨hloop h.1, h.2⟩
  | _ => exact h

theorem InLoop.hash {log : List (Iteration K)} {now : Instant} {hand : JobInHand K}
    {nonce : UInt32} (h : InLoop log now hand nonce) :
    InLoop (log ++ [⟨hand, nonce, now⟩]) now hand (nonce + 1) := by
  refine ⟨?_, h.entered, ?_⟩
  · rw [h.next, List.length_append, List.length_singleton, UInt32.ofNat_add]
    rfl
  · intro a ha
    rcases List.mem_append.mp ha with hold | hnew
    · exact h.hands a hold
    · rw [List.mem_singleton.mp hnew]

theorem kept_of_over {log : List (Iteration K)} {now : Instant} {phase : Phase K}
    (h : Over phase) : Kept log now phase := by
  cases phase <;> first | exact h.elim | trivial

theorem proceeds_kept {m : ChannelMiner K} {now : Instant} {phase phase' : Phase K}
    (h : Proceeds m now phase phase') {log : List (Iteration K)} (hp : Kept log now phase) :
    Kept (log ++ hashed now phase) now phase' := by
  cases h with
  | stop hover => exact kept_of_over hover
  | @miss job roll => exact InLoop.hash hp
  | @hit job roll => exact ⟨InLoop.hash hp, _, List.getLast?_concat, rfl, rfl, rfl⟩
  | passGate | snapshot | yield | sleep | work | wake =>
    simp only [hashed, List.append_nil]
    exact hp
  | reject | submit =>
    simp only [hashed, List.append_nil]
    exact hp.1
  | @enter job roll _ hnow hnonce =>
    have hempty : log = [] := hp
    rw [hempty]
    refine ⟨hnonce, Nat.le_of_eq hnow, ?_⟩
    intro a ha
    contradiction
  | @number job roll ntime sequenceNumber share hbuilt =>
    simp only [hashed, List.append_nil]
    obtain ⟨hloop, a, hlast, rfl, hnonce, rfl⟩ := hp
    rw [← hnonce] at hbuilt
    exact ⟨hloop, a, hlast, sequenceNumber, hbuilt⟩

theorem Kept.chronicle {log : List (Iteration K)} {now : Instant} {phase : Phase K}
    (h : Kept log now phase) (hlog : Chronicle log now) :
    Chronicle (log ++ hashed now phase) now := by
  cases phase with
  | hashing hand roll => exact hlog.snoc h.next h.entered h.hands
  | _ =>
    simp only [hashed, List.append_nil]
    exact hlog

/-- The log of task `i` at a point of a run, empty while there is no such task. -/
structure Logged (i : ℕ) (log : List (Iteration K)) (p : Point K) : Prop where
  chronicle : Chronicle log p.rig.ambient.now
  kept : ∀ task, p.rig.miner.tasks[i]? = some task → Kept log p.rig.ambient.now task.phase
  unborn : p.rig.miner.tasks[i]? = none → log = []

theorem Logged.stays {i : ℕ} {log : List (Iteration K)} {p p' : Point K} (h : Logged i log p)
    (htask : p'.rig.miner.tasks[i]? = p.rig.miner.tasks[i]?)
    (hnow : p.rig.ambient.now ≤ p'.rig.ambient.now) : Logged i log p' := by
  refine ⟨h.chronicle.mono hnow, ?_, ?_⟩
  · intro task ht
    rw [htask] at ht
    exact (h.kept task ht).mono hnow
  · intro hnone
    rw [htask] at hnone
    exact h.unborn hnone

theorem event_logged {i : ℕ} {log : List (Iteration K)} {p : Point K} {e : Event} {rig : Rig K}
    (he : p.rig.advance e = some rig) (h : Logged i log p) :
    Logged i (log ++ hashedBy i p (.event e)) { p with rig := rig, found := p.foundAfter e } := by
  have hnothing : ∀ {r : Rig K}, r.miner.tasks[i]? = p.rig.miner.tasks[i]? →
      p.rig.ambient.now ≤ r.ambient.now →
      Logged i (log ++ []) { p with rig := r, found := p.foundAfter e } := by
    intro r htask hnow
    rw [List.append_nil]
    exact h.stays htask hnow
  cases e with
  | task j move =>
    obtain ⟨m', hstep, rfl⟩ := Option.map_eq_some_iff.mp he
    obtain ⟨task, ht, hresume⟩ := Option.bind_eq_some_iff.mp hstep
    by_cases hji : j = i
    · subst hji
      have hkept := h.kept task ht
      have hhashed : hashedBy j p (.event (.task j move)) =
          hashed p.rig.ambient.now task.phase := by
        simp [hashedBy, ht]
      rw [hhashed]
      obtain ⟨phase, htasks, hproceeds⟩ := resume_proceeds hresume
      refine ⟨hkept.chronicle h.chronicle, ?_, ?_⟩
      · intro t htj
        rcases setPhase_cases ht htasks htj with ⟨_, rfl⟩ | ⟨hne, _⟩
        · exact proceeds_kept hproceeds hkept
        · exact absurd rfl hne
      · intro hnone
        have hsome := ChannelMiner.setPhase_at p.rig.miner phase ht
        rw [← htasks] at hsome
        exact nomatch hsome.symm.trans hnone
    · obtain ⟨phase, htasks⟩ := (stepTask_cases hstep).tasks_eq
      have hhashed : hashedBy i p (.event (.task j move)) = [] := if_neg hji
      rw [hhashed]
      refine hnothing ?_ (Nat.le_refl _)
      change m'.tasks[i]? = p.rig.miner.tasks[i]?
      rw [htasks]
      exact ChannelMiner.setPhase_at_ne _ _ hji
  | tick elapsed =>
    cases he
    exact hnothing rfl (Nat.le_add_right _ _)
  | shutdown =>
    cases he
    exact hnothing rfl (Nat.le_refl _)

theorem step_logged {i : ℕ} {log : List (Iteration K)} {p p' : Point K} {l : Moment K}
    (hstep : PointStep p l p') (hcalming : Calming p) (h : Logged i log p) :
    Logged i (log ++ hashedBy i p l) p' := by
  cases pointStep_goes hcalming hstep with
  | event he => exact event_logged he h
  | enters =>
    simp only [hashedBy, List.append_nil]
    exact h.stays rfl (Nat.le_refl _)
  | @acts rig rest hcalm =>
    simp only [hashedBy, List.append_nil]
    have hnow : rig.ambient.now = p.rig.ambient.now := congrArg Ambient.now hcalm.ambient
    cases ht : p.rig.miner.tasks[i]? with
    | some task =>
      apply h.stays _ (Nat.le_of_eq hnow.symm)
      exact (hcalm.kept i task ht).trans ht.symm
    | none =>
      -- a task that is there now has just been spawned
      refine ⟨h.chronicle.mono (Nat.le_of_eq hnow.symm), ?_, fun _ => h.unborn ht⟩
      intro task ht'
      rcases hcalm.spawned i task ht' with hold | hspawned
      · exact nomatch ht.symm.trans hold
      · rw [hspawned]
        exact h.unborn ht
  | returns =>
    simp only [hashedBy, List.append_nil]
    exact h.stays rfl (Nat.le_refl _)

theorem run_logged (i : ℕ) {amb : Ambient} {channel : K.Channel} {cpuUsagePercent : ℕ}
    {singleSubmit : Bool} {ms : List (Moment K)} {p : Point K}
    (hrun : Run PointStep (Point.initial ⟨amb, new channel cpuUsagePercent singleSubmit⟩) ms p) :
    Logged i (iterations i (Point.initial ⟨amb, new channel cpuUsagePercent singleSubmit⟩) ms)
      p := by
  have hboth := hrun.history (I := fun ms p => Calming p ∧ Logged i
    (iterations i (Point.initial ⟨amb, new channel cpuUsagePercent singleSubmit⟩) ms) p) ?_ ?_
  · exact hboth.2
  · refine ⟨initial_calming _, Chronicle.empty, ?_, fun _ => rfl⟩
    intro task ht
    contradiction
  · intro ms q l q' hrun hq hstep
    obtain ⟨hcalming, hlogged⟩ := hq
    rw [iterations_snoc hrun hstep]
    exact ⟨(pointStep_goes hcalming hstep).calming hcalming, step_logged hstep hcalming hlogged⟩

end Invariant

section Kinds

variable {D : Deps}

def shareNonce : (kind : Kind) → (D.client kind).Share → UInt32
  | .standard, share => SubmitSharesStandard.nonce share
  | .extended, share => SubmitSharesExtended.nonce share

theorem Iteration.Offers.fields {kind : Kind} {a : Iteration (D.client kind)}
    {share : (D.client kind).Share} (h : a.Offers share) :
    shareNonce kind share = a.nonce ∧ shareNtime kind share = a.ntime := by
  obtain ⟨sequenceNumber, hshare⟩ := h
  cases kind with
  | standard =>
    cases hshare
    exact ⟨rfl, rfl⟩
  | extended =>
    simp only [Deps.client, extendedClient] at hshare
    split at hshare
    · cases hshare
      exact ⟨rfl, rfl⟩
    · contradiction

/-- For both kinds of channels, every task of a miner and every run, of
whatever length: as long as a second passes during any `2 ^ 32` iterations in a
row and the time does not saturate, two iterations hash different headers and
offer different shares; and what the task submits is the share of the header
it has hashed last. -/
theorem headers_never_repeat (D : Deps) (kind : Kind) (amb : Ambient)
    (channel : (D.client kind).Channel) (cpuUsagePercent : ℕ) (singleSubmit : Bool)
    (ms : List (Moment (D.client kind))) (p : Point (D.client kind))
    (hrun : Run PointStep (Point.initial ⟨amb, new channel cpuUsagePercent singleSubmit⟩) ms p)
    (i : ℕ) (log : List (Iteration (D.client kind)))
    (hlog : log = iterations i
      (Point.initial ⟨amb, new channel cpuUsagePercent singleSubmit⟩) ms)
    (hclock : SecondPasses log) :
    (∀ (k l : ℕ) (a b : Iteration (D.client kind)), k ≠ l → log[k]? = some a → log[l]? = some b →
      a.Unsaturated → b.Unsaturated → a.header ≠ b.header ∧
        ∀ share share', a.Offers share → b.Offers share' → share ≠ share') ∧
    ∀ hand roll share, At p i (.submitting hand roll share) →
      ∃ a, log.getLast? = some a ∧ a.Offers share := by
  subst hlog
  have hlogged := run_logged i hrun
  refine ⟨?_, ?_⟩
  · intro k l a b hkl ha hb hmax hmax'
    have hpairs := hlogged.chronicle.pairs_differ hclock hkl ha hb hmax hmax'
    refine ⟨?_, ?_⟩
    · intro hsame
      exact hpairs ⟨congrArg Header.nonce hsame, congrArg Header.time hsame⟩
    · intro share share' hshare hshare' hsame
      obtain ⟨hnonce, hntime⟩ := hshare.fields
      obtain ⟨hnonce', hntime'⟩ := hshare'.fields
      subst hsame
      exact hpairs ⟨hnonce.symm.trans hnonce', hntime.symm.trans hntime'⟩
  · intro hand roll share hat
    obtain ⟨task, ht, hphase⟩ := hat
    have hkept := hlogged.kept task ht
    rw [hphase] at hkept
    exact hkept.2

end Kinds

theorem secondPasses_of_short {log : List (Iteration K)} (h : log.length ≤ 2 ^ 32) :
    SecondPasses log := by
  intro k a b _ hb
  have hlength := (List.getElem?_eq_some_iff.mp hb).1
  omega

instance (a : Iteration K) : Decidable a.Unsaturated := by
  unfold Iteration.Unsaturated
  infer_instance

/-- The first two headers of a task, within one second. -/
theorem sample_headers_differ :
    ∃ a b : Iteration (sampleDeps.client .standard),
      iterations 0 (Point.initial (sampleRig false)) (sampleMoments ++ sampleSteps 6) = [a, b] ∧
        a.header ≠ b.header := by
  have hplay : (play Point.next (Point.initial (sampleRig false))
      (sampleMoments ++ sampleSteps 6)).isSome = true := by decide +kernel
  have hlength : (iterations 0 (Point.initial (sampleRig false))
      (sampleMoments ++ sampleSteps 6)).length = 2 := by decide +kernel
  have hmax : ∀ a ∈ iterations 0 (Point.initial (sampleRig false))
      (sampleMoments ++ sampleSteps 6), a.Unsaturated := by decide +kernel
  obtain ⟨p, hp⟩ := Option.isSome_iff_exists.mp hplay
  obtain ⟨a, b, hlog⟩ := List.length_eq_two.mp hlength
  refine ⟨a, b, hlog, ?_⟩
  have hrun : Run PointStep (Point.initial (sampleRig false)) (sampleMoments ++ sampleSteps 6) p :=
    run_of_play (fun _ _ _ h => h) hp
  have hclock : SecondPasses [a, b] := secondPasses_of_short (by simp)
  rw [hlog] at hmax
  exact ((headers_never_repeat sampleDeps .standard _ _ _ _ _ p hrun 0 [a, b] hlog.symm hclock).1
    0 1 a b (by decide) rfl rfl (hmax a (by simp)) (hmax b (by simp))).1

end CpuMinerSv2.DistinctHeaders
