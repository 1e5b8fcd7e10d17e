import CpuMinerSv2.ShareFlow

/-!
How a task ends. A cancellation is only looked at when the task polls, so it
goes on for the rest of its iteration; the phases left until then are the
potential that pays for its steps. Nothing brings a cancelled task back.
-/

namespace CpuMinerSv2.Stopping

open Channels Primitives MineJob MinerMethods TaskSteps Moments Accounts ShareFlow Ntime SampleDeps
  SampleMiners ShareTargets

variable {K : ClientChannel}

/-- The steps a cancelled task can take from this phase. -/
def stepsLeft : Phase K → ℕ
  | .spawned => 4
  | .checked => 3
  | .read _ => 2
  | .polling _ _ => 1
  | .yielded _ _ => 6
  | .sleeping _ _ _ => 5
  | .hashing _ _ => 4
  | .found _ _ _ => 3
  | .submitting _ _ _ => 2
  | .submitted => 1
  | .finished => 0
  | .panicked _ => 0

/-- The shares a cancelled task can send from this phase. -/
def sharesLeft : Phase K → ℕ
  | .yielded _ _ | .sleeping _ _ _ | .hashing _ _ | .found _ _ _ | .submitting _ _ _ => 1
  | _ => 0

theorem stepsLeft_le (phase : Phase K) : stepsLeft phase ≤ 6 := by
  cases phase <;> simp [stepsLeft]

theorem sharesLeft_le (phase : Phase K) : sharesLeft phase ≤ 1 := by
  cases phase <;> simp [sharesLeft]

theorem Advance.stepsLeft_lt {m : ChannelMiner K} {p p' : Phase K} (h : Advance m true p p') :
    stepsLeft p' < stepsLeft p := by
  cases h with
  | yield hlive => contradiction
  | _ => simp [stepsLeft]

theorem Advance.sharesLeft_le {m : ChannelMiner K} {p p' : Phase K} (h : Advance m true p p') :
    (shareInHand p).length + sharesLeft p' ≤ sharesLeft p := by
  cases h with
  | yield hlive => contradiction
  | _ => simp [shareInHand, sharesLeft]

/-- The task takes no more steps. -/
def Ended : Phase K → Prop
  | .finished | .panicked _ => True
  | _ => False

theorem TaskStep.spends {m m' : ChannelMiner K} {amb : Ambient} {i : ℕ} {task : MiningTask K}
    (h : TaskStep m amb i m') (ht : m.tasks[i]? = some task)
    (hc : m.cancelled amb task = true) :
    ∃ phase, m'.tasks = (m.setPhase i phase).tasks ∧ stepsLeft phase < stepsLeft task.phase ∧
      (shareInHand task.phase).length + sharesLeft phase ≤ sharesLeft task.phase := by
  have hsame : ∀ task', m.tasks[i]? = some task' → task' = task :=
    fun task' ht' => Option.some.inj (ht'.symm.trans ht)
  cases h with
  | @advance task' phase ht' ha =>
    obtain rfl := hsame task' ht'
    rw [hc] at ha
    exact ⟨phase, rfl, Advance.stepsLeft_lt ha, Advance.sharesLeft_le ha⟩
  | writerPanics ht' hp =>
    obtain rfl := hsame _ ht'
    refine ⟨_, rfl, ?_⟩
    simp [hp, stepsLeft, shareInHand, sharesLeft]
  | rejected ht' hp =>
    obtain rfl := hsame _ ht'
    refine ⟨_, rfl, ?_⟩
    simp [hp, stepsLeft, shareInHand, sharesLeft]
  | accepted ht' hp =>
    obtain rfl := hsame _ ht'
    refine ⟨_, rfl, ?_⟩
    simp [hp, stepsLeft, shareInHand, sharesLeft]
  | sent ht' hp =>
    obtain rfl := hsame _ ht'
    refine ⟨_, rfl, ?_⟩
    simp [hp, stepsLeft, shareInHand, sharesLeft]
  | sentOnce ht' hp =>
    obtain rfl := hsame _ ht'
    refine ⟨_, rfl, ?_⟩
    simp [hp, stepsLeft, shareInHand, sharesLeft]
  | closeGate ht' hp =>
    obtain rfl := hsame _ ht'
    refine ⟨_, rfl, ?_⟩
    simp [hp, stepsLeft, shareInHand, sharesLeft]

theorem posted_sent_le (channel : RwCell K.Channel) (i j : ℕ) (move : Move) (phase : Phase K) :
    ((posted channel i move phase).filterMap (Posting.sentBy j)).length ≤
      (shareInHand phase).length := by
  cases phase with
  | found job roll ntime =>
    cases hv : validated channel job roll ntime <;>
      simp [posted, hv, Posting.sentBy, List.filterMap_cons]
  | submitting job roll share =>
    have hone : (posted channel i move (.submitting job roll share)).length = 1 := by
      cases move <;> rfl
    exact (List.length_filterMap_le _ _).trans (le_of_eq hone)
  | _ => simp [posted]

theorem posted_sent_other (channel : RwCell K.Channel) {i j : ℕ} (hij : i ≠ j) (move : Move)
    (phase : Phase K) : (posted channel i move phase).filterMap (Posting.sentBy j) = [] := by
  cases phase with
  | found job roll ntime =>
    cases hv : validated channel job roll ntime <;> simp [posted, hv, Posting.sentBy]
  | submitting job roll share =>
    cases move <;> simp [posted, Posting.sentBy, hij]
  | _ => simp [posted]

/-- Task `i` is there, and one of the tokens it watches is cancelled. -/
def CancelledAt (r : Rig K) (i : ℕ) : Prop :=
  ∃ task, r.miner.tasks[i]? = some task ∧ r.miner.cancelled r.ambient task = true

/-- What task `i` has left of the steps and of the shares. -/
def leftAt (left : Phase K → ℕ) (i : ℕ) (r : Rig K) : ℕ :=
  (r.miner.tasks[i]?.map fun task => left task.phase).getD 0

/-- The steps of task `i` at a moment. -/
def stepOf (i : ℕ) : Moment K → ℕ
  | .event (.task j _) => if j = i then 1 else 0
  | _ => 0

/-- The shares task `i` sends at a moment. -/
def sharesSent (i : ℕ) (r : Rig K) (l : Moment K) : ℕ :=
  ((postedAt r l).filterMap (Posting.sentBy i)).length

theorem leftAt_eq {r : Rig K} {i : ℕ} {task : MiningTask K} (ht : r.miner.tasks[i]? = some task)
    (left : Phase K → ℕ) : leftAt left i r = left task.phase := by
  unfold leftAt
  rw [ht]
  rfl

/-- A miner that keeps its tasks and lowers no token keeps task `i` cancelled,
with as much left as before. -/
theorem CancelledAt.kept {r r' : Rig K} {i : ℕ} (h : CancelledAt r i)
    (hkept : ∀ task, r.miner.tasks[i]? = some task → r'.miner.tasks[i]? = some task)
    (hraised : ∀ token, r.miner.tokens.isRaised token = true →
      r'.miner.tokens.isRaised token = true)
    (hglobal : r.ambient.globalCancelled = true → r'.ambient.globalCancelled = true) :
    CancelledAt r' i ∧ ∀ left : Phase K → ℕ, leftAt left i r' = leftAt left i r := by
  obtain ⟨task, ht, hc⟩ := h
  refine ⟨⟨task, hkept task ht, ?_⟩, ?_⟩
  · simp only [ChannelMiner.cancelled, Bool.or_eq_true] at hc ⊢
    exact hc.imp hglobal (hraised _)
  · intro left
    rw [leftAt_eq ht, leftAt_eq (hkept task ht)]

theorem task_spends {r : Rig K} {m' : ChannelMiner K} {i j : ℕ} {move : Move}
    (h : CancelledAt r i) (hstep : stepTask r.miner r.ambient j move = some m') :
    CancelledAt ⟨r.ambient, m'⟩ i ∧
      stepOf i (.event (.task j move) : Moment K) + leftAt stepsLeft i ⟨r.ambient, m'⟩ ≤
        leftAt stepsLeft i r ∧
      sharesSent i r (.event (.task j move)) + leftAt sharesLeft i ⟨r.ambient, m'⟩ ≤
        leftAt sharesLeft i r := by
  obtain ⟨task, ht, hc⟩ := h
  have hcases := stepTask_cases hstep
  have hframe := hcases.frame
  have hraised : ∀ {task' : MiningTask K},
      task'.minerCancellationToken = task.minerCancellationToken →
      m'.cancelled r.ambient task' = true := by
    intro task' htoken
    simp only [ChannelMiner.cancelled, Bool.or_eq_true, htoken] at hc ⊢
    exact hc.imp id (hframe.raised _)
  by_cases hij : j = i
  · subst hij
    obtain ⟨phase, htasks, hsteps, hshares⟩ := TaskStep.spends hcases ht hc
    have ht' : m'.tasks[j]? = some { task with phase := phase } := by
      rw [htasks]
      exact r.miner.setPhase_at phase ht
    have hsent : sharesSent j r (.event (.task j move)) ≤ (shareInHand task.phase).length := by
      unfold sharesSent
      rw [postedAt_task ht]
      exact posted_sent_le _ _ _ _ _
    refine ⟨⟨_, ht', hraised rfl⟩, ?_, ?_⟩
    · rw [leftAt_eq ht, leftAt_eq (r := ⟨r.ambient, m'⟩) ht']
      have hone : stepOf j (.event (.task j move) : Moment K) = 1 := if_pos rfl
      dsimp only
      omega
    · rw [leftAt_eq ht, leftAt_eq (r := ⟨r.ambient, m'⟩) ht']
      dsimp only
      omega
  · obtain ⟨phase, htasks⟩ := hcases.tasks_eq
    have ht' : m'.tasks[i]? = some task := by
      rw [htasks, r.miner.setPhase_at_ne phase hij]
      exact ht
    have hsent : sharesSent i r (.event (.task j move)) = 0 := by
      obtain ⟨other, hother, _⟩ := Option.bind_eq_some_iff.mp hstep
      unfold sharesSent
      rw [postedAt_task hother, posted_sent_other _ hij]
      rfl
    have hnone : stepOf i (.event (.task j move) : Moment K) = 0 := if_neg hij
    refine ⟨⟨task, ht', hraised rfl⟩, ?_, ?_⟩
    · rw [leftAt_eq ht, leftAt_eq (r := ⟨r.ambient, m'⟩) ht']
      omega
    · rw [leftAt_eq ht, leftAt_eq (r := ⟨r.ambient, m'⟩) ht']
      omega

theorem RigStep.spends {r r' : Rig K} {l : Moment K} (h : RigStep r l r') {i : ℕ}
    (hc : CancelledAt r i) :
    CancelledAt r' i ∧ stepOf i l + leftAt stepsLeft i r' ≤ leftAt stepsLeft i r ∧
      sharesSent i r l + leftAt sharesLeft i r' ≤ leftAt sharesLeft i r := by
  have hfree : stepOf i l = 0 → sharesSent i r l = 0 →
      (∀ task, r.miner.tasks[i]? = some task → r'.miner.tasks[i]? = some task) →
      (∀ token, r.miner.tokens.isRaised token = true → r'.miner.tokens.isRaised token = true) →
      (r.ambient.globalCancelled = true → r'.ambient.globalCancelled = true) →
      CancelledAt r' i ∧ stepOf i l + leftAt stepsLeft i r' ≤ leftAt stepsLeft i r ∧
        sharesSent i r l + leftAt sharesLeft i r' ≤ leftAt sharesLeft i r := by
    intro hstep hsent hkept hraised hglobal
    obtain ⟨hc', hleft⟩ := hc.kept hkept hraised hglobal
    refine ⟨hc', ?_, ?_⟩
    · rw [hleft, hstep, Nat.zero_add]
    · rw [hleft, hsent, Nat.zero_add]
  cases h with
  | @event e _ hadvance =>
    cases e with
    | task j move =>
      obtain ⟨m', hstep, rfl⟩ := Option.map_eq_some_iff.mp hadvance
      exact task_spends hc hstep
    | tick elapsed =>
      cases hadvance
      exact hfree rfl rfl (fun _ ht => ht) (fun _ ht => ht) id
    | shutdown =>
      cases hadvance
      exact hfree rfl rfl (fun _ ht => ht) (fun _ ht => ht) fun _ => rfl
  | enters => exact hfree rfl rfl (fun _ ht => ht) (fun _ ht => ht) id
  | acts hrenews =>
    refine hfree rfl rfl (hrenews.kept i) hrenews.raised ?_
    rw [hrenews.ambient]
    exact id
  | returns => exact hfree rfl rfl (fun _ ht => ht) (fun _ ht => ht) id

theorem task_goes_on {m : ChannelMiner K} {i : ℕ} {task : MiningTask K}
    (ht : m.tasks[i]? = some task) (hlive : ¬ Ended task.phase) (amb : Ambient) :
    ∃ elapsed, (stepTask m { amb with now := amb.now + elapsed } i .next).isSome = true := by
  cases hp : task.phase with
  | sleeping job roll wakeAt =>
    refine ⟨wakeAt, ?_⟩
    have hawake : wakeAt ≤ amb.now + wakeAt := Nat.le_add_left _ _
    simp [stepTask, ht, resume, hp, hawake]
  | finished =>
    rw [hp] at hlive
    exact absurd trivial hlive
  | panicked reason =>
    rw [hp] at hlive
    exact absurd trivial hlive
  | _ =>
    refine ⟨0, ?_⟩
    simp [stepTask, ht, resume, hp]

theorem cancelled_pays (i : ℕ) :
    Pays (fun p : Point K => Renewing p ∧ CancelledAt p.rig i) PointStep (stepOf i)
      (fun p => leftAt stepsLeft i p.rig) := by
  intro p l p' hp hstep
  obtain ⟨hrig, hrenewing⟩ := pointStep_rig hp.1 hstep
  obtain ⟨hc, hsteps, _⟩ := RigStep.spends hrig hp.2
  exact ⟨⟨hrenewing, hc⟩, hsteps⟩

theorem cancelled_sends {p q : Point K} {ms : List (Moment K)} {i : ℕ}
    (hrun : Run PointStep p ms q) (hp : Renewing p) (hc : CancelledAt p.rig i) :
    ((postings p ms).filterMap (Posting.sentBy i)).length + leftAt sharesLeft i q.rig ≤
      leftAt sharesLeft i p.rig := by
  have hledger := ledger Point.next (fun p : Point K => postedAt p.rig)
    (I := fun log p' => (Renewing p' ∧ CancelledAt p'.rig i) ∧
      (log.filterMap (Posting.sentBy i)).length + leftAt sharesLeft i p'.rig ≤
        leftAt sharesLeft i p.rig) ?_ hrun ⟨⟨hp, hc⟩, ?_⟩
  · exact hledger.2
  · intro log s l s' hs hstep
    obtain ⟨hrig, hrenewing⟩ := pointStep_rig hs.1.1 hstep
    obtain ⟨hc', _, hshares⟩ := RigStep.spends hrig hs.1.2
    have hbefore := hs.2
    refine ⟨⟨hrenewing, hc'⟩, ?_⟩
    rw [List.filterMap_append, List.length_append]
    unfold sharesSent at hshares
    omega
  · rw [List.filterMap_nil, List.length_nil, Nat.zero_add]

/-- The task is cancelled, and it has ended or goes on once it is awake. -/
def WindsDown (r : Rig K) (i : ℕ) : Prop :=
  ∃ task, r.miner.tasks[i]? = some task ∧ r.miner.cancelled r.ambient task = true ∧
    (Ended task.phase ∨ ∃ elapsed, (stepTask r.miner
      { r.ambient with now := r.ambient.now + elapsed } i .next).isSome = true)

theorem CancelledAt.windsDown {r : Rig K} {i : ℕ} (h : CancelledAt r i) : WindsDown r i := by
  obtain ⟨task, ht, hc⟩ := h
  refine ⟨task, ht, hc, ?_⟩
  by_cases hended : Ended task.phase
  · exact .inl hended
  · exact .inr (task_goes_on ht hended r.ambient)

/-- From the moment one of its tokens is cancelled, by a later job or with the
connection, a task takes six more steps at most and sends one more share at
most, whatever else goes on, and until it has ended nothing holds it up but
its own sleep. -/
theorem cancelled_task_stops (K : ClientChannel) (amb : Ambient) (channel : K.Channel)
    (cpuUsagePercent : ℕ) (singleSubmit : Bool) (before ms : List (Moment K)) (p q : Point K)
    (hbefore : Run PointStep (Point.initial ⟨amb, new channel cpuUsagePercent singleSubmit⟩)
      before p) (i : ℕ) (hc : CancelledAt p.rig i) (hrun : Run PointStep p ms q) :
    charges (stepOf i) ms ≤ 6 ∧
      ((postings p ms).filterMap (Posting.sentBy i)).length ≤ 1 ∧ WindsDown q.rig i := by
  have hp : Renewing p := by
    refine Run.invariant (I := Renewing) ?_ hbefore (initial_renewing _)
    exact fun _ _ _ hs hstep => (pointStep_rig hs hstep).2
  obtain ⟨task, ht, _⟩ := id hc
  obtain ⟨⟨_, hc'⟩, hsteps⟩ := (cancelled_pays i).charges_le hrun ⟨hp, hc⟩
  have hshares := cancelled_sends hrun hp hc
  have hsix := stepsLeft_le task.phase
  have hone := sharesLeft_le task.phase
  rw [leftAt_eq ht] at hsteps hshares
  exact ⟨by omega, by omega, hc'.windsDown⟩

/-- A shutdown finds the task in the middle of an iteration: it still hashes
the header, sends the share, and ends at its next poll. -/
theorem sample_task_stops :
    ∃ p q, play Point.next (Point.initial (sampleRig false)) (sampleMoments ++ [.event .shutdown]) =
        some p ∧
      play Point.next p (sampleSteps 4) = some q ∧
      charges (stepOf 0) (sampleSteps 4) ≤ 6 ∧
      ((postings p (sampleSteps 4)).filterMap (Posting.sentBy 0)).length ≤ 1 ∧
      WindsDown q.rig 0 := by
  have hplay : ((play Point.next (Point.initial (sampleRig false))
      (sampleMoments ++ [.event .shutdown])).bind fun p =>
        (p.rig.miner.tasks[0]?).bind fun task => (play Point.next p (sampleSteps 4)).map fun _ =>
          p.rig.miner.cancelled p.rig.ambient task) = some true := by decide +kernel
  obtain ⟨p, hp, hplay⟩ := Option.bind_eq_some_iff.mp hplay
  obtain ⟨task, ht, hplay⟩ := Option.bind_eq_some_iff.mp hplay
  obtain ⟨q, hq, hcancelled⟩ := Option.map_eq_some_iff.mp hplay
  refine ⟨p, q, hp, hq, ?_⟩
  exact cancelled_task_stops (sampleDeps.client .standard) _ _ _ _ _ _ p q
    (run_of_play (fun _ _ _ h => h) hp) 0 ⟨task, ht, hcancelled⟩
    (run_of_play (fun _ _ _ h => h) hq)

end CpuMinerSv2.Stopping
