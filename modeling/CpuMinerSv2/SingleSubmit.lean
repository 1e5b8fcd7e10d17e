import CpuMinerSv2.MinerRuns
import CpuMinerSv2.SampleMiners

/-!
Single submit. The token is tested when a task starts and cancelled after its
send, so two tasks can both be past the test. When a task passes it only while
no other one can still send, at most one share is ever sent.
-/

namespace CpuMinerSv2.SingleSubmit

open Channels Primitives MineJob MinerMethods TaskSteps MinerRuns SampleDeps SampleMiners

variable {K : ClientChannel}

/-- Past the single-submit test, and either still able to send a share or not
yet done with cancelling the single-submit token. -/
def underWay (cancelled : Bool) : Phase K → Bool
  | .checked | .read _ | .polling _ _ => !cancelled
  | .yielded _ _ | .sleeping _ _ _ | .hashing _ _ | .found _ _ _ | .submitting _ _ _ | .submitted =>
    true
  | .spawned | .finished | .panicked _ => false

def TaskUnderWay (m : ChannelMiner K) (amb : Ambient) (task : MiningTask K) : Prop :=
  underWay (m.cancelled amb task) task.phase = true

/-- The one restriction on the order of steps: an uncancelled task passes the
single-submit test only when no other task of the miner is under way. -/
def PassesAlone (r : Rig K) : Event → Prop
  | .task i _ => ∀ (task : MiningTask K), r.miner.tasks[i]? = some task →
      task.phase = .spawned → r.miner.singleSubmitCancelled = false →
      r.miner.cancelled r.ambient task = false →
      ∀ (j : ℕ) (other : MiningTask K), r.miner.tasks[j]? = some other → j ≠ i →
        ¬ TaskUnderWay r.miner r.ambient other
  | _ => True

/-- At most one task is under way, none once the token is cancelled; and a
share has been sent only by a task that cancels the token next, or has. -/
structure SentOnce (amb : Ambient) (m : ChannelMiner K) : Prop where
  alone : ∀ (i j : ℕ) (a b : MiningTask K), m.tasks[i]? = some a → m.tasks[j]? = some b →
    TaskUnderWay m amb a → TaskUnderWay m amb b → i = j
  closed : m.singleSubmitCancelled = true →
    ∀ (i : ℕ) (task : MiningTask K), m.tasks[i]? = some task → ¬ TaskUnderWay m amb task
  count : m.sent.length ≤ 1
  spent : m.sent ≠ [] → m.singleSubmitCancelled = true ∨
    ∃ (i : ℕ) (task : MiningTask K), m.tasks[i]? = some task ∧ task.phase = .submitted

theorem underWay_of_cancelled {c c' : Bool} {phase : Phase K} (hc : c = true → c' = true)
    (h : underWay c' phase = true) : underWay c phase = true := by
  cases phase <;> cases c <;> cases c' <;> simp_all [underWay]

theorem underWay_before {m m' : ChannelMiner K} {amb amb' : Ambient} {task : MiningTask K}
    (hraised : ∀ token, m.tokens.isRaised token = true → m'.tokens.isRaised token = true)
    (hglobal : amb.globalCancelled = true → amb'.globalCancelled = true)
    (h : TaskUnderWay m' amb' task) : TaskUnderWay m amb task := by
  refine underWay_of_cancelled ?_ h
  simp only [ChannelMiner.cancelled, Bool.or_eq_true]
  intro hc
  rcases hc with hc | hc
  · exact .inl (hglobal hc)
  · exact .inr (hraised _ hc)

theorem advance_underWay {m : ChannelMiner K} {c : Bool} {p p' : Phase K}
    (h : Advance m c p p') (hway : underWay c p' = true) :
    underWay c p = true ∨ p = .spawned ∧ m.singleSubmitCancelled = false ∧ c = false := by
  cases h with
  | passGate hgate =>
    right
    refine ⟨rfl, hgate, ?_⟩
    simpa [underWay] using hway
  | yield hc => exact .inl (by simp [underWay, hc])
  | _ => first | exact .inl hway | exact .inl rfl | contradiction

/-- Task `i` moves to another phase, perhaps with a share sent or the token
cancelled. -/
theorem SentOnce.move {amb : Ambient} {m m' : ChannelMiner K} (h : SentOnce amb m) {i : ℕ}
    {task : MiningTask K} {phase : Phase K} (ht : m.tasks[i]? = some task)
    (htasks : m'.tasks = (m.setPhase i phase).tasks)
    (hraised : ∀ token, m.tokens.isRaised token = true → m'.tokens.isRaised token = true)
    (hway : TaskUnderWay m' amb { task with phase := phase } → TaskUnderWay m amb task ∨
      m.singleSubmitCancelled = false ∧ ∀ (j : ℕ) (other : MiningTask K),
        m.tasks[j]? = some other → j ≠ i → ¬ TaskUnderWay m amb other)
    (hclosed : m'.singleSubmitCancelled = true → m.singleSubmitCancelled = true ∨
      TaskUnderWay m amb task ∧ ¬ TaskUnderWay m' amb { task with phase := phase })
    (hcount : m'.sent.length ≤ 1)
    (hspent : m'.sent ≠ [] → m'.singleSubmitCancelled = true ∨ phase = .submitted ∨
      task.phase ≠ .submitted ∧ m'.singleSubmitCancelled = m.singleSubmitCancelled ∧
        m.sent ≠ []) :
    SentOnce amb m' := by
  have hother : ∀ (j : ℕ) (t : MiningTask K), j ≠ i → m'.tasks[j]? = some t →
      m.tasks[j]? = some t := by
    intro j t hj htj
    rcases setPhase_cases ht htasks htj with ⟨hji, _⟩ | ⟨_, htj'⟩
    · exact absurd hji hj
    · exact htj'
  have hself : ∀ t, m'.tasks[i]? = some t → t = { task with phase := phase } := by
    intro t hti
    rcases setPhase_cases ht htasks hti with ⟨_, heq⟩ | ⟨hne, _⟩
    · exact heq
    · contradiction
  have hbefore : ∀ t, TaskUnderWay m' amb t → TaskUnderWay m amb t := fun t =>
    underWay_before hraised (fun hg => hg)
  -- only one of two tasks under way can have just passed the test
  have hone : ∀ (j : ℕ) (t u : MiningTask K), j ≠ i → m'.tasks[j]? = some t →
      m'.tasks[i]? = some u → TaskUnderWay m' amb t → TaskUnderWay m' amb u → False := by
    intro j t u hj htj hui hwt hwu
    have htj' := hother j t hj htj
    rcases hway (hself u hui ▸ hwu) with hwtask | ⟨_, hnone⟩
    · exact hj (h.alone j i t task htj' ht (hbefore t hwt) hwtask)
    · exact hnone j t htj' hj (hbefore t hwt)
  refine ⟨?_, ?_, hcount, ?_⟩
  · intro j k a b haj hbk hwa hwb
    by_cases hji : j = i
    · by_cases hki : k = i
      · omega
      · exact (hone k b a hki hbk (hji ▸ haj) hwb hwa).elim
    · by_cases hki : k = i
      · exact (hone j a b hji haj (hki ▸ hbk) hwa hwb).elim
      · exact h.alone j k a b (hother j a hji haj) (hother k b hki hbk) (hbefore a hwa)
          (hbefore b hwb)
  · intro hc j t htj hwt
    rcases hclosed hc with hold | ⟨hwtask, hnot⟩
    · by_cases hj : j = i
      · subst hj
        rcases hway (hself t htj ▸ hwt) with hwtask | ⟨hopen, _⟩
        · exact h.closed hold j task ht hwtask
        · rw [hold] at hopen
          contradiction
      · exact h.closed hold j t (hother j t hj htj) (hbefore t hwt)
    · by_cases hj : j = i
      · subst hj
        exact hnot (hself t htj ▸ hwt)
      · exact hj (h.alone j i t task (hother j t hj htj) ht (hbefore t hwt) hwtask)
  · intro hsent
    rcases hspent hsent with hc | hp | ⟨hne, hgate, hold⟩
    · exact .inl hc
    · refine .inr ⟨i, { task with phase := phase }, ?_, hp⟩
      rw [htasks]
      exact m.setPhase_at phase ht
    · rw [hgate]
      rcases h.spent hold with hc | ⟨j, t, htj, hpj⟩
      · exact .inl hc
      · refine .inr ⟨j, t, ?_, hpj⟩
        have hj : i ≠ j := by
          rintro rfl
          rw [ht] at htj
          exact hne (Option.some.inj htj ▸ hpj)
        rw [htasks, m.setPhase_at_ne phase hj]
        exact htj

theorem SentOnce.nothing_sent {amb : Ambient} {m : ChannelMiner K} (h : SentOnce amb m) {i : ℕ}
    {task : MiningTask K} (ht : m.tasks[i]? = some task) {job : JobInHand K} {roll : Rolling}
    {share : K.Share} (hp : task.phase = .submitting job roll share) : m.sent = [] := by
  have hway : TaskUnderWay m amb task := by
    rw [TaskUnderWay, hp]
    rfl
  by_contra hsent
  rcases h.spent hsent with hc | ⟨j, t, htj, hpj⟩
  · exact h.closed hc i task ht hway
  · have hwt : TaskUnderWay m amb t := by
      rw [TaskUnderWay, hpj]
      rfl
    have hij := h.alone i j task t ht htj hway hwt
    subst hij
    rw [ht] at htj
    cases htj
    rw [hp] at hpj
    contradiction

theorem taskStep_sentOnce {amb : Ambient} {m m' : ChannelMiner K} {i : ℕ} {move : Move} {gate : ℕ}
    (hgate : m.singleSubmitCancellationToken = some gate) (hlt : gate < m.tokens.next)
    (hguard : PassesAlone ⟨amb, m⟩ (.task i move)) (hstep : TaskStep m amb i m')
    (h : SentOnce amb m) : SentOnce amb m' := by
  cases hstep with
  | @advance task phase ht ha =>
    refine h.move ht rfl (fun _ hr => hr) ?_ (fun hc => .inl hc) h.count ?_
    · intro hway
      rcases advance_underWay ha hway with hw | ⟨hp, hopen, hc⟩
      · exact .inl hw
      · exact .inr ⟨hopen, hguard task ht hp hopen hc⟩
    · intro hsent
      refine .inr (.inr ⟨?_, rfl, hsent⟩)
      intro hp
      rw [hp] at ha
      cases ha with
      | noGate hnone =>
        rw [hgate] at hnone
        contradiction
  | writerPanics ht hp =>
    refine h.move ht rfl (fun _ hr => hr) (fun hway => by contradiction) (fun hc => .inl hc)
      h.count ?_
    exact fun hsent => .inr (.inr ⟨by simp [hp], rfl, hsent⟩)
  | rejected ht hp =>
    refine h.move ht rfl (fun _ hr => hr) ?_ (fun hc => .inl hc) h.count ?_
    · exact fun _ => .inl (by rw [TaskUnderWay, hp]; rfl)
    · exact fun hsent => .inr (.inr ⟨by simp [hp], rfl, hsent⟩)
  | accepted ht hp =>
    refine h.move ht rfl (fun _ hr => hr) ?_ (fun hc => .inl hc) h.count ?_
    · exact fun _ => .inl (by rw [TaskUnderWay, hp]; rfl)
    · exact fun hsent => .inr (.inr ⟨by simp [hp], rfl, hsent⟩)
  | sent _ _ hnone =>
    rw [hgate] at hnone
    contradiction
  | @sentOnce task _ _ share _ ht hp =>
    have hnothing := h.nothing_sent ht hp
    refine h.move ht rfl (fun _ hr => hr) ?_ (fun hc => .inl hc) ?_ (fun _ => .inr (.inl rfl))
    · exact fun _ => .inl (by rw [TaskUnderWay, hp]; rfl)
    · simp [hnothing]
  | @closeGate task token ht hp htoken =>
    have hclosed : ((m.cancelToken token).setPhase i .finished).singleSubmitCancelled = true := by
      have htoken' : token = gate := Option.some.inj (htoken.symm.trans hgate)
      subst htoken'
      simpa [ChannelMiner.singleSubmitCancelled, hgate] using Flags.isRaised_raise_self _ hlt
    refine h.move ht rfl (fun _ hr => Flags.isRaised_raise_mono _ _ _ hr)
      (fun hway => by contradiction) ?_ h.count (fun _ => .inl hclosed)
    refine fun _ => .inr ⟨by rw [TaskUnderWay, hp]; rfl, ?_⟩
    simp [TaskUnderWay, underWay]

/-- With single submit, at any point of a call or between two. -/
structure Once (r : Rig K) : Prop where
  sentOnce : SentOnce r.ambient r.miner
  apart : TokensApart r.miner
  singleSubmit : r.miner.singleSubmitCancellationToken.isSome = true

theorem once_interferes (a b : Rig K) (h : Interferes PassesAlone a b) (ha : Once a) : Once b := by
  obtain ⟨e, hguard, he⟩ := h
  obtain ⟨gate, hgate⟩ := Option.isSome_iff_exists.mp ha.singleSubmit
  rcases advance_cases he with ⟨i, move, m', rfl, hstep, rfl⟩ | ⟨hm, _, hglobal⟩
  · have hf := hstep.frame
    refine ⟨?_, ha.apart.of_frame hf, hf.singleSubmit ▸ ha.singleSubmit⟩
    exact taskStep_sentOnce hgate (ha.apart.gate_lt gate hgate) hguard hstep ha.sentOnce
  · have hbefore : ∀ t, TaskUnderWay b.miner b.ambient t → TaskUnderWay a.miner a.ambient t :=
      fun t => underWay_before (fun _ hr => hm ▸ hr) hglobal
    have hs := ha.sentOnce
    rw [hm] at hbefore
    refine ⟨⟨?_, ?_, ?_, ?_⟩, hm ▸ ha.apart, hm ▸ ha.singleSubmit⟩
    · rw [hm]
      exact fun i j x y hx hy hwx hwy => hs.alone i j x y hx hy (hbefore x hwx) (hbefore y hwy)
    · rw [hm]
      exact fun hc i t ht hw => hs.closed hc i t ht (hbefore t hw)
    · rw [hm]
      exact hs.count
    · rw [hm]
      exact hs.spent

theorem once_setValue (r : Rig K) (channel : K.Channel) (h : Once r) : Once (setValue r channel) :=
  ⟨⟨h.sentOnce.alone, h.sentOnce.closed, h.sentOnce.count, h.sentOnce.spent⟩,
    ⟨h.apart.current_lt, h.apart.gate_lt, h.apart.gate_ne⟩, h.singleSubmit⟩

theorem once_cancelPast (r : Rig K) (h : Once r) : Once (cancelPast r) := by
  have htasks : (cancelPastTask r.miner).tasks = r.miner.tasks := cancelPast_tasks r.miner
  have hsent : (cancelPastTask r.miner).sent = r.miner.sent := by
    unfold cancelPastTask
    split <;> rfl
  have hgate : (cancelPastTask r.miner).singleSubmitCancelled = r.miner.singleSubmitCancelled := by
    unfold cancelPastTask
    split
    · rfl
    · obtain ⟨gate, hg⟩ := Option.isSome_iff_exists.mp h.singleSubmit
      have hne : r.miner.minerCancellationToken ≠ gate := by
        rintro rfl
        exact h.apart.gate_ne hg
      simp only [ChannelMiner.singleSubmitCancelled, ChannelMiner.cancelToken_singleSubmit, hg]
      exact Flags.isRaised_raise_of_ne _ hne
  have hbefore : ∀ t, TaskUnderWay (cancelPastTask r.miner) r.ambient t →
      TaskUnderWay r.miner r.ambient t := fun t =>
      underWay_before (fun _ => cancelPast_raised r.miner) (fun hg => hg)
  have hs := h.sentOnce
  refine ⟨⟨?_, ?_, ?_, ?_⟩, cancelPast_apart _ h.apart, ?_⟩
  · intro i j x y hx hy hwx hwy
    simp only [cancelPast, htasks] at hx hy
    exact hs.alone i j x y hx hy (hbefore x hwx) (hbefore y hwy)
  · intro hc i t ht hw
    simp only [cancelPast, htasks, hgate] at hc ht
    exact hs.closed hc i t ht (hbefore t hw)
  · simp only [cancelPast, hsent]
    exact hs.count
  · simp only [cancelPast, hsent, htasks, hgate]
    exact hs.spent
  · simp only [cancelPast, cancelPast_singleSubmit]
    exact h.singleSubmit

theorem once_spawn (r : Rig K) (h : Once r) : Once (spawn r) := by
  have hold : ∀ (i : ℕ) (t : MiningTask K), (spawnTask r.miner).tasks[i]? = some t →
      TaskUnderWay (spawnTask r.miner) r.ambient t →
        r.miner.tasks[i]? = some t ∧ TaskUnderWay r.miner r.ambient t := by
    intro i t ht hw
    rcases spawn_cases r.miner ht with hold | ⟨_, rfl⟩
    · refine ⟨hold, underWay_before ?_ (fun hg => hg) hw⟩
      intro token hr
      simpa [spawnTask] using hr
    · contradiction
  have hgate : (spawnTask r.miner).singleSubmitCancelled = r.miner.singleSubmitCancelled := by
    simp [ChannelMiner.singleSubmitCancelled, spawnTask]
  have hs := h.sentOnce
  refine ⟨⟨?_, ?_, hs.count, ?_⟩, spawn_apart _ h.apart, h.singleSubmit⟩
  · intro i j x y hx hy hwx hwy
    obtain ⟨hx', hwx'⟩ := hold i x hx hwx
    obtain ⟨hy', hwy'⟩ := hold j y hy hwy
    exact hs.alone i j x y hx' hy' hwx' hwy'
  · intro hc i t ht hw
    obtain ⟨ht', hw'⟩ := hold i t ht hw
    simp only [spawn, hgate] at hc
    exact hs.closed hc i t ht' hw'
  · intro hsent
    simp only [spawn, hgate]
    rcases hs.spent hsent with hc | ⟨i, t, ht, hp⟩
    · exact .inl hc
    · have hlt : i < r.miner.tasks.length := (List.getElem?_eq_some_iff.mp ht).1
      refine .inr ⟨i, t, ?_, hp⟩
      simpa [spawnTask, List.getElem?_append_left hlt] using ht

theorem new_once (amb : Ambient) (channel : K.Channel) (cpuUsagePercent : ℕ) :
    Once ⟨amb, new channel cpuUsagePercent true⟩ := by
  refine ⟨⟨?_, ?_, ?_, ?_⟩, (new_tokenChain _ _ _).toTokensApart, rfl⟩
  · simp [new]
  · simp [new]
  · simp [new]
  · simp [new]

/-- When a task passes the single-submit test only while no other task of the
miner is under way, at most one share is sent, whatever is called and however
the tasks are interleaved. -/
theorem at_most_one_share_sent (D : Deps) (kind : Kind) (amb : Ambient)
    (channel : (D.client kind).Channel) (cpuUsagePercent : ℕ) (ls : List (Label (D.client kind)))
    (r : Rig (D.client kind))
    (hrun : Run (Step PassesAlone) ⟨amb, new channel cpuUsagePercent true⟩ ls r) :
    r.miner.sent.length ≤ 1 :=
  (run_preserve once_interferes (fun _ r hr => once_setValue r _ hr) once_cancelPast once_spawn
    hrun (new_once amb channel cpuUsagePercent)).sentOnce.count

/-- A second task passes the test after the first has found its share and
before it has cancelled the token: both send. -/
def overtakenLabels : List (Label (sampleDeps.client .standard)) :=
  [.call (sampleJob 5 none) (.ok ()), .call (samplePrevHash 5) (.ok ())] ++ goOn 0 7 ++
    [.call (sampleJob 6 (some 60)) (.ok ())] ++ goOn 1 1 ++ goOn 0 2 ++ goOn 1 7

theorem two_shares_sent :
    ¬ ∀ (D : Deps) (kind : Kind) (amb : Ambient) (channel : (D.client kind).Channel)
      (cpuUsagePercent : ℕ) (ls : List (Label (D.client kind))) (r : Rig (D.client kind)),
      Run (Step Unrestricted) ⟨amb, new channel cpuUsagePercent true⟩ ls r →
        r.miner.sent.length ≤ 1 := by
  intro hclaim
  obtain ⟨r, hr, hsent⟩ : ∃ r, play execute (sampleRig true) overtakenLabels = some r ∧
      r.miner.sent.length = 2 := ⟨_, rfl, rfl⟩
  have hone := hclaim sampleDeps .standard _ _ _ _ r (run_of_execute hr)
  omega

/-- The restriction as a test. -/
def mayPass (r : Rig K) : Event → Bool
  | .task i _ =>
    match r.miner.tasks[i]? with
    | some ⟨_, .spawned⟩ => r.miner.tasks.zipIdx.all fun (other, j) =>
        j == i || !underWay (r.miner.cancelled r.ambient other) other.phase
    | _ => true
  | _ => true

theorem passesAlone_of_mayPass (r : Rig K) (e : Event) (h : mayPass r e = true) :
    PassesAlone r e := by
  cases e with
  | task i move =>
    intro task ht hp _ _ j other hj hne hway
    obtain ⟨token, phase⟩ := task
    cases hp
    simp only [mayPass, ht, List.all_eq_true] at h
    have hother := h (other, j) (List.mem_zipIdx_iff_getElem?.mpr hj)
    rw [TaskUnderWay] at hway
    simp [hne, hway] at hother
  | _ => trivial

/-- The first task is superseded while it hashes: its share is refused and it
ends at the next cancellation check. Only then the second task passes the test,
finds its share, sends it and cancels the token. -/
def supersededLabels : List (Label (sampleDeps.client .standard)) :=
  [.call (sampleJob 5 none) (.ok ()), .call (samplePrevHash 5) (.ok ())] ++ goOn 0 5 ++
    [.call (sampleJob 6 (some 60)) (.ok ())] ++ goOn 0 3 ++ goOn 1 9

theorem single_share_sent :
    ∃ r : Rig (sampleDeps.client .standard),
      Run (Step PassesAlone) (sampleRig true) supersededLabels r ∧ r.miner.tasks.length = 2 ∧
        r.miner.sent ≠ [] ∧ r.miner.sent.length ≤ 1 := by
  obtain ⟨r, hr, htasks, hsent⟩ : ∃ r,
      play (executeTested mayPass) (sampleRig true) supersededLabels = some r ∧
        r.miner.tasks.length = 2 ∧ r.miner.sent.length = 1 := ⟨_, rfl, rfl, rfl⟩
  have hrun := run_of_executeTested passesAlone_of_mayPass hr
  refine ⟨r, hrun, htasks, ?_, at_most_one_share_sent sampleDeps .standard _ _ _ _ r hrun⟩
  exact List.ne_nil_of_length_pos (by omega)

end CpuMinerSv2.SingleSubmit
