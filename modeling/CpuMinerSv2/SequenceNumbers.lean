import CpuMinerSv2.MinerRuns
import CpuMinerSv2.SampleMiners

/-!
Sequence numbers of the shares of one channel. A number is taken under the
write lock and sent after the lock is released, so the order of sending is not
the order of numbering. When a task sends its share only while no other one
holds an accepted share, and no number wraps, the queue receives them strictly
increasing; from a state with two accepted shares it need not.
-/

namespace CpuMinerSv2.SequenceNumbers

open Messages Channels Primitives MineJob MinerMethods TaskSteps MinerRuns SampleDeps SampleMiners

variable {K : ClientChannel}

/-- An accepted share is recorded as the last one, a refused share is not, and
nothing else changes the record. -/
structure SequenceContract (K : ClientChannel) : Prop where
  recorded : ∀ (channel : K.Channel) (share : K.Share) (result : ShareValidationResult),
    (K.validateShare channel share).1 = .ok result →
      K.getLastShareSequenceNumber (K.validateShare channel share).2 = K.sequenceNumber share
  unrecorded : ∀ (channel : K.Channel) (share : K.Share) (e : ChannelError),
    (K.validateShare channel share).1 = .error e →
      K.getLastShareSequenceNumber (K.validateShare channel share).2 =
        K.getLastShareSequenceNumber channel
  calls : ∀ (c : Call K) (channel : K.Channel),
    K.getLastShareSequenceNumber (c.outcome channel).2 = K.getLastShareSequenceNumber channel

/-- Share messages carry the number they are built with. -/
def Numbered (K : ClientChannel) : Prop :=
  ∀ (channelId sequenceNumber jobId nonce ntime version : UInt32) (extranonceSize : ℕ)
    (share : K.Share),
    K.submitShares channelId sequenceNumber jobId nonce ntime version extranonceSize = some share →
      K.sequenceNumber share = sequenceNumber

theorem client_numbered (D : Deps) (kind : Kind) : Numbered (D.client kind) := by
  intro channelId sequenceNumber jobId nonce ntime version extranonceSize share h
  cases kind with
  | standard =>
    cases h
    rfl
  | extended =>
    simp only [Deps.client, extendedClient] at h
    split at h
    · cases h
      rfl
    · contradiction

/-- An accepted share that is not sent yet. -/
def waitingShare : Phase K → Option K.Share
  | .submitting _ _ share => some share
  | _ => none

/-- The restriction on the order of steps: a task sends its share only while no
other task of the miner stands between acceptance and send, and a share is
numbered after the largest number only when overflow is checked. -/
def SendsAlone (r : Rig K) : Event → Prop
  | .task i .next => ∀ (task : MiningTask K), r.miner.tasks[i]? = some task →
      (∀ share, waitingShare task.phase = some share →
        ∀ (j : ℕ) (other : MiningTask K), r.miner.tasks[j]? = some other → j ≠ i →
          waitingShare other.phase = none) ∧
      (∀ job roll ntime, task.phase = .found job roll ntime →
        K.overflowChecks = true ∨
          K.getLastShareSequenceNumber r.miner.channel.value ≠ 4294967295)
  | _ => True

def last (m : ChannelMiner K) : ℕ := (K.getLastShareSequenceNumber m.channel.value).toNat

def number (share : K.Share) : ℕ := (K.sequenceNumber share).toNat

/-- The numbers sent increase, the accepted shares not sent yet have larger
ones, and none is beyond the last recorded. -/
structure InOrder (m : ChannelMiner K) : Prop where
  sorted : (m.sent.map number).Pairwise (· < ·)
  sent_le : ∀ share ∈ m.sent, number share ≤ last m
  waiting_le : ∀ (i : ℕ) (task : MiningTask K), m.tasks[i]? = some task →
    ∀ share, waitingShare task.phase = some share → number share ≤ last m
  sent_lt : ∀ (i : ℕ) (task : MiningTask K), m.tasks[i]? = some task →
    ∀ share, waitingShare task.phase = some share → ∀ old ∈ m.sent, number old < number share

theorem InOrder.release {m m' : ChannelMiner K} (h : InOrder m) {i : ℕ} {task : MiningTask K}
    {phase : Phase K} (ht : m.tasks[i]? = some task)
    (htasks : m'.tasks = (m.setPhase i phase).tasks) (hnone : waitingShare phase = none)
    (hsent : m'.sent = m.sent) (hlast : last m' = last m) : InOrder m' := by
  have hold : ∀ (j : ℕ) (t : MiningTask K), m'.tasks[j]? = some t →
      ∀ share, waitingShare t.phase = some share → m.tasks[j]? = some t := by
    intro j t hj share hs
    rcases setPhase_cases ht htasks hj with ⟨_, rfl⟩ | ⟨_, hj'⟩
    · rw [hnone] at hs
      contradiction
    · exact hj'
  refine ⟨?_, ?_, ?_, ?_⟩
  · rw [hsent]
    exact h.sorted
  · rw [hsent, hlast]
    exact h.sent_le
  · rw [hlast]
    exact fun j t hj share hs => h.waiting_le j t (hold j t hj share hs) share hs
  · rw [hsent]
    exact fun j t hj share hs => h.sent_lt j t (hold j t hj share hs) share hs

theorem InOrder.accept {m m' : ChannelMiner K} (h : InOrder m) {i : ℕ} {task : MiningTask K}
    {phase : Phase K} {share : K.Share} (ht : m.tasks[i]? = some task)
    (htasks : m'.tasks = (m.setPhase i phase).tasks) (hphase : waitingShare phase = some share)
    (hsent : m'.sent = m.sent) (hnew : last m' = number share) (hlt : last m < number share) :
    InOrder m' := by
  have hcases : ∀ (j : ℕ) (t : MiningTask K), m'.tasks[j]? = some t →
      ∀ s, waitingShare t.phase = some s →
        j = i ∧ s = share ∨ j ≠ i ∧ m.tasks[j]? = some t ∧ number s ≤ last m := by
    intro j t hj s hs
    rcases setPhase_cases ht htasks hj with ⟨hji, rfl⟩ | ⟨hji, hj'⟩
    · rw [hphase] at hs
      exact .inl ⟨hji, (Option.some.inj hs).symm⟩
    · exact .inr ⟨hji, hj', h.waiting_le j t hj' s hs⟩
  refine ⟨?_, ?_, ?_, ?_⟩
  · rw [hsent]
    exact h.sorted
  · rw [hsent]
    intro old hold
    have hle := h.sent_le old hold
    omega
  · intro j t hj s hs
    rcases hcases j t hj s hs with ⟨_, rfl⟩ | ⟨_, _, hle⟩
    · omega
    · omega
  · rw [hsent]
    intro j t hj s hs old hold
    have hle := h.sent_le old hold
    rcases hcases j t hj s hs with ⟨_, rfl⟩ | ⟨_, hj', _⟩
    · omega
    · exact h.sent_lt j t hj' s hs old hold

theorem InOrder.send {m m' : ChannelMiner K} (h : InOrder m) {i : ℕ} {task : MiningTask K}
    {phase : Phase K} {share : K.Share} (ht : m.tasks[i]? = some task)
    (hwaiting : waitingShare task.phase = some share)
    (halone : ∀ (j : ℕ) (other : MiningTask K), m.tasks[j]? = some other → j ≠ i →
      waitingShare other.phase = none)
    (htasks : m'.tasks = (m.setPhase i phase).tasks) (hnone : waitingShare phase = none)
    (hsent : m'.sent = m.sent ++ [share]) (hlast : last m' = last m) : InOrder m' := by
  have hempty : ∀ (j : ℕ) (t : MiningTask K), m'.tasks[j]? = some t →
      ∀ s, waitingShare t.phase ≠ some s := by
    intro j t hj s hs
    rcases setPhase_cases ht htasks hj with ⟨_, rfl⟩ | ⟨hji, hj'⟩
    · rw [hnone] at hs
      contradiction
    · rw [halone j t hj' hji] at hs
      contradiction
  refine ⟨?_, ?_, ?_, ?_⟩
  · rw [hsent, List.map_append, List.pairwise_append]
    refine ⟨h.sorted, List.pairwise_singleton _ _, ?_⟩
    intro a ha b hb
    obtain ⟨old, hmem, rfl⟩ := List.mem_map.mp ha
    rw [List.map_singleton, List.mem_singleton] at hb
    rw [hb]
    exact h.sent_lt i task ht share hwaiting old hmem
  · intro s hs
    rw [hlast]
    rcases List.mem_append.mp (hsent ▸ hs) with hmem | hmem
    · exact h.sent_le s hmem
    · rw [List.mem_singleton.mp hmem]
      exact h.waiting_le i task ht share hwaiting
  · exact fun j t hj s hs => absurd hs (hempty j t hj s)
  · exact fun j t hj s hs => absurd hs (hempty j t hj s)

theorem buildShare_number (hK : Numbered K) {channel : K.Channel} {job : JobInHand K}
    {roll : Rolling} {ntime : UInt32} {share : K.Share}
    (hmax : K.overflowChecks = true ∨ K.getLastShareSequenceNumber channel ≠ 4294967295)
    (h : buildShare channel job roll ntime = .ok share) :
    number share = (K.getLastShareSequenceNumber channel).toNat + 1 := by
  obtain ⟨n, hnext, hshare⟩ := buildShare_ok h
  have hn : K.sequenceNumber share = n := hK _ _ _ _ _ _ _ share hshare
  unfold nextSequenceNumber at hnext
  split at hnext
  · contradiction
  · rename_i hcheck
    have hne : K.getLastShareSequenceNumber channel ≠ 4294967295 := by
      rcases hmax with hchecked | hne
      · simpa [hchecked] using hcheck
      · exact hne
    have hlt : (K.getLastShareSequenceNumber channel).toNat < 4294967295 := by
      have hbound := (K.getLastShareSequenceNumber channel).toNat_lt
      have hne' : (K.getLastShareSequenceNumber channel).toNat ≠ 4294967295 := by
        intro heq
        exact hne (UInt32.toNat_inj.mp heq)
      omega
    have hsum : n = K.getLastShareSequenceNumber channel + 1 := (Option.some.inj hnext).symm
    rw [number, hn, hsum, UInt32.toNat_add, UInt32.toNat_one]
    exact Nat.mod_eq_of_lt (by omega)

theorem advance_waiting {m : ChannelMiner K} {c : Bool} {p p' : Phase K} (h : Advance m c p p') :
    waitingShare p' = none := by
  cases h <;> rfl

theorem stepTask_of_ne_next {m m' : ChannelMiner K} {amb : Ambient} {i : ℕ} {move : Move}
    (hne : move ≠ .next) (h : stepTask m amb i move = some m') :
    ∃ (task : MiningTask K) (phase : Phase K), m.tasks[i]? = some task ∧
      waitingShare phase = none ∧ m' = m.setPhase i phase := by
  obtain ⟨task, ht, hr⟩ := Option.bind_eq_some_iff.mp h
  refine ⟨task, ?_⟩
  unfold resume at hr
  split at hr <;> first | contradiction | skip
  · split at hr
    · exact ⟨_, ht, rfl, (Option.some.inj hr).symm⟩
    · contradiction
  · exact ⟨_, ht, rfl, (Option.some.inj hr).symm⟩

theorem taskStep_inOrder (hK : SequenceContract K) (hnum : Numbered K) {amb : Ambient}
    {m m' : ChannelMiner K} {i : ℕ} (hguard : SendsAlone ⟨amb, m⟩ (.task i .next))
    (hstep : TaskStep m amb i m') (h : InOrder m) : InOrder m' := by
  cases hstep with
  | advance ht ha => exact h.release ht rfl (advance_waiting ha) rfl rfl
  | writerPanics ht => exact h.release ht rfl rfl rfl rfl
  | rejected ht _ _ _ hv =>
    refine h.release ht rfl rfl rfl ?_
    exact congrArg UInt32.toNat (hK.unrecorded _ _ _ hv)
  | @accepted task job roll ntime share _ ht hp _ hs hv =>
    have hnext := buildShare_number hnum ((hguard task ht).2 job roll ntime hp) hs
    refine h.accept ht rfl rfl rfl ?_ ?_
    · exact congrArg UInt32.toNat (hK.recorded _ _ _ hv)
    · rw [hnext]
      exact Nat.lt_succ_self _
  | @sent task _ _ share ht hp =>
    have hwaiting : waitingShare task.phase = some share := by rw [hp]; rfl
    exact h.send ht hwaiting ((hguard task ht).1 share hwaiting) rfl rfl rfl rfl
  | @sentOnce task _ _ share _ ht hp =>
    have hwaiting : waitingShare task.phase = some share := by rw [hp]; rfl
    exact h.send ht hwaiting ((hguard task ht).1 share hwaiting) rfl rfl rfl rfl
  | closeGate ht => exact h.release ht rfl rfl rfl rfl

theorem inOrder_interferes (hK : SequenceContract K) (hnum : Numbered K) (a b : Rig K)
    (h : Interferes SendsAlone a b) (ha : InOrder a.miner) : InOrder b.miner := by
  obtain ⟨e, hguard, he⟩ := h
  cases e with
  | task i move =>
    obtain ⟨m', hm, rfl⟩ := Option.map_eq_some_iff.mp he
    by_cases hmove : move = .next
    · subst hmove
      exact taskStep_inOrder hK hnum hguard (stepTask_cases hm) ha
    · obtain ⟨task, phase, ht, hnone, rfl⟩ := stepTask_of_ne_next hmove hm
      exact ha.release ht rfl hnone rfl rfl
  | tick elapsed =>
    cases he
    exact ha
  | shutdown =>
    cases he
    exact ha

theorem inOrder_setValue (hK : SequenceContract K) (c : Call K) (r : Rig K)
    (h : InOrder r.miner) :
    InOrder (setValue r (c.outcome r.miner.channel.value).2).miner := by
  have hlast : last (setValue r (c.outcome r.miner.channel.value).2).miner = last r.miner :=
    congrArg UInt32.toNat (hK.calls c r.miner.channel.value)
  refine ⟨h.sorted, ?_, ?_, h.sent_lt⟩
  · rw [hlast]
    exact h.sent_le
  · rw [hlast]
    exact h.waiting_le

theorem inOrder_cancelPast (r : Rig K) (h : InOrder r.miner) : InOrder (cancelPast r).miner := by
  unfold cancelPast cancelPastTask
  dsimp only
  split
  · exact h
  · exact ⟨h.sorted, h.sent_le, h.waiting_le, h.sent_lt⟩

theorem inOrder_spawn (r : Rig K) (h : InOrder r.miner) : InOrder (spawn r).miner := by
  have hold : ∀ (i : ℕ) (t : MiningTask K), (spawnTask r.miner).tasks[i]? = some t →
      ∀ s, waitingShare t.phase = some s → r.miner.tasks[i]? = some t := by
    intro i t ht s hs
    rcases spawn_cases r.miner ht with hold | ⟨_, rfl⟩
    · exact hold
    · contradiction
  refine ⟨h.sorted, h.sent_le, ?_, ?_⟩
  · exact fun i t ht s hs => h.waiting_le i t (hold i t ht s hs) s hs
  · exact fun i t ht s hs => h.sent_lt i t (hold i t ht s hs) s hs

theorem new_inOrder (channel : K.Channel) (cpuUsagePercent : ℕ) (singleSubmit : Bool) :
    InOrder (new channel cpuUsagePercent singleSubmit) := by
  refine ⟨?_, ?_, ?_, ?_⟩ <;> simp [new]

/-- When every share is sent while no other accepted one waits and no number
wraps, the shares of a channel enter the queue strictly increasing. -/
theorem sequence_numbers_increase (D : Deps) (kind : Kind)
    (hK : SequenceContract (D.client kind)) (amb : Ambient) (channel : (D.client kind).Channel)
    (cpuUsagePercent : ℕ) (singleSubmit : Bool) (ls : List (Label (D.client kind)))
    (r : Rig (D.client kind))
    (hrun : Run (Step SendsAlone) ⟨amb, new channel cpuUsagePercent singleSubmit⟩ ls r) :
    (r.miner.sent.map (D.client kind).sequenceNumber).Pairwise (· < ·) := by
  have hinv : InOrder r.miner :=
    run_preserve (I := fun r => InOrder r.miner)
      (inOrder_interferes hK (client_numbered D kind)) (inOrder_setValue hK) inOrder_cancelPast
      inOrder_spawn hrun (new_inOrder channel cpuUsagePercent singleSubmit)
  have hsorted := List.pairwise_map.mp hinv.sorted
  exact List.pairwise_map.mpr (hsorted.imp (fun h => UInt32.lt_iff_toNat_lt.mpr h))

/-- No send fails. -/
def SendsSucceed (_ : Rig K) (e : Event) : Prop := ∀ i, e ≠ .task i .sendFails

theorem send_step {m : ChannelMiner K} (amb : Ambient) {i : ℕ} {task : MiningTask K}
    {share : K.Share} (ht : m.tasks[i]? = some task)
    (hwaiting : waitingShare task.phase = some share) :
    ∃ m', stepTask m amb i .next = some m' ∧ m'.sent = m.sent ++ [share] ∧
      ∀ j, i ≠ j → m'.tasks[j]? = m.tasks[j]? := by
  obtain ⟨token, phase⟩ := task
  cases phase with
  | submitting job roll s =>
    cases hwaiting
    refine ⟨submitShare m i job roll share, ?_, ?_, ?_⟩
    · simp [stepTask, ht, resume]
    · unfold submitShare
      split <;> rfl
    · intro j hij
      unfold submitShare
      split <;> exact ChannelMiner.setPhase_at_ne _ _ hij
  | _ => contradiction

theorem send_both {r : Rig K} {i j : ℕ} {a b : MiningTask K} {s t : K.Share} (hij : i ≠ j)
    (ha : r.miner.tasks[i]? = some a) (hb : r.miner.tasks[j]? = some b)
    (hs : waitingShare a.phase = some s) (ht : waitingShare b.phase = some t) :
    ∃ r', Run (Step SendsSucceed) r [.event (.task i .next), .event (.task j .next)] r' ∧
      r'.miner.sent = r.miner.sent ++ [s, t] := by
  obtain ⟨m₁, h₁, hsent₁, hothers⟩ := send_step r.ambient ha hs
  obtain ⟨m₂, h₂, hsent₂, _⟩ := send_step (m := m₁) r.ambient ((hothers j hij).trans hb) ht
  have hfirst : Step SendsSucceed r (.event (.task i .next)) ⟨r.ambient, m₁⟩ :=
    .event (fun _ => by simp) (by simp [Rig.advance, h₁])
  have hsecond : Step SendsSucceed ⟨r.ambient, m₁⟩ (.event (.task j .next)) ⟨r.ambient, m₂⟩ :=
    .event (fun _ => by simp) (by simp [Rig.advance, h₂])
  exact ⟨⟨r.ambient, m₂⟩, .cons hfirst (.cons hsecond .nil), by simp [hsent₂, hsent₁]⟩

/-- From every state in which two tasks hold accepted shares, one of the two
orders of sending breaks the order of the numbers. -/
theorem two_waiting_disorder {r : Rig K} {i j : ℕ} {a b : MiningTask K} {s t : K.Share}
    (hij : i ≠ j) (ha : r.miner.tasks[i]? = some a) (hb : r.miner.tasks[j]? = some b)
    (hs : waitingShare a.phase = some s) (ht : waitingShare b.phase = some t) :
    ∃ ls r', Run (Step SendsSucceed) r ls r' ∧
      ¬ (r'.miner.sent.map K.sequenceNumber).Pairwise (· < ·) := by
  rcases UInt32.le_total (K.sequenceNumber t) (K.sequenceNumber s) with hle | hle
  · obtain ⟨r', hrun, hsent⟩ := send_both hij ha hb hs ht
    refine ⟨_, r', hrun, ?_⟩
    simp [hsent, List.pairwise_append, hle]
  · obtain ⟨r', hrun, hsent⟩ := send_both hij.symm hb ha ht hs
    refine ⟨_, r', hrun, ?_⟩
    simp [hsent, List.pairwise_append, hle]

theorem sample_sequenceContract (kind : Kind) : SequenceContract (sampleDeps.client kind) := by
  refine ⟨?_, ?_, ?_⟩
  · intro channel share result hr
    rcases sample_validate kind channel share with ⟨_, h⟩ | ⟨_, h, hnumber, _⟩
    · rw [h] at hr
      contradiction
    · rw [h]
      exact hnumber
  · intro channel share e he
    rcases sample_validate kind channel share with ⟨_, h⟩ | ⟨_, h, _⟩
    · rw [h]
    · rw [h] at he
      contradiction
  · intro c channel
    rcases sample_outcome kind c channel with ⟨_, h⟩ | ⟨_, h, hkeeps⟩
    · rw [h]
    · rw [h]
      exact hkeeps.lastSequenceNumber

/-- The first task has its share accepted; a new job starts a second one, whose
share is accepted and sent before the first is sent. -/
def overtakingLabels : List (Label (sampleDeps.client .standard)) :=
  [.call (sampleJob 5 none) (.ok ()), .call (samplePrevHash 5) (.ok ())] ++ goOn 0 7 ++
    [.call (sampleJob 6 (some 60)) (.ok ())] ++ goOn 1 8 ++ goOn 0 1

/-- No send fails, as a test. -/
def sendSucceeds (_ : Rig K) (e : Event) : Bool :=
  match e with
  | .task _ .sendFails => false
  | _ => true

theorem sendsSucceed_of_test (r : Rig K) (e : Event) (h : sendSucceeds r e = true) :
    SendsSucceed r e := by
  rintro i rfl
  contradiction

theorem sequence_numbers_overtaken :
    ¬ ∀ (D : Deps) (kind : Kind), SequenceContract (D.client kind) →
      ∀ (amb : Ambient) (channel : (D.client kind).Channel) (cpuUsagePercent : ℕ)
        (singleSubmit : Bool) (ls : List (Label (D.client kind))) (r : Rig (D.client kind)),
        Run (Step SendsSucceed) ⟨amb, new channel cpuUsagePercent singleSubmit⟩ ls r →
          (r.miner.sent.map (D.client kind).sequenceNumber).Pairwise (· < ·) := by
  intro hclaim
  obtain ⟨r, hr, hsent⟩ : ∃ r,
      play (executeTested sendSucceeds) (sampleRig false) overtakingLabels = some r ∧
        r.miner.sent.map (sampleDeps.client .standard).sequenceNumber = [2, 1] := ⟨_, rfl, rfl⟩
  have hrun := run_of_executeTested sendsSucceed_of_test hr
  have hsorted := hclaim sampleDeps .standard (sample_sequenceContract _) _ _ _ _ _ r hrun
  rw [hsent] at hsorted
  exact absurd hsorted (by decide)

/-- The restriction as a test. -/
def maySend (r : Rig K) : Event → Bool
  | .task i .next =>
    match r.miner.tasks[i]? with
    | some ⟨_, .submitting _ _ _⟩ => r.miner.tasks.zipIdx.all fun (other, j) =>
        j == i || (waitingShare other.phase).isNone
    | some ⟨_, .found _ _ _⟩ =>
      K.overflowChecks || K.getLastShareSequenceNumber r.miner.channel.value != 4294967295
    | _ => true
  | _ => true

theorem sendsAlone_of_maySend (r : Rig K) (e : Event) (h : maySend r e = true) :
    SendsAlone r e := by
  unfold SendsAlone
  split
  · rename_i i
    rintro ⟨token, phase⟩ ht
    refine ⟨?_, ?_⟩
    · intro share hshare j other hj hne
      cases phase with
      | submitting job roll s =>
        simp only [maySend, ht, List.all_eq_true] at h
        have hother := h (other, j) (List.mem_zipIdx_iff_getElem?.mpr hj)
        simpa [hne] using hother
      | _ => contradiction
    · rintro job roll ntime rfl
      simpa [maySend, ht] using h
  · trivial

/-- The first task sends a share and has a second one accepted when a new job
supersedes it. It sends that share while its successor runs, and ends; then the
successor has a share accepted and sends it. -/
def successiveLabels : List (Label (sampleDeps.client .standard)) :=
  [.call (sampleJob 5 none) (.ok ()), .call (samplePrevHash 5) (.ok ())] ++ goOn 0 12 ++
    [.call (sampleJob 6 (some 60)) (.ok ())] ++ goOn 1 6 ++ goOn 0 2 ++ goOn 1 2

theorem sample_numbers_increase :
    ∃ r : Rig (sampleDeps.client .standard),
      Run (Step SendsAlone) (sampleRig false) successiveLabels r ∧ r.miner.tasks.length = 2 ∧
        r.miner.sent.length = 3 ∧
        (r.miner.sent.map (sampleDeps.client .standard).sequenceNumber).Pairwise (· < ·) := by
  obtain ⟨r, hr, htasks, hsent⟩ : ∃ r,
      play (executeTested maySend) (sampleRig false) successiveLabels = some r ∧
        r.miner.tasks.length = 2 ∧ r.miner.sent.length = 3 := ⟨_, rfl, rfl, rfl⟩
  have hrun := run_of_executeTested sendsAlone_of_maySend hr
  exact ⟨r, hrun, htasks, hsent, sequence_numbers_increase sampleDeps .standard
    (sample_sequenceContract _) _ _ _ _ _ r hrun⟩

end CpuMinerSv2.SequenceNumbers
