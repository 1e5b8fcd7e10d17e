import CpuMinerSv2.MinerMethods
import CpuMinerSv2.TaskSteps

/-!
The runs of one channel miner. A call is taken apart once: it finds the lock
poisoned, is refused by the channel, changes the channel only, or activates a
job and then cancels the past task and spawns a new one, with other steps in
between. The token chain that results ties every task to the calls made.
-/

namespace CpuMinerSv2.MinerRuns

open Messages Channels Primitives Interference MineJob MinerMethods TaskSteps Relation

variable {K : ClientChannel}

/-- Put a new channel value behind the lock. -/
def setValue (r : Rig K) (channel : K.Channel) : Rig K :=
  { r with miner := r.miner.setChannel (r.miner.channel.withValue channel) }

def cancelPast (r : Rig K) : Rig K := { r with miner := cancelPastTask r.miner }

def spawn (r : Rig K) : Rig K := { r with miner := spawnTask r.miner }

section Calls

variable {allowed : Rig K → Event → Prop}

/-- Steps of the environment while a method runs. -/
abbrev Others (allowed : Rig K → Event → Prop) : Rig K → Rig K → Prop :=
  ReflTransGen (Interferes allowed)

/-- The four ways a call can go. -/
inductive CallRun (allowed : Rig K → Event → Prop) (c : Call K) (r : Rig K) :
    Except Sv2CpuMinerError Unit → Rig K → Prop
  | poisoned {r₁ r' : Rig K} (h₁ : Others allowed r r₁)
      (hlock : r₁.miner.channel.poisoned = true) (h' : Others allowed r₁ r') :
      CallRun allowed c r (.error .poisonLock) r'
  | refused {r₁ r' : Rig K} {e : ChannelError} (h₁ : Others allowed r r₁)
      (hlock : r₁.miner.channel.poisoned = false)
      (hop : (c.outcome r₁.miner.channel.value).1 = .error e)
      (h' : Others allowed (setValue r₁ (c.outcome r₁.miner.channel.value).2) r') :
      CallRun allowed c r (.error (K.channelError e)) r'
  | quiet {r₁ r' : Rig K} (h₁ : Others allowed r r₁)
      (hlock : r₁.miner.channel.poisoned = false)
      (hop : (c.outcome r₁.miner.channel.value).1 = .ok ()) (hc : c.activating = false)
      (h' : Others allowed (setValue r₁ (c.outcome r₁.miner.channel.value).2) r') :
      CallRun allowed c r (.ok ()) r'
  | activated {r₁ r₂ r₃ r' : Rig K} (h₁ : Others allowed r r₁)
      (hlock : r₁.miner.channel.poisoned = false)
      (hop : (c.outcome r₁.miner.channel.value).1 = .ok ()) (hc : c.activating = true)
      (h₂ : Others allowed (setValue r₁ (c.outcome r₁.miner.channel.value).2) r₂)
      (h₃ : Others allowed (cancelPast r₂) r₃) (h' : Others allowed (spawn r₃) r') :
      CallRun allowed c r (.ok ()) r'

/-- Every method is one access to the channel, then perhaps a respawn. -/
theorem program_eq (c : Call K) :
    c.program = (writeChannel c.outcome).bind fun _ =>
      if c.activating then respawnMiningTask else .done () := by
  have hdone : ∀ (p : Prog (Rig K) Sv2CpuMinerError Unit), p = p.bind fun _ => .done () := by
    intro p
    induction p with
    | done a => rfl
    | fail e => rfl
    | act upd next ih => exact congrArg (Prog.act upd) (funext ih)
  cases c with
  | fullExtranonceSize =>
    simp only [Call.program, fullExtranonceSize, readChannel, writeChannel, Call.outcome,
      Call.activating, Prog.act_bind]
    congr 1
    · funext r
      obtain ⟨ambient, miner⟩ := r
      obtain ⟨⟨value, poisoned⟩, _, _, _, _, _, _⟩ := miner
      cases poisoned <;> rfl
    · funext r
      cases hlock : r.miner.channel.poisoned <;> simp [RwCell.read, hlock]
  | setExtranoncePrefix p => exact hdone _
  | setTarget target => exact hdone _
  | job message => rfl
  | setNewPrevHash message => rfl
  | shareAcknowledgement n s =>
    simp only [Call.program, onShareAcknowledgement, writeChannel, Call.outcome,
      Call.activating, Prog.act_bind]
    congr 1
    funext r
    cases hlock : r.miner.channel.poisoned <;> simp
  | shareRejection code =>
    simp only [Call.program, onShareRejection, writeChannel, Call.outcome,
      Call.activating, Prog.act_bind]
    congr 1
    funext r
    cases hlock : r.miner.channel.poisoned <;> simp

theorem runs_respawn {r r' : Rig K} {res : Except Sv2CpuMinerError Unit}
    (h : Runs (Interferes allowed) respawnMiningTask r res r') :
    res = .ok () ∧ ∃ r₂ r₃, Others allowed r r₂ ∧ Others allowed (cancelPast r₂) r₃ ∧
      Others allowed (spawn r₃) r' := by
  simp only [respawnMiningTask, Prog.bind_eq, runs_bind_iff, runs_perform_iff] at h
  rcases h with ⟨_, s, ⟨_, r₂, h₂, h₂'⟩, hres, r₃, h₃, h₃'⟩ | ⟨e, _, he, _⟩
  · exact ⟨hres, r₂, r₃, h₂, h₂'.trans h₃, h₃'⟩
  · contradiction

/-- A call goes one of the four ways. -/
theorem call_cases {c : Call K} {r r' : Rig K} {res : Except Sv2CpuMinerError Unit}
    (h : Runs (Interferes allowed) c.program r res r') : CallRun allowed c r res r' := by
  rw [program_eq] at h
  simp only [writeChannel, Prog.act_bind, runs_act_iff] at h
  obtain ⟨r₁, h₁, hrest⟩ := h
  cases hlock : r₁.miner.channel.poisoned with
  | true =>
    simp only [hlock, ↓reduceIte, Prog.fail_bind, runs_fail_iff, RwCell.write] at hrest
    obtain ⟨rfl, h'⟩ := hrest
    exact .poisoned h₁ hlock h'
  | false =>
    have hset : ({ r₁ with miner := r₁.miner.setChannel (r₁.miner.channel.write
        (fun channel => (c.outcome channel).2)) } : Rig K) =
        setValue r₁ (c.outcome r₁.miner.channel.value).2 := by
      simp only [setValue, RwCell.write, RwCell.withValue, hlock, Bool.false_eq_true, ↓reduceIte]
    simp only [hset, hlock, Bool.false_eq_true, ↓reduceIte] at hrest
    cases hop : (c.outcome r₁.miner.channel.value).1 with
    | error e =>
      simp only [hop, Prog.fail_bind, runs_fail_iff] at hrest
      obtain ⟨rfl, h'⟩ := hrest
      exact .refused h₁ hlock hop h'
    | ok a =>
      simp only [hop, Prog.done_bind] at hrest
      cases hc : c.activating with
      | true =>
        simp only [hc, ↓reduceIte] at hrest
        obtain ⟨rfl, r₂, r₃, h₂, h₃, h'⟩ := runs_respawn hrest
        exact .activated h₁ hlock hop hc h₂ h₃ h'
      | false =>
        simp only [hc, Bool.false_eq_true, ↓reduceIte, runs_done_iff] at hrest
        obtain ⟨rfl, h'⟩ := hrest
        exact .quiet h₁ hlock hop hc h'

theorem advance_cases {r r' : Rig K} {e : Event} (h : r.advance e = some r') :
    (∃ i move m', e = .task i move ∧ TaskStep r.miner r.ambient i m' ∧
      r' = { r with miner := m' }) ∨
    (r'.miner = r.miner ∧ r.ambient.now ≤ r'.ambient.now ∧
      (r.ambient.globalCancelled = true → r'.ambient.globalCancelled = true)) := by
  cases e with
  | task i move =>
    obtain ⟨m', hm, rfl⟩ := Option.map_eq_some_iff.mp h
    exact .inl ⟨i, move, m', rfl, stepTask_cases hm, rfl⟩
  | tick elapsed =>
    cases h
    exact .inr ⟨rfl, Nat.le_add_right _ _, fun hg => hg⟩
  | shutdown =>
    cases h
    exact .inr ⟨rfl, Nat.le_refl _, fun _ => rfl⟩

theorem others_preserve {I : Rig K → Prop}
    (hstep : ∀ a b, Interferes allowed a b → I a → I b) {r r' : Rig K}
    (h : Others allowed r r') (hr : I r) : I r' := by
  induction h with
  | refl => exact hr
  | tail _ hab ih => exact hstep _ _ hab ih

/-- A property of the miner alone is kept by the environment when the steps of
its tasks keep it. -/
theorem interferes_preserve {I : ChannelMiner K → Prop}
    (hstep : ∀ m amb i m', TaskStep m amb i m' → I m → I m') (a b : Rig K)
    (h : Interferes allowed a b) (ha : I a.miner) : I b.miner := by
  obtain ⟨e, _, he⟩ := h
  rcases advance_cases he with ⟨i, move, m', rfl, hs, rfl⟩ | ⟨hm, _, _⟩
  · exact hstep _ _ _ _ hs ha
  · exact hm ▸ ha

theorem others_frame {r r' : Rig K} (h : Others allowed r r') : TaskFrame r.miner r'.miner := by
  induction h with
  | refl => exact TaskFrame.refl _
  | tail _ hab ih =>
    exact interferes_preserve (I := fun m => TaskFrame _ m)
      (fun _ _ _ _ hs hf => hf.trans hs.frame) _ _ hab ih

theorem others_poisoned {r r' : Rig K} (h : Others allowed r r')
    (hlock : r.miner.channel.poisoned = true) : r'.miner.channel.poisoned = true := by
  refine others_preserve (I := fun s => s.miner.channel.poisoned = true) ?_ h hlock
  refine interferes_preserve (I := fun m => m.channel.poisoned = true) ?_
  intro m amb i m' hs hm
  cases hs with
  | writerPanics => rfl
  | _ => exact hm

/-- An invariant kept by every step a call can consist of is kept by the call. -/
theorem call_preserve {I : Rig K → Prop} (henv : ∀ a b, Interferes allowed a b → I a → I b)
    {c : Call K} (hvalue : ∀ r, I r → I (setValue r (c.outcome r.miner.channel.value).2))
    (hcancel : ∀ r, I r → I (cancelPast r)) (hspawn : ∀ r, I r → I (spawn r)) {r r' : Rig K}
    {res : Except Sv2CpuMinerError Unit} (h : Runs (Interferes allowed) c.program r res r')
    (hr : I r) : I r' := by
  have hothers : ∀ a b, Others allowed a b → I a → I b := fun _ _ => others_preserve henv
  cases call_cases h with
  | poisoned h₁ _ h' => exact hothers _ _ h' (hothers _ _ h₁ hr)
  | refused h₁ _ _ h' => exact hothers _ _ h' (hvalue _ (hothers _ _ h₁ hr))
  | quiet h₁ _ _ _ h' => exact hothers _ _ h' (hvalue _ (hothers _ _ h₁ hr))
  | activated h₁ _ _ _ h₂ h₃ h' =>
    have hr₁ := hvalue _ (hothers _ _ h₁ hr)
    have hr₂ := hcancel _ (hothers _ _ h₂ hr₁)
    exact hothers _ _ h' (hspawn _ (hothers _ _ h₃ hr₂))

theorem run_preserve {I : Rig K → Prop} (henv : ∀ a b, Interferes allowed a b → I a → I b)
    (hvalue : ∀ (c : Call K) r, I r → I (setValue r (c.outcome r.miner.channel.value).2))
    (hcancel : ∀ r, I r → I (cancelPast r)) (hspawn : ∀ r, I r → I (spawn r)) {r r' : Rig K}
    {ls : List (Label K)} (h : Run (Step allowed) r ls r') (hr : I r) : I r' := by
  refine h.invariant ?_ hr
  intro s l s' hs hstep
  cases hstep with
  | event ha he => exact henv _ _ ⟨_, ha, he⟩ hs
  | call hc => exact call_preserve henv (hvalue _) hcancel hspawn hc hs

end Calls

/-- The single-submit token is none of the tokens given to tasks. -/
structure TokensApart (m : ChannelMiner K) : Prop where
  current_lt : m.minerCancellationToken < m.tokens.next
  gate_lt : ∀ token, m.singleSubmitCancellationToken = some token → token < m.tokens.next
  gate_ne : m.singleSubmitCancellationToken ≠ some m.minerCancellationToken

/-- Between calls: every task but the last is cancelled, and the last one holds
the token of the miner, which is not. -/
structure TokenChain (m : ChannelMiner K) : Prop extends TokensApart m where
  superseded : ∀ (i : ℕ) (task : MiningTask K), m.tasks[i]? = some task → i + 1 < m.tasks.length →
    m.tokens.isRaised task.minerCancellationToken = true
  last : ∀ (i : ℕ) (task : MiningTask K), m.tasks[i]? = some task → i + 1 = m.tasks.length →
    task.minerCancellationToken = m.minerCancellationToken
  live : m.tokens.isRaised m.minerCancellationToken = false

/-- After the cancellation in a respawn: no task is left running for long. -/
structure AllCancelled (m : ChannelMiner K) : Prop extends TokensApart m where
  cancelled : ∀ (i : ℕ) (task : MiningTask K), m.tasks[i]? = some task →
    m.tokens.isRaised task.minerCancellationToken = true

theorem TokensApart.of_frame {m m' : ChannelMiner K} (h : TokensApart m) (hf : TaskFrame m m') :
    TokensApart m' := by
  refine ⟨?_, ?_, ?_⟩
  · rw [hf.minerToken, hf.next]
    exact h.current_lt
  · rw [hf.singleSubmit, hf.next]
    exact h.gate_lt
  · rw [hf.singleSubmit, hf.minerToken]
    exact h.gate_ne

theorem TokenChain.of_frame {m m' : ChannelMiner K} (h : TokenChain m) (hf : TaskFrame m m') :
    TokenChain m' := by
  refine ⟨h.toTokensApart.of_frame hf, ?_, ?_, ?_⟩
  · intro i task' ht hi
    obtain ⟨task, htask, htoken⟩ := hf.task_before ht
    rw [hf.length_eq] at hi
    rw [← htoken]
    exact hf.raised _ (h.superseded i task htask hi)
  · intro i task' ht hi
    obtain ⟨task, htask, htoken⟩ := hf.task_before ht
    rw [hf.length_eq] at hi
    rw [← htoken, hf.minerToken]
    exact h.last i task htask hi
  · rw [hf.minerToken, hf.raised_other _ h.gate_ne]
    exact h.live

theorem AllCancelled.of_frame {m m' : ChannelMiner K} (h : AllCancelled m)
    (hf : TaskFrame m m') : AllCancelled m' := by
  refine ⟨h.toTokensApart.of_frame hf, ?_⟩
  intro i task' ht
  obtain ⟨task, htask, htoken⟩ := hf.task_before ht
  rw [← htoken]
  exact hf.raised _ (h.cancelled i task htask)

theorem cancelPast_channel (m : ChannelMiner K) : (cancelPastTask m).channel = m.channel := by
  unfold cancelPastTask
  split <;> rfl

theorem cancelPast_tasks (m : ChannelMiner K) : (cancelPastTask m).tasks = m.tasks := by
  unfold cancelPastTask
  split <;> rfl

theorem cancelPast_phases {P : Phase K → Prop} {m : ChannelMiner K} (h : AllPhases P m) :
    AllPhases P (cancelPastTask m) := by
  intro i task ht
  rw [cancelPast_tasks] at ht
  exact h i task ht

theorem cancelPast_raised (m : ChannelMiner K) {token : ℕ} (h : m.tokens.isRaised token = true) :
    (cancelPastTask m).tokens.isRaised token = true := by
  unfold cancelPastTask
  split
  · exact h
  · exact Flags.isRaised_raise_mono _ _ _ h

theorem cancelPast_singleSubmit (m : ChannelMiner K) :
    (cancelPastTask m).singleSubmitCancellationToken = m.singleSubmitCancellationToken := by
  unfold cancelPastTask
  split <;> rfl

theorem cancelPast_apart (m : ChannelMiner K) (h : TokensApart m) :
    TokensApart (cancelPastTask m) := by
  unfold cancelPastTask
  split
  · exact h
  · refine ⟨?_, ?_, h.gate_ne⟩
    · simpa using h.current_lt
    · simpa using h.gate_lt

theorem spawn_apart (m : ChannelMiner K) (h : TokensApart m) : TokensApart (spawnTask m) := by
  refine ⟨?_, ?_, ?_⟩
  · simp [spawnTask]
  · intro token htoken
    have hlt := h.gate_lt token htoken
    simp only [spawnTask, Flags.next_make]
    omega
  · intro htoken
    exact absurd (h.gate_lt _ htoken) (Nat.lt_irrefl _)

theorem cancelPast_allCancelled (m : ChannelMiner K) (h : TokenChain m) :
    AllCancelled (cancelPastTask m) := by
  refine ⟨cancelPast_apart m h.toTokensApart, ?_⟩
  have heq : cancelPastTask m = m.cancelToken m.minerCancellationToken := by
    unfold cancelPastTask
    rw [h.live]
    rfl
  rw [heq]
  intro i task ht
  have hlt : i < m.tasks.length := (List.getElem?_eq_some_iff.mp ht).1
  by_cases hi : i + 1 = m.tasks.length
  · have hlast := h.last i task ht hi
    rw [hlast]
    exact Flags.isRaised_raise_self _ h.current_lt
  · exact Flags.isRaised_raise_mono _ _ _ (h.superseded i task ht (by omega))

theorem spawn_cases (m : ChannelMiner K) {i : ℕ} {task : MiningTask K}
    (ht : (spawnTask m).tasks[i]? = some task) :
    m.tasks[i]? = some task ∨
      i = m.tasks.length ∧
        task = { minerCancellationToken := m.tokens.next, phase := .spawned } := by
  simp only [spawnTask] at ht
  by_cases hi : i < m.tasks.length
  · rw [List.getElem?_append_left hi] at ht
    exact .inl ht
  · rw [List.getElem?_append_right (by omega)] at ht
    obtain ⟨hlt, heq⟩ := List.getElem?_eq_some_iff.mp ht
    have hlen : i - m.tasks.length = 0 := by simpa using hlt
    simp only [hlen, List.getElem_cons_zero] at heq
    exact .inr ⟨by omega, heq.symm⟩

theorem spawn_phases {P : Phase K → Prop} {m : ChannelMiner K} (h : AllPhases P m)
    (hspawned : P .spawned) : AllPhases P (spawnTask m) := by
  intro i task ht
  rcases spawn_cases m ht with hold | ⟨_, rfl⟩
  · exact h i task hold
  · exact hspawned

theorem spawn_tokenChain (m : ChannelMiner K) (h : AllCancelled m) : TokenChain (spawnTask m) := by
  have hlen : (spawnTask m).tasks.length = m.tasks.length + 1 := by simp [spawnTask]
  refine ⟨spawn_apart m h.toTokensApart, ?_, ?_, ?_⟩
  · intro i task ht hi
    rcases spawn_cases m ht with hold | ⟨hnew, _⟩
    · simp only [spawnTask, Flags.isRaised_make]
      exact h.cancelled i task hold
    · omega
  · intro i task ht hi
    rcases spawn_cases m ht with hold | ⟨_, rfl⟩
    · have hlt : i < m.tasks.length := (List.getElem?_eq_some_iff.mp hold).1
      omega
    · rfl
  · simp only [spawnTask, Flags.isRaised_make]
    exact Flags.isRaised_of_next_le _ (Nat.le_refl _)

theorem new_tokenChain (channel : K.Channel) (cpuUsagePercent : ℕ) (singleSubmit : Bool) :
    TokenChain (new channel cpuUsagePercent singleSubmit : ChannelMiner K) := by
  refine ⟨⟨?_, ?_, ?_⟩, ?_, ?_, ?_⟩
  · cases singleSubmit <;> simp [new, Flags.next]
  · cases singleSubmit <;> simp [new, Flags.next]
  · cases singleSubmit <;> simp [new]
  · simp [new]
  · simp [new]
  · cases singleSubmit <;> rfl

section Chain

variable {allowed : Rig K → Event → Prop}

theorem call_tokenChain {c : Call K} {r r' : Rig K} {res : Except Sv2CpuMinerError Unit}
    (h : Runs (Interferes allowed) c.program r res r') (hr : TokenChain r.miner) :
    TokenChain r'.miner ∧ r'.miner.tasks.length =
      r.miner.tasks.length + if res = .ok () ∧ c.activating = true then 1 else 0 := by
  cases call_cases h with
  | poisoned h₁ _ h' =>
    have hf := (others_frame h₁).trans (others_frame h')
    exact ⟨hr.of_frame hf, by simpa using hf.length_eq⟩
  | @refused r₁ _ _ h₁ _ _ h' =>
    have hset : TaskFrame r₁.miner (setValue r₁ (c.outcome r₁.miner.channel.value).2).miner :=
      ⟨rfl, rfl, rfl, rfl, fun _ h => h, fun _ _ => rfl⟩
    have hf := ((others_frame h₁).trans hset).trans (others_frame h')
    exact ⟨hr.of_frame hf, by simpa using hf.length_eq⟩
  | @quiet r₁ _ h₁ _ _ hc h' =>
    have hset : TaskFrame r₁.miner (setValue r₁ (c.outcome r₁.miner.channel.value).2).miner :=
      ⟨rfl, rfl, rfl, rfl, fun _ h => h, fun _ _ => rfl⟩
    have hf := ((others_frame h₁).trans hset).trans (others_frame h')
    exact ⟨hr.of_frame hf, by simpa [hc] using hf.length_eq⟩
  | @activated r₁ r₂ r₃ _ h₁ _ _ hc h₂ h₃ h' =>
    have hset : TaskFrame r₁.miner (setValue r₁ (c.outcome r₁.miner.channel.value).2).miner :=
      ⟨rfl, rfl, rfl, rfl, fun _ h => h, fun _ _ => rfl⟩
    have hf := ((others_frame h₁).trans hset).trans (others_frame h₂)
    have hcancelled := (cancelPast_allCancelled r₂.miner (hr.of_frame hf)).of_frame
      (others_frame h₃)
    have hchain := spawn_tokenChain r₃.miner hcancelled
    have hlen₃ : r₃.miner.tasks.length = r₂.miner.tasks.length := by
      rw [(others_frame h₃).length_eq, cancelPast, cancelPast_tasks]
    refine ⟨hchain.of_frame (others_frame h'), ?_⟩
    rw [(others_frame h').length_eq]
    simp [spawn, spawnTask, hc, hlen₃, hf.length_eq]

theorem step_tokenChain {r r' : Rig K} {l : Label K} (h : Step allowed r l r')
    (hr : TokenChain r.miner) : TokenChain r'.miner := by
  cases h with
  | event ha he =>
    exact interferes_preserve (fun _ _ _ _ hs hm => hm.of_frame hs.frame) _ _ ⟨_, ha, he⟩ hr
  | call h => exact (call_tokenChain h hr).1

theorem run_tokenChain {amb : Ambient} {channel : K.Channel} {cpuUsagePercent : ℕ}
    {singleSubmit : Bool} {ls : List (Label K)} {r : Rig K}
    (h : Run (Step allowed) ⟨amb, new channel cpuUsagePercent singleSubmit⟩ ls r) :
    TokenChain r.miner :=
  h.invariant (fun _ _ _ hr hs => step_tokenChain hs hr) (new_tokenChain _ _ _)

end Chain

end CpuMinerSv2.MinerRuns
