import CpuMinerSv2.MinerRuns
import CpuMinerSv2.SampleMiners

/-!
The task that is not cancelled hashes on the channel's current work. Jobs,
cancellation, spawning and the task's own snapshot happen at different times;
what ties them together is that only an activating call changes the work, and
that it replaces the task when it does.
-/

namespace CpuMinerSv2.LiveTask

open Messages Channels Primitives Interference MineJob MinerMethods TaskSteps MinerRuns
  SampleDeps SampleMiners

variable {K : ClientChannel}

/-- The same active job and the same chain tip. -/
def SameWork (a b : K.Channel) : Prop :=
  K.getActiveJob b = K.getActiveJob a ∧ K.getChainTip b = K.getChainTip a

/-- What the miner relies on: a refused call changes nothing, and only a job
carrying a `min_ntime` or a new prev hash changes the work of the channel. -/
structure ActivationContract (K : ClientChannel) : Prop where
  refused : ∀ (c : Call K) (channel : K.Channel) (e : ChannelError),
    (c.outcome channel).1 = .error e → (c.outcome channel).2 = channel
  quiet : ∀ (c : Call K) (channel : K.Channel), c.activating = false →
    SameWork channel (c.outcome channel).2
  validate : ∀ (channel : K.Channel) (share : K.Share),
    SameWork channel (K.validateShare channel share).2

/-- No call and no share changes the number of rollable extranonce bytes. -/
structure SizeFixed (K : ClientChannel) : Prop where
  calls : ∀ (c : Call K) (channel : K.Channel),
    K.getRollableExtranonceSize (c.outcome channel).2 = K.getRollableExtranonceSize channel
  validate : ∀ (channel : K.Channel) (share : K.Share),
    K.getRollableExtranonceSize (K.validateShare channel share).2 =
      K.getRollableExtranonceSize channel

theorem fits_of_sameWork {a b : K.Channel} {snapshot : Snapshot K} (h : Fits a snapshot)
    (hw : SameWork a b) : Fits b snapshot := by
  obtain ⟨hjob, chainTip, htip, hhash, hbits⟩ := h
  exact ⟨hw.1.trans hjob, chainTip, hw.2.trans htip, hhash, hbits⟩

/-- Uncancelled tasks that have taken their snapshot work from the channel's
current active job and chain tip. -/
def FollowsChannel (m : ChannelMiner K) : Prop :=
  ∀ (i : ℕ) (task : MiningTask K), m.tasks[i]? = some task →
    m.tokens.isRaised task.minerCancellationToken = false →
    ∀ snapshot, snapshotOf task.phase = some snapshot → Fits m.channel.value snapshot

/-- The loop values of every task, cancelled or not, come from its snapshot. -/
def AllComputed : ChannelMiner K → Prop :=
  AllPhases fun phase => ∀ job, jobOf phase = some job → Computed job

/-- The snapshots of all tasks have this extranonce size. -/
def AllSized (size : ℕ) : ChannelMiner K → Prop :=
  AllPhases fun phase => ∀ snapshot, snapshotOf phase = some snapshot →
    snapshot.extranonceSize = size

theorem FollowsChannel.withValue {m : ChannelMiner K} (h : FollowsChannel m)
    {channel : K.Channel} (hw : SameWork m.channel.value channel) :
    FollowsChannel (m.setChannel (m.channel.withValue channel)) :=
  fun i task ht hlive snapshot hs => fits_of_sameWork (h i task ht hlive snapshot hs) hw

theorem FollowsChannel.setPhase {m : ChannelMiner K} (h : FollowsChannel m) {i : ℕ}
    {task : MiningTask K} {phase : Phase K} (ht : m.tasks[i]? = some task)
    (hs : ∀ snapshot, snapshotOf phase = some snapshot →
      snapshotOf task.phase = some snapshot ∨ Fits m.channel.value snapshot) :
    FollowsChannel (m.setPhase i phase) := by
  apply forall_setPhase (P := fun _ t => m.tokens.isRaised t.minerCancellationToken = false →
    ∀ snapshot, snapshotOf t.phase = some snapshot → Fits m.channel.value snapshot) ht h
  intro hlive snapshot hsnap
  rcases hs snapshot hsnap with hold | hnew
  · exact h i task ht hlive snapshot hold
  · exact hnew

theorem taskStep_followsChannel (hK : ActivationContract K) (m : ChannelMiner K) (amb : Ambient)
    (i : ℕ) (m' : ChannelMiner K) (hstep : TaskStep m amb i m') (h : FollowsChannel m) :
    FollowsChannel m' := by
  cases hstep with
  | advance ht ha => exact h.setPhase ht (fun _ hs => ha.snapshot_source hs)
  | writerPanics ht hp hlock hs =>
    apply FollowsChannel.setPhase (m := m.setChannel m.channel.poison) h ht
    exact fun _ hnone => absurd hnone (by simp [snapshotOf, jobOf])
  | rejected ht hp hlock hs hv =>
    apply FollowsChannel.setPhase (h.withValue (hK.validate _ _)) ht
    exact fun _ hs => .inl (by rw [hp]; exact hs)
  | accepted ht hp hlock hs hv =>
    apply FollowsChannel.setPhase (h.withValue (hK.validate _ _)) ht
    exact fun _ hs => .inl (by rw [hp]; exact hs)
  | sent ht hp hgate =>
    apply FollowsChannel.setPhase (m := m.enqueue _) h ht
    exact fun _ hs => .inl (by rw [hp]; exact hs)
  | sentOnce ht hp hgate =>
    apply FollowsChannel.setPhase (m := m.enqueue _) h ht
    exact fun _ hnone => absurd hnone (by simp [snapshotOf, jobOf])
  | @closeGate task token ht hp hgate =>
    have hraise : FollowsChannel (m.cancelToken token) := by
      intro j t hj hlive snapshot hs
      apply h j t hj _ snapshot hs
      by_contra hr
      have hmono := Flags.isRaised_raise_mono m.tokens token _ (by simpa using hr)
      exact absurd hlive (by simpa using hmono)
    apply FollowsChannel.setPhase hraise ht
    exact fun _ hnone => absurd hnone (by simp [snapshotOf, jobOf])

theorem taskStep_allComputed (m : ChannelMiner K) (amb : Ambient) (i : ℕ) (m' : ChannelMiner K)
    (hstep : TaskStep m amb i m') (h : AllComputed m) : AllComputed m' := by
  refine taskStep_phases hstep h ?_ ?_ ?_ ?_
  · intro task phase ht ha job hjob
    rcases ha.job_source hjob with hold | hnew
    · exact h i task ht job hold
    · exact hnew
  · exact fun _ _ _ _ _ _ _ hnone => by contradiction
  · intro phase phase' hand hcomputed hphase hphase' job hjob
    cases hphase'.symm.trans hjob
    exact hcomputed hand hphase
  · exact ⟨fun _ hnone => by contradiction, fun _ hnone => by contradiction⟩

theorem taskStep_allSized {size : ℕ} {m m' : ChannelMiner K} {amb : Ambient} {i : ℕ}
    (hstep : TaskStep m amb i m') (hsize : K.getRollableExtranonceSize m.channel.value = size)
    (h : AllSized size m) : AllSized size m' := by
  refine taskStep_phases hstep h ?_ ?_ ?_ ?_
  · intro task phase ht ha snapshot hs
    rcases ha.snapshot_size hs with hold | hnew
    · exact h i task ht snapshot hold
    · exact hnew.trans hsize
  · exact fun _ _ _ _ _ _ _ hnone => by contradiction
  · intro phase phase' hand hsized hphase hphase' snapshot hs
    cases (snapshotOf_of_jobOf hphase').symm.trans hs
    exact hsized _ (snapshotOf_of_jobOf hphase)
  · exact ⟨fun _ hnone => by contradiction, fun _ hnone => by contradiction⟩

/-- With every earlier task cancelled and the new one not started, nothing
uncancelled holds a snapshot. -/
theorem spawn_followsChannel (m : ChannelMiner K) (h : AllCancelled m) :
    FollowsChannel (spawnTask m) := by
  intro i task ht hlive snapshot hs
  simp only [spawnTask, Flags.isRaised_make] at hlive
  rcases spawn_cases m ht with hold | ⟨_, rfl⟩
  · rw [h.cancelled i task hold] at hlive
    contradiction
  · simp [snapshotOf, jobOf] at hs

section Runs

variable {allowed : Rig K → Event → Prop}

theorem others_followsChannel (hK : ActivationContract K) {r r' : Rig K}
    (h : Others allowed r r') (hr : FollowsChannel r.miner) : FollowsChannel r'.miner :=
  others_preserve (I := fun r => FollowsChannel r.miner)
    (interferes_preserve (taskStep_followsChannel hK)) h hr

theorem others_allComputed {r r' : Rig K} (h : Others allowed r r')
    (hr : AllComputed r.miner) : AllComputed r'.miner :=
  others_preserve (I := fun r => AllComputed r.miner)
    (interferes_preserve taskStep_allComputed) h hr

theorem call_followsChannel (hK : ActivationContract K) {c : Call K} {r r' : Rig K}
    {res : Except Sv2CpuMinerError Unit} (h : Runs (Interferes allowed) c.program r res r')
    (hchain : TokenChain r.miner) (hr : FollowsChannel r.miner) : FollowsChannel r'.miner := by
  cases call_cases h with
  | poisoned h₁ _ h' => exact others_followsChannel hK h' (others_followsChannel hK h₁ hr)
  | @refused r₁ _ e h₁ hlock hop h' =>
    have hsame := hK.refused c r₁.miner.channel.value e hop
    apply others_followsChannel hK h'
    exact (others_followsChannel hK h₁ hr).withValue (by rw [hsame]; exact ⟨rfl, rfl⟩)
  | @quiet r₁ _ h₁ hlock hop hc h' =>
    apply others_followsChannel hK h'
    exact (others_followsChannel hK h₁ hr).withValue (hK.quiet c _ hc)
  | @activated r₁ r₂ r₃ _ h₁ hlock hop hc h₂ h₃ h' =>
    have hset : TaskFrame r₁.miner (setValue r₁ (c.outcome r₁.miner.channel.value).2).miner :=
      ⟨rfl, rfl, rfl, rfl, fun _ h => h, fun _ _ => rfl⟩
    have hf := ((others_frame h₁).trans hset).trans (others_frame h₂)
    have hcancelled := cancelPast_allCancelled r₂.miner (hchain.of_frame hf)
    exact others_followsChannel hK h'
      (spawn_followsChannel r₃.miner (hcancelled.of_frame (others_frame h₃)))

theorem call_allComputed {c : Call K} {r r' : Rig K} {res : Except Sv2CpuMinerError Unit}
    (h : Runs (Interferes allowed) c.program r res r') (hr : AllComputed r.miner) :
    AllComputed r'.miner := by
  refine call_preserve (I := fun r => AllComputed r.miner) ?_ ?_ ?_ ?_ h hr
  · exact fun _ _ hab ha => others_allComputed (.single hab) ha
  · exact fun _ ha => ha
  · exact fun _ ha => cancelPast_phases ha
  · exact fun _ ha => spawn_phases ha (fun _ hnone => by contradiction)

/-- An activating call that succeeded. -/
def Activated : Label K → Prop
  | .call c (.ok _) => c.activating = true
  | _ => False

theorem run_tasks_iff {amb : Ambient} {channel : K.Channel} {cpuUsagePercent : ℕ}
    {singleSubmit : Bool} {ls : List (Label K)} {r : Rig K}
    (h : Run (Step allowed) ⟨amb, new channel cpuUsagePercent singleSubmit⟩ ls r) :
    0 < r.miner.tasks.length ↔ ∃ l ∈ ls, Activated l := by
  refine Run.history (I := fun ls r => 0 < r.miner.tasks.length ↔ ∃ l ∈ ls, Activated l)
    ?_ ?_ h
  · simp [new]
  · intro ls r₁ l r₂ hrun ih hstep
    have hchain : TokenChain r₁.miner := run_tokenChain hrun
    simp only [List.mem_append, List.mem_singleton]
    cases hstep with
    | event ha he =>
      have hlen := (others_frame (.single ⟨_, ha, he⟩)).length_eq
      rw [hlen, ih]
      constructor
      · rintro ⟨l, hl, hact⟩
        exact ⟨l, .inl hl, hact⟩
      · rintro ⟨l, hl | rfl, hact⟩
        · exact ⟨l, hl, hact⟩
        · exact hact.elim
    | @call _ c res hc =>
      have hlen := (call_tokenChain hc hchain).2
      by_cases hact : res = .ok () ∧ c.activating = true
      · rw [hlen, if_pos hact]
        obtain ⟨rfl, hact⟩ := hact
        exact ⟨fun _ => ⟨_, .inr rfl, hact⟩, fun _ => Nat.succ_pos _⟩
      · rw [hlen, if_neg hact, Nat.add_zero, ih]
        constructor
        · rintro ⟨l, hl, hact⟩
          exact ⟨l, .inl hl, hact⟩
        · rintro ⟨l, hl | rfl, hl'⟩
          · exact ⟨l, hl, hl'⟩
          · cases res with
            | error e => exact hl'.elim
            | ok u => exact absurd ⟨rfl, hl'⟩ hact

theorem run_allSized (hsize : SizeFixed K) {r r' : Rig K} {ls : List (Label K)}
    (h : Run (Step allowed) r ls r') (hr : r.miner.tasks = []) :
    AllSized (K.getRollableExtranonceSize r'.miner.channel.value) r'.miner := by
  let I (size : ℕ) (r : Rig K) : Prop :=
    K.getRollableExtranonceSize r.miner.channel.value = size ∧ AllSized size r.miner
  have hinv : I (K.getRollableExtranonceSize r.miner.channel.value) r' := by
    refine run_preserve (I := I _) ?_ ?_ ?_ ?_ h ⟨rfl, ?_⟩
    · refine interferes_preserve (I := fun m => K.getRollableExtranonceSize m.channel.value = _ ∧
        AllSized _ m) ?_
      intro m amb i m' hstep hm
      refine ⟨?_, taskStep_allSized hstep hm.1 hm.2⟩
      cases hstep with
      | rejected => exact (hsize.validate _ _).trans hm.1
      | accepted => exact (hsize.validate _ _).trans hm.1
      | _ => exact hm.1
    · exact fun c a ha => ⟨(hsize.calls c _).trans ha.1, ha.2⟩
    · intro a ha
      refine ⟨?_, cancelPast_phases ha.2⟩
      rw [cancelPast, cancelPast_channel]
      exact ha.1
    · exact fun a ha => ⟨ha.1, spawn_phases ha.2 (fun _ hnone => by contradiction)⟩
    · intro i task ht
      rw [hr] at ht
      contradiction
  rw [hinv.1]
  exact hinv.2

theorem run_followsChannel (hK : ActivationContract K) {amb : Ambient} {channel : K.Channel}
    {cpuUsagePercent : ℕ} {singleSubmit : Bool} {ls : List (Label K)} {r : Rig K}
    (h : Run (Step allowed) ⟨amb, new channel cpuUsagePercent singleSubmit⟩ ls r) :
    FollowsChannel r.miner ∧ AllComputed r.miner := by
  refine Run.history (I := fun _ r => FollowsChannel r.miner ∧ AllComputed r.miner) ?_ ?_ h
  · exact ⟨by simp [FollowsChannel, new], by simp [AllComputed, AllPhases, new]⟩
  · rintro ls r₁ l r₂ hrun ⟨hf, hc⟩ hstep
    cases hstep with
    | event ha he =>
      have hother : Others allowed r₁ r₂ := .single ⟨_, ha, he⟩
      exact ⟨others_followsChannel hK hother hf, others_allComputed hother hc⟩
    | call hcall =>
      exact ⟨call_followsChannel hK hcall (run_tokenChain hrun) hf, call_allComputed hcall hc⟩

end Runs

/-- The header of the channel's work: the version, time and merkle root are for
its active job, the previous hash and the bits are its chain tip's. -/
def currentHeader (channel : K.Channel) (extranonceSize : ℕ) (ntime nonce : UInt32) :
    Option Header := do
  let activeJob ← K.getActiveJob channel
  let chainTip ← K.getChainTip channel
  let merkleRoot ← K.merkleRoot activeJob extranonceSize
  return {
    version := K.version activeJob
    prevBlockhash := chainTip.prevHash
    merkleRoot
    time := ntime
    bits := chainTip.nbits
    nonce }

/-- Whatever the task has in hand, the header it hashes next and the share it
builds next are for the channel's active job and chain tip. -/
structure WorksOnCurrent (r : Rig K) (i : ℕ) (task : MiningTask K) : Prop where
  snapshot : ∀ snapshot, snapshotOf task.phase = some snapshot →
    Fits r.miner.channel.value snapshot
  size : SizeFixed K → ∀ snapshot, snapshotOf task.phase = some snapshot →
    snapshot.extranonceSize = K.getRollableExtranonceSize r.miner.channel.value
  computed : ∀ hand, jobOf task.phase = some hand → Computed hand
  hashes : ∀ hand roll, task.phase = .hashing hand roll → ∃ minNtime header,
    (K.getActiveJob r.miner.channel.value).bind K.minNtime = some minNtime ∧
    currentHeader r.miner.channel.value hand.snapshot.extranonceSize
      (saturatingAdd minNtime (elapsedSeconds hand r.ambient.now)) roll.nonce = some header ∧
    stepTask r.miner r.ambient i .next = some (r.miner.setPhase i
      (if K.blockHash header ≤ hand.snapshot.channelTarget then .found hand roll header.time
        else .polling hand roll.nextNonce))
  submits : ∀ hand roll ntime share, task.phase = .found hand roll ntime →
    buildShare r.miner.channel.value hand roll ntime = .ok share → ∃ activeJob sequenceNumber,
      K.getActiveJob r.miner.channel.value = some activeJob ∧
      K.submitShares hand.snapshot.channelId sequenceNumber (K.jobId activeJob) roll.nonce ntime
        (K.version activeJob) hand.snapshot.extranonceSize = some share

theorem currentHeader_eq {channel : K.Channel} {hand : JobInHand K}
    (hfits : Fits channel hand.snapshot) (hcomputed : Computed hand) (ntime nonce : UInt32) :
    currentHeader channel hand.snapshot.extranonceSize ntime nonce =
      some (headerOf hand nonce ntime) := by
  obtain ⟨hjob, chainTip, htip, hhash, hbits⟩ := hfits
  simp [currentHeader, headerOf, hjob, htip, hcomputed.2, hhash, hbits]

theorem worksOnCurrent {r : Rig K} {i : ℕ} {task : MiningTask K}
    (ht : r.miner.tasks[i]? = some task)
    (hfits : ∀ snapshot, snapshotOf task.phase = some snapshot →
      Fits r.miner.channel.value snapshot)
    (hsize : SizeFixed K → ∀ snapshot, snapshotOf task.phase = some snapshot →
      snapshot.extranonceSize = K.getRollableExtranonceSize r.miner.channel.value)
    (hcomputed : ∀ hand, jobOf task.phase = some hand → Computed hand) :
    WorksOnCurrent r i task := by
  refine ⟨hfits, hsize, hcomputed, ?_, ?_⟩
  · intro hand roll hp
    have hhand : jobOf task.phase = some hand := by
      rw [hp]
      rfl
    have hnow := hcomputed hand hhand
    have hcurrent := hfits _ (snapshotOf_of_jobOf hhand)
    refine ⟨hand.jobMinNtime, headerAt hand roll.nonce r.ambient.now, ?_,
      currentHeader_eq hcurrent hnow _ _, ?_⟩
    · rw [hcurrent.1]
      exact hnow.1
    · simp only [stepTask, ht, Option.bind_some, resume, hp, mineHeader]
      rfl
  · intro hand roll ntime share hp hbuilt
    have hhand : jobOf task.phase = some hand := by
      rw [hp]
      rfl
    obtain ⟨sequenceNumber, _, hshare⟩ := buildShare_ok hbuilt
    exact ⟨_, sequenceNumber, (hfits _ (snapshotOf_of_jobOf hhand)).1, hshare⟩

/-- Between two calls, whatever the tasks do meanwhile: every task but the last
is cancelled; an uncancelled one exists exactly when an activating call has
succeeded; and once it has its snapshot, it hashes and submits for the
channel's active job and chain tip. -/
theorem live_task_hashes_current_work (D : Deps) (kind : Kind)
    (hK : ActivationContract (D.client kind)) (amb : Ambient) (channel : (D.client kind).Channel)
    (cpuUsagePercent : ℕ) (singleSubmit : Bool) (ls : List (Label (D.client kind)))
    (r : Rig (D.client kind))
    (hrun : Run (Step Unrestricted) ⟨amb, new channel cpuUsagePercent singleSubmit⟩ ls r) :
    (∀ (i : ℕ) (task : MiningTask (D.client kind)), r.miner.tasks[i]? = some task →
      i + 1 < r.miner.tasks.length →
        r.miner.tokens.isRaised task.minerCancellationToken = true) ∧
    ((∃ task ∈ r.miner.tasks, r.miner.tokens.isRaised task.minerCancellationToken = false) ↔
      ∃ l ∈ ls, Activated l) ∧
    (∀ (i : ℕ) (task : MiningTask (D.client kind)), r.miner.tasks[i]? = some task →
      r.miner.tokens.isRaised task.minerCancellationToken = false → WorksOnCurrent r i task) := by
  have hchain : TokenChain r.miner := run_tokenChain hrun
  obtain ⟨hfollows, hcomputed⟩ := run_followsChannel hK hrun
  refine ⟨hchain.superseded, ?_, ?_⟩
  · rw [← run_tasks_iff hrun]
    constructor
    · rintro ⟨task, ht, _⟩
      exact List.length_pos_of_mem ht
    · intro hpos
      obtain ⟨task, ht⟩ : ∃ task, r.miner.tasks[r.miner.tasks.length - 1]? = some task :=
        ⟨_, List.getElem?_eq_getElem (by omega)⟩
      refine ⟨task, List.mem_of_getElem? ht, ?_⟩
      rw [hchain.last _ task ht (by omega)]
      exact hchain.live
  · intro i task ht hlive
    exact worksOnCurrent ht (hfollows i task ht hlive)
      (fun hsize => run_allSized hsize hrun rfl i task ht) (hcomputed i task ht)

theorem sample_activationContract (kind : Kind) : ActivationContract (sampleDeps.client kind) := by
  refine ⟨?_, ?_, ?_⟩
  · intro c channel e he
    rcases sample_outcome kind c channel with ⟨_, h⟩ | ⟨_, h, _⟩
    · rw [h]
    · rw [h] at he
      contradiction
  · intro c channel hc
    rcases sample_outcome kind c channel with ⟨_, h⟩ | ⟨_, h, hkeeps⟩
    · rw [h]
      exact ⟨rfl, rfl⟩
    · rw [h]
      exact ⟨hkeeps.activeJob hc, hkeeps.chainTip hc⟩
  · intro channel share
    rcases sample_validate kind channel share with ⟨_, h⟩ | ⟨_, h, _, hkeeps⟩
    · rw [h]
      exact ⟨rfl, rfl⟩
    · rw [h]
      exact ⟨hkeeps.activeJob, hkeeps.chainTip⟩

theorem sample_sizeFixed (kind : Kind) : SizeFixed (sampleDeps.client kind) := by
  refine ⟨?_, ?_⟩
  · intro c channel
    rcases sample_outcome kind c channel with ⟨_, h⟩ | ⟨_, h, hkeeps⟩
    · rw [h]
    · rw [h]
      exact hkeeps.rollable
  · intro channel share
    rcases sample_validate kind channel share with ⟨_, h⟩ | ⟨_, h, _, hkeeps⟩
    · rw [h]
    · rw [h]
      exact hkeeps.rollable

/-- A future job is activated, its task hashes, a second job replaces it, and
the task of that one is about to hash. -/
def sampleLabels : List (Label (sampleDeps.client .standard)) :=
  [.call (sampleJob 5 none) (.ok ()), .call (samplePrevHash 5) (.ok ())] ++ goOn 0 6 ++
    [.call (sampleJob 6 (some 60)) (.ok ())] ++ goOn 1 5

theorem live_task_hashes_sample_work :
    ∃ r task hand roll, play execute (sampleRig false) sampleLabels = some r ∧
      r.miner.tasks[1]? = some task ∧ task.phase = .hashing hand roll ∧
      (∀ (i : ℕ) (task : MiningTask (sampleDeps.client .standard)), r.miner.tasks[i]? = some task →
        i + 1 < r.miner.tasks.length →
          r.miner.tokens.isRaised task.minerCancellationToken = true) ∧
      WorksOnCurrent r 1 task := by
  obtain ⟨r, task, hand, roll, hr, ht, hp, hlive⟩ : ∃ r task hand roll,
      play execute (sampleRig false) sampleLabels = some r ∧ r.miner.tasks[1]? = some task ∧
        task.phase = .hashing hand roll ∧
        r.miner.tokens.isRaised task.minerCancellationToken = false :=
    ⟨_, _, _, _, rfl, rfl, rfl, rfl⟩
  obtain ⟨hsuperseded, _, hworks⟩ := live_task_hashes_current_work sampleDeps .standard
    (sample_activationContract _) _ _ _ _ _ _ (run_of_execute hr)
  exact ⟨r, task, hand, roll, hr, ht, hp, hsuperseded, hworks 1 task ht hlive⟩

end CpuMinerSv2.LiveTask
