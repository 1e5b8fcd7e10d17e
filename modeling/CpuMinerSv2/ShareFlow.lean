import CpuMinerSv2.Accounts
import CpuMinerSv2.ShareTargets

/-!
The way of a share from the channel that accepts it to the upstream queue.
A task holds one accepted share at most, and lets go of it once: it enters the
queue, or its send fails. Read off a run, the postings of every task balance.
-/

namespace CpuMinerSv2.ShareFlow

open Channels Primitives MineJob MinerMethods TaskSteps Moments Accounts ShareTargets Ntime
  SampleDeps SampleMiners

variable {K : ClientChannel}

/-- What task `i` does with a share. -/
inductive Posting (K : ClientChannel) where
  /-- the channel has validated it -/
  | accepted (i : ℕ) (share : K.Share)
  | sent (i : ℕ) (share : K.Share)
  /-- the send failed -/
  | lost (i : ℕ) (share : K.Share)

namespace Posting

def acceptedBy (i : ℕ) : Posting K → Option K.Share
  | .accepted j share => if j = i then some share else none
  | _ => none

def sentBy (i : ℕ) : Posting K → Option K.Share
  | .sent j share => if j = i then some share else none
  | _ => none

/-- The share has left the task, one way or the other. -/
def settledBy (i : ℕ) : Posting K → Option K.Share
  | .sent j share | .lost j share => if j = i then some share else none
  | _ => none

/-- What entered the queue, whichever task it came from. -/
def queued : Posting K → Option K.Share
  | .sent _ share => some share
  | _ => none

end Posting

/-- The share that the validation under the write lock lets through. -/
def validated (channel : RwCell K.Channel) (job : JobInHand K) (roll : Rolling)
    (ntime : UInt32) : Option K.Share :=
  if channel.poisoned then none
  else
    match buildShare channel.value job roll ntime with
    | .error _ => none
    | .ok share => if (K.validateShare channel.value share).1.isOk then some share else none

/-- What a step of task `i` from this phase posts. -/
def posted (channel : RwCell K.Channel) (i : ℕ) (move : Move) : Phase K → List (Posting K)
  | .found job roll ntime => ((validated channel job roll ntime).map (.accepted i)).toList
  | .submitting _ _ share => if move = .sendFails then [.lost i share] else [.sent i share]
  | _ => []

/-- What a moment posts. -/
def postedAt (r : Rig K) : Moment K → List (Posting K)
  | .event (.task i move) =>
    (r.miner.tasks[i]?.map fun task => posted r.miner.channel i move task.phase).getD []
  | _ => []

/-- The postings of a run, in order. -/
abbrev postings : Point K → List (Moment K) → List (Posting K) :=
  emitted Point.next fun p => postedAt p.rig

/-- The accepted share in the hand of a task. -/
def shareInHand : Phase K → List K.Share
  | .submitting _ _ share => [share]
  | _ => []

def handOf (m : ChannelMiner K) (i : ℕ) : List K.Share :=
  (m.tasks[i]?.map fun task => shareInHand task.phase).getD []

/-- The queue holds what was sent, and every task has accepted what it has
settled, and then what it holds. -/
structure Balanced (log : List (Posting K)) (m : ChannelMiner K) : Prop where
  queue : m.sent = log.filterMap Posting.queued
  tasks : ∀ i, log.filterMap (Posting.acceptedBy i) =
    log.filterMap (Posting.settledBy i) ++ handOf m i

theorem Advance.empty_handed {m : ChannelMiner K} {cancelled : Bool} {p p' : Phase K}
    (h : Advance m cancelled p p') : shareInHand p' = [] := by
  cases h <;> rfl

/-- What one step of a task does to the queue and to the hand of the task. -/
structure Books (m m' : ChannelMiner K) (i : ℕ) (task : MiningTask K) (posts : List (Posting K)) :
    Prop where
  queue : m'.sent = m.sent ++ posts.filterMap Posting.queued
  hand : ∃ phase, m'.tasks = (m.setPhase i phase).tasks ∧
    shareInHand task.phase ++ posts.filterMap (Posting.acceptedBy i) =
      posts.filterMap (Posting.settledBy i) ++ shareInHand phase

theorem books_nothing {m m' : ChannelMiner K} {i : ℕ} {task : MiningTask K} {phase : Phase K}
    (hsent : m'.sent = m.sent) (htasks : m'.tasks = (m.setPhase i phase).tasks)
    (hbefore : shareInHand task.phase = []) (hafter : shareInHand phase = []) :
    Books m m' i task [] := by
  refine ⟨hsent.trans (List.append_nil _).symm, phase, htasks, ?_⟩
  rw [hbefore, hafter]
  rfl

theorem validated_eq {channel : RwCell K.Channel} {job : JobInHand K} {roll : Rolling}
    {ntime : UInt32} {share : K.Share} (hlock : channel.poisoned = false)
    (hs : buildShare channel.value job roll ntime = .ok share) :
    validated channel job roll ntime =
      if (K.validateShare channel.value share).1.isOk then some share else none := by
  unfold validated
  rw [hlock, hs]
  rfl

theorem found_books {m m' : ChannelMiner K} {amb : Ambient} {i : ℕ} {task : MiningTask K}
    {move : Move} {job : JobInHand K} {roll : Rolling} {ntime : UInt32}
    (ht : m.tasks[i]? = some task) (hp : task.phase = .found job roll ntime)
    (h : TaskStep m amb i m') : Books m m' i task (posted m.channel i move task.phase) := by
  have hsame : ∀ task', m.tasks[i]? = some task' → task' = task :=
    fun task' ht' => Option.some.inj (ht'.symm.trans ht)
  have hposts : posted m.channel i move task.phase =
      ((validated m.channel job roll ntime).map (.accepted i)).toList := by
    rw [hp]
    rfl
  have hempty : shareInHand task.phase = [] := by
    rw [hp]
    rfl
  rw [hposts]
  cases h with
  | @advance task' phase ht' ha =>
    obtain rfl := hsame task' ht'
    have hafter := Advance.empty_handed ha
    have hlock : m.channel.poisoned = true := by
      rw [hp] at ha
      cases ha
      assumption
    have hv : validated m.channel job roll ntime = none := if_pos hlock
    rw [hv]
    exact books_nothing rfl rfl hempty hafter
  | @writerPanics task' job' roll' ntime' reason ht' hp' hlock herror =>
    obtain rfl := hsame task' ht'
    cases hp.symm.trans hp'
    have hv : validated m.channel job roll ntime = none := by
      simp [validated, hlock, herror]
    rw [hv]
    exact books_nothing rfl rfl hempty rfl
  | @rejected task' job' roll' ntime' share e ht' hp' hlock hs hrefused =>
    obtain rfl := hsame task' ht'
    cases hp.symm.trans hp'
    have hv : validated m.channel job roll ntime = none := by
      rw [validated_eq hlock hs, hrefused]
      rfl
    rw [hv]
    exact books_nothing rfl rfl hempty rfl
  | @accepted task' job' roll' ntime' share result ht' hp' hlock hs hok =>
    obtain rfl := hsame task' ht'
    cases hp.symm.trans hp'
    have hv : validated m.channel job roll ntime = some share := by
      rw [validated_eq hlock hs, hok]
      rfl
    rw [hv]
    refine ⟨(List.append_nil _).symm, _, rfl, ?_⟩
    rw [hempty]
    simp [shareInHand, Posting.acceptedBy, Posting.settledBy]
  | sent ht' hp' =>
    obtain rfl := hsame _ ht'
    cases hp.symm.trans hp'
  | sentOnce ht' hp' =>
    obtain rfl := hsame _ ht'
    cases hp.symm.trans hp'
  | closeGate ht' hp' =>
    obtain rfl := hsame _ ht'
    cases hp.symm.trans hp'

theorem submitting_books {m m' : ChannelMiner K} {amb : Ambient} {i : ℕ} {task : MiningTask K}
    {move : Move} {job : JobInHand K} {roll : Rolling} {share : K.Share}
    (hp : task.phase = .submitting job roll share) (h : resume m amb i task move = some m') :
    Books m m' i task (posted m.channel i move task.phase) := by
  rw [hp]
  cases move with
  | next =>
    simp only [resume, hp, submitShare] at h
    have hposts : posted m.channel i .next (.submitting job roll share) = [.sent i share] := rfl
    rw [hposts]
    cases hgate : m.singleSubmitCancellationToken with
    | none =>
      simp only [hgate, Option.some.injEq] at h
      subst h
      refine ⟨rfl, _, rfl, ?_⟩
      simp [hp, shareInHand, Posting.acceptedBy, Posting.settledBy]
    | some token =>
      simp only [hgate, Option.some.injEq] at h
      subst h
      refine ⟨rfl, _, rfl, ?_⟩
      simp [hp, shareInHand, Posting.acceptedBy, Posting.settledBy]
  | breakOff =>
    simp [resume, hp] at h
  | sendFails =>
    simp only [resume, hp, Option.some.injEq] at h
    subst h
    have hposts : posted m.channel i .sendFails (.submitting job roll share) = [.lost i share] :=
      rfl
    rw [hposts]
    refine ⟨(List.append_nil _).symm, _, rfl, ?_⟩
    simp [hp, shareInHand, Posting.acceptedBy, Posting.settledBy]

theorem idle_books {m m' : ChannelMiner K} {amb : Ambient} {i : ℕ} {task : MiningTask K}
    (ht : m.tasks[i]? = some task) (hfound : ∀ job roll ntime, task.phase ≠ .found job roll ntime)
    (hhand : ∀ job roll share, task.phase ≠ .submitting job roll share)
    (h : TaskStep m amb i m') : Books m m' i task [] := by
  have hsame : ∀ task', m.tasks[i]? = some task' → task' = task :=
    fun task' ht' => Option.some.inj (ht'.symm.trans ht)
  have hempty : shareInHand task.phase = [] := by
    cases hp : task.phase with
    | submitting job roll share => exact absurd hp (hhand job roll share)
    | _ => rfl
  cases h with
  | advance ht' ha => exact books_nothing rfl rfl hempty (Advance.empty_handed ha)
  | closeGate ht' hp' => exact books_nothing rfl rfl hempty rfl
  | writerPanics ht' hp' => exact absurd (hsame _ ht' ▸ hp') (hfound _ _ _)
  | rejected ht' hp' => exact absurd (hsame _ ht' ▸ hp') (hfound _ _ _)
  | accepted ht' hp' => exact absurd (hsame _ ht' ▸ hp') (hfound _ _ _)
  | sent ht' hp' => exact absurd (hsame _ ht' ▸ hp') (hhand _ _ _)
  | sentOnce ht' hp' => exact absurd (hsame _ ht' ▸ hp') (hhand _ _ _)

theorem stepTask_books {m m' : ChannelMiner K} {amb : Ambient} {i : ℕ} {task : MiningTask K}
    {move : Move} (ht : m.tasks[i]? = some task) (h : stepTask m amb i move = some m') :
    Books m m' i task (posted m.channel i move task.phase) := by
  have hcases := stepTask_cases h
  have hresume : resume m amb i task move = some m' := by
    simpa [stepTask, ht] using h
  cases hp : task.phase with
  | found job roll ntime => exact hp ▸ found_books ht hp hcases
  | submitting job roll share => exact hp ▸ submitting_books hp hresume
  | _ => exact idle_books ht (by simp [hp]) (by simp [hp]) hcases

theorem posted_other (channel : RwCell K.Channel) {i j : ℕ} (hij : i ≠ j) (move : Move)
    (phase : Phase K) :
    (posted channel i move phase).filterMap (Posting.acceptedBy j) = [] ∧
      (posted channel i move phase).filterMap (Posting.settledBy j) = [] := by
  cases phase with
  | found job roll ntime =>
    cases hv : validated channel job roll ntime <;>
      simp [posted, hv, Posting.acceptedBy, Posting.settledBy, hij]
  | submitting job roll share =>
    cases move <;> simp [posted, Posting.acceptedBy, Posting.settledBy, hij]
  | _ => simp [posted]

theorem handOf_setPhase_self {m m' : ChannelMiner K} {i : ℕ} {task : MiningTask K}
    {phase : Phase K} (ht : m.tasks[i]? = some task)
    (htasks : m'.tasks = (m.setPhase i phase).tasks) : handOf m' i = shareInHand phase := by
  unfold handOf
  rw [htasks, m.setPhase_at phase ht]
  rfl

theorem handOf_setPhase_of_ne {m m' : ChannelMiner K} {i j : ℕ} {phase : Phase K} (hij : i ≠ j)
    (htasks : m'.tasks = (m.setPhase i phase).tasks) : handOf m' j = handOf m j := by
  unfold handOf
  rw [htasks, m.setPhase_at_ne phase hij]

theorem task_balanced {m m' : ChannelMiner K} {amb : Ambient} {i : ℕ} {task : MiningTask K}
    {move : Move} {log : List (Posting K)} (ht : m.tasks[i]? = some task)
    (h : stepTask m amb i move = some m') (hlog : Balanced log m) :
    Balanced (log ++ posted m.channel i move task.phase) m' := by
  have hbooks := stepTask_books ht h
  obtain ⟨phase, htasks, hhand⟩ := hbooks.hand
  refine ⟨?_, ?_⟩
  · rw [hbooks.queue, hlog.queue, List.filterMap_append]
  · intro j
    by_cases hij : i = j
    · subst hij
      have hbefore := hlog.tasks i
      have hnow : handOf m i = shareInHand task.phase := by
        unfold handOf
        rw [ht]
        rfl
      rw [List.filterMap_append, List.filterMap_append, handOf_setPhase_self ht htasks, hbefore,
        hnow, List.append_assoc, List.append_assoc, hhand]
    · obtain ⟨haccepted, hsettled⟩ := posted_other m.channel hij move task.phase
      rw [List.filterMap_append, List.filterMap_append, haccepted, hsettled, List.append_nil,
        List.append_nil, handOf_setPhase_of_ne hij htasks]
      exact hlog.tasks j

theorem Balanced.kept {m m' : ChannelMiner K} {log : List (Posting K)} (h : Balanced log m)
    (hsent : m'.sent = m.sent) (hhand : ∀ i, handOf m' i = handOf m i) : Balanced log m' := by
  refine ⟨hsent.trans h.queue, ?_⟩
  intro i
  rw [hhand]
  exact h.tasks i

theorem Renews.handOf {r r' : Rig K} (h : Renews r r') (i : ℕ) :
    handOf r'.miner i = handOf r.miner i := by
  unfold ShareFlow.handOf
  cases hafter : r'.miner.tasks[i]? with
  | none =>
    cases hbefore : r.miner.tasks[i]? with
    | none => rfl
    | some task =>
      rw [h.kept i task hbefore] at hafter
      contradiction
  | some task =>
    rcases h.spawned i task hafter with hold | hnew
    · rw [hold]
    · cases hbefore : r.miner.tasks[i]? with
      | none => simp [hnew, shareInHand]
      | some old =>
        have hsame : old = task := Option.some.inj ((h.kept i old hbefore).symm.trans hafter)
        rw [hsame]

theorem postedAt_task {r : Rig K} {i : ℕ} {task : MiningTask K}
    (ht : r.miner.tasks[i]? = some task) (move : Move) :
    postedAt r (.event (.task i move)) = posted r.miner.channel i move task.phase := by
  simp [postedAt, ht]

theorem advance_sent {r r' : Rig K} {e : Event} (h : r.advance e = some r') :
    r'.miner.sent = r.miner.sent ++ (postedAt r (.event e)).filterMap Posting.queued := by
  cases e with
  | task i move =>
    obtain ⟨m', hstep, rfl⟩ := Option.map_eq_some_iff.mp h
    obtain ⟨task, ht, _⟩ := Option.bind_eq_some_iff.mp hstep
    rw [postedAt_task ht]
    exact (stepTask_books ht hstep).queue
  | tick elapsed =>
    cases h
    exact (List.append_nil _).symm
  | shutdown =>
    cases h
    exact (List.append_nil _).symm

theorem moment_balanced {r r' : Rig K} {l : Moment K} {log : List (Posting K)}
    (h : RigStep r l r') (hlog : Balanced log r.miner) :
    Balanced (log ++ postedAt r l) r'.miner := by
  have hnothing : ∀ {m : ChannelMiner K}, Balanced log m → Balanced (log ++ []) m :=
    fun hm => (List.append_nil log).symm ▸ hm
  cases h with
  | @event e _ hadvance =>
    cases e with
    | task i move =>
      obtain ⟨m', hstep, hrig⟩ := Option.map_eq_some_iff.mp hadvance
      obtain ⟨task, ht, _⟩ := Option.bind_eq_some_iff.mp hstep
      rw [postedAt_task ht, ← hrig]
      exact task_balanced ht hstep hlog
    | tick elapsed =>
      cases hadvance
      exact hnothing hlog
    | shutdown =>
      cases hadvance
      exact hnothing hlog
  | enters => exact hnothing (hlog.kept rfl fun _ => rfl)
  | acts hrenews => exact hnothing (hlog.kept hrenews.sent (Renews.handOf hrenews))
  | returns => exact hnothing hlog

/-- No share is lost or doubled: in every run of a miner, its methods and its
tasks interleaved in any order, the upstream queue holds exactly the shares
that were sent, in order, and each task has sent, or failed to send, the shares
the channel accepted from it, each once and in order, up to the one in hand. -/
theorem shares_conserved (K : ClientChannel) (amb : Ambient) (channel : K.Channel)
    (cpuUsagePercent : ℕ) (singleSubmit : Bool) (ms : List (Moment K)) (p : Point K)
    (hrun : Run PointStep (Point.initial ⟨amb, new channel cpuUsagePercent singleSubmit⟩) ms p) :
    Balanced (postings (Point.initial ⟨amb, new channel cpuUsagePercent singleSubmit⟩) ms)
      p.rig.miner := by
  have hledger := ledger Point.next (fun p : Point K => postedAt p.rig)
    (I := fun log p => Renewing p ∧ Balanced log p.rig.miner) ?_ hrun ⟨initial_renewing _, ?_⟩
  · exact hledger.2
  · intro log q l q' hq hstep
    obtain ⟨hrig, hrenewing⟩ := pointStep_rig hq.1 hstep
    exact ⟨hrenewing, moment_balanced hrig hq.2⟩
  · refine ⟨rfl, ?_⟩
    intro i
    rfl

/-- One share goes through the hand of a task into the queue. -/
theorem sample_shares_conserved :
    ∃ p, play Point.next (Point.initial (sampleRig false)) (sampleMoments ++ sampleSteps 3) =
        some p ∧ p.rig.miner.sent.length = 1 ∧
      Balanced (postings (Point.initial (sampleRig false)) (sampleMoments ++ sampleSteps 3))
        p.rig.miner := by
  have hplay : (play Point.next (Point.initial (sampleRig false))
      (sampleMoments ++ sampleSteps 3)).map (fun p => p.rig.miner.sent.length) = some 1 := by
    decide +kernel
  obtain ⟨p, hp, hsent⟩ := Option.map_eq_some_iff.mp hplay
  refine ⟨p, hp, hsent, ?_⟩
  exact shares_conserved (sampleDeps.client .standard) _ _ _ _ _ p
    (run_of_play (fun _ _ _ h => h) hp)

end CpuMinerSv2.ShareFlow
