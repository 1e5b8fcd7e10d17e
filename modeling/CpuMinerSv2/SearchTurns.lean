import CpuMinerSv2.DistinctHeaders
import CpuMinerSv2.ShareFlow
import CpuMinerSv2.TaskLogs
import Mathlib.Data.Int.CardIntervalMod

/-!
The search of a task. It goes in turns: hash one header, and where the hash
meets the target put its share to the channel, and where the channel accepts
that, send it, all before the next header. No turn is cut short but the last,
and no nonce is tried a second time before all others have been.
-/

namespace CpuMinerSv2.SearchTurns

open Messages Channels Primitives MineJob MinerMethods Moments Accounts Ntime ShareFlow TaskLogs
  DistinctHeaders SampleDeps SampleMiners

open ShareTargets (sampleSteps)

variable {K : ClientChannel}

/-- What becomes of a found header under the write lock. -/
inductive Verdict (K : ClientChannel) where
  /-- an earlier panic has poisoned the lock -/
  | poisoned
  /-- no share can be made of the header -/
  | panics (reason : String)
  | refuses (share : K.Share) (e : ChannelError)
  | accepts (share : K.Share)

def judge (channel : RwCell K.Channel) (job : JobInHand K) (roll : Rolling) (ntime : UInt32) :
    Verdict K :=
  if channel.poisoned then .poisoned
  else
    match buildShare channel.value job roll ntime with
    | .error reason => .panics reason
    | .ok share =>
      match (K.validateShare channel.value share).1 with
      | .error e => .refuses share e
      | .ok _ => .accepts share

inductive Entry (K : ClientChannel) where
  | hashed (a : Iteration K)
  | judged (verdict : Verdict K)
  /-- the share has entered the queue, or its send has failed -/
  | settled (share : K.Share) (sent : Bool)

/-- What a step of a task adds to its log. -/
def entry : Note K (Entry K) := fun r task move =>
  match task.phase with
  | .hashing hand roll => [.hashed ⟨hand, roll.nonce, r.ambient.now⟩]
  | .found hand roll ntime => [.judged (judge r.miner.channel hand roll ntime)]
  | .submitting _ _ share => [.settled share (decide (move ≠ .sendFails))]
  | _ => []

namespace Entry

def iteration : Entry K → Option (Iteration K)
  | .hashed a => some a
  | _ => none

def sentShare : Entry K → Option K.Share
  | .settled share true => some share
  | _ => none

end Entry

/-- The hash of the header meets the target of the snapshot. -/
def Meets (a : Iteration K) : Prop := K.blockHash a.header ≤ a.hand.snapshot.channelTarget

/-- All that is done about one header. -/
inductive Turn (K : ClientChannel) where
  | missed (a : Iteration K)
  | refused (a : Iteration K) (share : K.Share) (e : ChannelError)
  | submitted (a : Iteration K) (share : K.Share) (sent : Bool)

namespace Turn

def iteration : Turn K → Iteration K
  | .missed a | .refused a _ _ | .submitted a _ _ => a

def entries : Turn K → List (Entry K)
  | .missed a => [.hashed a]
  | .refused a share e => [.hashed a, .judged (.refuses share e)]
  | .submitted a share sent => [.hashed a, .judged (.accepts share), .settled share sent]

/-- The header goes to the channel exactly if it meets the target, as the
share that is made of it. -/
def Fair : Turn K → Prop
  | .missed a => ¬ Meets a
  | .refused a share _ | .submitted a share _ => Meets a ∧ a.Offers share

def sentShare : Turn K → Option K.Share
  | .submitted _ share true => some share
  | _ => none

theorem entries_iteration (t : Turn K) :
    t.entries.filterMap Entry.iteration = [t.iteration] := by
  cases t <;> rfl

theorem entries_sentShare (t : Turn K) :
    t.entries.filterMap Entry.sentShare = t.sentShare.toList := by
  cases t with
  | submitted a share sent => cases sent <;> rfl
  | _ => rfl

end Turn

/-- The turn a task in this phase has begun. -/
def Begun : Phase K → List (Entry K) → Prop
  | .found hand roll ntime, rest => ∃ a, rest = [.hashed a] ∧ Meets a ∧ a.hand = hand ∧
      a.nonce = roll.nonce ∧ a.ntime = ntime
  | .submitting _ _ share, rest => ∃ a, rest = [.hashed a, .judged (.accepts share)] ∧ Meets a ∧
      a.Offers share
  | .finished, rest => rest = [] ∨ ∃ a, rest = [.hashed a, .judged .poisoned] ∧ Meets a
  | .panicked reason, rest => rest = [] ∨
      ∃ a, rest = [.hashed a, .judged (.panics reason)] ∧ Meets a
  | _, rest => rest = []

/-- Whole turns, and the one that has begun. -/
def InTurns (log : List (Entry K)) (phase : Phase K) : Prop :=
  ∃ (turns : List (Turn K)) (rest : List (Entry K)), log = turns.flatMap Turn.entries ++ rest ∧
    (∀ t ∈ turns, t.Fair) ∧ Begun phase rest

section Steps

variable {log : List (Entry K)} {phase phase' : Phase K}

theorem InTurns.goes_on (h : InTurns log phase) {more : List (Entry K)}
    (hmore : ∀ rest, Begun phase rest → Begun phase' (rest ++ more)) :
    InTurns (log ++ more) phase' := by
  obtain ⟨turns, rest, rfl, hfair, hbegun⟩ := h
  exact ⟨turns, rest ++ more, List.append_assoc _ _ _, hfair, hmore rest hbegun⟩

theorem InTurns.ends (h : InTurns log phase) {more : List (Entry K)}
    (hmore : ∀ rest, Begun phase rest → ∃ t : Turn K, t.Fair ∧ rest ++ more = t.entries)
    (hopen : Begun phase' []) : InTurns (log ++ more) phase' := by
  obtain ⟨turns, rest, rfl, hfair, hbegun⟩ := h
  obtain ⟨t, ht, hentries⟩ := hmore rest hbegun
  refine ⟨turns ++ [t], [], ?_, ?_, hopen⟩
  · rw [List.flatMap_append, List.flatMap_singleton, List.append_nil, List.append_assoc, hentries]
  · intro u hu
    rcases List.mem_append.mp hu with hold | hnew
    · exact hfair u hold
    · rw [List.mem_singleton.mp hnew]
      exact ht

theorem mineHeader_turns {hand : JobInHand K} {roll : Rolling} (now : Instant)
    (h : InTurns log (.hashing hand roll)) :
    InTurns (log ++ [.hashed ⟨hand, roll.nonce, now⟩]) (mineHeader hand roll now) := by
  unfold mineHeader
  split
  next hmeets =>
    apply h.goes_on
    intro rest hrest
    have hempty : rest = [] := hrest
    rw [hempty]
    exact ⟨_, rfl, hmeets, rfl, rfl, rfl⟩
  next hmisses =>
    refine h.ends ?_ rfl
    intro rest hrest
    have hempty : rest = [] := hrest
    rw [hempty]
    exact ⟨.missed ⟨hand, roll.nonce, now⟩, hmisses, rfl⟩

theorem offers_of_buildShare {channel : K.Channel} {hand : JobInHand K} {roll : Rolling}
    {ntime : UInt32} {share : K.Share} {a : Iteration K} (hhand : a.hand = hand)
    (hnonce : a.nonce = roll.nonce) (hntime : a.ntime = ntime)
    (h : buildShare channel hand roll ntime = .ok share) : a.Offers share := by
  obtain ⟨sequenceNumber, _, hshare⟩ := buildShare_ok h
  refine ⟨sequenceNumber, ?_⟩
  rw [hhand, hnonce, hntime]
  exact hshare

theorem logShare_judged (m : ChannelMiner K) (i : ℕ) (hand : JobInHand K) (roll : Rolling)
    (ntime : UInt32) :
    ∃ phase, (logShare m i hand roll ntime).tasks = (m.setPhase i phase).tasks ∧
      match judge m.channel hand roll ntime with
      | .poisoned => phase = .finished
      | .panics reason => phase = .panicked reason
      | .refuses share _ => phase = .polling hand roll.nextNonce ∧
          buildShare m.channel.value hand roll ntime = .ok share
      | .accepts share => phase = .submitting hand roll share ∧
          buildShare m.channel.value hand roll ntime = .ok share := by
  unfold logShare judge
  cases hlock : m.channel.poisoned with
  | true => exact ⟨_, rfl, rfl⟩
  | false =>
    simp only [Bool.false_eq_true, ↓reduceIte]
    cases hs : buildShare m.channel.value hand roll ntime with
    | error reason => exact ⟨_, rfl, rfl⟩
    | ok share =>
      simp only
      cases hv : K.validateShare m.channel.value share with
      | mk result channel =>
        cases result with
        | error e => exact ⟨_, rfl, rfl, rfl⟩
        | ok accepted => exact ⟨_, rfl, rfl, rfl⟩

/-- A found header is judged, and that ends its turn unless the channel
accepts the share or the task is over. -/
theorem logShare_turns (m : ChannelMiner K) (i : ℕ) (hand : JobInHand K) (roll : Rolling)
    (ntime : UInt32) :
    ∃ phase, (logShare m i hand roll ntime).tasks = (m.setPhase i phase).tasks ∧
      ∀ log, InTurns log (.found hand roll ntime) →
        InTurns (log ++ [.judged (judge m.channel hand roll ntime)]) phase := by
  obtain ⟨phase, htasks, hjudged⟩ := logShare_judged m i hand roll ntime
  refine ⟨phase, htasks, ?_⟩
  intro log h
  cases hverdict : judge m.channel hand roll ntime with
  | poisoned =>
    rw [hverdict] at hjudged
    subst hjudged
    apply h.goes_on
    rintro rest ⟨a, rfl, hmeets, -⟩
    exact .inr ⟨a, rfl, hmeets⟩
  | panics reason =>
    rw [hverdict] at hjudged
    subst hjudged
    apply h.goes_on
    rintro rest ⟨a, rfl, hmeets, -⟩
    exact .inr ⟨a, rfl, hmeets⟩
  | refuses share e =>
    rw [hverdict] at hjudged
    obtain ⟨rfl, hshare⟩ := hjudged
    refine h.ends ?_ rfl
    rintro rest ⟨a, rfl, hmeets, hhand, hnonce, hntime⟩
    exact ⟨.refused a share e, ⟨hmeets, offers_of_buildShare hhand hnonce hntime hshare⟩, rfl⟩
  | accepts share =>
    rw [hverdict] at hjudged
    obtain ⟨rfl, hshare⟩ := hjudged
    apply h.goes_on
    rintro rest ⟨a, rfl, hmeets, hhand, hnonce, hntime⟩
    exact ⟨a, rfl, hmeets, offers_of_buildShare hhand hnonce hntime hshare⟩

theorem submitting_turns {hand : JobInHand K} {roll : Rolling} {share : K.Share} (sent : Bool)
    (h : InTurns log (.submitting hand roll share)) (hopen : Begun phase' []) :
    InTurns (log ++ [.settled share sent]) phase' := by
  refine h.ends ?_ hopen
  rintro rest ⟨a, rfl, hmeets, hoffers⟩
  exact ⟨.submitted a share sent, ⟨hmeets, hoffers⟩, rfl⟩

/-- In these phases a task is at work on a header. -/
def AtWork : Phase K → Prop
  | .hashing _ _ | .found _ _ _ | .submitting _ _ _ => True
  | _ => False

theorem begun_nothing {m : ChannelMiner K} {now : Instant} (hidle : ¬ AtWork phase)
    (h : Proceeds m now phase phase') : Begun phase' [] := by
  cases h with
  | @stop _ phase' hover =>
    cases phase' with
    | submitted => rfl
    | finished => exact .inl rfl
    | panicked reason => exact .inl rfl
    | _ => exact hover.elim
  | miss | hit | reject | number | submit => exact absurd trivial hidle
  | _ => rfl

theorem idle_turns {m m' : ChannelMiner K} {amb : Ambient} {i : ℕ} {task : MiningTask K}
    {move : Move} (hidle : ¬ AtWork task.phase)
    (hnothing : ∀ rest, Begun task.phase rest → rest = [])
    (h : resume m amb i task move = some m') :
    ∃ phase, m'.tasks = (m.setPhase i phase).tasks ∧ ∀ log,
      InTurns log task.phase → InTurns (log ++ []) phase := by
  obtain ⟨phase, htasks, hproceeds⟩ := resume_proceeds h
  refine ⟨phase, htasks, ?_⟩
  intro log hlog
  apply hlog.goes_on
  intro rest hrest
  rw [hnothing rest hrest]
  exact begun_nothing hidle hproceeds

theorem resume_turns {r : Rig K} {i : ℕ} {task : MiningTask K} {move : Move}
    {m' : ChannelMiner K} (h : resume r.miner r.ambient i task move = some m') :
    ∃ phase, m'.tasks = (r.miner.setPhase i phase).tasks ∧ ∀ log,
      InTurns log task.phase → InTurns (log ++ entry r task move) phase := by
  cases hp : task.phase with
  | hashing hand roll =>
    have hentry : entry r task move = [.hashed ⟨hand, roll.nonce, r.ambient.now⟩] := by
      simp [entry, hp]
    rw [hentry]
    cases move with
    | next =>
      simp only [resume, hp, Option.some.injEq] at h
      subst h
      exact ⟨_, rfl, fun log hlog => mineHeader_turns r.ambient.now hlog⟩
    | breakOff | sendFails => simp [resume, hp] at h
  | found hand roll ntime =>
    have hentry : entry r task move = [.judged (judge r.miner.channel hand roll ntime)] := by
      simp [entry, hp]
    rw [hentry]
    cases move with
    | next =>
      simp only [resume, hp, Option.some.injEq] at h
      subst h
      exact logShare_turns r.miner i hand roll ntime
    | breakOff | sendFails => simp [resume, hp] at h
  | submitting hand roll share =>
    have hentry : entry r task move = [.settled share (decide (move ≠ .sendFails))] := by
      simp [entry, hp]
    rw [hentry]
    cases move with
    | next =>
      simp only [resume, hp, submitShare, Option.some.injEq] at h
      subst h
      split
      · exact ⟨_, rfl, fun log hlog => submitting_turns true hlog rfl⟩
      · exact ⟨_, rfl, fun log hlog => submitting_turns true hlog rfl⟩
    | breakOff => simp [resume, hp] at h
    | sendFails =>
      simp only [resume, hp, Option.some.injEq] at h
      subst h
      exact ⟨_, rfl, fun log hlog => submitting_turns false hlog rfl⟩
  | finished | panicked => cases move <;> simp [resume, hp] at h
  | _ =>
    have hentry : entry r task move = [] := by
      simp [entry, hp]
    rw [hentry, ← hp]
    exact idle_turns (by simp [AtWork, hp]) (by simp [Begun, hp]) h

theorem entry_keeps (cpuUsagePercent : ℕ) :
    Keeps (entry (K := K)) cpuUsagePercent fun log _ phase => InTurns log phase := by
  refine ⟨?_, fun h _ => h, fun _ hresume => resume_turns hresume⟩
  intro now
  refine ⟨[], [], rfl, ?_, rfl⟩
  intro t ht
  exact absurd ht List.not_mem_nil

end Steps

theorem entry_iteration (r : Rig K) (task : MiningTask K) (move : Move) :
    (entry r task move).filterMap Entry.iteration = hashed r.ambient.now task.phase := by
  unfold entry
  cases task.phase <;> rfl

theorem entry_sentShare (r : Rig K) (task : MiningTask K) (i : ℕ) (move : Move) :
    (entry r task move).filterMap Entry.sentShare =
      (posted r.miner.channel i move task.phase).filterMap (Posting.sentBy i) := by
  unfold entry
  cases task.phase with
  | found hand roll ntime =>
    simp only [posted]
    cases validated r.miner.channel hand roll ntime with
    | none => rfl
    | some share => rfl
  | submitting hand roll share =>
    cases move <;> simp [posted, Entry.sentShare, Posting.sentBy, List.filterMap_cons]
  | _ => rfl

theorem posted_unsent (channel : RwCell K.Channel) {i j : ℕ} (hji : j ≠ i) (move : Move)
    (phase : Phase K) : (posted channel j move phase).filterMap (Posting.sentBy i) = [] := by
  cases phase with
  | found hand roll ntime =>
    simp only [posted]
    cases validated channel hand roll ntime with
    | none => rfl
    | some share => rfl
  | submitting hand roll share => cases move <;> simp [posted, Posting.sentBy, hji]
  | _ => rfl

theorem noted_iterations (i : ℕ) (p : Point K) (l : Moment K) :
    (notedAt entry i p.rig l).filterMap Entry.iteration = hashedBy i p l := by
  cases l with
  | event e =>
    cases e with
    | task j move =>
      simp only [notedAt, hashedBy]
      by_cases hji : j = i
      · rw [if_pos hji, if_pos hji]
        cases p.rig.miner.tasks[i]? with
        | none => rfl
        | some task => exact entry_iteration p.rig task move
      · rw [if_neg hji, if_neg hji]
        rfl
    | _ => rfl
  | _ => rfl

theorem log_iterations (i : ℕ) (p : Point K) (ms : List (Moment K)) :
    (taskLog entry i p ms).filterMap Entry.iteration = iterations i p ms := by
  rw [emitted_filterMap]
  induction ms generalizing p with
  | nil => rfl
  | cons l ms ih =>
    rw [emitted, iterations, noted_iterations]
    cases p.next l with
    | none => rfl
    | some p' => exact congrArg _ (ih p')

theorem noted_sent (i : ℕ) (p : Point K) (l : Moment K) :
    (notedAt entry i p.rig l).filterMap Entry.sentShare =
      (postedAt p.rig l).filterMap (Posting.sentBy i) := by
  cases l with
  | event e =>
    cases e with
    | task j move =>
      simp only [notedAt, postedAt]
      by_cases hji : j = i
      · subst hji
        rw [if_pos rfl]
        cases p.rig.miner.tasks[j]? with
        | none => rfl
        | some task => exact entry_sentShare p.rig task j move
      · rw [if_neg hji]
        cases p.rig.miner.tasks[j]? with
        | none => rfl
        | some task => exact (posted_unsent p.rig.miner.channel hji move task.phase).symm
    | _ => rfl
  | _ => rfl

theorem log_sent (i : ℕ) (p : Point K) (ms : List (Moment K)) :
    (taskLog entry i p ms).filterMap Entry.sentShare =
      (postings p ms).filterMap (Posting.sentBy i) := by
  rw [emitted_filterMap, emitted_filterMap]
  have hsame : (fun (p : Point K) l => (notedAt entry i p.rig l).filterMap Entry.sentShare) =
      fun p l => (postedAt p.rig l).filterMap (Posting.sentBy i) := by
    funext p l
    exact noted_sent i p l
  rw [hsame]

theorem flatMap_iteration (turns : List (Turn K)) :
    (turns.flatMap Turn.entries).filterMap Entry.iteration = turns.map Turn.iteration := by
  induction turns with
  | nil => rfl
  | cons t turns ih =>
    rw [List.flatMap_cons, List.filterMap_append, t.entries_iteration, ih]
    rfl

theorem flatMap_sentShare (turns : List (Turn K)) :
    (turns.flatMap Turn.entries).filterMap Entry.sentShare = turns.filterMap Turn.sentShare := by
  induction turns with
  | nil => rfl
  | cons t turns ih =>
    rw [List.flatMap_cons, List.filterMap_append, t.entries_sentShare, ih]
    cases hs : t.sentShare <;> simp [hs]

theorem Begun.unsent {phase : Phase K} {rest : List (Entry K)} (h : Begun phase rest) :
    rest.filterMap Entry.sentShare = [] := by
  cases phase with
  | found hand roll ntime =>
    obtain ⟨a, rfl, _⟩ := h
    rfl
  | submitting hand roll share =>
    obtain ⟨a, rfl, _⟩ := h
    rfl
  | finished =>
    rcases h with rfl | ⟨a, rfl, _⟩
    · rfl
    · rfl
  | panicked reason =>
    rcases h with rfl | ⟨a, rfl, _⟩
    · rfl
    · rfl
  | _ =>
    have hempty : rest = [] := h
    rw [hempty]
    rfl

/-- The headers of all turns, that of the turn begun among them. -/
def headersOf (turns : List (Turn K)) (rest : List (Entry K)) : List (Iteration K) :=
  turns.map Turn.iteration ++ rest.filterMap Entry.iteration

/-- The log of a search, taken apart: whole turns and the turn that the task has
begun, the k-th of them about nonce `k`, all for one job in hand; and no share
has been sent but at the end of one of the whole turns. -/
structure Search (log : List (Entry K)) (sent : List K.Share) (phase : Phase K)
    (turns : List (Turn K)) (rest : List (Entry K)) : Prop where
  whole : log = turns.flatMap Turn.entries ++ rest
  fair : ∀ t ∈ turns, t.Fair
  begun : Begun phase rest
  counted : ∀ k a, (headersOf turns rest)[k]? = some a → a.nonce = UInt32.ofNat k
  same : ∀ a ∈ headersOf turns rest, ∀ b ∈ headersOf turns rest, a.hand = b.hand
  submitted : sent = turns.filterMap Turn.sentShare

/-- Every task of every run of a miner searches in turns, whatever its other
tasks and its methods do meanwhile: it hashes the headers of one job in the
order of their nonces, puts each that meets the target to the channel as its
share before it hashes the next, and sends exactly those accepted, one by one,
unless a send fails. A turn is left before its end only when the lock is
poisoned or the share cannot be built, and then no other begins. -/
theorem search_goes_in_turns (K : ClientChannel) (amb : Ambient) (channel : K.Channel)
    (cpuUsagePercent : ℕ) (singleSubmit : Bool) (ms : List (Moment K)) (p : Point K)
    (hrun : Run PointStep (Point.initial ⟨amb, new channel cpuUsagePercent singleSubmit⟩) ms p)
    (i : ℕ) (task : MiningTask K) (ht : p.rig.miner.tasks[i]? = some task) :
    ∃ turns rest, Search
      (taskLog entry i (Point.initial ⟨amb, new channel cpuUsagePercent singleSubmit⟩) ms)
      ((postings (Point.initial ⟨amb, new channel cpuUsagePercent singleSubmit⟩) ms).filterMap
        (Posting.sentBy i)) task.phase turns rest := by
  have hlogged := TaskLogs.run_logged (entry_keeps cpuUsagePercent) i hrun
  obtain ⟨turns, rest, hlog, hfair, hbegun⟩ := hlogged.kept task ht
  have hchronicle := (DistinctHeaders.run_logged i hrun).chronicle
  rw [← log_iterations, hlog, List.filterMap_append, flatMap_iteration] at hchronicle
  refine ⟨turns, rest, hlog, hfair, hbegun, hchronicle.counted, hchronicle.uniform, ?_⟩
  rw [← log_sent, hlog, List.filterMap_append, flatMap_sentShare, hbegun.unsent, List.append_nil]

/-- A whole turn, and a second one whose share is accepted and not sent yet. -/
theorem sample_search :
    ∃ (p : Point (sampleDeps.client .standard)) (task : MiningTask (sampleDeps.client .standard))
      (turns : List (Turn (sampleDeps.client .standard)))
      (rest : List (Entry (sampleDeps.client .standard))),
      play Point.next (Point.initial (sampleRig false)) (sampleMoments ++ sampleSteps 7) = some p ∧
      p.rig.miner.tasks[0]? = some task ∧
      Search (taskLog entry 0 (Point.initial (sampleRig false)) (sampleMoments ++ sampleSteps 7))
        ((postings (Point.initial (sampleRig false)) (sampleMoments ++ sampleSteps 7)).filterMap
          (Posting.sentBy 0)) task.phase turns rest := by
  have hplay : ((play Point.next (Point.initial (sampleRig false))
      (sampleMoments ++ sampleSteps 7)).bind fun p => p.rig.miner.tasks[0]?).isSome = true := by
    decide +kernel
  obtain ⟨task, hp⟩ := Option.isSome_iff_exists.mp hplay
  obtain ⟨p, hp, ht⟩ := Option.bind_eq_some_iff.mp hp
  obtain ⟨turns, rest, hsearch⟩ := search_goes_in_turns (sampleDeps.client .standard) _ _ _ _ _ p
    (run_of_play (fun _ _ _ h => h) hp) 0 task ht
  exact ⟨p, task, turns, rest, hp, ht, hsearch⟩

theorem countP_eq_count {α : Type} {select : α → Bool} {q : ℕ → Prop} [DecidablePred q]
    {xs : List α} (h : ∀ k a, xs[k]? = some a → (select a = true ↔ q k)) :
    xs.countP select = Nat.count q xs.length := by
  induction xs using List.reverseRecOn with
  | nil => rfl
  | append_singleton xs a ih =>
    have hinit := ih fun k b hk => h k b ((List.getElem?_append_left
      (List.getElem?_eq_some_iff.mp hk).1).trans hk)
    have hlast := h xs.length a List.getElem?_concat_length
    rw [List.countP_append, List.length_append, List.length_singleton, Nat.count_succ, hinit,
      List.countP_singleton]
    by_cases hq : q xs.length
    · rw [if_pos hq, if_pos (hlast.mpr hq)]
    · rw [if_neg hq, if_neg fun ha => hq (hlast.mp ha)]

/-- Where a counter wraps, each of its values is met once in every whole round,
and those below its next value once more. -/
theorem chronicle_tried {log : List (Iteration K)} {now : Instant} (h : Chronicle log now)
    (nonce : UInt32) :
    log.countP (fun a => a.nonce = nonce) =
      log.length / 2 ^ 32 + if nonce.toNat < log.length % 2 ^ 32 then 1 else 0 := by
  have hcount : log.countP (fun a => a.nonce = nonce) =
      Nat.count (· ≡ nonce.toNat [MOD 2 ^ 32]) log.length := by
    apply countP_eq_count
    intro k a hk
    rw [decide_eq_true_iff, h.counted k a hk, ← UInt32.toNat_inj, UInt32.toNat_ofNat', Nat.ModEq,
      Nat.mod_eq_of_lt nonce.toNat_lt]
  rw [hcount, Nat.count_modEq_card _ (show 0 < 2 ^ 32 by decide), Nat.mod_eq_of_lt nonce.toNat_lt]

/-- No task leaves a nonce out, and none gets ahead: however a run interrupts
the search, its headers are all of one job, and every nonce has been tried once
for each whole round of `2 ^ 32` headers, and those below the next nonce once
more. -/
theorem nonces_tried_evenly (K : ClientChannel) (amb : Ambient) (channel : K.Channel)
    (cpuUsagePercent : ℕ) (singleSubmit : Bool) (ms : List (Moment K)) (p : Point K)
    (hrun : Run PointStep (Point.initial ⟨amb, new channel cpuUsagePercent singleSubmit⟩) ms p)
    (i : ℕ) (log : List (Iteration K))
    (hlog : log = iterations i
      (Point.initial ⟨amb, new channel cpuUsagePercent singleSubmit⟩) ms) :
    (∀ a ∈ log, ∀ b ∈ log, a.hand = b.hand) ∧
      ∀ nonce : UInt32, log.countP (fun a => a.nonce = nonce) =
        log.length / 2 ^ 32 + if nonce.toNat < log.length % 2 ^ 32 then 1 else 0 := by
  subst hlog
  have hchronicle := (DistinctHeaders.run_logged i hrun).chronicle
  exact ⟨hchronicle.uniform, chronicle_tried hchronicle⟩

/-- Two headers: nonce 1 has been tried, and nonce 2 has not. -/
theorem sample_nonces_tried :
    ∃ log : List (Iteration (sampleDeps.client .standard)),
      log = iterations 0 (Point.initial (sampleRig false)) (sampleMoments ++ sampleSteps 7) ∧
        log.countP (fun a => a.nonce = 1) = 1 ∧ log.countP (fun a => a.nonce = 2) = 0 := by
  have hplay : (play Point.next (Point.initial (sampleRig false))
      (sampleMoments ++ sampleSteps 7)).isSome = true := by decide +kernel
  have hlength : (iterations 0 (Point.initial (sampleRig false))
      (sampleMoments ++ sampleSteps 7)).length = 2 := by decide +kernel
  obtain ⟨p, hp⟩ := Option.isSome_iff_exists.mp hplay
  have htried := (nonces_tried_evenly (sampleDeps.client .standard) _ _ _ _ _ p
    (run_of_play (fun _ _ _ h => h) hp) 0
    (iterations 0 (Point.initial (sampleRig false)) (sampleMoments ++ sampleSteps 7)) rfl).2
  rw [hlength] at htried
  exact ⟨_, rfl, htried 1, htried 2⟩

end CpuMinerSv2.SearchTurns
