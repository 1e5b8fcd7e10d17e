import CpuMinerSv2.Channels
import CpuMinerSv2.Primitives

/-!
A channel miner with the state its mining tasks share, and `mine_job` as the
steps of such a task. Each step is one access to shared state (a token, the
channel lock, the clock, the upstream queue) with the computation up to the
next one. A task outlives the miner object that spawned it.
-/

namespace CpuMinerSv2.MineJob

open Messages Channels Primitives

/-- Duration of each throttling cycle in milliseconds. -/
def cpuThrottleWindowMs : ℕ := 100

/-- What a task reads from the channel before its loop. -/
structure Snapshot (K : ClientChannel) where
  channelId : UInt32
  activeJob : K.Job
  channelTarget : Target
  nbits : UInt32
  prevhash : Bytes
  extranonceSize : ℕ

/-- The values fixed for the whole loop. -/
structure JobInHand (K : ClientChannel) where
  snapshot : Snapshot K
  jobMinNtime : UInt32
  merkleRoot : Bytes
  jobActivatedAt : Instant

/-- The values the loop changes. -/
structure Rolling where
  nonce : UInt32
  windowStart : Instant

def Rolling.nextNonce (roll : Rolling) : Rolling := { roll with nonce := roll.nonce + 1 }

/-- Where a task stands. -/
inductive Phase (K : ClientChannel) where
  /-- spawned, nothing executed -/
  | spawned
  /-- past the single-submit test -/
  | checked
  /-- snapshot taken, loop not entered -/
  | read (snapshot : Snapshot K)
  /-- at the top of the loop -/
  | polling (job : JobInHand K) (roll : Rolling)
  /-- yielded once with no cancellation seen -/
  | yielded (job : JobInHand K) (roll : Rolling)
  /-- asleep for the rest of the throttle window -/
  | sleeping (job : JobInHand K) (roll : Rolling) (wakeAt : Instant)
  /-- about to build and hash a header -/
  | hashing (job : JobInHand K) (roll : Rolling)
  /-- the hash meets the target of the snapshot -/
  | found (job : JobInHand K) (roll : Rolling) (ntime : UInt32)
  /-- the channel accepted the share, not sent yet -/
  | submitting (job : JobInHand K) (roll : Rolling) (share : K.Share)
  /-- share sent, single-submit token not cancelled yet -/
  | submitted
  | finished
  | panicked (reason : String)

structure MiningTask (K : ClientChannel) where
  minerCancellationToken : ℕ
  phase : Phase K

/-- The clock and the cancellation token shared by the whole connection. -/
structure Ambient where
  now : Instant
  globalCancelled : Bool

/-- A channel miner, and what lives on in its tasks: the channel lock, the
tokens, the tasks themselves and the shares that entered the upstream queue. -/
structure ChannelMiner (K : ClientChannel) where
  channel : RwCell K.Channel
  minerCancellationToken : ℕ
  singleSubmitCancellationToken : Option ℕ
  cpuUsagePercent : ℕ
  tokens : Flags
  tasks : List (MiningTask K)
  sent : List K.Share

namespace ChannelMiner

variable {K : ClientChannel}

def setPhase (m : ChannelMiner K) (i : ℕ) (phase : Phase K) : ChannelMiner K :=
  { m with tasks := m.tasks.modify i (fun task => { task with phase := phase }) }

def setChannel (m : ChannelMiner K) (channel : RwCell K.Channel) : ChannelMiner K :=
  { m with channel := channel }

def enqueue (m : ChannelMiner K) (share : K.Share) : ChannelMiner K :=
  { m with sent := m.sent ++ [share] }

def cancelToken (m : ChannelMiner K) (token : ℕ) : ChannelMiner K :=
  { m with tokens := m.tokens.raise token }

@[simp] theorem setPhase_tokens (m : ChannelMiner K) (i : ℕ) (phase : Phase K) :
    (m.setPhase i phase).tokens = m.tokens := rfl

@[simp] theorem setPhase_singleSubmit (m : ChannelMiner K) (i : ℕ) (phase : Phase K) :
    (m.setPhase i phase).singleSubmitCancellationToken = m.singleSubmitCancellationToken := rfl

@[simp] theorem setPhase_sent (m : ChannelMiner K) (i : ℕ) (phase : Phase K) :
    (m.setPhase i phase).sent = m.sent := rfl

@[simp] theorem enqueue_sent (m : ChannelMiner K) (share : K.Share) :
    (m.enqueue share).sent = m.sent ++ [share] := rfl

@[simp] theorem cancelToken_tokens (m : ChannelMiner K) (token : ℕ) :
    (m.cancelToken token).tokens = m.tokens.raise token := rfl

@[simp] theorem cancelToken_minerCancellationToken (m : ChannelMiner K) (token : ℕ) :
    (m.cancelToken token).minerCancellationToken = m.minerCancellationToken := rfl

@[simp] theorem cancelToken_singleSubmit (m : ChannelMiner K) (token : ℕ) :
    (m.cancelToken token).singleSubmitCancellationToken = m.singleSubmitCancellationToken := rfl

theorem setPhase_at (m : ChannelMiner K) {i : ℕ} {task : MiningTask K} (phase : Phase K)
    (ht : m.tasks[i]? = some task) :
    (m.setPhase i phase).tasks[i]? = some { task with phase := phase } := by
  simp [setPhase, ht]

theorem setPhase_at_ne (m : ChannelMiner K) {i j : ℕ} (phase : Phase K) (h : i ≠ j) :
    (m.setPhase i phase).tasks[j]? = m.tasks[j]? := by
  simp [setPhase, h]

theorem setPhase_taskTokens (m : ChannelMiner K) (i : ℕ) (phase : Phase K) :
    (m.setPhase i phase).tasks.map MiningTask.minerCancellationToken =
      m.tasks.map MiningTask.minerCancellationToken := by
  apply List.ext_getElem?
  intro j
  simp only [List.getElem?_map]
  by_cases h : i = j
  · subst h
    cases ht : m.tasks[i]? with
    | none => simp [setPhase, ht]
    | some task => simp [setPhase_at m phase ht]
  · rw [setPhase_at_ne m phase h]

/-- Every task holds a clone of the same single-submit token. -/
def singleSubmitCancelled (m : ChannelMiner K) : Bool :=
  match m.singleSubmitCancellationToken with
  | some token => m.tokens.isRaised token
  | none => false

/-- Whether one of the two tokens the loop watches is cancelled. -/
def cancelled (m : ChannelMiner K) (amb : Ambient) (task : MiningTask K) : Bool :=
  amb.globalCancelled || m.tokens.isRaised task.minerCancellationToken

end ChannelMiner

section Pieces

variable {K : ClientChannel}

/-- The read under the channel lock. A panic in a reader does not poison it. -/
def takeSnapshot (channel : RwCell K.Channel) : Phase K :=
  match channel.read id with
  | none => .finished
  | some channel =>
    match K.getChainTip channel with
    | none => .panicked "channel must have chain tip"
    | some chainTip =>
      match K.getActiveJob channel with
      | none => .panicked "channel must have active job"
      | some activeJob => .read {
          channelId := K.getChannelId channel
          activeJob := activeJob
          channelTarget := K.getTarget channel
          nbits := chainTip.nbits
          prevhash := chainTip.prevHash
          extranonceSize := K.getRollableExtranonceSize channel }

/-- `CPU_THROTTLE_WINDOW_MS - cpu_usage_percent` in `u64`: below zero it is a
panic when overflow is checked, else a wrap. -/
def sleepDurationMs (overflowChecks : Bool) (cpuUsagePercent : ℕ) : Option ℕ :=
  if cpuUsagePercent ≤ cpuThrottleWindowMs then some (cpuThrottleWindowMs - cpuUsagePercent)
  else if overflowChecks then none
  else some (2 ^ 64 + cpuThrottleWindowMs - cpuUsagePercent)

def enterLoop (cpuUsagePercent : ℕ) (snapshot : Snapshot K) (now : Instant) : Phase K :=
  match K.minNtime snapshot.activeJob with
  | none => .panicked "only active jobs allowed"
  | some jobMinNtime =>
    -- the duration is used when the task is throttled, and computed in any case
    match sleepDurationMs K.overflowChecks cpuUsagePercent with
    | none => .panicked "attempt to subtract with overflow"
    | some _ =>
      match K.merkleRoot snapshot.activeJob snapshot.extranonceSize with
      | none => .panicked "merkle root must be valid"
      | some merkleRoot =>
        .polling { snapshot, jobMinNtime, merkleRoot, jobActivatedAt := now }
          { nonce := 0, windowStart := now }

/-- Work for `cpuUsagePercent` ms of every window, then sleep for the rest. -/
def throttle (cpuUsagePercent : ℕ) (now : Instant) (job : JobInHand K) (roll : Rolling) : Phase K :=
  if cpuUsagePercent < 100 then
    let elapsedInWindow := (now - roll.windowStart) / 1000000 % 2 ^ 64
    if elapsedInWindow ≥ cpuUsagePercent then
      .sleeping job roll (now + (cpuThrottleWindowMs - cpuUsagePercent) * 1000000)
    else .hashing job roll
  else .hashing job roll

def saturatingAdd (a b : UInt32) : UInt32 :=
  if a.toNat + b.toNat < 2 ^ 32 then a + b else 4294967295

/-- Whole seconds since the task entered its loop, at most `u32::MAX`. -/
def elapsedSeconds (job : JobInHand K) (now : Instant) : UInt32 :=
  UInt32.ofNat (min ((now - job.jobActivatedAt) / 1000000000) (2 ^ 32 - 1))

def ntimeAt (job : JobInHand K) (now : Instant) : UInt32 :=
  saturatingAdd job.jobMinNtime (elapsedSeconds job now)

def headerOf (job : JobInHand K) (nonce ntime : UInt32) : Header where
  version := K.version job.snapshot.activeJob
  prevBlockhash := job.snapshot.prevhash
  merkleRoot := job.merkleRoot
  time := ntime
  bits := job.snapshot.nbits
  nonce := nonce

/-- The header built at this instant. -/
def headerAt (job : JobInHand K) (nonce : UInt32) (now : Instant) : Header :=
  headerOf job nonce (ntimeAt job now)

/-- Hash one header and compare it with the target of the snapshot. -/
def mineHeader (job : JobInHand K) (roll : Rolling) (now : Instant) : Phase K :=
  if K.blockHash (headerAt job roll.nonce now) ≤ job.snapshot.channelTarget then
    .found job roll (ntimeAt job now)
  else .polling job roll.nextNonce

/-- `last + 1` in `u32`: a panic when overflow is checked, else a wrap. -/
def nextSequenceNumber (overflowChecks : Bool) (last : UInt32) : Option UInt32 :=
  if overflowChecks && last == 4294967295 then none else some (last + 1)

/-- The share built under the write lock, or the panic that poisons it. -/
def buildShare (channel : K.Channel) (job : JobInHand K) (roll : Rolling) (ntime : UInt32) :
    Except String K.Share :=
  match nextSequenceNumber K.overflowChecks (K.getLastShareSequenceNumber channel) with
  | none => .error "attempt to add with overflow"
  | some sequenceNumber =>
    match K.submitShares job.snapshot.channelId sequenceNumber (K.jobId job.snapshot.activeJob)
        roll.nonce ntime (K.version job.snapshot.activeJob) job.snapshot.extranonceSize with
    | none => .error "extranonce must be serializable"
    | some share => .ok share

theorem buildShare_ok {channel : K.Channel} {job : JobInHand K} {roll : Rolling} {ntime : UInt32}
    {share : K.Share} (h : buildShare channel job roll ntime = .ok share) :
    ∃ sequenceNumber,
      nextSequenceNumber K.overflowChecks (K.getLastShareSequenceNumber channel) =
        some sequenceNumber ∧
      K.submitShares job.snapshot.channelId sequenceNumber (K.jobId job.snapshot.activeJob)
        roll.nonce ntime (K.version job.snapshot.activeJob) job.snapshot.extranonceSize =
        some share := by
  unfold buildShare at h
  cases hnext : nextSequenceNumber K.overflowChecks (K.getLastShareSequenceNumber channel) with
  | none =>
    rw [hnext] at h
    contradiction
  | some sequenceNumber =>
    simp only [hnext] at h
    split at h
    · contradiction
    · rename_i hshare
      cases h
      exact ⟨sequenceNumber, rfl, hshare⟩

/-- Number the share, let the channel validate it, all under the write lock.
Only a share the channel accepts goes on to be submitted. -/
def logShare (m : ChannelMiner K) (i : ℕ) (job : JobInHand K) (roll : Rolling) (ntime : UInt32) :
    ChannelMiner K :=
  if m.channel.poisoned then m.setPhase i .finished
  else
    match buildShare m.channel.value job roll ntime with
    | .error reason =>
      (m.setChannel m.channel.poison).setPhase i (.panicked reason)
    | .ok share =>
      match K.validateShare m.channel.value share with
      | (.error _, channel) =>
        (m.setChannel (m.channel.withValue channel)).setPhase i (.polling job roll.nextNonce)
      | (.ok _, channel) =>
        (m.setChannel (m.channel.withValue channel)).setPhase i (.submitting job roll share)

/-- The share enters the upstream queue. With single submit the token is still
to be cancelled. -/
def submitShare (m : ChannelMiner K) (i : ℕ) (job : JobInHand K) (roll : Rolling)
    (share : K.Share) : ChannelMiner K :=
  match m.singleSubmitCancellationToken with
  | some _ => (m.enqueue share).setPhase i .submitted
  | none => (m.enqueue share).setPhase i (.polling job roll.nextNonce)

def endSingleSubmit (m : ChannelMiner K) (i : ℕ) : ChannelMiner K :=
  match m.singleSubmitCancellationToken with
  | some token => (m.cancelToken token).setPhase i .finished
  | none => m.setPhase i .finished

end Pieces

/-- The choices left to the scheduler: go on, leave the loop when the second
poll finds both a cancellation and the yield ready, fail a send. -/
inductive Move where
  | next
  | breakOff
  | sendFails
deriving DecidableEq

/-- One step of a task in its phase. -/
def resume {K : ClientChannel} (m : ChannelMiner K) (amb : Ambient) (i : ℕ) (task : MiningTask K)
    (move : Move) : Option (ChannelMiner K) :=
  match task.phase, move with
  | .spawned, .next =>
    some (m.setPhase i (if m.singleSubmitCancelled then .finished else .checked))
  | .checked, .next => some (m.setPhase i (takeSnapshot m.channel))
  | .read snapshot, .next => some (m.setPhase i (enterLoop m.cpuUsagePercent snapshot amb.now))
  -- the first poll sees a cancellation before the yield can be ready
  | .polling job roll, .next =>
    some (m.setPhase i (if m.cancelled amb task then .finished else .yielded job roll))
  | .yielded job roll, .next => some (m.setPhase i (throttle m.cpuUsagePercent amb.now job roll))
  | .yielded _ _, .breakOff =>
    if m.cancelled amb task then some (m.setPhase i .finished) else none
  | .sleeping job roll wakeAt, .next =>
    if wakeAt ≤ amb.now then
      some (m.setPhase i (.hashing job { roll with windowStart := amb.now }))
    else none
  | .hashing job roll, .next => some (m.setPhase i (mineHeader job roll amb.now))
  | .found job roll ntime, .next => some (logShare m i job roll ntime)
  | .submitting job roll share, .next => some (submitShare m i job roll share)
  | .submitting job roll _, .sendFails => some (m.setPhase i (.polling job roll.nextNonce))
  | .submitted, .next => some (endSingleSubmit m i)
  | _, _ => none

def stepTask {K : ClientChannel} (m : ChannelMiner K) (amb : Ambient) (i : ℕ) (move : Move) :
    Option (ChannelMiner K) :=
  (m.tasks[i]?).bind fun task => resume m amb i task move

end CpuMinerSv2.MineJob
