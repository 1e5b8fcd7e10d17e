import CpuMinerSv2.Client

/-!
The start-up measurement of the hashrate, in steps from one reading of the
clock to the next, and `Sv2CpuMiner::new` that waits for it. The measurement
throttles itself as the mining tasks do.
-/

namespace CpuMinerSv2.Hashrate

open Messages Primitives MineJob Config Client

/-- The variables of the measurement. -/
structure Benchmark where
  nonce : UInt32
  ntime : UInt32
  hashCount : UInt64
  sleepDurationMs : ℕ
  windowStart : Instant
  startTime : Instant
deriving DecidableEq

/-- Where the measurement stands. -/
inductive Measurement where
  | called
  /-- at the top of the loop -/
  | polling (b : Benchmark)
  /-- the second is not over, the window not looked at yet -/
  | running (b : Benchmark)
  /-- asleep for the rest of the throttle window -/
  | sleeping (b : Benchmark) (wakeAt : Instant)
  /-- about to hash a header -/
  | hashing (b : Benchmark)
  /-- out of the loop -/
  | stopped (b : Benchmark)
  | finished (hashrate : F32)
  | panicked (reason : String)
deriving DecidableEq

/-- The next header: another nonce, or another `ntime` once all are used up. -/
def Benchmark.next (b : Benchmark) : Option Benchmark :=
  if b.nonce ≠ 4294967295 then some { b with nonce := b.nonce + 1 }
  else if b.ntime ≠ 4294967295 then some { b with nonce := 0, ntime := b.ntime + 1 }
  else none

/-- Hash one header, of which only the number matters. -/
def countHash (overflowChecks : Bool) (b : Benchmark) : Measurement :=
  if overflowChecks && b.hashCount == 18446744073709551615 then
    .panicked "attempt to add with overflow"
  else
    let counted := { b with hashCount := b.hashCount + 1 }
    match counted.next with
    | some b => .polling b
    | none => .stopped counted

def beginMeasurement (overflowChecks : Bool) (cpuUsagePercent : ℕ) (now : Instant) :
    Measurement :=
  match sleepDurationMs overflowChecks cpuUsagePercent with
  | none => .panicked "attempt to subtract with overflow"
  | some duration => .polling {
      nonce := 0
      ntime := 0
      hashCount := 0
      sleepDurationMs := duration
      windowStart := now
      startTime := now }

def throttleBenchmark (cpuUsagePercent : ℕ) (now : Instant) (b : Benchmark) : Measurement :=
  if cpuUsagePercent < 100 then
    let elapsedInWindow := (now - b.windowStart) / 1000000 % 2 ^ 64
    if elapsedInWindow ≥ cpuUsagePercent then
      .sleeping b (now + b.sleepDurationMs * 1000000)
    else .hashing b
  else .hashing b

/-- The hashes of one second. -/
def hashrateOf (b : Benchmark) (now : Instant) : F32 :=
  let elapsedSecs := SinglePrecision.asSecsF32 (now - b.startTime)
  SinglePrecision.div (SinglePrecision.ofNat b.hashCount.toNat) elapsedSecs

/-- One step of `measure_hashrate`, at a time of the clock. -/
def measureHashrate (C : ClientDeps) (cpuUsagePercent : ℕ) (now : Instant) :
    Measurement → Option Measurement
  | .called => some (beginMeasurement C.overflowChecks cpuUsagePercent now)
  | .polling b => some (if 1000000000 ≤ now - b.startTime then .stopped b else .running b)
  | .running b => some (throttleBenchmark cpuUsagePercent now b)
  | .sleeping b wakeAt =>
    if wakeAt ≤ now then some (.hashing { b with windowStart := now }) else none
  | .hashing b => some (countHash C.overflowChecks b)
  | .stopped b => some (.finished (hashrateOf b now))
  | .finished _ | .panicked _ => none

/-- `Sv2CpuMiner::new` returns with the measurement. -/
def newMiner (config : Sv2CpuMinerConfig) : Measurement → Option Sv2CpuMiner
  | .finished hashrate => some { config, nominalHashrate := hashrate }
  | _ => none

theorem newMiner_config {config : Sv2CpuMinerConfig} {s : Measurement} {m : Sv2CpuMiner}
    (h : newMiner config s = some m) : m.config = config := by
  cases s with
  | finished hashrate =>
    cases h
    rfl
  | _ => contradiction

/-- The runs of the measurement, each label the time of one step. -/
def Measures (C : ClientDeps) (cpuUsagePercent : ℕ) : List Instant → Measurement → Prop :=
  Run (fun s now s' => measureHashrate C cpuUsagePercent now s = some s') .called

theorem sleepDurationMs_eq_some (overflowChecks : Bool) {cpuUsagePercent : ℕ}
    (h : cpuUsagePercent ≤ 100) :
    sleepDurationMs overflowChecks cpuUsagePercent = some (100 - cpuUsagePercent) := if_pos h

/-- The variables of a measurement in its loop. -/
def Measurement.benchmark : Measurement → Option Benchmark
  | .polling b | .running b | .sleeping b _ | .hashing b | .stopped b => some b
  | _ => none

/-- Work and sleep fill the window, and no subtraction has overflowed. -/
structure Throttled (cpuUsagePercent : ℕ) (s : Measurement) : Prop where
  window : ∀ b, s.benchmark = some b → cpuUsagePercent + b.sleepDurationMs = 100
  met : s ≠ .panicked "attempt to subtract with overflow"

theorem Benchmark.next_sleepDurationMs {b b' : Benchmark} (h : b.next = some b') :
    b'.sleepDurationMs = b.sleepDurationMs := by
  unfold Benchmark.next at h
  by_cases hnonce : b.nonce = 4294967295
  · by_cases hntime : b.ntime = 4294967295
    · simp [hnonce, hntime] at h
    · rw [if_neg (not_not.mpr hnonce), if_pos hntime] at h
      cases h
      rfl
  · rw [if_pos hnonce] at h
    cases h
    rfl

theorem countHash_throttled {overflowChecks : Bool} {cpuUsagePercent : ℕ} {b : Benchmark}
    (h : cpuUsagePercent + b.sleepDurationMs = 100) :
    Throttled cpuUsagePercent (countHash overflowChecks b) := by
  unfold countHash
  split
  · exact ⟨(fun _ hb => nomatch hb), by simp⟩
  · dsimp only
    split
    · rename_i b' hnext
      refine ⟨?_, fun hp => nomatch hp⟩
      intro b'' hb
      cases hb
      rw [Benchmark.next_sleepDurationMs hnext]
      exact h
    · refine ⟨?_, fun hp => nomatch hp⟩
      intro b' hb
      cases hb
      exact h

theorem measureHashrate_throttled {C : ClientDeps} {cpuUsagePercent : ℕ}
    (hcpu : cpuUsagePercent ≤ 100) {now : Instant} {s s' : Measurement}
    (hstep : measureHashrate C cpuUsagePercent now s = some s')
    (hs : Throttled cpuUsagePercent s) : Throttled cpuUsagePercent s' := by
  have hkeep : ∀ {b b' : Benchmark} {t : Measurement}, s.benchmark = some b →
      t.benchmark = some b' → b'.sleepDurationMs = b.sleepDurationMs →
        Throttled cpuUsagePercent t := by
    intro b b' t hb hb' hsame
    refine ⟨?_, ?_⟩
    · intro b'' hb''
      cases hb'.symm.trans hb''
      rw [hsame]
      exact hs.window b hb
    · intro hp
      rw [hp] at hb'
      contradiction
  cases s with
  | called =>
    cases hstep
    unfold beginMeasurement
    rw [sleepDurationMs_eq_some _ hcpu]
    refine ⟨?_, fun hp => nomatch hp⟩
    intro b hb
    cases hb
    exact Nat.add_sub_of_le hcpu
  | polling b =>
    cases hstep
    split
    · exact hkeep rfl rfl rfl
    · exact hkeep rfl rfl rfl
  | running b =>
    cases hstep
    unfold throttleBenchmark
    dsimp only
    split
    · split
      · exact hkeep rfl rfl rfl
      · exact hkeep rfl rfl rfl
    · exact hkeep rfl rfl rfl
  | sleeping b wakeAt =>
    simp only [measureHashrate] at hstep
    split at hstep
    · cases hstep
      exact hkeep rfl rfl rfl
    · contradiction
  | hashing b =>
    cases hstep
    exact countHash_throttled (hs.window b rfl)
  | stopped b =>
    cases hstep
    exact ⟨(fun _ hb => nomatch hb), fun hp => nomatch hp⟩
  | finished hashrate => contradiction
  | panicked reason => contradiction

theorem measures_throttled {C : ClientDeps} {cpuUsagePercent : ℕ} (hcpu : cpuUsagePercent ≤ 100)
    {times : List Instant} {s : Measurement} (hrun : Measures C cpuUsagePercent times s) :
    Throttled cpuUsagePercent s := by
  refine Run.invariant (I := Throttled cpuUsagePercent) ?_ hrun ?_
  · exact fun _ _ _ hs hstep => measureHashrate_throttled hcpu hstep hs
  · exact ⟨(fun _ hb => nomatch hb), fun hp => nomatch hp⟩

end CpuMinerSv2.Hashrate
