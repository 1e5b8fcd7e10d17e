import CpuMinerSv2.HashCount
import CpuMinerSv2.Pacing
import CpuMinerSv2.SampleWorlds
import CpuMinerSv2.ShareTargets
import CpuMinerSv2.TaskLogs

/-!
The throttle. A mining task, and the start-up measurement, take up a header
only in the first `cpu_usage_percent` milliseconds of a window, and windows
open 100 ms apart: the percentage bounds the time they set aside for hashing.
-/

namespace CpuMinerSv2.DutyCycle

open Messages Channels Primitives MineJob MinerMethods Moments Ntime Accounts Pacing TaskLogs
  SampleDeps SampleMiners ShareTargets

open HashCount (measuring)
open SampleWorlds (sampleClient)

/-- Nanoseconds of work in a window. -/
def workTime (cpuUsagePercent : ℕ) : ℕ := cpuUsagePercent * 1000000

/-- Nanoseconds from one window to the next. -/
def windowTime : ℕ := cpuThrottleWindowMs * 1000000

/-- The clock at which the milliseconds in a window no longer fit `u64`. -/
def clockLimit : ℕ := 2 ^ 64 * 1000000

theorem in_workTime {cpuUsagePercent now windowStart : ℕ} (hnow : now < clockLimit)
    (h : (now - windowStart) / 1000000 % 2 ^ 64 < cpuUsagePercent) :
    now < windowStart + workTime cpuUsagePercent := by
  have hlimit : (now - windowStart) / 1000000 < 2 ^ 64 := by
    apply Nat.div_lt_of_lt_mul
    unfold clockLimit at hnow
    omega
  rw [Nat.mod_eq_of_lt hlimit] at h
  have hms := Nat.lt_mul_of_div_lt h (by decide : 0 < 1000000)
  unfold workTime
  omega

theorem window_over {cpuUsagePercent now windowStart : ℕ} (hcpu : cpuUsagePercent ≤ 100)
    (hopened : windowStart ≤ now)
    (h : cpuUsagePercent ≤ (now - windowStart) / 1000000 % 2 ^ 64) :
    windowStart + windowTime ≤ now + (100 - cpuUsagePercent) * 1000000 := by
  have hms : cpuUsagePercent ≤ (now - windowStart) / 1000000 := h.trans (Nat.mod_le _ _)
  have hspent : cpuUsagePercent * 1000000 ≤ now - windowStart :=
    (Nat.le_div_iff_mul_le (by decide)).mp hms
  unfold windowTime cpuThrottleWindowMs
  omega

section Tasks

variable {K : ClientChannel} {cpuUsagePercent : ℕ}

/-- The task takes up a header, in its window or in a new one. -/
def takesUp : Note K Decision := fun r task move =>
  match task.phase, move with
  | .yielded job roll, .next =>
    match throttle r.miner.cpuUsagePercent r.ambient.now job roll with
    | .hashing _ roll => [⟨roll.windowStart, r.ambient.now⟩]
    | _ => []
  | .sleeping _ _ _, .next => [⟨r.ambient.now, r.ambient.now⟩]
  | _, _ => []

/-- Where the task stands in its window. -/
def Windowed (cpuUsagePercent : ℕ) (log : List Decision) (now : Instant) : Phase K → Prop
  | .spawned | .checked | .read _ => log = []
  | .polling _ roll | .yielded _ roll | .hashing _ roll | .found _ roll _ | .submitting _ roll _ =>
    InWindow (workTime cpuUsagePercent) windowTime log now roll.windowStart
  | .sleeping _ roll wakeAt =>
    InWindow (workTime cpuUsagePercent) windowTime log now roll.windowStart ∧
      roll.windowStart + windowTime ≤ wakeAt
  | .submitted | .finished | .panicked _ => Throttled (workTime cpuUsagePercent) windowTime log

theorem Windowed.throttled {log : List Decision} {now : Instant} {phase : Phase K}
    (h : Windowed cpuUsagePercent log now phase) :
    Throttled (workTime cpuUsagePercent) windowTime log := by
  have hempty : log = [] → Throttled (workTime cpuUsagePercent) windowTime log := by
    rintro rfl
    exact Throttled.nil
  cases phase with
  | spawned => exact hempty h
  | checked => exact hempty h
  | read snapshot => exact hempty h
  | polling job roll => exact InWindow.throttled h
  | yielded job roll => exact InWindow.throttled h
  | hashing job roll => exact InWindow.throttled h
  | found job roll ntime => exact InWindow.throttled h
  | submitting job roll share => exact InWindow.throttled h
  | sleeping job roll wakeAt => exact h.1.throttled
  | submitted => exact h
  | finished => exact h
  | panicked reason => exact h

theorem Windowed.later {log : List Decision} {now later : Instant} {phase : Phase K}
    (h : Windowed cpuUsagePercent log now phase) (hle : now ≤ later) :
    Windowed cpuUsagePercent log later phase := by
  cases phase with
  | polling job roll => exact InWindow.later h hle
  | yielded job roll => exact InWindow.later h hle
  | hashing job roll => exact InWindow.later h hle
  | found job roll ntime => exact InWindow.later h hle
  | submitting job roll share => exact InWindow.later h hle
  | sleeping job roll wakeAt => exact ⟨h.1.later hle, h.2⟩
  | _ => exact h

theorem takeSnapshot_windowed (channel : RwCell K.Channel) (now : Instant) :
    Windowed cpuUsagePercent [] now (takeSnapshot channel) := by
  unfold takeSnapshot
  split
  · exact Throttled.nil
  · split
    · exact Throttled.nil
    · split
      · exact Throttled.nil
      · rfl

theorem enterLoop_windowed (percent : ℕ) (snapshot : Snapshot K) (now : Instant) :
    Windowed cpuUsagePercent [] now (enterLoop percent snapshot now) := by
  unfold enterLoop
  split
  · exact Throttled.nil
  · split
    · exact Throttled.nil
    · split
      · exact Throttled.nil
      · exact InWindow.start now

theorem throttle_windowed (hcpu : cpuUsagePercent < 100) {log : List Decision} {now : Instant}
    (hnow : now < clockLimit) (job : JobInHand K) {roll : Rolling}
    (h : InWindow (workTime cpuUsagePercent) windowTime log now roll.windowStart) :
    (∃ wakeAt, throttle cpuUsagePercent now job roll = .sleeping job roll wakeAt ∧
      roll.windowStart + windowTime ≤ wakeAt) ∨
    (throttle cpuUsagePercent now job roll = .hashing job roll ∧
      InWindow (workTime cpuUsagePercent) windowTime (log ++ [⟨roll.windowStart, now⟩]) now
        roll.windowStart) := by
  unfold throttle
  rw [if_pos hcpu]
  dsimp only
  by_cases hpart : (now - roll.windowStart) / 1000000 % 2 ^ 64 ≥ cpuUsagePercent
  · rw [if_pos hpart]
    exact .inl ⟨_, rfl, window_over (Nat.le_of_lt hcpu) h.opened hpart⟩
  · rw [if_neg hpart]
    exact .inr ⟨rfl, h.works (in_workTime hnow (Nat.lt_of_not_le hpart))⟩

theorem mineHeader_windowed {log : List Decision} {now : Instant} {job : JobInHand K}
    {roll : Rolling} (h : Windowed cpuUsagePercent log now (.hashing job roll)) :
    Windowed cpuUsagePercent log now (mineHeader job roll now) := by
  unfold mineHeader
  split
  · exact h
  · exact h

theorem logShare_windowed (cpuUsagePercent : ℕ) (m : ChannelMiner K) (i : ℕ) (now : Instant)
    (job : JobInHand K) (roll : Rolling) (ntime : UInt32) :
    ∃ phase, (logShare m i job roll ntime).tasks = (m.setPhase i phase).tasks ∧ ∀ log,
      Windowed cpuUsagePercent log now (.found job roll ntime) →
      Windowed cpuUsagePercent log now phase := by
  unfold logShare
  split
  · exact ⟨_, rfl, fun _ hlog => hlog.throttled⟩
  · split
    · exact ⟨_, rfl, fun _ hlog => hlog.throttled⟩
    · split
      · exact ⟨_, rfl, fun _ hlog => hlog⟩
      · exact ⟨_, rfl, fun _ hlog => hlog⟩

theorem yielded_windowed (hcpu : cpuUsagePercent < 100) {r : Rig K} {task : MiningTask K}
    {job : JobInHand K} {roll : Rolling} (hp : task.phase = .yielded job roll)
    (hpercent : r.miner.cpuUsagePercent = cpuUsagePercent) (hnow : r.ambient.now < clockLimit)
    {log : List Decision}
    (h : InWindow (workTime cpuUsagePercent) windowTime log r.ambient.now roll.windowStart) :
    Windowed cpuUsagePercent (log ++ takesUp r task .next) r.ambient.now
      (throttle cpuUsagePercent r.ambient.now job roll) := by
  rcases throttle_windowed hcpu hnow job h with ⟨wakeAt, hsleep, hover⟩ | ⟨hwork, hin⟩
  · have hnone : takesUp r task .next = [] := by
      simp only [takesUp, hp, hpercent, hsleep]
    rw [hsleep, hnone, List.append_nil]
    exact ⟨h, hover⟩
  · have hone : takesUp r task .next = [⟨roll.windowStart, r.ambient.now⟩] := by
      simp only [takesUp, hp, hpercent, hwork]
    rw [hwork, hone]
    exact hin

theorem awake_windowed (hpos : 0 < cpuUsagePercent) {r : Rig K} {task : MiningTask K}
    {job : JobInHand K} {roll : Rolling} {wakeAt : Instant}
    (hp : task.phase = .sleeping job roll wakeAt) (hawake : wakeAt ≤ r.ambient.now)
    {log : List Decision}
    (h : Windowed cpuUsagePercent log r.ambient.now (.sleeping job roll wakeAt)) :
    Windowed cpuUsagePercent (log ++ takesUp r task .next) r.ambient.now
      (.hashing job { roll with windowStart := r.ambient.now }) := by
  have hone : takesUp r task .next = [⟨r.ambient.now, r.ambient.now⟩] := by
    simp only [takesUp, hp]
  rw [hone]
  refine h.1.wakes ?_ (h.2.trans hawake)
  exact Nat.mul_pos hpos (by decide)

theorem resume_windowed (hpos : 0 < cpuUsagePercent) (hcpu : cpuUsagePercent < 100) {r : Rig K}
    {i : ℕ} {task : MiningTask K} {move : Move} {m' : ChannelMiner K}
    (hpercent : r.miner.cpuUsagePercent = cpuUsagePercent) (hnow : r.ambient.now < clockLimit)
    (h : resume r.miner r.ambient i task move = some m') :
    ∃ phase, m'.tasks = (r.miner.setPhase i phase).tasks ∧ ∀ log,
      Windowed cpuUsagePercent log r.ambient.now task.phase →
      Windowed cpuUsagePercent (log ++ takesUp r task move) r.ambient.now phase := by
  -- a step that takes up no header
  have hidle : ∀ {phase : Phase K}, takesUp r task move = [] →
      (∀ log, Windowed cpuUsagePercent log r.ambient.now task.phase →
        Windowed cpuUsagePercent log r.ambient.now phase) → ∀ log,
      Windowed cpuUsagePercent log r.ambient.now task.phase →
      Windowed cpuUsagePercent (log ++ takesUp r task move) r.ambient.now phase := by
    intro phase hnone hkeeps log hlog
    rw [hnone, List.append_nil]
    exact hkeeps log hlog
  have hearly : ∀ {phase : Phase K}, takesUp r task move = [] →
      (∀ log, Windowed cpuUsagePercent log r.ambient.now task.phase → log = []) →
      Windowed cpuUsagePercent [] r.ambient.now phase → ∀ log,
      Windowed cpuUsagePercent log r.ambient.now task.phase →
      Windowed cpuUsagePercent (log ++ takesUp r task move) r.ambient.now phase := by
    intro phase hnone hempty hphase log hlog
    rw [hnone, List.append_nil, hempty log hlog]
    exact hphase
  unfold resume at h
  split at h
  case h_1 hp =>
    cases h
    rw [hp] at hidle hearly ⊢
    refine ⟨_, rfl, hearly (by simp [takesUp, hp]) (fun _ hlog => hlog) ?_⟩
    split
    · exact Throttled.nil
    · rfl
  case h_2 hp =>
    cases h
    rw [hp] at hearly ⊢
    exact ⟨_, rfl, hearly (by simp [takesUp, hp]) (fun _ hlog => hlog)
      (takeSnapshot_windowed _ _)⟩
  case h_3 hp =>
    cases h
    rw [hp] at hearly ⊢
    exact ⟨_, rfl, hearly (by simp [takesUp, hp]) (fun _ hlog => hlog)
      (enterLoop_windowed _ _ _)⟩
  case h_4 hp =>
    cases h
    rw [hp] at hidle ⊢
    refine ⟨_, rfl, hidle (by simp [takesUp, hp]) ?_⟩
    intro log hlog
    split
    · exact hlog.throttled
    · exact hlog
  case h_5 job roll hp =>
    cases h
    rw [hp]
    refine ⟨_, rfl, ?_⟩
    intro log hlog
    rw [hpercent]
    exact yielded_windowed hcpu hp hpercent hnow hlog
  case h_6 hp =>
    split at h
    · cases h
      rw [hp] at hidle ⊢
      exact ⟨_, rfl, hidle (by simp [takesUp, hp]) fun _ hlog => hlog.throttled⟩
    · contradiction
  case h_7 job roll wakeAt hp =>
    split at h
    · rename_i hawake
      cases h
      rw [hp]
      refine ⟨_, rfl, ?_⟩
      intro log hlog
      exact awake_windowed hpos hp hawake hlog
    · contradiction
  case h_8 hp =>
    cases h
    rw [hp] at hidle ⊢
    exact ⟨_, rfl, hidle (by simp [takesUp, hp]) fun _ hlog => mineHeader_windowed hlog⟩
  case h_9 job roll ntime hp =>
    cases h
    rw [hp] at hidle ⊢
    obtain ⟨phase, htasks, hkeeps⟩ := logShare_windowed cpuUsagePercent
      r.miner i r.ambient.now job roll ntime
    exact ⟨phase, htasks, hidle (by simp [takesUp, hp]) hkeeps⟩
  case h_10 hp =>
    cases h
    rw [hp] at hidle ⊢
    unfold submitShare
    split
    · exact ⟨_, rfl, hidle (by simp [takesUp, hp]) fun _ hlog => hlog.throttled⟩
    · exact ⟨_, rfl, hidle (by simp [takesUp, hp]) fun _ hlog => hlog⟩
  case h_11 hp =>
    cases h
    rw [hp] at hidle ⊢
    exact ⟨_, rfl, hidle (by simp [takesUp, hp]) fun _ hlog => hlog⟩
  case h_12 hp =>
    cases h
    rw [hp] at hidle ⊢
    unfold endSingleSubmit
    split
    · exact ⟨_, rfl, hidle (by simp [takesUp, hp]) fun _ hlog => hlog⟩
    · exact ⟨_, rfl, hidle (by simp [takesUp, hp]) fun _ hlog => hlog⟩
  case h_13 => contradiction

theorem takesUp_keeps (hpos : 0 < cpuUsagePercent) (hcpu : cpuUsagePercent < 100) :
    Keeps (takesUp (K := K)) cpuUsagePercent fun log now phase =>
      now < clockLimit → Windowed cpuUsagePercent log now phase := by
  refine ⟨fun _ _ => rfl, ?_, ?_⟩
  · intro log now later phase h hle hlimit
    exact (h (Nat.lt_of_le_of_lt hle hlimit)).later hle
  · intro r i task move m' hpercent hresume
    by_cases hlimit : r.ambient.now < clockLimit
    · obtain ⟨phase, htasks, hkeeps⟩ := resume_windowed hpos hcpu hpercent hlimit hresume
      exact ⟨phase, htasks, fun log hlog _ => hkeeps log (hlog hlimit)⟩
    · obtain ⟨phase, htasks, _⟩ := resume_proceeds hresume
      exact ⟨phase, htasks, fun _ _ hlimit' => absurd hlimit' hlimit⟩

/-- What the percentage allows: headers are taken up in the working part of a
window, the windows open 100 ms apart, and the time the windows set aside for
work is at most the percentage of the time from the first window to the last
header, and of one window more. -/
structure OnDuty (cpuUsagePercent : ℕ) (log : List Decision) : Prop where
  throttled : Throttled (workTime cpuUsagePercent) windowTime log
  share : ∀ a b, log.head? = some a → log.getLast? = some b →
    100 * allotted (workTime cpuUsagePercent) log ≤
      cpuUsagePercent * (b.instant - a.windowStart + windowTime)

theorem onDuty_of_throttled {log : List Decision}
    (h : Throttled (workTime cpuUsagePercent) windowTime log) : OnDuty cpuUsagePercent log := by
  refine ⟨h, ?_⟩
  intro a b ha hb
  have hallotted := h.allotted_le ha hb
  have hwindow : windowTime = 100 * 1000000 := rfl
  have hwork : workTime cpuUsagePercent = cpuUsagePercent * 1000000 := rfl
  rw [hwork, Nat.mul_right_comm] at hallotted
  have hscaled : 100 * allotted (workTime cpuUsagePercent) log * 1000000 ≤
      cpuUsagePercent * (b.instant - a.windowStart + windowTime) * 1000000 := by
    calc
      100 * allotted (workTime cpuUsagePercent) log * 1000000
          = allotted (cpuUsagePercent * 1000000) log * windowTime := by rw [hwindow, hwork]; ring
      _ ≤ cpuUsagePercent * (b.instant - a.windowStart + windowTime) * 1000000 := hallotted
  exact Nat.le_of_mul_le_mul_right hscaled (by decide)

/-- A mining task keeps to the percentage of its miner in every run, however
its steps, the clock and the rest of the miner are interleaved. -/
theorem tasks_keep_duty (K : ClientChannel) (amb : Ambient) (channel : K.Channel)
    (cpuUsagePercent : ℕ) (hpos : 0 < cpuUsagePercent) (hcpu : cpuUsagePercent < 100)
    (singleSubmit : Bool) (ms : List (Moment K)) (p : Point K)
    (hrun : Run PointStep (Point.initial ⟨amb, new channel cpuUsagePercent singleSubmit⟩) ms p)
    (hclock : p.rig.ambient.now < clockLimit) (i : ℕ) :
    OnDuty cpuUsagePercent
      (taskLog takesUp i (Point.initial ⟨amb, new channel cpuUsagePercent singleSubmit⟩) ms) := by
  apply onDuty_of_throttled
  have hlogged := run_logged (takesUp_keeps hpos hcpu) i hrun
  cases ht : p.rig.miner.tasks[i]? with
  | some task => exact (hlogged.kept task ht hclock).throttled
  | none =>
    rw [hlogged.unborn ht]
    exact Throttled.nil

end Tasks

/-- A miner at 40 %. -/
def sampleThrottledRig : Rig (sampleDeps.client .standard) :=
  ⟨⟨0, false⟩, new (K := standardClient sampleDeps) (sampleChannel SampleStandardJob) 40 false⟩

/-- A header in the first window, a late poll, and a header in the next window. -/
def sampleWindows : List (Moment (sampleDeps.client .standard)) :=
  [.enters (sampleJob 5 none), .returns, .enters (samplePrevHash 5), .acts, .acts, .returns] ++
    sampleSteps 9 ++ [.event (.tick 50000000)] ++ sampleSteps 1 ++ [.event (.tick 60000000)] ++
    sampleSteps 1

theorem sample_task_keeps_duty :
    (taskLog takesUp 0 (Point.initial sampleThrottledRig) sampleWindows).map Decision.instant =
        [0, 110000000] ∧
      OnDuty 40 (taskLog takesUp 0 (Point.initial sampleThrottledRig) sampleWindows) := by
  have hplay : (play Point.next (Point.initial sampleThrottledRig) sampleWindows).map
      (fun p => p.rig.ambient.now) = some 110000000 := by decide +kernel
  obtain ⟨p, hp, hnow⟩ := Option.map_eq_some_iff.mp hplay
  refine ⟨by decide +kernel, ?_⟩
  have hclock : p.rig.ambient.now < clockLimit := by
    rw [hnow]
    decide
  exact tasks_keep_duty (sampleDeps.client .standard) _ _ 40 (by decide) (by decide) false _ p
    (run_of_play (fun _ _ _ h => h) hp) hclock 0

section Measuring

open Hashrate hiding Throttled

variable {C : Client.ClientDeps} {cpuUsagePercent : ℕ}

/-- The measurement takes up a header, in its window or in a new one. -/
def benchmarks (cpuUsagePercent : ℕ) : Measurement → Instant → List Decision
  | .running b, now =>
    match throttleBenchmark cpuUsagePercent now b with
    | .hashing b => [⟨b.windowStart, now⟩]
    | _ => []
  | .sleeping _ _, now => [⟨now, now⟩]
  | _, _ => []

/-- Where the measurement stands in its window. -/
def BenchmarkWindowed (cpuUsagePercent : ℕ) (log : List Decision) (now : Instant) :
    Measurement → Prop
  | .called => log = []
  | .polling b | .running b | .hashing b =>
    InWindow (workTime cpuUsagePercent) windowTime log now b.windowStart ∧
      b.sleepDurationMs = 100 - cpuUsagePercent
  | .sleeping b wakeAt =>
    (InWindow (workTime cpuUsagePercent) windowTime log now b.windowStart ∧
      b.sleepDurationMs = 100 - cpuUsagePercent) ∧ b.windowStart + windowTime ≤ wakeAt
  | .stopped _ | .finished _ | .panicked _ =>
    Throttled (workTime cpuUsagePercent) windowTime log

theorem BenchmarkWindowed.throttled {log : List Decision} {now : Instant} {s : Measurement}
    (h : BenchmarkWindowed cpuUsagePercent log now s) :
    Throttled (workTime cpuUsagePercent) windowTime log := by
  cases s with
  | called =>
    rw [show log = [] from h]
    exact Throttled.nil
  | polling b => exact h.1.throttled
  | running b => exact h.1.throttled
  | sleeping b wakeAt => exact h.1.1.throttled
  | hashing b => exact h.1.throttled
  | stopped b => exact h
  | finished hashrate => exact h
  | panicked reason => exact h

theorem BenchmarkWindowed.later {log : List Decision} {now later : Instant} {s : Measurement}
    (h : BenchmarkWindowed cpuUsagePercent log now s) (hle : now ≤ later) :
    BenchmarkWindowed cpuUsagePercent log later s := by
  cases s with
  | polling b => exact ⟨h.1.later hle, h.2⟩
  | running b => exact ⟨h.1.later hle, h.2⟩
  | sleeping b wakeAt => exact ⟨⟨h.1.1.later hle, h.1.2⟩, h.2⟩
  | hashing b => exact ⟨h.1.later hle, h.2⟩
  | _ => exact h

theorem next_windowStart {b b' : Benchmark} (h : b.next = some b') :
    b'.windowStart = b.windowStart := by
  unfold Benchmark.next at h
  split at h
  · cases h
    rfl
  · split at h
    · cases h
      rfl
    · contradiction

theorem countHash_windowed {overflowChecks : Bool} {log : List Decision} {now : Instant}
    {b : Benchmark} (h : BenchmarkWindowed cpuUsagePercent log now (.hashing b)) :
    BenchmarkWindowed cpuUsagePercent log now (countHash overflowChecks b) := by
  unfold countHash
  split
  · exact h.throttled
  · dsimp only
    split
    · rename_i b' hnext
      refine ⟨?_, (Benchmark.next_sleepDurationMs hnext).trans h.2⟩
      rw [next_windowStart hnext]
      exact h.1
    · exact h.throttled

theorem measureHashrate_windowed (hpos : 0 < cpuUsagePercent) (hcpu : cpuUsagePercent < 100)
    {now : Instant} (hnow : now < clockLimit) {s s' : Measurement} {log : List Decision}
    (hstep : measureHashrate C cpuUsagePercent now s = some s')
    (hs : BenchmarkWindowed cpuUsagePercent log now s) :
    BenchmarkWindowed cpuUsagePercent (log ++ benchmarks cpuUsagePercent s now) now s' := by
  have hsame : benchmarks cpuUsagePercent s now = [] →
      BenchmarkWindowed cpuUsagePercent log now s' →
      BenchmarkWindowed cpuUsagePercent (log ++ benchmarks cpuUsagePercent s now) now s' := by
    intro hnone h
    rw [hnone, List.append_nil]
    exact h
  cases s with
  | called =>
    cases hstep
    have hempty : log = [] := hs
    refine hsame rfl ?_
    unfold beginMeasurement
    rw [sleepDurationMs_eq_some _ (Nat.le_of_lt hcpu), hempty]
    exact ⟨InWindow.start now, rfl⟩
  | polling b =>
    cases hstep
    refine hsame rfl ?_
    split
    · exact hs.throttled
    · exact hs
  | running b =>
    cases hstep
    unfold throttleBenchmark benchmarks
    by_cases hpart : (now - b.windowStart) / 1000000 % 2 ^ 64 ≥ cpuUsagePercent
    · have hsleep : throttleBenchmark cpuUsagePercent now b =
          .sleeping b (now + b.sleepDurationMs * 1000000) := by
        unfold throttleBenchmark
        rw [if_pos hcpu]
        exact if_pos hpart
      simp only [throttleBenchmark, hcpu, ↓reduceIte, hpart, List.append_nil]
      refine ⟨hs, ?_⟩
      rw [hs.2]
      exact window_over (Nat.le_of_lt hcpu) hs.1.opened hpart
    · simp only [throttleBenchmark, hcpu, ↓reduceIte, hpart]
      exact ⟨hs.1.works (in_workTime hnow (Nat.lt_of_not_le hpart)), hs.2⟩
  | sleeping b wakeAt =>
    simp only [measureHashrate] at hstep
    split at hstep
    · rename_i hawake
      cases hstep
      refine ⟨hs.1.1.wakes ?_ (hs.2.trans hawake), hs.1.2⟩
      exact Nat.mul_pos hpos (by decide)
    · contradiction
  | hashing b =>
    cases hstep
    exact hsame rfl (countHash_windowed hs)
  | stopped b =>
    cases hstep
    exact hsame rfl hs
  | finished hashrate => contradiction
  | panicked reason => contradiction

/-- The start-up measurement keeps to its percentage, whenever its steps take
place. -/
theorem measurement_keeps_duty (C : Client.ClientDeps) (cpuUsagePercent : ℕ)
    (hpos : 0 < cpuUsagePercent) (hcpu : cpuUsagePercent < 100) (times : List Instant)
    (s : Measurement) (hrun : Measures C cpuUsagePercent times s)
    (hclock : times.Pairwise (· ≤ ·)) (hlimit : ∀ now ∈ times, now < clockLimit) :
    OnDuty cpuUsagePercent
      (emitted (measuring C cpuUsagePercent) (benchmarks cpuUsagePercent) .called times) := by
  apply onDuty_of_throttled
  have hwindowed : times.Pairwise (· ≤ ·) → (∀ now ∈ times, now < clockLimit) →
      ∀ now, (∀ past ∈ times, past ≤ now) → BenchmarkWindowed cpuUsagePercent
        (emitted (measuring C cpuUsagePercent) (benchmarks cpuUsagePercent) .called times) now
        s := by
    refine Run.history (I := fun times s => times.Pairwise (· ≤ ·) →
      (∀ now ∈ times, now < clockLimit) → ∀ now, (∀ past ∈ times, past ≤ now) →
      BenchmarkWindowed cpuUsagePercent
        (emitted (measuring C cpuUsagePercent) (benchmarks cpuUsagePercent) .called times) now
        s)
      ?_ ?_ hrun
    · intro _ _ now _
      exact (rfl : ([] : List Decision) = [])
    intro times s now s' hrun ih hstep hclock hlimit later hlater
    obtain ⟨hbefore, _, hlast⟩ := List.pairwise_append.mp hclock
    have hpast : ∀ past ∈ times, past ≤ now := fun past hp => hlast past hp now (by simp)
    have hs := ih hbefore (fun t ht => hlimit t (List.mem_append_left _ ht)) now hpast
    rw [emitted_snoc hrun hstep]
    have hnow : now < clockLimit := hlimit now (by simp)
    exact (measureHashrate_windowed hpos hcpu hnow hstep hs).later (hlater now (by simp))
  obtain ⟨bound, hbound⟩ : ∃ bound, ∀ past ∈ times, past ≤ bound :=
    ⟨times.sum, fun past hp => List.le_sum_of_mem hp⟩
  exact (hwindowed hclock hlimit bound hbound).throttled

end Measuring

/-- A measurement at 40 %: two headers in the first window, a late poll, and a
header in the next window. -/
def sampleReadings : List Instant :=
  [0, 0, 1000000, 1000000, 2000000, 39000000, 39000000, 40000000, 41000000, 102000000]

theorem sample_measurement_keeps_duty :
    (emitted (measuring sampleClient 40) (benchmarks 40) .called sampleReadings).map
        Decision.instant = [1000000, 39000000, 102000000] ∧
      OnDuty 40
        (emitted (measuring sampleClient 40) (benchmarks 40) .called sampleReadings) := by
  refine ⟨by decide +kernel, ?_⟩
  have hplay : (play (measuring sampleClient 40) .called sampleReadings).isSome = true := by
    decide +kernel
  obtain ⟨s, hs⟩ := Option.isSome_iff_exists.mp hplay
  exact measurement_keeps_duty sampleClient 40 (by decide) (by decide) sampleReadings s
    (run_of_play (fun _ _ _ h => h) hs) (by decide) (by decide)

end CpuMinerSv2.DutyCycle
