import CpuMinerSv2.Accounts
import CpuMinerSv2.Hashrate
import CpuMinerSv2.SampleWorlds

/-!
What the start-up measurement counts. Its headers are those of a 64-bit
counter, the nonce its low half and the time its high half; the hashrate it
returns is the number of headers it has hashed over the seconds since it was
called, and once the second is over it hashes one more header at most.
-/

namespace CpuMinerSv2.HashCount

open Messages Primitives Client Hashrate Accounts SampleWorlds

/-- A header of the measurement; only the nonce and the time change. -/
def benchmarkHeader (nonce ntime : UInt32) : Header where
  version := 536870912
  prevBlockhash := List.replicate 32 0
  merkleRoot := List.replicate 32 0
  time := ntime
  bits := 545259519
  nonce := nonce

/-- The measurement as an executable system; a label is the time of the step. -/
abbrev measuring (C : ClientDeps) (cpuUsagePercent : ℕ) (s : Measurement) (now : Instant) :
    Option Measurement := measureHashrate C cpuUsagePercent now s

/-- The counter that nonce and time are the halves of. -/
def counter (b : Benchmark) : ℕ := b.ntime.toNat * 2 ^ 32 + b.nonce.toNat

/-- The header at a value of the counter. -/
def headerAt (k : ℕ) : Header := benchmarkHeader (UInt32.ofNat k) (UInt32.ofNat (k / 2 ^ 32))

/-- The headers from the start of the counter. -/
def firstHeaders (n : ℕ) : List Header := (List.range n).map headerAt

/-- What a step hashes. -/
def benchmarked : Measurement → Instant → List Header
  | .hashing b, _ => [benchmarkHeader b.nonce b.ntime]
  | _, _ => []

theorem counter_lt (b : Benchmark) : counter b < 2 ^ 64 := by
  have hnonce := b.nonce.toNat_lt
  have hntime := b.ntime.toNat_lt
  unfold counter
  omega

theorem counter_zero (b : Benchmark) (hnonce : b.nonce = 0) (hntime : b.ntime = 0) :
    counter b = 0 := by
  unfold counter
  rw [hnonce, hntime]
  rfl

theorem headerAt_counter (b : Benchmark) :
    headerAt (counter b) = benchmarkHeader b.nonce b.ntime := by
  have hnonce := b.nonce.toNat_lt
  have hlow : UInt32.ofNat (counter b) = b.nonce := by
    apply UInt32.toNat_inj.mp
    rw [UInt32.toNat_ofNat']
    unfold counter
    omega
  have hhigh : UInt32.ofNat (counter b / 2 ^ 32) = b.ntime := by
    have hntime := b.ntime.toNat_lt
    apply UInt32.toNat_inj.mp
    rw [UInt32.toNat_ofNat']
    unfold counter
    omega
  unfold headerAt
  rw [hlow, hhigh]

theorem next_counter {b b' : Benchmark} (h : b.next = some b') :
    counter b' = counter b + 1 ∧ b'.hashCount = b.hashCount ∧ b'.startTime = b.startTime := by
  have hnonce := b.nonce.toNat_lt
  have hntime := b.ntime.toNat_lt
  unfold Benchmark.next at h
  by_cases hn : b.nonce = 4294967295
  · rw [if_neg (not_not.mpr hn)] at h
    by_cases ht : b.ntime = 4294967295
    · rw [if_neg (not_not.mpr ht)] at h
      contradiction
    · rw [if_pos ht] at h
      cases h
      have hroom : b.ntime.toNat ≠ 4294967295 := fun heq => ht (UInt32.toNat_inj.mp heq)
      refine ⟨?_, rfl, rfl⟩
      simp only [counter, hn, UInt32.toNat_add, UInt32.reduceToNat]
      omega
  · rw [if_pos hn] at h
    cases h
    have hroom : b.nonce.toNat ≠ 4294967295 := fun heq => hn (UInt32.toNat_inj.mp heq)
    refine ⟨?_, rfl, rfl⟩
    simp only [counter, UInt32.toNat_add, UInt32.reduceToNat]
    omega

theorem next_none {b : Benchmark} (h : b.next = none) : counter b = 2 ^ 64 - 1 := by
  unfold Benchmark.next at h
  by_cases hn : b.nonce = 4294967295
  · rw [if_neg (not_not.mpr hn)] at h
    by_cases ht : b.ntime = 4294967295
    · unfold counter
      rw [hn, ht]
      rfl
    · rw [if_pos ht] at h
      contradiction
  · rw [if_pos hn] at h
    contradiction

theorem firstHeaders_snoc (n : ℕ) : firstHeaders (n + 1) = firstHeaders n ++ [headerAt n] := by
  unfold firstHeaders
  rw [List.range_succ, List.map_append, List.map_singleton]

theorem firstHeaders_nodup {n : ℕ} (hn : n ≤ 2 ^ 64) : (firstHeaders n).Nodup := by
  unfold firstHeaders
  refine List.Nodup.map_on ?_ List.nodup_range
  intro k hk l hl heq
  have hk' := List.mem_range.mp hk
  have hl' := List.mem_range.mp hl
  have hlow := congrArg (fun h : Header => h.nonce.toNat) heq
  have hhigh := congrArg (fun h : Header => h.time.toNat) heq
  simp only [headerAt, benchmarkHeader, UInt32.toNat_ofNat'] at hlow hhigh
  omega

section Count

variable {C : ClientDeps} {cpuUsagePercent : ℕ}

/-- In the loop: the headers hashed so far are those below the counter. -/
structure Counting (times : List Instant) (headers : List Header) (b : Benchmark) : Prop where
  headers : headers = firstHeaders (counter b)
  count : b.hashCount.toNat = counter b
  started : times.head? = some b.startTime

/-- Out of the loop after so many headers. -/
structure Counted (times : List Instant) (headers : List Header) (b : Benchmark) (n : ℕ) :
    Prop where
  bounded : n ≤ 2 ^ 64
  headers : headers = firstHeaders n
  count : b.hashCount.toNat = n % 2 ^ 64
  started : times.head? = some b.startTime
  elapsed : n < 2 ^ 64 → ∃ now ∈ times, 1000000000 ≤ now - b.startTime

/-- What a finished measurement returns: the headers it has hashed, counted
modulo `2 ^ 64`, over the time from its first step to its last. -/
structure Measured (times : List Instant) (headers : List Header) (hashrate : F32) (n : ℕ) :
    Prop where
  bounded : n ≤ 2 ^ 64
  headers : headers = firstHeaders n
  returned : ∃ start last, times.head? = some start ∧ times.getLast? = some last ∧
    hashrate = SinglePrecision.div (SinglePrecision.ofNat (n % 2 ^ 64))
      (SinglePrecision.asSecsF32 (last - start)) ∧
    (n < 2 ^ 64 → 1000000000 ≤ last - start)

/-- Where the measurement stands in its count. -/
def Accounted (times : List Instant) (headers : List Header) : Measurement → Prop
  | .called => times = [] ∧ headers = []
  | .polling b | .running b | .sleeping b _ | .hashing b => Counting times headers b
  | .stopped b => ∃ n, Counted times headers b n
  | .finished hashrate => ∃ n, Measured times headers hashrate n
  | .panicked _ => headers = firstHeaders (2 ^ 64)

theorem head?_snoc {times : List Instant} {start : Instant} (h : times.head? = some start)
    (now : Instant) : (times ++ [now]).head? = some start := by
  rw [List.head?_append, h]
  rfl

theorem Counting.snoc {times : List Instant} {headers : List Header} {b : Benchmark}
    (h : Counting times headers b) (now : Instant) : Counting (times ++ [now]) headers b :=
  ⟨h.headers, h.count, head?_snoc h.started now⟩

theorem countHash_accounted {times : List Instant} {headers : List Header} {b : Benchmark}
    (h : Counting times headers b) (now : Instant) :
    Accounted (times ++ [now]) (headers ++ [benchmarkHeader b.nonce b.ntime])
      (countHash C.overflowChecks b) := by
  have hlt := counter_lt b
  have hall : headers ++ [benchmarkHeader b.nonce b.ntime] = firstHeaders (counter b + 1) := by
    rw [firstHeaders_snoc, headerAt_counter, h.headers]
  have hsum : (b.hashCount + 1).toNat = (counter b + 1) % 2 ^ 64 := by
    rw [UInt64.toNat_add, h.count]
    rfl
  rw [hall]
  unfold countHash
  split
  · rename_i hfull
    have hlast : b.hashCount = 18446744073709551615 := by
      simp only [Bool.and_eq_true, beq_iff_eq] at hfull
      exact hfull.2
    have hcounter : counter b + 1 = 2 ^ 64 := by
      rw [← h.count, hlast]
      rfl
    exact congrArg firstHeaders hcounter
  · dsimp only
    split
    · rename_i b' hnext
      obtain ⟨hcounter, hcount, hstart⟩ := next_counter hnext
      have hsame : counter b' = counter b + 1 := hcounter
      have hlt' := counter_lt b'
      refine ⟨congrArg firstHeaders hsame.symm, ?_, ?_⟩
      · rw [hcount, hsum]
        omega
      · rw [hstart]
        exact head?_snoc h.started now
    · rename_i hnext
      have hlast := next_none hnext
      have hcounter : counter b = 2 ^ 64 - 1 := hlast
      refine ⟨counter b + 1, by omega, rfl, hsum, head?_snoc h.started now, ?_⟩
      omega

theorem measureHashrate_accounted (hcpu : cpuUsagePercent ≤ 100) {times : List Instant}
    {now : Instant} (hpast : ∀ past ∈ times, past ≤ now) {headers : List Header}
    {s s' : Measurement} (hstep : measureHashrate C cpuUsagePercent now s = some s')
    (hs : Accounted times headers s) :
    Accounted (times ++ [now]) (headers ++ benchmarked s now) s' := by
  cases s with
  | called =>
    cases hstep
    obtain ⟨htimes, hheaders⟩ := hs
    rw [htimes, hheaders]
    unfold beginMeasurement
    rw [sleepDurationMs_eq_some _ hcpu]
    refine ⟨?_, ?_, rfl⟩
    · rw [counter_zero _ rfl rfl]
      rfl
    · rw [counter_zero _ rfl rfl]
      rfl
  | polling b =>
    cases hstep
    have hsame : headers ++ benchmarked (.polling b) now = headers := List.append_nil _
    have hb : Counting times headers b := hs
    rw [hsame]
    split
    · rename_i hover
      have hlt := counter_lt b
      refine ⟨counter b, Nat.le_of_lt hlt, hb.headers, ?_, head?_snoc hb.started now, ?_⟩
      · rw [hb.count, Nat.mod_eq_of_lt hlt]
      · exact fun _ => ⟨now, by simp, hover⟩
    · exact hb.snoc now
  | running b =>
    cases hstep
    have hsame : headers ++ benchmarked (.running b) now = headers := List.append_nil _
    have hb : Counting times headers b := hs
    rw [hsame]
    unfold throttleBenchmark
    dsimp only
    split
    · split
      · exact hb.snoc now
      · exact hb.snoc now
    · exact hb.snoc now
  | sleeping b wakeAt =>
    have hsame : headers ++ benchmarked (.sleeping b wakeAt) now = headers := List.append_nil _
    have hb : Counting times headers b := hs
    rw [hsame]
    simp only [measureHashrate] at hstep
    split at hstep
    · cases hstep
      exact ⟨hb.headers, hb.count, head?_snoc hb.started now⟩
    · contradiction
  | hashing b =>
    cases hstep
    exact countHash_accounted hs now
  | stopped b =>
    cases hstep
    have hsame : headers ++ benchmarked (.stopped b) now = headers := List.append_nil _
    obtain ⟨n, hn⟩ := hs
    rw [hsame]
    refine ⟨n, hn.bounded, hn.headers, b.startTime, now, head?_snoc hn.started now, by simp, ?_, ?_⟩
    · unfold hashrateOf
      rw [hn.count]
    · intro hlt
      obtain ⟨past, hmem, hover⟩ := hn.elapsed hlt
      exact hover.trans (Nat.sub_le_sub_right (hpast past hmem) _)
  | finished hashrate => contradiction
  | panicked reason => contradiction

theorem measures_accounted (hcpu : cpuUsagePercent ≤ 100) {times : List Instant} {s : Measurement}
    (hrun : Measures C cpuUsagePercent times s) (hclock : times.Pairwise (· ≤ ·)) :
    Accounted times (emitted (measuring C cpuUsagePercent) benchmarked .called times) s := by
  revert hclock
  refine Run.history (I := fun times s => times.Pairwise (· ≤ ·) → Accounted times
    (emitted (measuring C cpuUsagePercent) benchmarked .called times) s) ?_ ?_ hrun
  · intro _
    exact ⟨rfl, rfl⟩
  · intro times s now s' hrun ih hstep hclock
    obtain ⟨hbefore, _, hlast⟩ := List.pairwise_append.mp hclock
    rw [emitted_snoc hrun hstep]
    exact measureHashrate_accounted hcpu (fun past hp => hlast past hp now (by simp)) hstep
      (ih hbefore)

theorem Accounted.first {times : List Instant} {headers : List Header} {s : Measurement}
    (h : Accounted times headers s) : ∃ n, n ≤ 2 ^ 64 ∧ headers = firstHeaders n := by
  cases s with
  | called => exact ⟨0, Nat.zero_le _, h.2⟩
  | polling b => exact ⟨_, Nat.le_of_lt (counter_lt b), Counting.headers h⟩
  | running b => exact ⟨_, Nat.le_of_lt (counter_lt b), Counting.headers h⟩
  | sleeping b wakeAt => exact ⟨_, Nat.le_of_lt (counter_lt b), Counting.headers h⟩
  | hashing b => exact ⟨_, Nat.le_of_lt (counter_lt b), Counting.headers h⟩
  | stopped b =>
    obtain ⟨n, hn⟩ := h
    exact ⟨n, hn.bounded, hn.headers⟩
  | finished hashrate =>
    obtain ⟨n, hn⟩ := h
    exact ⟨n, hn.bounded, hn.headers⟩
  | panicked reason => exact ⟨2 ^ 64, Nat.le_refl _, h⟩

theorem Measured.accurate {times : List Instant} {headers : List Header} {hashrate : F32} {n : ℕ}
    (h : Measured times headers hashrate n) (hn : n < 2 ^ 64) :
    ∃ start last, times.head? = some start ∧ times.getLast? = some last ∧
      1000000000 ≤ last - start ∧ (last - start < 2 ^ 64 * 1000000000 →
        ∃ q, hashrate = .finite q ∧
          |q - n / ((last - start : ℕ) / 1000000000 : ℚ)| ≤
            n / ((last - start : ℕ) / 1000000000 : ℚ) / 2 ^ 20) := by
  obtain ⟨start, last, hstart, hlast, hrate, hsecond⟩ := h.returned
  refine ⟨start, last, hstart, hlast, hsecond hn, ?_⟩
  intro hshort
  rw [Nat.mod_eq_of_lt hn] at hrate
  rw [hrate]
  exact (SinglePrecision.rate_near hn (Nat.lt_of_lt_of_le (by norm_num) (hsecond hn))
    hshort).error

/-- The hashrate is the number of headers hashed, all of them different, over
the time it took, which is a second at least unless no header is left; its
rounding errors are small, and the count overflows only when all are hashed. -/
theorem measured_hashrate (C : ClientDeps) (cpuUsagePercent : ℕ) (hcpu : cpuUsagePercent ≤ 100)
    (times : List Instant) (s : Measurement) (hrun : Measures C cpuUsagePercent times s)
    (hclock : times.Pairwise (· ≤ ·)) :
    (emitted (measuring C cpuUsagePercent) benchmarked .called times).Nodup ∧
      (∀ hashrate, s = .finished hashrate → ∃ n, Measured times
        (emitted (measuring C cpuUsagePercent) benchmarked .called times) hashrate n ∧
        (n < 2 ^ 64 → ∃ start last, times.head? = some start ∧ times.getLast? = some last ∧
          1000000000 ≤ last - start ∧ (last - start < 2 ^ 64 * 1000000000 →
            ∃ q, hashrate = .finite q ∧
              |q - n / ((last - start : ℕ) / 1000000000 : ℚ)| ≤
                n / ((last - start : ℕ) / 1000000000 : ℚ) / 2 ^ 20))) ∧
      (∀ reason, s = .panicked reason →
        emitted (measuring C cpuUsagePercent) benchmarked .called times =
          firstHeaders (2 ^ 64)) := by
  have haccounted := measures_accounted hcpu hrun hclock
  refine ⟨?_, ?_, ?_⟩
  · obtain ⟨n, hn, hheaders⟩ := haccounted.first
    rw [hheaders]
    exact firstHeaders_nodup hn
  · intro hashrate hs
    rw [hs] at haccounted
    obtain ⟨n, hn⟩ := haccounted
    exact ⟨n, hn, hn.accurate⟩
  · intro reason hs
    rw [hs] at haccounted
    exact haccounted

end Count

/-- Hash two headers, see that the second is over, read the clock once more. -/
def sampleMeasurement : List Instant := [0, 0, 0, 0, 0, 0, 0, 1000000000, 1500000000]

theorem sample_hashrate :
    play (measuring sampleClient 100) .called sampleMeasurement =
      some (.finished (.finite (11184811 / 8388608))) ∧
    ∃ n, Measured sampleMeasurement
      (emitted (measuring sampleClient 100) benchmarked .called sampleMeasurement)
      (.finite (11184811 / 8388608)) n := by
  have hplay : play (measuring sampleClient 100) .called sampleMeasurement =
      some (.finished (.finite (11184811 / 8388608))) := by decide +kernel
  obtain ⟨n, hn, _⟩ := (measured_hashrate sampleClient 100 (by decide) sampleMeasurement _
    (run_of_play (fun _ _ _ h => h) hplay) (by decide)).2.1 _ rfl
  exact ⟨hplay, n, hn⟩

section Ends

variable {C : ClientDeps} {cpuUsagePercent : ℕ}

/-- The steps that remain once the second is over. -/
def remainingSteps : Measurement → ℕ
  | .called | .polling _ => 2
  | .running _ => 5
  | .sleeping _ _ => 4
  | .hashing _ => 3
  | .stopped _ => 1
  | .finished _ | .panicked _ => 0

/-- In the loop, or past it, since `start`. -/
def Begun (start : Instant) (s : Measurement) : Prop :=
  s ≠ .called ∧ ∀ b, s.benchmark = some b → b.startTime = start

theorem countHash_begun {overflowChecks : Bool} {start : Instant} {b : Benchmark}
    (h : b.startTime = start) : Begun start (countHash overflowChecks b) ∧
      remainingSteps (countHash overflowChecks b) ≤ 2 := by
  unfold countHash
  split
  · refine ⟨⟨by simp, ?_⟩, Nat.zero_le _⟩
    intro b' hb'
    contradiction
  · dsimp only
    split
    · rename_i b' hnext
      refine ⟨⟨by simp, ?_⟩, Nat.le_refl _⟩
      intro b'' hb''
      cases hb''
      rw [(next_counter hnext).2.2]
      exact h
    · refine ⟨⟨by simp, ?_⟩, Nat.le_succ _⟩
      intro b' hb'
      cases hb'
      exact h

theorem remaining_pays (C : ClientDeps) (cpuUsagePercent : ℕ) (start : Instant) :
    Pays (Begun start)
      (fun s now s' => start + 1000000000 ≤ now ∧ measuring C cpuUsagePercent s now = some s')
      (fun _ => 1) remainingSteps := by
  intro s now s' hs hstep
  obtain ⟨hover, hstep⟩ := hstep
  have hloop : ∀ {b b' : Benchmark} {t : Measurement}, s.benchmark = some b →
      t.benchmark = some b' → b'.startTime = b.startTime → Begun start t := by
    intro b b' t hb hb' hsame
    refine ⟨?_, ?_⟩
    · intro hcalled
      rw [hcalled] at hb'
      contradiction
    · intro b'' hb''
      cases hb'.symm.trans hb''
      rw [hsame]
      exact hs.2 b hb
  cases s with
  | called => exact absurd rfl hs.1
  | polling b =>
    cases hstep
    have hstart := hs.2 b rfl
    have hsecond : 1000000000 ≤ now - b.startTime := by
      rw [hstart]
      exact Nat.le_sub_of_add_le' hover
    rw [if_pos hsecond]
    exact ⟨hloop rfl rfl rfl, Nat.le_refl _⟩
  | running b =>
    cases hstep
    unfold throttleBenchmark
    dsimp only
    split
    · split
      · exact ⟨hloop rfl rfl rfl, Nat.le_refl _⟩
      · exact ⟨hloop rfl rfl rfl, by simp [remainingSteps]⟩
    · exact ⟨hloop rfl rfl rfl, by simp [remainingSteps]⟩
  | sleeping b wakeAt =>
    simp only [measuring, measureHashrate] at hstep
    split at hstep
    · cases hstep
      exact ⟨hloop rfl rfl rfl, Nat.le_refl _⟩
    · contradiction
  | hashing b =>
    cases hstep
    have hcounted := @countHash_begun C.overflowChecks start b (hs.2 b rfl)
    exact ⟨hcounted.1, Nat.add_le_add_left hcounted.2 1⟩
  | stopped b =>
    cases hstep
    refine ⟨⟨by simp, ?_⟩, Nat.le_refl _⟩
    intro b' hb'
    contradiction
  | finished hashrate => contradiction
  | panicked reason => contradiction

/-- Once the second is over the measurement takes at most five more steps, and
it can take one at every time late enough until it is over. -/
theorem measurement_ends (C : ClientDeps) (cpuUsagePercent : ℕ) (s : Measurement) (b : Benchmark)
    (hb : s.benchmark = some b) (times : List Instant) (s' : Measurement)
    (hrun : Run (fun s now s' => b.startTime + 1000000000 ≤ now ∧
      measuring C cpuUsagePercent s now = some s') s times s') :
    times.length ≤ 5 ∧
      ((∃ hashrate, s' = .finished hashrate) ∨ (∃ reason, s' = .panicked reason) ∨
        ∃ ready, ∀ now, ready ≤ now → (measuring C cpuUsagePercent s' now).isSome = true) := by
  have hbegun : Begun b.startTime s := by
    refine ⟨?_, ?_⟩
    · intro hcalled
      rw [hcalled] at hb
      contradiction
    · intro b' hb'
      cases hb.symm.trans hb'
      rfl
  have hpaid := ((remaining_pays C cpuUsagePercent b.startTime).charges_le hrun hbegun).2
  refine ⟨?_, ?_⟩
  · have hcost : charges (fun _ : Instant => 1) times = times.length := by simp [charges]
    have hmost : remainingSteps s ≤ 5 := by
      cases s <;> simp [remainingSteps]
    omega
  · cases s' with
    | finished hashrate => exact .inl ⟨hashrate, rfl⟩
    | panicked reason => exact .inr (.inl ⟨reason, rfl⟩)
    | sleeping b' wakeAt =>
      refine .inr (.inr ⟨wakeAt, fun now hawake => ?_⟩)
      simp only [measuring, measureHashrate, if_pos hawake, Option.isSome_some]
    | _ => exact .inr (.inr ⟨0, fun now _ => rfl⟩)

end Ends

/-- About to look at the window when the second is over, and asleep until the next. -/
def sampleBenchmark : Benchmark := ⟨7, 0, 7, 60, 990000000, 0⟩

def sampleLateReadings : List Instant :=
  [1040000000, 1100000000, 1100000000, 1100000000, 1100000001]

theorem sample_measurement_ends :
    ∃ s', Run (fun s now s' => sampleBenchmark.startTime + 1000000000 ≤ now ∧
      measuring sampleClient 40 s now = some s') (.running sampleBenchmark) sampleLateReadings s' ∧
      sampleLateReadings.length ≤ 5 := by
  have hplay : (play
      (fun s now => if 1000000000 ≤ now then measuring sampleClient 40 s now else none)
      (.running sampleBenchmark) sampleLateReadings).isSome = true := by decide +kernel
  obtain ⟨s', hs'⟩ := Option.isSome_iff_exists.mp hplay
  have hrun : Run (fun s now s' => sampleBenchmark.startTime + 1000000000 ≤ now ∧
      measuring sampleClient 40 s now = some s') (.running sampleBenchmark) sampleLateReadings
      s' := by
    refine run_of_play ?_ hs'
    intro s now s' hstep
    obtain ⟨hover, hs⟩ := Option.ite_none_right_eq_some.mp hstep
    exact ⟨(Nat.zero_add _).le.trans hover, hs⟩
  refine ⟨s', hrun, ?_⟩
  exact (measurement_ends sampleClient 40 (.running sampleBenchmark) sampleBenchmark rfl
    sampleLateReadings s' hrun).1

end CpuMinerSv2.HashCount
