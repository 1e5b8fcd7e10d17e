import CpuMinerSv2.HashCount
import CpuMinerSv2.Outcomes

/-!
The body of the binary's `main`: it parses the command line, loads the
configuration, starts the log, measures the hashrate, runs `start` until that
returns or Ctrl-C is pressed, shuts the client down and turns the outcome into
the exit status.
-/

namespace CpuMinerSv2.Binary

open Messages Primitives MineJob Manager Config Client Hashrate ValidatedRuns HashCount Accounts
  Outcomes SampleWorlds

structure Args where
  configPath : String
  logFile : Option String

/-- What `Args::parse` makes of the command line. -/
inductive CommandLine where
  | args (args : Args)
  /-- `--help` or `--version` -/
  | displays
  | usageError

/-- A configuration with the field that only the binary reads. -/
structure LoadedConfig where
  config : Sv2CpuMinerConfig
  logFile : Option String

/-- What the binary finds when it is started. -/
structure Host where
  commandLine : CommandLine
  /-- `load_config`: a file, and the environment variables with this prefix;
  then the fields that hold lists and those that hold enumerations -/
  loadConfig : String → String → List String → List String → Except String LoadedConfig
  /-- why `init_logging` panics, if it does -/
  initLogging : Option String → Option String

def envPrefix : String := "CPU_MINER"

def listKeys : List String := []

def enumKeys : List String := []

/-- How `process_cli_args` ends; it may end the process itself. -/
inductive CliResult where
  | exits (code : UInt8)
  | refuses (e : Sv2CpuMinerError)
  | accepts (loaded : LoadedConfig)

/-- The configuration is loaded and validated; the flag wins over its log file. -/
def processCliArgs (host : Host) : CliResult :=
  match host.commandLine with
  | .displays => .exits 0
  | .usageError => .exits 2
  | .args args =>
    match host.loadConfig args.configPath envPrefix listKeys enumKeys with
    | .error e => .refuses (.badConfigDeserialize e)
    | .ok loaded =>
      match loaded.config.validate with
      | .error e => .refuses e
      | .ok _ =>
        match args.logFile with
        | some logFile => .accepts { loaded with logFile := some logFile }
        | none => .accepts loaded

theorem processCliArgs_accepts {host : Host} {loaded : LoadedConfig}
    (h : processCliArgs host = .accepts loaded) :
    ∃ args file, host.commandLine = .args args ∧
      host.loadConfig args.configPath envPrefix listKeys enumKeys = .ok file ∧
      file.config.validate = .ok () ∧ loaded = ⟨file.config, args.logFile.or file.logFile⟩ := by
  unfold processCliArgs at h
  split at h
  · contradiction
  · contradiction
  · rename_i args hargs
    split at h
    · contradiction
    · rename_i file hfile
      split at h
      · contradiction
      · rename_i u hvalid
        refine ⟨args, file, hargs, hfile, hvalid, ?_⟩
        split at h
        · rename_i logFile hflag
          cases h
          rw [hflag]
          rfl
        · rename_i hflag
          cases h
          rw [hflag]
          rfl

theorem processCliArgs_exits {host : Host} {code : UInt8} (h : processCliArgs host = .exits code) :
    (code = 2 ∧ host.commandLine = .usageError) ∨ (code = 0 ∧ host.commandLine = .displays) := by
  unfold processCliArgs at h
  split at h
  · rename_i hline
    cases h
    exact .inr ⟨rfl, hline⟩
  · rename_i hline
    cases h
    exact .inl ⟨rfl, hline⟩
  · split at h
    · contradiction
    · split at h
      · contradiction
      · split at h
        · contradiction
        · contradiction

theorem loaded_valid {host : Host} {loaded : LoadedConfig}
    (h : processCliArgs host = .accepts loaded) : Valid loaded.config := by
  obtain ⟨_, file, _, _, hvalid, rfl⟩ := processCliArgs_accepts h
  exact (validate_ok_iff file.config).mp hvalid

section States

/-- Where `main` stands. -/
inductive Main (C : ClientDeps) where
  | launched (amb : Ambient)
  /-- about to start the log -/
  | configured (loaded : LoadedConfig) (amb : Ambient)
  | measuring (loaded : LoadedConfig) (amb : Ambient) (s : Measurement)
  /-- at the select -/
  | running (m : Sv2CpuMiner) (s : Start C)
  /-- past the select, about to shut the client down -/
  | ending (code : UInt8) (s : Start C)
  | exited (code : UInt8)
  | panicked (reason : String)

inductive MainLabel where
  | loads
  | logs
  | tick (elapsed : ℕ)
  /-- a step of the measurement, at the time of the clock -/
  | measures
  | start (l : StartLabel)
  /-- `ctrl_c` is over: pressed, or without a handler -/
  | ctrlC
  | shutsDown

variable {C : ClientDeps}

/-- `Sv2CpuMiner::new` returns, and `start` is called. -/
def afterMeasuring (loaded : LoadedConfig) (amb : Ambient) (s : Measurement) : Main C :=
  match newMiner loaded.config s, s with
  | some m, _ => .running m (.connecting amb)
  | none, .panicked reason => .panicked reason
  | none, s => .measuring loaded amb s

/-- The select takes the result of `start`. -/
def afterStart (m : Sv2CpuMiner) : Start C → Main C
  | .panicked reason => .panicked reason
  | .failed e => .ending 1 (.failed e)
  | .returned (.ok u) w => .ending 0 (.returned (.ok u) w)
  | .returned (.error e) w => .ending 1 (.returned (.error e) w)
  | s => .running m s

/-- One step of `main`. -/
inductive MainStep (host : Host) : Main C → MainLabel → Main C → Prop
  | exits {amb : Ambient} {code : UInt8} (h : processCliArgs host = .exits code) :
      MainStep host (.launched amb) .loads (.exited code)
  | refused {amb : Ambient} {e : Sv2CpuMinerError} (h : processCliArgs host = .refuses e) :
      MainStep host (.launched amb) .loads (.exited 1)
  | loaded {amb : Ambient} {loaded : LoadedConfig} (h : processCliArgs host = .accepts loaded) :
      MainStep host (.launched amb) .loads (.configured loaded amb)
  | logs {amb : Ambient} {loaded : LoadedConfig} (h : host.initLogging loaded.logFile = none) :
      MainStep host (.configured loaded amb) .logs (.measuring loaded amb .called)
  | cannotLog {amb : Ambient} {loaded : LoadedConfig} {reason : String}
      (h : host.initLogging loaded.logFile = some reason) :
      MainStep host (.configured loaded amb) .logs (.panicked reason)
  | ticks {loaded : LoadedConfig} {amb : Ambient} {s : Measurement} {elapsed : ℕ} :
      MainStep host (.measuring loaded amb s) (.tick elapsed)
        (.measuring loaded { amb with now := amb.now + elapsed } s)
  | measures {loaded : LoadedConfig} {amb : Ambient} {s s' : Measurement}
      (h : measureHashrate C loaded.config.cpuUsagePercent.toNat amb.now s = some s') :
      MainStep host (.measuring loaded amb s) .measures (afterMeasuring loaded amb s')
  | starts {m : Sv2CpuMiner} {s s' : Start C} {l : StartLabel} (h : StartStep m s l s') :
      MainStep host (.running m s) (.start l) (afterStart m s')
  /-- `start` is dropped where it waits -/
  | interrupted {m : Sv2CpuMiner} {s : Start C} :
      MainStep host (.running m s) .ctrlC (.ending 0 s)
  | happens {code : UInt8} {s s' : Start C} {e : WorldEvent} (h : s.happens e = some s') :
      MainStep host (.ending code s) (.start (.event e)) (.ending code s')
  | shutsDown {code : UInt8} {s : Start C} :
      MainStep host (.ending code s) .shutsDown (.exited code)

/-- An executable step: a handler runs without interruption. -/
def Main.execute (host : Host) : Main C → MainLabel → Option (Main C)
  | .launched amb, .loads =>
    match processCliArgs host with
    | .exits code => some (.exited code)
    | .refuses _ => some (.exited 1)
    | .accepts loaded => some (.configured loaded amb)
  | .configured loaded amb, .logs =>
    match host.initLogging loaded.logFile with
    | some reason => some (.panicked reason)
    | none => some (.measuring loaded amb .called)
  | .measuring loaded amb s, .tick elapsed =>
    some (.measuring loaded { amb with now := amb.now + elapsed } s)
  | .measuring loaded amb s, .measures =>
    (measureHashrate C loaded.config.cpuUsagePercent.toNat amb.now s).map
      (afterMeasuring loaded amb)
  | .running m s, .start l => (s.execute m l).map (afterStart m)
  | .running _ s, .ctrlC => some (.ending 0 s)
  | .ending code s, .start (.event e) => (s.happens e).map (.ending code)
  | .ending code _, .shutsDown => some (.exited code)
  | _, _ => none

theorem mainStep_of_execute {host : Host} {s s' : Main C} {l : MainLabel}
    (h : s.execute host l = some s') : MainStep host s l s' := by
  unfold Main.execute at h
  split at h
  case h_1 =>
    split at h
    · rename_i code hexits
      cases h
      exact .exits hexits
    · rename_i e hrefuses
      cases h
      exact .refused hrefuses
    · rename_i loaded hloaded
      cases h
      exact .loaded hloaded
  case h_2 =>
    split at h
    · rename_i reason hreason
      cases h
      exact .cannotLog hreason
    · rename_i hnone
      cases h
      exact .logs hnone
  case h_3 =>
    cases h
    exact .ticks
  case h_4 =>
    obtain ⟨s₁, hs₁, rfl⟩ := Option.map_eq_some_iff.mp h
    exact .measures hs₁
  case h_5 =>
    obtain ⟨s₁, hs₁, rfl⟩ := Option.map_eq_some_iff.mp h
    exact .starts (startStep_of_execute hs₁)
  case h_6 =>
    cases h
    exact .interrupted
  case h_7 =>
    obtain ⟨s₁, hs₁, rfl⟩ := Option.map_eq_some_iff.mp h
    exact .happens hs₁
  case h_8 =>
    cases h
    exact .shutsDown
  case h_9 => contradiction

end States

section Runs

variable {C : ClientDeps} {host : Host}

/-- What happens in `start`. -/
def startLabels (ls : List MainLabel) : List StartLabel :=
  ls.filterMap fun l => match l with
    | .start l => some l
    | _ => none

theorem startLabels_snoc (ls : List MainLabel) (l : MainLabel) :
    startLabels (ls ++ [l]) = startLabels ls ++ startLabels [l] := List.filterMap_append

theorem startLabels_silent {ls : List MainLabel} {l : MainLabel} (hl : startLabels [l] = []) :
    startLabels (ls ++ [l]) = startLabels ls := by
  rw [startLabels_snoc, hl, List.append_nil]

/-- The client has the validated configuration and the hashrate measured for
it, and `start` has come this far. -/
structure Started (host : Host) (ls : List MainLabel) (m : Sv2CpuMiner)
    (s : Start C) : Prop where
  configured : ∃ loaded, processCliArgs host = .accepts loaded ∧ m.config = loaded.config
  measured : ∃ times, Measures C m.config.cpuUsagePercent.toNat times
    (.finished m.nominalHashrate) ∧ times.Pairwise (· ≤ ·)
  run : ∃ amb, Run (StartStep m) (.connecting amb) (startLabels ls) s

/-- The exit status of a binary that has not come as far as its client. -/
inductive Unstarted (host : Host) : UInt8 → Prop
  | usage (h : host.commandLine = .usageError) : Unstarted host 2
  | displayed (h : host.commandLine = .displays) : Unstarted host 0
  | refused {e : Sv2CpuMinerError} (h : processCliArgs host = .refuses e) : Unstarted host 1

/-- The exit status that the select has settled. -/
inductive Status (ls : List MainLabel) (s : Start C) : UInt8 → Prop
  | succeeded (h : resultOf s = some (.ok ())) : Status ls s 0
  | interrupted (h : resultOf s = none) (hctrlC : .ctrlC ∈ ls) : Status ls s 0
  | failed {e : Sv2CpuMinerError} (h : resultOf s = some (.error e)) : Status ls s 1

/-- The measurement has run out of headers. -/
def OutOfHeaders (C : ClientDeps) (host : Host) (reason : String) :
    Prop :=
  ∃ loaded times, processCliArgs host = .accepts loaded ∧
    Measures C loaded.config.cpuUsagePercent.toNat times (.panicked reason) ∧
    emitted (measuring C loaded.config.cpuUsagePercent.toNat) benchmarked .called times =
      firstHeaders (2 ^ 64)

/-- The log could not be started. -/
def CannotLog (host : Host) (reason : String) : Prop :=
  ∃ loaded, processCliArgs host = .accepts loaded ∧ host.initLogging loaded.logFile = some reason

/-- What holds at each point of `main`. -/
def Sound (host : Host) (ls : List MainLabel) : Main C → Prop
  | .launched _ => startLabels ls = []
  | .configured loaded _ => startLabels ls = [] ∧ processCliArgs host = .accepts loaded
  | .measuring loaded amb s => startLabels ls = [] ∧ processCliArgs host = .accepts loaded ∧
    ∃ times, Measures C loaded.config.cpuUsagePercent.toNat times s ∧ times.Pairwise (· ≤ ·) ∧
      ∀ now ∈ times, now ≤ amb.now
  | .running m s => Started host ls m s ∧ resultOf s = none
  | .ending code s => ∃ m, Started host ls m s ∧ Status ls s code
  | .exited code => Unstarted host code ∨ ∃ m, ∃ s : Start C, Started host ls m s ∧ Status ls s code
  | .panicked reason => OutOfHeaders C host reason ∨ CannotLog host reason

theorem Status.later {ls : List MainLabel} {s : Start C} {code : UInt8} (h : Status ls s code)
    (l : MainLabel) : Status (ls ++ [l]) s code := by
  cases h with
  | succeeded h => exact .succeeded h
  | interrupted h hctrlC => exact .interrupted h (List.mem_append_left _ hctrlC)
  | failed h => exact .failed h

theorem Status.congr {ls : List MainLabel} {s s' : Start C} {code : UInt8} (h : Status ls s code)
    (hsame : resultOf s' = resultOf s) : Status ls s' code := by
  cases h with
  | succeeded h => exact .succeeded (hsame.trans h)
  | interrupted h hctrlC => exact .interrupted (hsame.trans h) hctrlC
  | failed h => exact .failed (hsame.trans h)

theorem Started.silent {ls : List MainLabel} {m : Sv2CpuMiner} {s : Start C}
    (h : Started host ls m s) {l : MainLabel} (hl : startLabels [l] = []) :
    Started host (ls ++ [l]) m s := by
  refine ⟨h.configured, h.measured, ?_⟩
  rw [startLabels_silent hl]
  exact h.run

theorem Started.step {ls : List MainLabel} {m : Sv2CpuMiner} {s s' : Start C} {l : StartLabel}
    (h : Started host ls m s) (hstep : StartStep m s l s') :
    Started host (ls ++ [.start l]) m s' := by
  obtain ⟨amb, hrun⟩ := h.run
  refine ⟨h.configured, h.measured, amb, ?_⟩
  rw [startLabels_snoc]
  exact hrun.snoc hstep

theorem Started.never_panics {ls : List MainLabel} {m : Sv2CpuMiner} {s : Start C}
    (h : Started host ls m s) (reason : String) : s ≠ .panicked reason := by
  obtain ⟨loaded, hloaded, hconfig⟩ := h.configured
  obtain ⟨amb, hrun⟩ := h.run
  have hvalid : Valid m.config := by
    rw [hconfig]
    exact loaded_valid hloaded
  exact run_never_panics hvalid hrun reason

theorem afterMeasuring_sound {ls : List MainLabel} {loaded : LoadedConfig} {amb : Ambient}
    {s : Measurement} {times : List Instant} (hls : startLabels ls = [])
    (hloaded : processCliArgs host = .accepts loaded)
    (hrun : Measures C loaded.config.cpuUsagePercent.toNat times s)
    (hclock : times.Pairwise (· ≤ ·)) (hpast : ∀ now ∈ times, now ≤ amb.now) :
    Sound host ls (afterMeasuring (C := C) loaded amb s) := by
  have hvalid := loaded_valid hloaded
  cases s with
  | finished hashrate =>
    refine ⟨⟨⟨loaded, hloaded, rfl⟩, ⟨times, hrun, hclock⟩, amb, ?_⟩, rfl⟩
    rw [hls]
    exact .nil
  | panicked reason =>
    exact .inl ⟨loaded, times, hloaded, hrun, measures_accounted hvalid.cpuUsage.2 hrun hclock⟩
  | _ => exact ⟨hls, hloaded, times, hrun, hclock, hpast⟩

theorem afterStart_sound {ls : List MainLabel} {m : Sv2CpuMiner} {s : Start C}
    (h : Started host ls m s) : Sound host ls (afterStart m s) := by
  cases s with
  | panicked reason => exact absurd rfl (h.never_panics reason)
  | failed e => exact ⟨m, h, .failed rfl⟩
  | returned r w =>
    cases r with
    | ok u => exact ⟨m, h, .succeeded rfl⟩
    | error e => exact ⟨m, h, .failed rfl⟩
  | _ => exact ⟨h, rfl⟩

theorem step_sound {ls : List MainLabel} {s s' : Main C} {l : MainLabel}
    (h : MainStep host s l s') (hs : Sound host ls s) :
    Sound host (ls ++ [l]) s' := by
  cases h with
  | exits hexits =>
    rcases processCliArgs_exits hexits with ⟨rfl, hline⟩ | ⟨rfl, hline⟩
    · exact .inl (.usage hline)
    · exact .inl (.displayed hline)
  | refused hrefuses => exact .inl (.refused hrefuses)
  | loaded hloaded => exact ⟨(startLabels_silent rfl).trans hs, hloaded⟩
  | logs hnone =>
    refine ⟨(startLabels_silent rfl).trans hs.1, hs.2, [], .nil, List.Pairwise.nil, ?_⟩
    intro now hnow
    contradiction
  | cannotLog hreason => exact .inr ⟨_, hs.2, hreason⟩
  | ticks =>
    obtain ⟨hls, hloaded, times, hrun, hclock, hpast⟩ := hs
    refine ⟨(startLabels_silent rfl).trans hls, hloaded, times, hrun, hclock, ?_⟩
    exact fun now hnow => (hpast now hnow).trans (Nat.le_add_right _ _)
  | @measures loaded amb s s' hstep =>
    obtain ⟨hls, hloaded, times, hrun, hclock, hpast⟩ := hs
    refine afterMeasuring_sound ((startLabels_silent rfl).trans hls) hloaded (hrun.snoc hstep) ?_ ?_
    · refine List.pairwise_append.mpr ⟨hclock, List.pairwise_singleton _ _, ?_⟩
      intro past hmem now hnow
      rw [List.mem_singleton.mp hnow]
      exact hpast past hmem
    · intro now hnow
      rcases List.mem_append.mp hnow with hold | hlast
      · exact hpast now hold
      · rw [List.mem_singleton.mp hlast]
  | starts hstep => exact afterStart_sound (hs.1.step hstep)
  | interrupted => exact ⟨_, hs.1.silent rfl, .interrupted hs.2 (by simp)⟩
  | happens hevent =>
    obtain ⟨m, hstarted, hstatus⟩ := hs
    exact ⟨m, hstarted.step (.control hevent), (hstatus.congr (happens_result hevent)).later _⟩
  | shutsDown =>
    obtain ⟨m, hstarted, hstatus⟩ := hs
    exact .inr ⟨m, _, hstarted.silent rfl, hstatus.later _⟩

theorem run_sound {amb : Ambient} {ls : List MainLabel} {s : Main C}
    (hrun : Run (MainStep host) (.launched amb) ls s) : Sound host ls s := by
  have hstart : Sound host [] (.launched amb : Main C) := (rfl : startLabels [] = [])
  refine Run.history (I := Sound host) hstart ?_ hrun
  exact fun ls s l s' _ hs hstep => step_sound hstep hs

end Runs

/-- The exit status is 2 for a usage error, 1 when the configuration was not
accepted or `start` returned an error, and 0 when only something had to be
displayed, `start` returned `Ok` or was interrupted; a client that was started
has a validated configuration and the hashrate that was measured for it. -/
theorem main_exits_for_a_reason (C : ClientDeps) (host : Host) (amb : Ambient)
    (ls : List MainLabel) (code : UInt8)
    (hrun : Run (MainStep (C := C) host) (.launched amb) ls (.exited code)) :
    Unstarted host code ∨ ∃ m, ∃ s : Start C, Started host ls m s ∧ Status ls s code :=
  run_sound hrun

/-- Whatever is configured, and whatever the server and the user do, `main`
does not panic unless the measurement has hashed all its `2 ^ 64` headers or
the log cannot be started. -/
theorem main_does_not_panic (C : ClientDeps) (host : Host) (amb : Ambient) (ls : List MainLabel)
    (s : Main C) (hrun : Run (MainStep host) (.launched amb) ls s) (reason : String) :
    s ≠ .panicked reason ∨ OutOfHeaders C host reason ∨ CannotLog host reason := by
  by_cases hpanicked : s = .panicked reason
  · have hsound := run_sound hrun
    rw [hpanicked] at hsound
    exact .inr hsound
  · exact .inl hpanicked

/-- A configuration file for one standard channel; one directory cannot be written. -/
def sampleHost : Host where
  commandLine := .args ⟨"config.toml", some "miner.log"⟩
  loadConfig path _ _ _ :=
    if path = "config.toml" then .ok ⟨sampleMiner.config, none⟩ else .error "not found"
  initLogging logFile := if logFile = some "/miner.log" then some "permission denied" else none

/-- The log is started, one header is hashed in the second, the channel is
opened and mines until the server closes the connection. -/
def sampleProgram : List MainLabel :=
  [.loads, .logs, .measures, .measures, .measures, .measures, .tick 1000000000, .measures,
    .measures] ++ sampleConnection.map .start ++
  [.start (.receives none), .start (.event (.tick 1)), .shutsDown]

/-- The exit status, once `main` has returned. -/
def exitCode : Main sampleClient → Option UInt8
  | .exited code => some code
  | _ => none

theorem sampleProgram_runs : ∃ s : Main sampleClient,
    Run (MainStep sampleHost) (.launched ⟨0, false⟩) sampleProgram s ∧ s = .exited 0 := by
  have hplay : (play (Main.execute sampleHost)
      (.launched ⟨0, false⟩ : Main sampleClient) sampleProgram).bind exitCode = some 0 := by
    decide +kernel
  obtain ⟨s, hs, hcode⟩ := Option.bind_eq_some_iff.mp hplay
  refine ⟨s, run_of_play (f := Main.execute sampleHost)
    (fun _ _ _ h => mainStep_of_execute h) hs, ?_⟩
  cases s with
  | exited code => exact congrArg Main.exited (Option.some.inj hcode)
  | _ => contradiction

theorem sample_main_exits :
    ∃ m, ∃ s : Start sampleClient, Started sampleHost sampleProgram m s ∧
      Status sampleProgram s 0 := by
  obtain ⟨s, hrun, hs⟩ := sampleProgram_runs
  rw [hs] at hrun
  rcases main_exits_for_a_reason sampleClient sampleHost ⟨0, false⟩ sampleProgram 0 hrun with
    hunstarted | hexits
  · generalize hcode : (0 : UInt8) = code at hunstarted
    cases hunstarted <;> contradiction
  · exact hexits

theorem sample_main_does_not_panic :
    ∃ s : Main sampleClient, s = .exited 0 ∧
      (s ≠ .panicked "attempt to add with overflow" ∨
        OutOfHeaders sampleClient sampleHost "attempt to add with overflow" ∨
          CannotLog sampleHost "attempt to add with overflow") := by
  obtain ⟨s, hrun, hs⟩ := sampleProgram_runs
  exact ⟨s, hs, main_does_not_panic sampleClient sampleHost ⟨0, false⟩ sampleProgram s hrun _⟩

end CpuMinerSv2.Binary
