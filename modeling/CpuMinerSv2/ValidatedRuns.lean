import CpuMinerSv2.ConfigBounds
import CpuMinerSv2.Handshake
import CpuMinerSv2.Hashrate
import CpuMinerSv2.MineableJobs
import CpuMinerSv2.MinerInvariants

/-!
What the rest of the miner takes from `validate` without checking it again:
that the address can be read, that the strings fit their wire type, that the
throttle window is as long as the work in it, and that there is a channel to
share the hashrate among. The percentage goes through the manager into every
miner, and no step changes it there.
-/

namespace CpuMinerSv2.ValidatedRuns

open Messages Channels Primitives Interference MineJob MinerMethods TaskSteps MinerRuns Manager
  ManagerFrames Deliveries Registry HandlerRuns GroupRefinement MinerInvariants MineableJobs Config
  ConfigBounds Client Handshake Hashrate SampleDeps SampleWorlds

section Rigs

variable {K : ClientChannel}

/-- A miner at this percentage, none of whose tasks has failed to compute the
rest of its window. -/
structure Throttles (cpuUsagePercent : ℕ) (m : ChannelMiner K) : Prop where
  percent : m.cpuUsagePercent = cpuUsagePercent
  met : AllPhases (fun phase => phase ≠ .panicked "attempt to subtract with overflow") m

theorem taskStep_cpuUsagePercent {m m' : ChannelMiner K} {amb : Ambient} {i : ℕ}
    (h : TaskStep m amb i m') : m'.cpuUsagePercent = m.cpuUsagePercent := by
  cases h <;> rfl

theorem Advance.no_sleep_overflow {m : ChannelMiner K} {cancelled : Bool} {p p' : Phase K}
    (h : Advance m cancelled p p') (hcpu : m.cpuUsagePercent ≤ 100) :
    p' ≠ .panicked "attempt to subtract with overflow" := by
  cases h with
  | sleepOverflow hnone =>
    rw [sleepDurationMs_eq_some _ hcpu] at hnone
    contradiction
  | _ => simp

theorem buildShare_no_sleep_overflow {channel : K.Channel} {job : JobInHand K} {roll : Rolling}
    {ntime : UInt32} {reason : String} (h : buildShare channel job roll ntime = .error reason) :
    reason ≠ "attempt to subtract with overflow" := by
  unfold buildShare at h
  split at h
  · cases h
    decide
  · split at h
    · cases h
      decide
    · contradiction

theorem taskStep_throttles {cpuUsagePercent : ℕ} (hcpu : cpuUsagePercent ≤ 100)
    {m m' : ChannelMiner K} {amb : Ambient} {i : ℕ} (hstep : TaskStep m amb i m')
    (h : Throttles cpuUsagePercent m) : Throttles cpuUsagePercent m' := by
  refine ⟨(taskStep_cpuUsagePercent hstep).trans h.percent, ?_⟩
  refine taskStep_phases hstep h.met ?_ ?_ ?_ ?_
  · exact fun _ _ _ ha => Advance.no_sleep_overflow ha (h.percent ▸ hcpu)
  · intro job roll ntime reason _ herror hp
    exact buildShare_no_sleep_overflow herror (Phase.panicked.inj hp)
  · rintro _ _ hand _ _ hphase' rfl
    contradiction
  · exact ⟨(fun hp => nomatch hp), (fun hp => nomatch hp)⟩

theorem others_throttles {cpuUsagePercent : ℕ} (hcpu : cpuUsagePercent ≤ 100) {r r' : Rig K}
    (h : Others Unrestricted r r') (hr : Throttles cpuUsagePercent r.miner) :
    Throttles cpuUsagePercent r'.miner := by
  refine others_preserve (I := fun r => Throttles cpuUsagePercent r.miner) ?_ h hr
  exact interferes_preserve (fun _ _ _ _ hstep hm => taskStep_throttles hcpu hstep hm)

theorem call_throttles {cpuUsagePercent : ℕ} (hcpu : cpuUsagePercent ≤ 100) {c : Call K}
    {r r' : Rig K} {res : Except Sv2CpuMinerError Unit}
    (h : Runs (Interferes Unrestricted) c.program r res r')
    (hr : Throttles cpuUsagePercent r.miner) : Throttles cpuUsagePercent r'.miner := by
  refine call_preserve (I := fun r => Throttles cpuUsagePercent r.miner) ?_ ?_ ?_ ?_ h hr
  · exact fun a b hab ha => others_throttles hcpu (.single hab) ha
  · exact fun _ ha => ⟨ha.percent, ha.met⟩
  · intro a ha
    refine ⟨?_, cancelPast_phases ha.met⟩
    have hsame : (cancelPastTask a.miner).cpuUsagePercent = a.miner.cpuUsagePercent := by
      unfold cancelPastTask
      split <;> rfl
    exact hsame.trans ha.percent
  · exact fun _ ha => ⟨ha.percent, spawn_phases ha.met (fun hp => nomatch hp)⟩

theorem new_throttles (channel : K.Channel) (cpuUsagePercent : ℕ) (singleSubmit : Bool) :
    Throttles cpuUsagePercent (new channel cpuUsagePercent singleSubmit : ChannelMiner K) := by
  refine ⟨rfl, ?_⟩
  intro i task ht
  simp [new] at ht

end Rigs

section Worlds

variable {D : Deps}

/-- The manager hands this percentage to its miners, and has handed it to all
of them. -/
structure WorldThrottles (cpuUsagePercent : ℕ) (w : World D) : Prop where
  grouped : WellGrouped w
  percent : w.manager.cpuUsagePercent = cpuUsagePercent
  miners : AllMiners (fun _ m => Throttles cpuUsagePercent m) w

theorem initial_throttles (userIdentity : String) (nominalHashrate : F32) (singleSubmit : Bool)
    (cpuUsagePercent : ℕ) (requiresStandardJobs : Bool) (amb : Ambient) :
    WorldThrottles cpuUsagePercent (World.initial (ChannelManager.new userIdentity nominalHashrate
      singleSubmit cpuUsagePercent requiresStandardJobs : ChannelManager D) amb) := by
  refine ⟨initial_wellGrouped _ _ _ _ _ _, rfl, ?_⟩
  intro kind place miner hm
  cases kind <;> cases place <;> exact nomatch hm

theorem step_throttles (hD : GroupContract D.group) {cpuUsagePercent : ℕ}
    (hcpu : cpuUsagePercent ≤ 100) {w w' : World D} {l : WorldLabel} (h : WorldStep w l w')
    (hw : WorldThrottles cpuUsagePercent w) : WorldThrottles cpuUsagePercent w' := by
  have hsettings := step_settings hD hw.grouped.nonempty h
  have hpercent : w'.manager.cpuUsagePercent = w.manager.cpuUsagePercent :=
    congrArg (fun s => s.2.2.2.1) hsettings
  refine ⟨step_wellGrouped hD hw.grouped h, hpercent.trans hw.percent, ?_⟩
  refine step_allMiners hD ?_ ?_ ?_ hw.grouped.nonempty h hw.miners
  · exact fun _ _ _ hothers hr => others_throttles hcpu hothers hr
  · intro _ _ o channel _ _ _ _
    rw [hw.percent]
    exact new_throttles channel _ _
  · exact fun _ _ _ _ _ _ _ _ _ _ _ hcall hr => call_throttles hcpu hcall hr

theorem worldOthers_throttles (hD : GroupContract D.group) {cpuUsagePercent : ℕ}
    (hcpu : cpuUsagePercent ≤ 100) {w w' : World D} (h : WorldOthers w w')
    (hw : WorldThrottles cpuUsagePercent w) : WorldThrottles cpuUsagePercent w' := by
  induction h with
  | refl => exact hw
  | tail _ hevent ih =>
    obtain ⟨e, he⟩ := hevent
    exact step_throttles hD hcpu (.event he) ih

end Worlds

section Start

variable {C : ClientDeps}

/-- The world of `start` is the one before it after some events, or new. -/
inductive WorldAfter (m : Sv2CpuMiner) (s : Start C) (w' : World C.toDeps) : Prop
  | goesOn {w : World C.toDeps} (hw : worldOf s = some w) (h : WorldOthers w w')
  | made (amb : Ambient) (h : w' = World.initial (ChannelManager.new m.config.userIdentity
      (nominalHashratePerChannel m) m.config.singleSubmit m.config.cpuUsagePercent.toNat
      m.config.requiresStandardJobs) amb)

theorem worldOf_openNext {m : Sv2CpuMiner} {w w' : World C.toDeps}
    {requests : List ClientMessage} (h : worldOf (openNext m w requests) = some w') : w' = w := by
  cases requests with
  | nil =>
    cases h
    rfl
  | cons request rest =>
    cases hfits : fitsStr0255 m.config.userIdentity with
    | false =>
      simp only [openNext, hfits] at h
      contradiction
    | true =>
      simp only [openNext, hfits] at h
      exact (Option.some.inj h).symm

theorem happens_world {m : Sv2CpuMiner} {s s' : Start C} {e : WorldEvent}
    (h : s.happens e = some s') {w' : World C.toDeps} (hw' : worldOf s' = some w') :
    WorldAfter m s w' := by
  have hmap : ∀ {w : World C.toDeps} {f : World C.toDeps → Start C}, worldOf s = some w →
      (∀ a, worldOf (f a) = some a) → (w.advance e).map f = some s' → WorldAfter m s w' := by
    intro w f hw hf hmoved
    obtain ⟨a, ha, rfl⟩ := Option.map_eq_some_iff.mp hmoved
    cases (hf a).symm.trans hw'
    exact .goesOn hw (.single ⟨e, ha⟩)
  cases s with
  | opening w requests => exact hmap rfl (fun _ => rfl) h
  | serving w => exact hmap rfl (fun _ => rfl) h
  | returned r w => exact hmap rfl (fun _ => rfl) h
  | failed e => contradiction
  | panicked reason => contradiction
  | _ =>
    obtain ⟨_, _, rfl⟩ := Option.map_eq_some_iff.mp h
    contradiction

theorem worldOf_beginHandshake (m : Sv2CpuMiner) (amb : Ambient) :
    worldOf (beginHandshake C m amb) = none := by
  unfold beginHandshake
  split
  · rfl
  · split
    · rfl
    · split
      · rfl
      · rfl

theorem advance_world {m : Sv2CpuMiner} {s s' : Start C} {l : StartLabel}
    (h : s.advance m l = some s') {w' : World C.toDeps} (hw' : worldOf s' = some w') :
    WorldAfter m s w' := by
  cases control_cases h with
  | happens h => exact happens_world h hw'
  | connects =>
    rw [worldOf_beginHandshake] at hw'
    contradiction
  | replied =>
    unfold afterReply at hw'
    split at hw'
    · contradiction
    · exact .made _ (worldOf_openNext hw')
  | requested => exact .goesOn rfl (worldOf_openNext hw' ▸ .refl)
  | noRequest => exact .goesOn rfl (Option.some.inj hw' ▸ .refl)
  | stopped => exact .goesOn rfl (Option.some.inj hw' ▸ .refl)
  | closed =>
    -- a cancellation is the event of a shutdown
    cases hw'
    exact .goesOn rfl (.single ⟨.shutdown, rfl⟩)
  | unparsed => exact .goesOn rfl (Option.some.inj hw' ▸ .refl)
  | _ => contradiction

theorem startStep_throttles (hD : GroupContract C.group) {m : Sv2CpuMiner}
    (hcpu : m.config.cpuUsagePercent.toNat ≤ 100) {s s' : Start C} {l : StartLabel}
    (h : StartStep m s l s')
    (hs : ∀ w, worldOf s = some w → WorldThrottles m.config.cpuUsagePercent.toNat w) :
    ∀ w', worldOf s' = some w' → WorldThrottles m.config.cpuUsagePercent.toNat w' := by
  intro w' hw'
  cases h with
  | control h =>
    cases advance_world h hw' with
    | goesOn hw hothers => exact worldOthers_throttles hD hcpu hothers (hs _ hw)
    | made amb h =>
      rw [h]
      exact initial_throttles _ _ _ _ _ _
  | @frame w w₁ frame message r hm hrun =>
    have hsame : w' = w₁ := by
      cases r with
      | ok u => exact (Option.some.inj hw').symm
      | error e => exact (Option.some.inj hw').symm
    rw [hsame]
    exact step_throttles hD hcpu (.message hrun) (hs w rfl)

theorem run_throttles (hD : GroupContract C.group) {m : Sv2CpuMiner}
    (hcpu : m.config.cpuUsagePercent.toNat ≤ 100) {amb : Ambient} {ls : List StartLabel}
    {s : Start C} (hrun : Run (StartStep m) (.connecting amb) ls s) :
    ∀ w, worldOf s = some w → WorldThrottles m.config.cpuUsagePercent.toNat w := by
  refine hrun.invariant (I := fun s => ∀ w, worldOf s = some w →
    WorldThrottles m.config.cpuUsagePercent.toNat w) ?_ (fun _ hw => nomatch hw)
  exact fun _ _ _ hs hstep => startStep_throttles hD hcpu hstep hs

theorem beginHandshake_of_valid {m : Sv2CpuMiner} (hvalid : Valid m.config) (amb : Ambient) :
    ∃ host port, m.config.serverHostAndPort = .ok (host, port) ∧ host.utf8ByteSize < 256 ∧
      beginHandshake C m amb = .handshaking amb (setupConnection C m.config host port) := by
  obtain ⟨host, port, haddr, _, hhost⟩ := hvalid.host
  refine ⟨host, port, haddr, Nat.lt_succ_of_le ((fitsStr0255_iff host).mp hhost), ?_⟩
  simp only [beginHandshake, haddr, hhost, hvalid.deviceId]
  rfl

theorem run_never_panics {m : Sv2CpuMiner} (hvalid : Valid m.config) {amb : Ambient}
    {ls : List StartLabel} {s : Start C} (hrun : Run (StartStep m) (.connecting amb) ls s)
    (reason : String) : s ≠ .panicked reason := by
  intro hs
  have hinv := run_negotiated hvalid hrun
  rw [hs] at hinv
  exact hinv

/-- What the code takes from `validate` holds wherever it is used. -/
structure ReliedOn (C : ClientDeps) (config : Sv2CpuMinerConfig) : Prop where
  /-- the address and the strings of the handshake and of the requests -/
  handshake : ∀ m : Sv2CpuMiner, m.config = config → ∀ amb, ∃ host port,
    config.serverHostAndPort = .ok (host, port) ∧ host.utf8ByteSize < 256 ∧
      beginHandshake C m amb = .handshaking amb (setupConnection C config host port)
  identities : config.userIdentity.utf8ByteSize < 256 ∧ config.deviceId.utf8ByteSize < 256
  /-- with or without checks, the subtraction is the one of whole numbers -/
  sleep : ∀ overflowChecks, ∃ duration,
    sleepDurationMs overflowChecks config.cpuUsagePercent.toNat = some duration ∧
      config.cpuUsagePercent.toNat + duration = cpuThrottleWindowMs
  divisor : ∀ m : Sv2CpuMiner, m.config = config → ∃ total : ℚ, 0 < total ∧
    nominalHashratePerChannel m = SinglePrecision.div m.nominalHashrate (.finite total)
  /-- every run of the measurement -/
  measurement : ∀ times s, Measures C config.cpuUsagePercent.toNat times s →
    s ≠ .panicked "attempt to subtract with overflow"
  /-- every run of `start`, on whatever hashrate was measured -/
  start : ∀ m : Sv2CpuMiner, m.config = config → ∀ amb ls s,
    Run (StartStep m) (.connecting amb) ls s → ∀ reason, s ≠ Start.panicked (C := C) reason
  /-- every task spawned in such a run -/
  tasks : GroupContract C.group → ∀ m : Sv2CpuMiner, m.config = config → ∀ amb ls s,
    Run (StartStep m) (.connecting amb) ls s → ∀ w : World C.toDeps, worldOf s = some w →
      ∀ kind place miner, w.minerAt kind place = some miner →
        miner.cpuUsagePercent = config.cpuUsagePercent.toNat ∧
          ∀ task ∈ miner.tasks, task.phase ≠ .panicked "attempt to subtract with overflow"

/-- Nothing that relies on `validate` fails for a configuration it accepts. -/
theorem validated_config_relied_on (C : ClientDeps) (config : Sv2CpuMinerConfig)
    (hok : config.validate = .ok ()) : ReliedOn C config := by
  have hvalid := (validate_ok_iff config).mp hok
  have hcpu := hvalid.cpuUsage.2
  refine ⟨?_, ⟨?_, ?_⟩, ?_, ?_, ?_, ?_, ?_⟩
  · rintro m rfl amb
    exact beginHandshake_of_valid hvalid amb
  · exact Nat.lt_succ_of_le ((fitsStr0255_iff _).mp hvalid.userIdentity)
  · exact Nat.lt_succ_of_le ((fitsStr0255_iff _).mp hvalid.deviceId)
  · intro overflowChecks
    exact ⟨_, sleepDurationMs_eq_some overflowChecks hcpu, Nat.add_sub_of_le hcpu⟩
  · rintro m rfl
    have hstd := m.config.nStandardChannels.toNat_lt
    have hext := m.config.nExtendedChannels.toNat_lt
    have hexact := SinglePrecision.add_ofNat
      (a := m.config.nStandardChannels.toNat) (b := m.config.nExtendedChannels.toNat) (by omega)
    refine ⟨_, ?_, congrArg (SinglePrecision.div m.nominalHashrate) hexact⟩
    exact_mod_cast hvalid.channels
  · intro times s hrun
    exact (measures_throttled hcpu hrun).met
  · rintro m rfl amb ls s hrun reason
    exact run_never_panics hvalid hrun reason
  · rintro hD m rfl amb ls s hrun w hw kind place miner hm
    have hthrottles := (run_throttles hD hcpu hrun w hw).miners kind place miner hm
    refine ⟨hthrottles.percent, ?_⟩
    intro task htask
    obtain ⟨i, hi⟩ := List.mem_iff_getElem?.mp htask
    exact hthrottles.met i task hi

theorem sample_config_relied_on :
    ReliedOn sampleClient sampleMiner.config ∧ GroupContract sampleClient.group :=
  ⟨validated_config_relied_on sampleClient sampleMiner.config (by decide +kernel),
    sample_groupContract⟩

theorem new_miner_never_panics {config : Sv2CpuMinerConfig} (hok : config.validate = .ok ())
    {s : Measurement} {m : Sv2CpuMiner} (hnew : newMiner config s = some m) {amb : Ambient}
    {ls : List StartLabel} {s' : Start C} (hrun : Run (StartStep m) (.connecting amb) ls s')
    (reason : String) : s' ≠ .panicked reason := by
  rw [← newMiner_config hnew] at hok
  exact run_never_panics ((validate_ok_iff m.config).mp hok) hrun reason

end Start

end CpuMinerSv2.ValidatedRuns
