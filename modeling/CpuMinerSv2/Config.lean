import CpuMinerSv2.Messages

/-!
The configuration of one run, and the address of the mining server taken
apart as Rust's string functions do it.
-/

namespace CpuMinerSv2.Config

open Messages

structure Sv2CpuMinerConfig where
  serverAddr : String
  nExtendedChannels : UInt8
  nStandardChannels : UInt8
  userIdentity : String
  deviceId : String
  singleSubmit : Bool
  cpuUsagePercent : UInt64
  nominalHashrateMultiplier : F32
  requiresStandardJobs : Bool

/-- `str::rsplit_once`: split at the last occurrence. -/
def rsplitOnce (delimiter : Char) : List Char → Option (List Char × List Char)
  | [] => none
  | c :: rest =>
    match rsplitOnce delimiter rest with
    | some (before, after) => some (c :: before, after)
    | none => if c = delimiter then some ([], rest) else none

/-- The value of a string of decimal digits. -/
def digitsValue (digits : List Char) : ℕ :=
  digits.foldl (fun value c => 10 * value + (c.toNat - '0'.toNat)) 0

/-- `str::parse::<u16>`: an optional plus sign, then at least one digit. -/
def parseU16 (s : List Char) : Option UInt16 :=
  let digits := match s with
    | '+' :: rest => rest
    | _ => s
  if digits ≠ [] ∧ digits.all Char.isDigit ∧ digitsValue digits < 2 ^ 16 then
    some (UInt16.ofNat (digitsValue digits))
  else none

/-- `trim_start_matches`, then `trim_end_matches`. -/
def trimBrackets (s : List Char) : List Char :=
  ((s.dropWhile (· == '[')).reverse.dropWhile (· == ']')).reverse

def Sv2CpuMinerConfig.serverHostAndPort (config : Sv2CpuMinerConfig) :
    Except Sv2CpuMinerError (String × UInt16) :=
  match rsplitOnce ':' config.serverAddr.toList with
  | none => .error (.invalidConfig "server_addr must be in host:port form")
  | some (host, port) =>
    match parseU16 port with
    | none => .error (.invalidConfig "server_addr port must be a number between 0 and 65535")
    | some port => .ok (String.ofList (trimBrackets host), port)

/-- Whether a string fits the wire type of at most 255 bytes. -/
def fitsStr0255 (s : String) : Bool := s.utf8ByteSize ≤ 255

/-- `x <= 0.0`, false of a number that is no number. -/
def nonpositive : F32 → Bool
  | .finite q => q ≤ 0
  | .infinite negative => negative
  | .nan => false

/-- The invariants the rest of the miner relies on. -/
def Sv2CpuMinerConfig.validate (config : Sv2CpuMinerConfig) : Except Sv2CpuMinerError Unit :=
  match config.serverHostAndPort with
  | .error e => .error e
  | .ok (host, _) =>
    if host.isEmpty || 255 < host.utf8ByteSize then
      .error (.invalidConfig "server_addr host must be between 1 and 255 bytes")
    else if nonpositive config.nominalHashrateMultiplier then
      .error (.invalidConfig "nominal_hashrate_multiplier must be greater than 0.0")
    else if config.cpuUsagePercent = 0 ∨ 100 < config.cpuUsagePercent then
      .error (.invalidConfig "cpu_usage_percent must be between 1 and 100")
    else if config.nStandardChannels = 0 ∧ config.nExtendedChannels = 0 then
      .error (.invalidConfig "n_standard_channels and n_extended_channels cannot both be 0")
    else if config.requiresStandardJobs ∧ 0 < config.nExtendedChannels then
      .error (.invalidConfig "n_extended_channels must be 0 when requires_standard_jobs is true")
    else if 255 < config.userIdentity.utf8ByteSize then
      .error (.invalidConfig "user_identity must be at most 255 bytes")
    else if 255 < config.deviceId.utf8ByteSize then
      .error (.invalidConfig "device_id must be at most 255 bytes")
    else .ok ()

/-- What a validated configuration promises. -/
structure Valid (config : Sv2CpuMinerConfig) : Prop where
  host : ∃ host port, config.serverHostAndPort = .ok (host, port) ∧ host.isEmpty = false ∧
    fitsStr0255 host = true
  multiplier : nonpositive config.nominalHashrateMultiplier = false
  cpuUsage : 1 ≤ config.cpuUsagePercent.toNat ∧ config.cpuUsagePercent.toNat ≤ 100
  channels : 0 < config.nStandardChannels.toNat + config.nExtendedChannels.toNat
  standardJobs : config.requiresStandardJobs = true → config.nExtendedChannels = 0
  userIdentity : fitsStr0255 config.userIdentity = true
  deviceId : fitsStr0255 config.deviceId = true

theorem check_ok_iff {condition : Prop} [Decidable condition] {e : Sv2CpuMinerError}
    {rest : Except Sv2CpuMinerError Unit} :
    (if condition then .error e else rest) = .ok () ↔ ¬ condition ∧ rest = .ok () := by
  by_cases h : condition
  · rw [if_pos h]
    exact iff_of_false (fun hok => nomatch hok) (fun hboth => hboth.1 h)
  · rw [if_neg h]
    exact (and_iff_right h).symm

/-- `validate` accepts exactly the valid configurations. -/
theorem validate_ok_iff (config : Sv2CpuMinerConfig) : config.validate = .ok () ↔ Valid config := by
  unfold Sv2CpuMinerConfig.validate
  cases hhost : config.serverHostAndPort with
  | error e =>
    refine iff_of_false (fun hok => nomatch hok) ?_
    intro hvalid
    obtain ⟨host, port, hok, _⟩ := hvalid.host
    rw [hhost] at hok
    contradiction
  | ok address =>
    simp only [check_ok_iff, and_true]
    constructor
    · intro hchecks
      obtain ⟨hlength, hmultiplier, hcpu, hchannels, hstd, huser, hdevice⟩ := hchecks
      simp only [Bool.or_eq_true, decide_eq_true_eq, not_or, Bool.not_eq_true] at hlength
      refine ⟨⟨_, _, hhost, hlength.1, ?_⟩, Bool.eq_false_iff.mpr hmultiplier, ?_, ?_, ?_, ?_, ?_⟩
      · simpa [fitsStr0255] using hlength.2
      · simp only [← UInt64.toNat_inj, UInt64.lt_iff_toNat_lt] at hcpu
        change ¬ (config.cpuUsagePercent.toNat = 0 ∨ 100 < config.cpuUsagePercent.toNat) at hcpu
        omega
      · simp only [← UInt8.toNat_inj] at hchannels
        change ¬ (config.nStandardChannels.toNat = 0 ∧ config.nExtendedChannels.toNat = 0)
          at hchannels
        omega
      · intro hrequires
        by_contra hne
        exact hstd ⟨hrequires, UInt8.pos_iff_ne_zero.mpr hne⟩
      · simpa [fitsStr0255] using huser
      · simpa [fitsStr0255] using hdevice
    · intro hvalid
      obtain ⟨⟨host, port, hok, hnonempty, hfits⟩, hmultiplier, hcpu, hchannels, hstd, huser,
        hdevice⟩ := hvalid
      cases hhost.symm.trans hok
      refine ⟨?_, Bool.eq_false_iff.mp hmultiplier, ?_, ?_, ?_, ?_, ?_⟩
      · simpa [fitsStr0255, hnonempty] using hfits
      · simp only [← UInt64.toNat_inj, UInt64.lt_iff_toNat_lt]
        change ¬ (config.cpuUsagePercent.toNat = 0 ∨ 100 < config.cpuUsagePercent.toNat)
        omega
      · simp only [← UInt8.toNat_inj]
        change ¬ (config.nStandardChannels.toNat = 0 ∧ config.nExtendedChannels.toNat = 0)
        omega
      · intro hboth
        rw [hstd hboth.1] at hboth
        exact absurd hboth.2 (by decide)
      · simpa [fitsStr0255] using huser
      · simpa [fitsStr0255] using hdevice

end CpuMinerSv2.Config
