import CpuMinerSv2.ServerAddr

/-!
The documented bounds of a configuration against the ones `validate` checks.
They differ on one value: the multiplier is refused when it is at most zero,
which is not the same as not being above zero where numbers need not compare.
-/

namespace CpuMinerSv2.ConfigBounds

open Messages Config ServerAddr

/-- `x > 0.0`, false of a number that is no number. -/
def positive : F32 → Bool
  | .finite q => 0 < q
  | .infinite negative => !negative
  | .nan => false

/-- The documented bounds but the one of the multiplier. -/
structure OtherBounds (config : Sv2CpuMinerConfig) : Prop where
  host : ∃ host port, config.serverHostAndPort = .ok (host, port) ∧
    1 ≤ host.utf8ByteSize ∧ host.utf8ByteSize ≤ 255
  cpuUsage : 1 ≤ config.cpuUsagePercent ∧ config.cpuUsagePercent ≤ 100
  channels : 0 < config.nStandardChannels ∨ 0 < config.nExtendedChannels
  standardJobs : config.requiresStandardJobs = true → config.nExtendedChannels = 0
  userIdentity : config.userIdentity.utf8ByteSize ≤ 255
  deviceId : config.deviceId.utf8ByteSize ≤ 255

/-- The documented bounds. -/
structure Documented (config : Sv2CpuMinerConfig) : Prop extends OtherBounds config where
  multiplier : positive config.nominalHashrateMultiplier = true

theorem nonpositive_eq_false_iff (x : F32) :
    nonpositive x = false ↔ positive x = true ∨ x = .nan := by
  cases x with
  | finite q => simp [nonpositive, positive]
  | infinite negative => simp [nonpositive, positive]
  | nan => simp [nonpositive]

theorem fitsStr0255_iff (s : String) : fitsStr0255 s = true ↔ s.utf8ByteSize ≤ 255 :=
  decide_eq_true_iff

theorem isEmpty_eq_false_iff (s : String) : s.isEmpty = false ↔ 1 ≤ s.utf8ByteSize := by
  rw [Nat.one_le_iff_ne_zero]
  exact beq_eq_false_iff_ne

theorem valid_iff (config : Sv2CpuMinerConfig) :
    Valid config ↔
      OtherBounds config ∧ nonpositive config.nominalHashrateMultiplier = false := by
  constructor
  · intro h
    obtain ⟨host, port, haddr, hnonempty, hfits⟩ := h.host
    refine ⟨⟨⟨host, port, haddr, ?_, ?_⟩, ?_, ?_, h.standardJobs, ?_, ?_⟩, h.multiplier⟩
    · exact (isEmpty_eq_false_iff host).mp hnonempty
    · exact (fitsStr0255_iff host).mp hfits
    · exact h.cpuUsage.imp UInt64.le_iff_toNat_le.mpr UInt64.le_iff_toNat_le.mpr
    · have hpos := h.channels
      simp only [UInt8.lt_iff_toNat_lt]
      change 0 < config.nStandardChannels.toNat ∨ 0 < config.nExtendedChannels.toNat
      omega
    · exact (fitsStr0255_iff _).mp h.userIdentity
    · exact (fitsStr0255_iff _).mp h.deviceId
  · intro h
    obtain ⟨hbounds, hmultiplier⟩ := h
    obtain ⟨host, port, haddr, hpos, hle⟩ := hbounds.host
    refine ⟨⟨host, port, haddr, ?_, ?_⟩, hmultiplier, ?_, ?_, hbounds.standardJobs, ?_, ?_⟩
    · exact (isEmpty_eq_false_iff host).mpr hpos
    · exact (fitsStr0255_iff host).mpr hle
    · exact hbounds.cpuUsage.imp UInt64.le_iff_toNat_le.mp UInt64.le_iff_toNat_le.mp
    · have hpos := hbounds.channels
      simp only [UInt8.lt_iff_toNat_lt] at hpos
      change 0 < config.nStandardChannels.toNat ∨ 0 < config.nExtendedChannels.toNat at hpos
      omega
    · exact (fitsStr0255_iff _).mpr hbounds.userIdentity
    · exact (fitsStr0255_iff _).mpr hbounds.deviceId

/-- `validate` accepts the other bounds with a multiplier above zero or with
one that is no number. -/
theorem validate_iff (config : Sv2CpuMinerConfig) :
    config.validate = .ok () ↔ OtherBounds config ∧
      (positive config.nominalHashrateMultiplier = true ∨
        config.nominalHashrateMultiplier = .nan) := by
  rw [validate_ok_iff, valid_iff, nonpositive_eq_false_iff]

/-- Acceptance is documented unless nothing but the multiplier is amiss, and
that is no number. -/
theorem validate_as_documented_iff (config : Sv2CpuMinerConfig) :
    (config.validate = .ok () ↔ Documented config) ↔
      (config.nominalHashrateMultiplier ≠ .nan ∨ ¬ OtherBounds config) := by
  rw [validate_iff]
  constructor
  · intro hsame
    by_contra hneither
    obtain ⟨hnan, hbounds⟩ := not_or.mp hneither
    rw [not_not] at hnan hbounds
    have hpositive := (hsame.mp ⟨hbounds, .inr hnan⟩).multiplier
    rw [hnan] at hpositive
    contradiction
  · intro hwhen
    constructor
    · intro h
      obtain ⟨hbounds, hpositive | hnan⟩ := h
      · exact ⟨hbounds, hpositive⟩
      · rcases hwhen with hne | hbroken
        · exact absurd hnan hne
        · exact absurd hbounds hbroken
    · exact fun h => ⟨h.toOtherBounds, .inl h.multiplier⟩

/-- The shipped configuration with a multiplier that is no number. -/
theorem nan_multiplier_accepted :
    let config : Sv2CpuMinerConfig :=
      { shippedConfig "127.0.0.1:3333" with nominalHashrateMultiplier := .nan }
    config.validate = .ok () ∧ ¬ Documented config := by
  refine ⟨?_, ?_⟩
  · rfl
  · intro h
    exact absurd h.multiplier (by decide)

end CpuMinerSv2.ConfigBounds
