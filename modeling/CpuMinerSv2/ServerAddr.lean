import CpuMinerSv2.Config

/-!
Which server addresses are read, and what is read from them. The address is
split at its last colon, the port goes to the standard parser, and each end of
the host is trimmed without a look at the other. So a printed address is read
back, but some addresses are read that no host and port print to.
-/

namespace CpuMinerSv2.ServerAddr

open Messages Config

theorem rsplitOnce_ne_none {delimiter : Char} {s : List Char} (h : delimiter ∈ s) :
    rsplitOnce delimiter s ≠ none := by
  induction s with
  | nil => contradiction
  | cons c rest ih =>
    unfold rsplitOnce
    cases hrest : rsplitOnce delimiter rest with
    | some parts => simp
    | none =>
      rcases List.mem_cons.mp h with heq | hin
      · simp [heq]
      · exact absurd hrest (ih hin)

theorem rsplitOnce_sound {delimiter : Char} {s before after : List Char}
    (h : rsplitOnce delimiter s = some (before, after)) :
    s = before ++ delimiter :: after ∧ delimiter ∉ after := by
  induction s generalizing before with
  | nil => contradiction
  | cons c rest ih =>
    unfold rsplitOnce at h
    cases hrest : rsplitOnce delimiter rest with
    | some parts =>
      rw [hrest] at h
      cases h
      obtain ⟨heq, hnot⟩ := ih hrest
      exact ⟨congrArg (List.cons c) heq, hnot⟩
    | none =>
      -- no separator in the rest, so the first character is the last one
      simp only [hrest] at h
      by_cases hc : c = delimiter
      · rw [if_pos hc] at h
        cases h
        refine ⟨by rw [hc, List.nil_append], ?_⟩
        intro hin
        exact rsplitOnce_ne_none hin hrest
      · rw [if_neg hc] at h
        contradiction

theorem rsplitOnce_append {delimiter : Char} (before : List Char) {after : List Char}
    (h : delimiter ∉ after) :
    rsplitOnce delimiter (before ++ delimiter :: after) = some (before, after) := by
  induction before with
  | nil =>
    have hnone : rsplitOnce delimiter after = none := by
      cases hsplit : rsplitOnce delimiter after with
      | none => rfl
      | some parts =>
        obtain ⟨heq, _⟩ := rsplitOnce_sound hsplit
        rw [heq] at h
        exact absurd (List.mem_append_right _ List.mem_cons_self) h
    simp only [List.nil_append, rsplitOnce, hnone, ↓reduceIte]
  | cons c before ih => simp only [List.cons_append, rsplitOnce, ih]

/-- Decimal digits of this value. -/
structure Decimal (digits : List Char) (port : UInt16) : Prop where
  nonempty : digits ≠ []
  isDigit : digits.all Char.isDigit = true
  value : digitsValue digits = port.toNat

namespace Decimal

variable {digits : List Char} {port : UInt16}

theorem not_mem (h : Decimal digits port) {c : Char} (hc : c.isDigit = false) : c ∉ digits := by
  intro hmem
  have hdigit := List.all_eq_true.mp h.isDigit c hmem
  rw [hc] at hdigit
  contradiction

theorem head_ne_plus (h : Decimal digits port) : digits.head? ≠ some '+' := by
  intro hhead
  exact h.not_mem (c := '+') (by decide) (List.mem_of_mem_head? hhead)

theorem printed (port : UInt16) : Decimal (toString port).toList port where
  nonempty := by
    change port.toNat.repr.toList ≠ []
    rw [Nat.toList_repr]
    exact Nat.toDigits_ne_nil
  isDigit := by
    change port.toNat.repr.toList.all Char.isDigit = true
    rw [Nat.toList_repr, List.all_eq_true]
    intro c hc
    exact Nat.isDigit_of_mem_toDigits (by decide) (by decide) hc
  value := by
    change digitsValue port.toNat.repr.toList = port.toNat
    rw [Nat.toList_repr]
    exact Nat.ofDigitChars_ten_toDigits

end Decimal

theorem read_digits_iff {digits : List Char} {port : UInt16} :
    (if digits ≠ [] ∧ digits.all Char.isDigit ∧ digitsValue digits < 2 ^ 16 then
      some (UInt16.ofNat (digitsValue digits)) else none) = some port ↔ Decimal digits port := by
  constructor
  · intro h
    split at h
    · rename_i hdigits
      obtain ⟨hne, hall, hlt⟩ := hdigits
      refine ⟨hne, hall, ?_⟩
      rw [← Option.some.inj h, UInt16.toNat_ofNat_of_lt' hlt]
    · contradiction
  · intro h
    have hlt : digitsValue digits < 2 ^ 16 := by
      rw [h.value]
      exact port.toNat_lt
    rw [if_pos ⟨h.nonempty, h.isDigit, hlt⟩, h.value, UInt16.ofNat_toNat]

theorem parseU16_plus {rest : List Char} {port : UInt16} :
    parseU16 ('+' :: rest) = some port ↔ Decimal rest port := read_digits_iff

theorem parseU16_plain {s : List Char} {port : UInt16} (h : s.head? ≠ some '+') :
    parseU16 s = some port ↔ Decimal s port := by
  cases s with
  | nil => exact @read_digits_iff [] port
  | cons c rest =>
    have hc : c ≠ '+' := fun heq => h (congrArg some heq)
    simp only [parseU16]
    split
    · rename_i heq
      exact absurd (List.cons.inj heq).1 hc
    · exact read_digits_iff

theorem parseU16_eq_some_iff {s : List Char} {port : UInt16} :
    parseU16 s = some port ↔ ∃ digits, Decimal digits port ∧ (s = digits ∨ s = '+' :: digits) := by
  constructor
  · intro h
    by_cases hsign : s.head? = some '+'
    · obtain ⟨rest, rfl⟩ := List.head?_eq_some_iff.mp hsign
      exact ⟨rest, parseU16_plus.mp h, .inr rfl⟩
    · exact ⟨s, (parseU16_plain hsign).mp h, .inl rfl⟩
  · intro h
    obtain ⟨digits, hdigits, hs⟩ := h
    rcases hs with hs | hs
    · rw [hs]
      exact (parseU16_plain hdigits.head_ne_plus).mpr hdigits
    · rw [hs]
      exact parseU16_plus.mpr hdigits

theorem parseU16_no_colon {s : List Char} {port : UInt16} (h : parseU16 s = some port) :
    ':' ∉ s := by
  obtain ⟨digits, hdigits, hs⟩ := parseU16_eq_some_iff.mp h
  have hnot := hdigits.not_mem (c := ':') (by decide)
  rcases hs with rfl | rfl
  · exact hnot
  · exact List.not_mem_cons_of_ne_of_not_mem (by decide) hnot

/-- No bracket on either side that a trim would take away. -/
structure Unbracketed (host : List Char) : Prop where
  left : host.head? ≠ some '['
  right : host.getLast? ≠ some ']'

theorem dropWhile_eq_self {bracket : Char} {s : List Char} (h : s.head? ≠ some bracket) :
    s.dropWhile (· == bracket) = s := by
  cases s with
  | nil => rfl
  | cons c rest =>
    have hc : c ≠ bracket := fun heq => h (congrArg some heq)
    rw [List.dropWhile_cons, beq_eq_false_iff_ne.mpr hc, if_neg Bool.false_ne_true]

/-- `str::trim_end_matches`, as the trim of the reversed string. -/
def trimEnd (bracket : Char) (s : List Char) : List Char :=
  (s.reverse.dropWhile (· == bracket)).reverse

theorem trimEnd_eq_self {bracket : Char} {s : List Char} (h : s.getLast? ≠ some bracket) :
    trimEnd bracket s = s := by
  rw [← List.head?_reverse] at h
  rw [trimEnd, dropWhile_eq_self h, List.reverse_reverse]

theorem trimEnd_concat (bracket : Char) (s : List Char) :
    trimEnd bracket (s ++ [bracket]) = trimEnd bracket s := by
  have hbracket : (bracket == bracket) = true := beq_self_eq_true bracket
  rw [trimEnd, List.reverse_append, List.reverse_singleton, List.singleton_append,
    List.dropWhile_cons, if_pos hbracket, trimEnd]

theorem trimEnd_prefix (bracket : Char) (s : List Char) : trimEnd bracket s <+: s := by
  have hsuffix := List.dropWhile_suffix (l := s.reverse) (· == bracket)
  rw [← List.reverse_prefix, List.reverse_reverse] at hsuffix
  exact hsuffix

theorem head_dropWhile {bracket : Char} (s : List Char) :
    (s.dropWhile (· == bracket)).head? ≠ some bracket := by
  induction s with
  | nil => exact fun h => nomatch h
  | cons c rest ih =>
    rw [List.dropWhile_cons]
    by_cases hc : c = bracket
    · rw [if_pos (beq_iff_eq.mpr hc)]
      exact ih
    · rw [if_neg (by simpa using hc)]
      exact fun h => hc (Option.some.inj h)

theorem trimBrackets_eq (s : List Char) :
    trimBrackets s = trimEnd ']' (s.dropWhile (· == '[')) := rfl

theorem trimBrackets_unbracketed (s : List Char) : Unbracketed (trimBrackets s) := by
  rw [trimBrackets_eq]
  constructor
  · -- trimming the end leaves the start as it is
    intro h
    obtain ⟨rest, hrest⟩ := trimEnd_prefix ']' (s.dropWhile (· == '['))
    have hhead : (s.dropWhile (· == '[')).head? ≠ some '[' := head_dropWhile s
    apply hhead
    rw [← hrest, List.head?_append, h]
    rfl
  · rw [trimEnd, List.getLast?_reverse]
    exact head_dropWhile _

namespace Unbracketed

variable {s : List Char}

theorem trim (h : Unbracketed s) : trimBrackets s = s := by
  rw [trimBrackets_eq, dropWhile_eq_self h.left, trimEnd_eq_self h.right]

theorem trim_pair (h : Unbracketed s) : trimBrackets ('[' :: s ++ [']']) = s := by
  have hleft : (s ++ [']']).head? ≠ some '[' := by
    cases s with
    | nil => decide
    | cons c rest => exact h.left
  calc
    trimBrackets ('[' :: s ++ [']']) = trimEnd ']' ((s ++ [']']).dropWhile (· == '[')) := rfl
    _ = trimEnd ']' (s ++ [']']) := by rw [dropWhile_eq_self hleft]
    _ = trimEnd ']' s := trimEnd_concat ']' s
    _ = s := trimEnd_eq_self h.right

end Unbracketed

/-- The address is split, its port parsed and its host trimmed. -/
theorem serverHostAndPort_ok_iff {config : Sv2CpuMinerConfig} {host : String} {port : UInt16} :
    config.serverHostAndPort = .ok (host, port) ↔
      ∃ before after, config.serverAddr.toList = before ++ ':' :: after ∧
        parseU16 after = some port ∧ host.toList = trimBrackets before := by
  unfold Sv2CpuMinerConfig.serverHostAndPort
  constructor
  · intro h
    split at h
    · contradiction
    · rename_i before after hsplit
      split at h
      · contradiction
      · rename_i hport
        cases h
        exact ⟨before, after, (rsplitOnce_sound hsplit).1, hport, String.toList_ofList⟩
  · intro h
    obtain ⟨before, after, haddr, hport, hhost⟩ := h
    rw [haddr, rsplitOnce_append before (parseU16_no_colon hport)]
    simp only [hport, ← hhost, String.ofList_toList]

/-- The address of this host and port, written without or with brackets. -/
def Written (addr host : String) (port : UInt16) : Prop :=
  ∃ digits : String, Decimal digits.toList port ∧
    (addr = host ++ ":" ++ digits ∨ addr = "[" ++ host ++ "]:" ++ digits)

/-- Wherever a colon stands before a port number, that number has no sign and
the host before it has no bracket at its ends, or one pair of them. -/
def HostPortForm (addr : String) : Prop :=
  ∀ before after, addr.toList = before ++ ':' :: after → (parseU16 after).isSome →
    after.head? ≠ some '+' ∧
      (Unbracketed before ∨ ∃ inner, Unbracketed inner ∧ before = '[' :: inner ++ [']'])

theorem written_iff {addr host : String} {port : UInt16} :
    Written addr host port ↔ ∃ before after, addr.toList = before ++ ':' :: after ∧
      Decimal after port ∧ (before = host.toList ∨ before = '[' :: host.toList ++ [']']) := by
  constructor
  · intro h
    obtain ⟨digits, hdigits, haddr⟩ := h
    rcases haddr with rfl | rfl
    · exact ⟨_, _, by simp, hdigits, .inl rfl⟩
    · exact ⟨_, _, by simp, hdigits, .inr rfl⟩
  · intro h
    obtain ⟨before, after, haddr, hdigits, hbefore⟩ := h
    refine ⟨String.ofList after, by rwa [String.toList_ofList], ?_⟩
    rcases hbefore with rfl | rfl
    · left
      apply String.toList_inj.mp
      simp [haddr]
    · right
      apply String.toList_inj.mp
      simp [haddr]

theorem split_unique {addr before before' after after' : List Char} (hafter : ':' ∉ after)
    (hafter' : ':' ∉ after') (h : addr = before ++ ':' :: after)
    (h' : addr = before' ++ ':' :: after') : before = before' ∧ after = after' := by
  have hsplit := rsplitOnce_append before hafter
  rw [← h, h', rsplitOnce_append before' hafter'] at hsplit
  cases hsplit
  exact ⟨rfl, rfl⟩

/-- What is read is what is written, exactly when the address has the form. -/
theorem reads_what_is_written_iff (config : Sv2CpuMinerConfig) :
    (∀ host port, config.serverHostAndPort = .ok (host, port) →
      Written config.serverAddr host port) ↔ HostPortForm config.serverAddr := by
  constructor
  · intro hwritten before after haddr hsome
    obtain ⟨port, hport⟩ := Option.isSome_iff_exists.mp hsome
    have hread : config.serverHostAndPort = .ok (String.ofList (trimBrackets before), port) :=
      serverHostAndPort_ok_iff.mpr ⟨before, after, haddr, hport, String.toList_ofList⟩
    obtain ⟨before', after', haddr', hdigits, hbefore⟩ := written_iff.mp (hwritten _ _ hread)
    obtain ⟨rfl, rfl⟩ := split_unique (parseU16_no_colon hport) (hdigits.not_mem (by decide))
      haddr haddr'
    rw [String.toList_ofList] at hbefore
    refine ⟨hdigits.head_ne_plus, ?_⟩
    rcases hbefore with hplain | hpair
    · left
      rw [hplain]
      exact trimBrackets_unbracketed before
    · exact .inr ⟨trimBrackets before, trimBrackets_unbracketed before, hpair⟩
  · intro hform host port hread
    obtain ⟨before, after, haddr, hport, hhost⟩ := serverHostAndPort_ok_iff.mp hread
    obtain ⟨hsign, hbrackets⟩ := hform before after haddr (Option.isSome_iff_exists.mpr ⟨_, hport⟩)
    refine written_iff.mpr ⟨before, after, haddr, (parseU16_plain hsign).mp hport, ?_⟩
    rw [hhost]
    rcases hbrackets with hplain | ⟨inner, hinner, rfl⟩
    · exact .inl hplain.trim.symm
    · right
      rw [hinner.trim_pair]

/-- The shipped configuration, for another server. -/
def shippedConfig (addr : String) : Sv2CpuMinerConfig where
  serverAddr := addr
  nExtendedChannels := 2
  nStandardChannels := 2
  userIdentity := "username"
  deviceId := "cpu_miner_sv2"
  singleSubmit := false
  cpuUsagePercent := 100
  nominalHashrateMultiplier := .finite 1
  requiresStandardJobs := false

/-- A bracket without its partner is taken away, and a sign is read over. -/
theorem lone_bracket_and_sign_accepted :
    ((shippedConfig "[pool:3333").serverHostAndPort = .ok ("pool", 3333) ∧
      ¬ Written "[pool:3333" "pool" 3333) ∧
    (shippedConfig "pool:+3333").serverHostAndPort = .ok ("pool", 3333) ∧
      ¬ Written "pool:+3333" "pool" 3333 := by
  refine ⟨⟨?_, ?_⟩, ?_, ?_⟩
  · exact serverHostAndPort_ok_iff.mpr
      ⟨"[pool".toList, "3333".toList, by decide, by decide, by decide⟩
  · intro h
    obtain ⟨before, after, haddr, _, hbefore⟩ := written_iff.mp h
    rcases hbefore with rfl | rfl
    · simp at haddr
    · simp at haddr
  · exact serverHostAndPort_ok_iff.mpr
      ⟨"pool".toList, "+3333".toList, by decide, by decide, by decide⟩
  · intro h
    obtain ⟨before, after, haddr, hdigits, hbefore⟩ := written_iff.mp h
    rcases hbefore with rfl | rfl
    · have hsign : "+3333".toList = after := by simpa using haddr
      exact hdigits.head_ne_plus (hsign ▸ rfl)
    · simp at haddr

theorem Written.read_back {config : Sv2CpuMinerConfig} {host : String} {port : UInt16}
    (h : Written config.serverAddr host port) (hhost : Unbracketed host.toList) :
    config.serverHostAndPort = .ok (host, port) := by
  obtain ⟨before, after, haddr, hdigits, hbefore⟩ := written_iff.mp h
  have hport := (parseU16_plain hdigits.head_ne_plus).mpr hdigits
  refine serverHostAndPort_ok_iff.mpr ⟨before, after, haddr, hport, ?_⟩
  rcases hbefore with rfl | rfl
  · exact hhost.trim.symm
  · exact hhost.trim_pair.symm

/-- A printed address is read back, in either form. -/
theorem printed_address_read_back (config : Sv2CpuMinerConfig) (host : String) (port : UInt16)
    (hhost : Unbracketed host.toList) :
    { config with serverAddr := host ++ ":" ++ toString port }.serverHostAndPort =
        .ok (host, port) ∧
      { config with serverAddr := "[" ++ host ++ "]:" ++ toString port }.serverHostAndPort =
        .ok (host, port) := by
  constructor
  · exact Written.read_back ⟨toString port, Decimal.printed port, .inl rfl⟩ hhost
  · exact Written.read_back ⟨toString port, Decimal.printed port, .inr rfl⟩ hhost

theorem sample_address_read_back :
    { shippedConfig "" with
      serverAddr := "::1" ++ ":" ++ toString (3333 : UInt16) }.serverHostAndPort =
        .ok ("::1", 3333) ∧
      { shippedConfig "" with
        serverAddr := "[" ++ "::1" ++ "]:" ++ toString (3333 : UInt16) }.serverHostAndPort =
        .ok ("::1", 3333) :=
  printed_address_read_back (shippedConfig "") "::1" 3333 ⟨by decide, by decide⟩

end CpuMinerSv2.ServerAddr
