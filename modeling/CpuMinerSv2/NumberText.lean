import CpuMinerSv2.Primitives

/-!
Numbers written with separators. A list is cut into groups of one size counted
from its end, so that only the first group may be shorter; without the
separators it is the list again. The hash rate that is logged is written so:
the text has groups of three digits and reads back as the number.
-/

namespace CpuMinerSv2.NumberText

section Groups

variable {α : Type} {size : ℕ} {separator : α}

/-- A separator stands before every rest whose length is a multiple of the size. -/
def inGroups (size : ℕ) (separator : α) : List α → List α
  | [] => []
  | a :: rest =>
    if rest ≠ [] ∧ rest.length % size = 0 then a :: separator :: inGroups size separator rest
    else a :: inGroups size separator rest

/-- The list is cut into full groups, and before them one that is not empty
and not too long; the text has a separator before each full group. -/
structure Cut (size : ℕ) (separator : α) (l text first : List α) (groups : List (List α)) :
    Prop where
  text_eq : text = first ++ groups.flatMap (separator :: ·)
  list_eq : l = first ++ groups.flatten
  first_pos : 0 < first.length
  first_le : first.length ≤ size
  full : ∀ group ∈ groups, group.length = size

theorem inGroups_cut (hsize : 0 < size) {l : List α} (hl : l ≠ []) :
    ∃ first groups, Cut size separator l (inGroups size separator l) first groups := by
  induction l with
  | nil => contradiction
  | cons a rest ih =>
    by_cases hrest : rest = []
    · subst hrest
      refine ⟨[a], [], rfl, rfl, Nat.one_pos, hsize, ?_⟩
      intro group hgroup
      exact absurd hgroup List.not_mem_nil
    · obtain ⟨first, groups, htext, hcut, hpos, hle, hfull⟩ := ih hrest
      have htotal : rest.length = first.length + groups.length * size := by
        have hsum : groups.flatten.length = groups.length * size := by
          rw [List.length_flatten, List.map_congr_left hfull]
          simp
        rw [hcut, List.length_append, hsum]
      by_cases hwhole : rest.length % size = 0
      · -- the rest starts with a full group, which the separator now cuts off
        have hfirst : first.length = size := by
          rw [htotal, Nat.add_mul_mod_self_right] at hwhole
          by_contra hne
          rw [Nat.mod_eq_of_lt (by omega)] at hwhole
          omega
        refine ⟨[a], first :: groups, ?_, ?_, Nat.one_pos, hsize, ?_⟩
        · simp [inGroups, hrest, hwhole, htext]
        · simp [hcut]
        · intro group hgroup
          rcases List.mem_cons.mp hgroup with rfl | hgroup
          · exact hfirst
          · exact hfull group hgroup
      · have hfirst : first.length < size := by
          apply lt_of_le_of_ne hle
          intro heq
          rw [htotal, heq, Nat.add_mul_mod_self_right, Nat.mod_self] at hwhole
          exact hwhole rfl
        refine ⟨a :: first, groups, ?_, ?_, Nat.succ_pos _, hfirst, hfull⟩
        · simp [inGroups, hwhole, htext]
        · simp [hcut]

theorem filter_inGroups [DecidableEq α] {l : List α} (hl : separator ∉ l) :
    (inGroups size separator l).filter (· ≠ separator) = l := by
  induction l with
  | nil => rfl
  | cons a rest ih =>
    obtain ⟨hne, hrest⟩ := not_or.mp (List.mem_cons.not.mp hl)
    have ha : a ≠ separator := fun h => hne h.symm
    have hback := ih hrest
    unfold inGroups
    split
    · rw [List.filter_cons_of_pos (by simpa using ha), List.filter_cons_of_neg (by simp), hback]
    · rw [List.filter_cons_of_pos (by simpa using ha), hback]

end Groups

/-- Push each digit, after an underscore where a multiple of three digits is left. -/
def formatNumberWithUnderscores (num : UInt64) : String :=
  let chars := (toString num.toNat).toList
  String.ofList (chars.zipIdx.foldl (fun result c =>
    (if c.2 > 0 ∧ (chars.length - c.2) % 3 = 0 then result ++ ['_'] else result) ++ [c.1]) [])

theorem loop_eq (len : ℕ) (rest : List Char) (i : ℕ) (hlen : len = i + rest.length)
    (result : List Char) :
    (rest.zipIdx i).foldl (fun result c =>
      (if c.2 > 0 ∧ (len - c.2) % 3 = 0 then result ++ ['_'] else result) ++ [c.1]) result =
      result ++ if i > 0 ∧ rest ≠ [] ∧ rest.length % 3 = 0 then '_' :: inGroups 3 '_' rest
        else inGroups 3 '_' rest := by
  induction rest generalizing i result with
  | nil => simp [inGroups]
  | cons c rest ih =>
    have hleft : len - i = (c :: rest).length := by omega
    have hnext : len = i + 1 + rest.length := by
      rw [hlen, List.length_cons]
      omega
    have hpos : i + 1 > 0 := Nat.succ_pos i
    obtain ⟨tail, htail⟩ : ∃ tail, tail = if i + 1 > 0 ∧ rest ≠ [] ∧ rest.length % 3 = 0 then
        '_' :: inGroups 3 '_' rest else inGroups 3 '_' rest := ⟨_, rfl⟩
    have hcons : inGroups 3 '_' (c :: rest) = c :: tail := by
      by_cases hrest : rest ≠ [] ∧ rest.length % 3 = 0
      · rw [inGroups, if_pos hrest, htail, if_pos ⟨hpos, hrest⟩]
      · rw [inGroups, if_neg hrest, htail, if_neg fun h => hrest h.2]
    rw [List.zipIdx_cons, List.foldl_cons, ih (i + 1) hnext, ← htail, hcons]
    dsimp only
    rw [hleft]
    by_cases hcut : i > 0 ∧ (c :: rest).length % 3 = 0
    · rw [if_pos hcut, if_pos ⟨hcut.1, List.cons_ne_nil c rest, hcut.2⟩]
      simp
    · rw [if_neg hcut, if_neg fun h => hcut ⟨h.1, h.2.2⟩]
      simp

/-- The text is the decimal number in groups of three. -/
theorem toList_format (num : UInt64) :
    (formatNumberWithUnderscores num).toList = inGroups 3 '_' (Nat.toDigits 10 num.toNat) := by
  unfold formatNumberWithUnderscores
  have hdigits : (toString num.toNat).toList = Nat.toDigits 10 num.toNat := Nat.toList_repr
  dsimp only
  rw [hdigits, String.toList_ofList, loop_eq _ _ 0 (Nat.zero_add _).symm]
  simp

/-- What is logged is the number: digits in groups of three with an underscore
between two of them, the first group not empty and perhaps shorter. Without
the underscores the digits read back as the number, and two numbers never have
the same text. -/
theorem formatted_number_reads_back (num : UInt64) :
    (∃ first groups, Cut 3 '_' (Nat.toDigits 10 num.toNat)
      (formatNumberWithUnderscores num).toList first groups) ∧
    Nat.ofDigitChars 10 ((formatNumberWithUnderscores num).toList.filter (· ≠ '_')) 0 =
      num.toNat ∧
    ∀ num', formatNumberWithUnderscores num' = formatNumberWithUnderscores num → num' = num := by
  have hback : ∀ n : UInt64,
      Nat.ofDigitChars 10 ((formatNumberWithUnderscores n).toList.filter (· ≠ '_')) 0 =
        n.toNat := by
    intro n
    rw [toList_format, filter_inGroups Nat.underscore_not_in_toDigits]
    exact Nat.ofDigitChars_ten_toDigits
  refine ⟨?_, hback num, ?_⟩
  · rw [toList_format]
    exact inGroups_cut (by decide) Nat.toDigits_ne_nil
  · intro num' htext
    apply UInt64.toNat_inj.mp
    rw [← hback num', htext, hback num]

example : formatNumberWithUnderscores 1000000 = "1_000_000" := by decide +kernel

end CpuMinerSv2.NumberText
