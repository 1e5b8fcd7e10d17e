import Mathlib

/-!
Workers that throttle themselves in windows. A worker may take up work only
at the beginning of a window, and windows open at least a period apart. The
log of its decisions shows how much time it has set aside for work: at most
the share of the period that the windows leave it.
-/

namespace CpuMinerSv2.Pacing

/-- Work taken up at this instant, in the window opened at that one. -/
structure Decision where
  windowStart : ℕ
  instant : ℕ

variable {work period : ℕ}

/-- Every decision lies in the working part of its window, and the windows
of two decisions are the same or a period apart. -/
structure Throttled (work period : ℕ) (log : List Decision) : Prop where
  within : ∀ d ∈ log, d.windowStart ≤ d.instant ∧ d.instant < d.windowStart + work
  ordered : log.Pairwise fun a b => a.instant ≤ b.instant ∧
    (a.windowStart = b.windowStart ∨ a.windowStart + period ≤ b.windowStart)

/-- The windows in which work was taken up. -/
def windows (log : List Decision) : Finset ℕ := (log.map Decision.windowStart).toFinset

theorem Throttled.nil : Throttled work period [] := by
  refine ⟨?_, List.Pairwise.nil⟩
  intro d hd
  contradiction

theorem Throttled.snoc {log : List Decision} (h : Throttled work period log) {d : Decision}
    (hwithin : d.windowStart ≤ d.instant ∧ d.instant < d.windowStart + work)
    (hlast : ∀ a ∈ log, a.instant ≤ d.instant ∧
      (a.windowStart = d.windowStart ∨ a.windowStart + period ≤ d.windowStart)) :
    Throttled work period (log ++ [d]) := by
  refine ⟨?_, ?_⟩
  · intro a ha
    rcases List.mem_append.mp ha with hold | hnew
    · exact h.within a hold
    · rw [List.mem_singleton.mp hnew]
      exact hwithin
  · rw [List.pairwise_append]
    refine ⟨h.ordered, List.pairwise_singleton _ _, ?_⟩
    intro a ha b hb
    rw [List.mem_singleton.mp hb]
    exact hlast a ha

theorem Throttled.of_snoc {log : List Decision} {d : Decision}
    (h : Throttled work period (log ++ [d])) :
    Throttled work period log ∧ ∀ a ∈ log, a.instant ≤ d.instant ∧
      (a.windowStart = d.windowStart ∨ a.windowStart + period ≤ d.windowStart) := by
  obtain ⟨hbefore, _, hcross⟩ := List.pairwise_append.mp h.ordered
  refine ⟨⟨?_, hbefore⟩, ?_⟩
  · exact fun a ha => h.within a (List.mem_append_left _ ha)
  · exact fun a ha => hcross a ha d (List.mem_singleton.mpr rfl)

theorem windows_snoc (log : List Decision) (d : Decision) :
    windows (log ++ [d]) = insert d.windowStart (windows log) := by
  ext s
  simp [windows]

theorem Throttled.windows_le {log : List Decision} {d : Decision}
    (h : Throttled work period (log ++ [d])) {start : ℕ}
    (hstart : ∀ a ∈ log ++ [d], start ≤ a.windowStart) :
    (windows (log ++ [d])).card * period ≤ d.windowStart - start + period := by
  induction log using List.reverseRecOn generalizing d with
  | nil =>
    have hone : (windows ([] ++ [d])).card = 1 := by simp [windows]
    rw [hone]
    omega
  | append_singleton log e ih =>
    obtain ⟨hbefore, hcross⟩ := h.of_snoc
    have hcount := ih hbefore fun a ha => hstart a (List.mem_append_left _ ha)
    have he : start ≤ e.windowStart := hstart e (by simp)
    rw [windows_snoc]
    by_cases hsame : d.windowStart ∈ windows (log ++ [e])
    · rw [Finset.insert_eq_of_mem hsame]
      -- the window of the last decision but one is this one, or lies before it
      have hle : e.windowStart ≤ d.windowStart := by
        rcases (hcross e (by simp)).2 with heq | hlt <;> omega
      omega
    · rw [Finset.card_insert_of_notMem hsame]
      have hapart : e.windowStart + period ≤ d.windowStart := by
        rcases (hcross e (by simp)).2 with heq | hlt
        · refine absurd ?_ hsame
          rw [← heq, windows_snoc]
          exact Finset.mem_insert_self _ _
        · exact hlt
      rw [Nat.add_mul, Nat.one_mul]
      omega

/-- The time set aside for work, a whole working part for every window. -/
def allotted (work : ℕ) (log : List Decision) : ℕ := (windows log).card * work

/-- The time set aside is at most the working share of the time that went by,
and of one window more. -/
theorem Throttled.allotted_le {log : List Decision} (h : Throttled work period log)
    {a b : Decision} (ha : log.head? = some a) (hb : log.getLast? = some b) :
    allotted work log * period ≤ work * (b.instant - a.windowStart + period) := by
  obtain ⟨before, rfl⟩ := List.getLast?_eq_some_iff.mp hb
  have hfirst : ∀ d ∈ before ++ [b], a.windowStart ≤ d.windowStart := by
    intro d hd
    obtain ⟨rest, hrest⟩ := List.head?_eq_some_iff.mp ha
    have hordered := h.ordered
    rw [hrest] at hd hordered
    rcases List.mem_cons.mp hd with rfl | hlater
    · exact Nat.le_refl _
    · rcases ((List.pairwise_cons.mp hordered).1 d hlater).2 with heq | hlt <;> omega
  have hcount := h.windows_le hfirst
  have hlast := (h.within b (by simp)).1
  calc
    allotted work (before ++ [b]) * period
        = work * ((windows (before ++ [b])).card * period) := by unfold allotted; ring
    _ ≤ work * (b.instant - a.windowStart + period) := Nat.mul_le_mul_left _ (by omega)

section Workers

/-- A worker that looks at the clock in its current window. -/
structure InWindow (work period : ℕ) (log : List Decision) (now windowStart : ℕ) : Prop where
  throttled : Throttled work period log
  opened : windowStart ≤ now
  past : ∀ d ∈ log, d.instant ≤ now ∧
    (d.windowStart = windowStart ∨ d.windowStart + period ≤ windowStart)

variable {log : List Decision} {now windowStart : ℕ}

theorem InWindow.start (now : ℕ) : InWindow work period [] now now := by
  refine ⟨Throttled.nil, Nat.le_refl _, ?_⟩
  intro d hd
  contradiction

theorem InWindow.later (h : InWindow work period log now windowStart) {later : ℕ}
    (hle : now ≤ later) : InWindow work period log later windowStart := by
  refine ⟨h.throttled, h.opened.trans hle, ?_⟩
  exact fun d hd => ⟨(h.past d hd).1.trans hle, (h.past d hd).2⟩

theorem InWindow.works (h : InWindow work period log now windowStart)
    (hpart : now < windowStart + work) :
    InWindow work period (log ++ [⟨windowStart, now⟩]) now windowStart := by
  refine ⟨h.throttled.snoc ⟨h.opened, hpart⟩ h.past, h.opened, ?_⟩
  intro d hd
  rcases List.mem_append.mp hd with hold | hnew
  · exact h.past d hold
  · rw [List.mem_singleton.mp hnew]
    exact ⟨Nat.le_refl _, .inl rfl⟩

theorem InWindow.wakes (h : InWindow work period log now windowStart) (hwork : 0 < work)
    (hover : windowStart + period ≤ now) :
    InWindow work period (log ++ [⟨now, now⟩]) now now := by
  have hbefore : ∀ d ∈ log, d.instant ≤ now ∧
      (d.windowStart = now ∨ d.windowStart + period ≤ now) := by
    intro d hd
    obtain ⟨hinstant, heq | hlt⟩ := h.past d hd
    · exact ⟨hinstant, .inr (by omega)⟩
    · exact ⟨hinstant, .inr (by omega)⟩
  refine ⟨h.throttled.snoc ⟨Nat.le_refl _, ?_⟩ hbefore, Nat.le_refl _, ?_⟩
  · dsimp only
    omega
  · intro d hd
    rcases List.mem_append.mp hd with hold | hnew
    · exact hbefore d hold
    · rw [List.mem_singleton.mp hnew]
      exact ⟨Nat.le_refl _, .inl rfl⟩

end Workers

end CpuMinerSv2.Pacing
