import Mathlib

/-!
Named groups over a set of active elements, names and elements sharing one
type. A table carries its own well-formedness: members are active, and the
name of a group that has members is not active. Elements are enrolled in a
group, leave, or are regrouped; the lemmas say who is grouped afterwards.
-/

namespace CpuMinerSv2.Groups

structure GroupTable (α : Type) where
  active : Set α
  members : α → Set α
  members_subset : ∀ g, members g ⊆ active
  names_apart : ∀ g, (members g).Nonempty → g ∉ active

namespace GroupTable

variable {α : Type} {t : GroupTable α} {c g : α}

def empty : GroupTable α where
  active := ∅
  members _ := ∅
  members_subset _ := Set.empty_subset _
  names_apart _ _ := Set.notMem_empty _

/-- An element becomes active as a member of a group. -/
def enroll (t : GroupTable α) (c g : α) (hgroup : g ∉ t.active) (hfree : ¬ (t.members c).Nonempty)
    (hne : g ≠ c) : GroupTable α where
  active := insert c t.active
  members h := {a | a ∈ t.members h ∨ h = g ∧ a = c}
  members_subset := by
    rintro h a (ha | ⟨_, rfl⟩)
    · exact Set.mem_insert_of_mem _ (t.members_subset h ha)
    · exact Set.mem_insert _ _
  names_apart := by
    rintro h ⟨a, ha⟩ hmem
    rcases ha with ha | ⟨rfl, _⟩
    · rcases hmem with rfl | hmem
      · exact hfree ⟨a, ha⟩
      · exact t.names_apart h ⟨a, ha⟩ hmem
    · rcases hmem with rfl | hmem
      · exact hne rfl
      · exact hgroup hmem

/-- Elements leave every group; the rest stay active. -/
def retire (t : GroupTable α) (s active' : Set α) (hactive : active' ⊆ t.active)
    (hstay : t.active \ s ⊆ active') : GroupTable α where
  active := active'
  members h := t.members h \ s
  members_subset := fun h _ ha => hstay ⟨t.members_subset h ha.1, ha.2⟩
  names_apart := by
    rintro h ⟨a, ha, _⟩ hmem
    exact t.names_apart h ⟨a, ha⟩ (hactive hmem)

/-- Active elements leave their groups and become the members of one group. -/
def regroup (t : GroupTable α) (g : α) (l : Set α) (hgroup : g ∉ t.active)
    (hlisted : l ⊆ t.active) : GroupTable α where
  active := t.active
  members h := {a | h = g ∧ a ∈ l ∨ h ≠ g ∧ a ∈ t.members h ∧ a ∉ l}
  members_subset := by
    rintro h a (⟨_, ha⟩ | ⟨_, ha, _⟩)
    · exact hlisted ha
    · exact t.members_subset h ha
  names_apart := by
    rintro h ⟨a, ha⟩ hmem
    rcases ha with ⟨rfl, _⟩ | ⟨_, ha, _⟩
    · exact hgroup hmem
    · exact t.names_apart h ⟨a, ha⟩ hmem

/-- The ways a table changes. -/
inductive Change (t : GroupTable α) : GroupTable α → Prop
  | stay : Change t t
  | enroll (c g : α) (hgroup : g ∉ t.active) (hfree : ¬ (t.members c).Nonempty) (hne : g ≠ c) :
      Change t (t.enroll c g hgroup hfree hne)
  | retire (s active' : Set α) (hactive : active' ⊆ t.active) (hstay : t.active \ s ⊆ active') :
      Change t (t.retire s active' hactive hstay)
  | regroup (g : α) (l : Set α) (hgroup : g ∉ t.active) (hlisted : l ⊆ t.active) :
      Change t (t.regroup g l hgroup hlisted)

def Grouped (t : GroupTable α) (a : α) : Prop := ∃ g, a ∈ t.members g

/-- No element is in two groups. -/
def Exclusive (t : GroupTable α) : Prop :=
  ∀ a g h, a ∈ t.members g → a ∈ t.members h → g = h

theorem empty_exclusive : (empty : GroupTable α).Exclusive := fun _ _ _ ha _ => ha.elim

theorem Exclusive.enroll (ht : t.Exclusive) {hgroup : g ∉ t.active}
    {hfree : ¬ (t.members c).Nonempty} {hne : g ≠ c} (hfresh : c ∉ t.active) :
    (t.enroll c g hgroup hfree hne).Exclusive := by
  intro a h k ha hk
  rcases ha with ha | ⟨rfl, rfl⟩
  · rcases hk with hk | ⟨_, rfl⟩
    · exact ht a h k ha hk
    · exact absurd (t.members_subset h ha) hfresh
  · rcases hk with hk | ⟨rfl, _⟩
    · exact absurd (t.members_subset k hk) hfresh
    · rfl

theorem Exclusive.retire (ht : t.Exclusive) {s active' : Set α} {hactive : active' ⊆ t.active}
    {hstay : t.active \ s ⊆ active'} : (t.retire s active' hactive hstay).Exclusive :=
  fun a h k ha hk => ht a h k ha.1 hk.1

theorem Exclusive.regroup (ht : t.Exclusive) {l : Set α} {hgroup : g ∉ t.active}
    {hlisted : l ⊆ t.active} : (t.regroup g l hgroup hlisted).Exclusive := by
  intro a h k ha hk
  rcases ha with ⟨rfl, hal⟩ | ⟨_, ha, hal⟩
  · rcases hk with ⟨rfl, _⟩ | ⟨_, _, hnot⟩
    · rfl
    · exact absurd hal hnot
  · rcases hk with ⟨_, hmem⟩ | ⟨_, hk, _⟩
    · exact absurd hmem hal
    · exact ht a h k ha hk

theorem grouped_enroll_iff {hgroup : g ∉ t.active} {hfree : ¬ (t.members c).Nonempty} {hne : g ≠ c}
    {a : α} : (t.enroll c g hgroup hfree hne).Grouped a ↔ t.Grouped a ∨ a = c := by
  constructor
  · rintro ⟨h, ha | ⟨_, rfl⟩⟩
    · exact .inl ⟨h, ha⟩
    · exact .inr rfl
  · rintro (⟨h, ha⟩ | rfl)
    · exact ⟨h, .inl ha⟩
    · exact ⟨g, .inr ⟨rfl, rfl⟩⟩

theorem grouped_retire_iff {s active' : Set α} {hactive : active' ⊆ t.active}
    {hstay : t.active \ s ⊆ active'} {a : α} :
    (t.retire s active' hactive hstay).Grouped a ↔ t.Grouped a ∧ a ∉ s := by
  constructor
  · rintro ⟨h, ha, hs⟩
    exact ⟨⟨h, ha⟩, hs⟩
  · rintro ⟨⟨h, ha⟩, hs⟩
    exact ⟨h, ha, hs⟩

/-- After regrouping, the listed elements are grouped, and those that were in
another group; a former member that is not listed is in no group. -/
theorem grouped_regroup_iff (ht : t.Exclusive) {l : Set α} {hgroup : g ∉ t.active}
    {hlisted : l ⊆ t.active} {a : α} :
    (t.regroup g l hgroup hlisted).Grouped a ↔ a ∈ l ∨ t.Grouped a ∧ a ∉ t.members g := by
  constructor
  · rintro ⟨h, ⟨_, hal⟩ | ⟨hne, ha, _⟩⟩
    · exact .inl hal
    · exact .inr ⟨⟨h, ha⟩, fun hg => hne (ht a h g ha hg)⟩
  · rintro (hal | ⟨⟨h, ha⟩, hnot⟩)
    · exact ⟨g, .inl ⟨rfl, hal⟩⟩
    · by_cases hal : a ∈ l
      · exact ⟨g, .inl ⟨rfl, hal⟩⟩
      · refine ⟨h, .inr ⟨?_, ha, hal⟩⟩
        rintro rfl
        exact hnot ha

end GroupTable

end CpuMinerSv2.Groups
