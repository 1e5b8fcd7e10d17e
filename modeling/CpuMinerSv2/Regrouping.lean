import CpuMinerSv2.Closing
import CpuMinerSv2.ExtranonceSizes
import CpuMinerSv2.Serving

/-!
Redefining a group. The message is refused for one of four reasons and then
changes nothing; else the group has exactly the listed channels, which have
left every other group. Locks can only become poisoned while it is handled,
so a reason found at the end need not have been there at the start.
-/

namespace CpuMinerSv2.Regrouping

open Messages Channels Primitives Interference MinerMethods Manager ManagerFrames Deliveries
  Registry HandlerRuns GroupRefinement Reopening Openings Closing ExtranonceSizes Serving SampleDeps
  SampleMiners SampleWorlds Relation

variable {D : Deps}

/-- Why a group is not redefined. -/
inductive RefusesRegroup (w : World D) (m : SetGroupChannel) : Prop
  | openGroup (h : ChannelOpen w m.groupChannelId)
  | unknown {id : UInt32} (hid : id ∈ m.channelIds) (h : ¬ ChannelOpen w id)
  | poisoned {id : UInt32} (hid : id ∈ m.channelIds) (h : LockPoisoned w id)
  | sizesDiffer (h : ¬ ∃ size, ∀ id ∈ m.channelIds, SizeAt w id size)

/-- The group has exactly the listed channels, the others have lost them, and
no group is left empty. -/
structure Regroups (m : SetGroupChannel) (w w' : World D) : Prop where
  channels : ∀ kind, w'.manager.channels kind = w.manager.channels kind
  listed : ∀ id, IsMember w' m.groupChannelId id ↔ id ∈ m.channelIds
  others : ∀ g, g ≠ m.groupChannelId →
    ∀ id, IsMember w' g id ↔ IsMember w g id ∧ id ∉ m.channelIds
  nonempty : NonemptyGroups w'
  size : ∀ group size, w'.manager.groupChannels m.groupChannelId = some group →
    (∀ id ∈ m.channelIds, SizeAt w id size) → D.group.recordedSize group = some size
  sizes : ∀ g, g ≠ m.groupChannelId → ∀ group', w'.manager.groupChannels g = some group' →
    ∃ group, w.manager.groupChannels g = some group ∧
      D.group.recordedSize group' = D.group.recordedSize group
  settings : settings w'.manager = settings w.manager
  ambient : w'.ambient = w.ambient

/-- Validating a share leaves the full extranonce size alone. -/
def ValidationKeepsSize (D : Deps) : Prop :=
  ∀ kind channel share, (D.client kind).fullExtranonceSize
    ((D.client kind).validateShare channel share).2 = (D.client kind).fullExtranonceSize channel

theorem lockPoisoned_of_alone {w w' : World D} (h : LeavesChannelsAlone w w') {id : UInt32}
    (hp : LockPoisoned w id) : LockPoisoned w' id :=
  hp.of_delivers (Delivers.of_rigMoves h.2 : Delivers (fun _ _ _ => False) w w') h.1

theorem sizeAt_of_alone (hV : ValidationKeepsSize D) {w w' : World D}
    (h : LeavesChannelsAlone w w') {id : UInt32} {size : ℕ} :
    SizeAt w' id size ↔ SizeAt w id size := by
  constructor
  · intro hsize kind miner hres hm
    have hr : w.rigAt kind (.stored id) = some ⟨w.ambient, miner⟩ :=
      rigAt_eq_some_iff.mpr ⟨hm, rfl⟩
    obtain ⟨r', hr', hothers⟩ := h.2 kind (.stored id) _ hr
    have hlater := hsize kind r'.miner (h.1.resolves.mpr hres) (rigAt_eq_some_iff.mp hr').1
    rw [others_keepSize (hV kind) hothers] at hlater
    exact hlater
  · intro hsize
    refine hsize.kept h.1 ?_
    intro kind _ r r' hr hr'
    obtain ⟨s, hs, hothers⟩ := h.2 kind (.stored id) r hr
    cases hr'.symm.trans hs
    exact others_keepSize (hV kind) hothers

theorem RefusesRegroup.of_alone (hV : ValidationKeepsSize D) {w w' : World D}
    (h : LeavesChannelsAlone w w') {m : SetGroupChannel} (hw : RefusesRegroup w m) :
    RefusesRegroup w' m := by
  cases hw with
  | openGroup hopen => exact .openGroup ((isOpen_congr h.1).mpr hopen)
  | unknown hid hclosed => exact .unknown hid (fun hopen => hclosed ((isOpen_congr h.1).mp hopen))
  | poisoned hid hp => exact .poisoned hid (lockPoisoned_of_alone h hp)
  | sizesDiffer hsizes =>
    refine .sizesDiffer ?_
    intro hcommon
    obtain ⟨size, hsize⟩ := hcommon
    exact hsizes ⟨size, fun id hid => (sizeAt_of_alone hV h).mp (hsize id hid)⟩

theorem sizeAt_of_read {w : World D} {kind : Kind} {id : UInt32} {r : Rig (D.client kind)}
    (hres : Resolves w kind id) (hr : w.rigAt kind (.stored id) = some r) :
    SizeAt w id ((D.client kind).fullExtranonceSize r.miner.channel.value) := by
  have hm := (rigAt_eq_some_iff.mp hr).1
  intro kind' miner hres' hm'
  have hkind : kind' = kind :=
    resolves_unique hres hres' (Option.isSome_of_eq_some hm) (Option.isSome_of_eq_some hm')
  subst hkind
  cases hm.symm.trans hm'
  rfl

theorem sizeAt_unique {w : World D} {id : UInt32} {size size' : ℕ} (hopen : ChannelOpen w id)
    (h : SizeAt w id size) (h' : SizeAt w id size') : size = size' := by
  obtain ⟨kind, r, hres, hr⟩ := hopen.resolved
  have hm := (rigAt_eq_some_iff.mp hr).1
  exact (h kind r.miner hres hm).symm.trans (h' kind r.miner hres hm)

theorem not_lockPoisoned_of_read {w : World D} {kind : Kind} {id : UInt32}
    {r : Rig (D.client kind)} (hres : Resolves w kind id)
    (hr : w.rigAt kind (.stored id) = some r) (hlock : r.miner.channel.poisoned = false) :
    ¬ LockPoisoned w id := by
  intro hp
  obtain ⟨kind', r', hres', hr', hlock'⟩ := hp
  have hkind : kind' = kind := by
    apply resolves_unique hres hres'
    · exact Option.isSome_of_eq_some (rigAt_eq_some_iff.mp hr).1
    · exact Option.isSome_of_eq_some (rigAt_eq_some_iff.mp hr').1
  subst hkind
  cases hr.symm.trans hr'
  rw [hlock] at hlock'
  contradiction

section Listing

variable {env : World D → World D → Prop}

theorem env_alone (henv : ∀ a b, env a b → WorldInterferes a b) {w w' : World D}
    (h : ReflTransGen env w w') : LeavesChannelsAlone w w' :=
  worldOthers_alone (ReflTransGen.mono henv _ _ h)

theorem addListed_sound (hS : GroupSizeContract D.group) (hD : GroupContract D.group)
    (hV : ValidationKeepsSize D) (henv : ∀ a b, env a b → WorldInterferes a b) {g : UInt32}
    {ids : List UInt32} {group redefined : D.group.GroupChannel} {w w' : World D}
    (h : Runs env (addListed g group ids) w (.ok (some redefined)) w') :
    (∀ id ∈ ids, ChannelOpen w id ∧ ¬ LockPoisoned w id) ∧
    (ids ≠ [] → ∃ size, (D.group.getChannelIds group ≠ [] →
        D.group.recordedSize group = some size) ∧
      D.group.recordedSize redefined = some size ∧ ∀ id ∈ ids, SizeAt w id size) := by
  induction ids generalizing group w with
  | nil => exact ⟨fun id hid => absurd hid List.not_mem_nil, fun hne => absurd rfl hne⟩
  | cons a rest ih =>
    simp only [addListed, Prog.bind_eq] at h
    rcases runs_bind_iff.mp h with ⟨found, w₂, hread, hrest⟩ | ⟨_, he, _⟩
    · obtain ⟨w₁, h₁, h₂, hsize⟩ := fullExtranonceSize_cases henv hread
      have halone₁ := env_alone henv h₁
      have halone := env_alone henv (h₁.trans h₂)
      cases hsize with
      | closed =>
        obtain ⟨heq, _⟩ := runs_logNone hrest
        contradiction
      | @read kind r hres hr hlock =>
        dsimp only at hrest
        split at hrest
        · rename_i u joined hadd
          have hok : (D.group.addChannelId group a
              ((D.client kind).fullExtranonceSize r.miner.channel.value)).1 = .ok () := by
            rw [hadd]
          have hjoined := hS.added _ _ _ hok
          have hmember := (hD.added _ _ _ hok a).mpr (.inl rfl)
          rw [hadd] at hjoined hmember
          obtain ⟨husable, hsizes⟩ := ih hrest
          have hopen : ChannelOpen w a := by
            rw [← isOpen_congr halone₁.1]
            exact ⟨kind, Option.isSome_of_eq_some (rigAt_eq_some_iff.mp hr).1⟩
          have hfirst := (sizeAt_of_alone hV halone₁).mp (sizeAt_of_read hres hr)
          refine ⟨?_, fun _ => ⟨_, fun hne => (hS.next _ _ _ hne).mp hok, ?_⟩⟩
          · intro id hid
            rcases List.mem_cons.mp hid with rfl | hid
            · refine ⟨hopen, ?_⟩
              intro hp
              exact not_lockPoisoned_of_read hres hr hlock (lockPoisoned_of_alone halone₁ hp)
            · obtain ⟨hopen', husable'⟩ := husable id hid
              exact ⟨(isOpen_congr halone.1).mp hopen',
                fun hp => husable' (lockPoisoned_of_alone halone hp)⟩
          · by_cases hempty : rest = []
            · subst hempty
              obtain ⟨heq, _⟩ := runs_done_iff.mp hrest
              cases heq
              refine ⟨hjoined, ?_⟩
              intro id hid
              rw [List.mem_singleton.mp hid]
              exact hfirst
            · obtain ⟨size, hrecorded, hredefined, hall⟩ := hsizes hempty
              have hsame := hrecorded (List.ne_nil_of_mem hmember)
              rw [hjoined, Option.some.injEq] at hsame
              subst hsame
              refine ⟨hredefined, ?_⟩
              intro id hid
              rcases List.mem_cons.mp hid with rfl | hid
              · exact hfirst
              · exact (sizeAt_of_alone hV halone).mp (hall id hid)
        · obtain ⟨heq, _⟩ := runs_logNone hrest
          contradiction
    · contradiction

theorem addListed_succeeds (hS : GroupSizeContract D.group) (hV : ValidationKeepsSize D)
    (henv : ∀ a b, env a b → WorldInterferes a b) {g : UInt32} {ids : List UInt32} {size : ℕ}
    {group : D.group.GroupChannel} {w w' : World D}
    {res : Except Sv2CpuMinerError (Option D.group.GroupChannel)}
    (hfit : ∀ id ∈ ids, ChannelOpen w id ∧ ¬ LockPoisoned w' id ∧ SizeAt w id size)
    (hgroup : D.group.getChannelIds group ≠ [] → D.group.recordedSize group = some size)
    (h : Runs env (addListed g group ids) w res w') : ∃ redefined, res = .ok (some redefined) := by
  induction ids generalizing group w with
  | nil => exact ⟨group, (runs_done_iff.mp h).1⟩
  | cons a rest ih =>
    obtain ⟨hopen, husable, hsizeAt⟩ := hfit a List.mem_cons_self
    simp only [addListed, Prog.bind_eq] at h
    rcases runs_bind_iff.mp h with ⟨found, w₂, hread, hrest⟩ | ⟨_, _, hread⟩
    · obtain ⟨w₁, h₁, h₂, hsize⟩ := fullExtranonceSize_cases henv hread
      have halone := env_alone henv (h₁.trans h₂)
      cases hsize with
      | closed hclosed => exact absurd ((isOpen_congr (env_alone henv h₁).1).mpr hopen) hclosed
      | @read kind r hres hr hlock =>
        have heq : (D.client kind).fullExtranonceSize r.miner.channel.value = size :=
          (sizeAt_of_alone hV (env_alone henv h₁)).mpr hsizeAt kind r.miner hres
            (rigAt_eq_some_iff.mp hr).1
        have hok : (D.group.addChannelId group a
            ((D.client kind).fullExtranonceSize r.miner.channel.value)).1 = .ok () := by
          by_cases hempty : D.group.getChannelIds group = []
          · exact hS.first _ _ _ hempty
          · rw [hS.next _ _ _ hempty, heq]
            exact hgroup hempty
        dsimp only at hrest
        split at hrest
        · rename_i u joined hadd
          have hjoined := hS.added _ _ _ hok
          rw [hadd, heq] at hjoined
          refine ih ?_ (fun _ => hjoined) hrest
          intro id hid
          obtain ⟨hopen', husable', hsizeAt'⟩ := hfit id (List.mem_cons_of_mem _ hid)
          exact ⟨(isOpen_congr halone.1).mpr hopen', husable',
            (sizeAt_of_alone hV halone).mpr hsizeAt'⟩
        · rename_i e _ hadd
          rw [hadd] at hok
          contradiction
    · obtain ⟨w₁, h₁, h₂, hsize⟩ := fullExtranonceSize_cases henv hread
      cases hsize with
      | poisoned hres hr hlock =>
        have hp : LockPoisoned w₁ a := ⟨_, _, hres, hr, hlock⟩
        exact absurd (lockPoisoned_of_alone (env_alone henv h₂) hp) husable

end Listing

theorem removed_foldl_size (hD : GroupContract D.group) (hS : GroupSizeContract D.group)
    (ids : List UInt32) (group : D.group.GroupChannel)
    (hne : D.group.getChannelIds (ids.foldl D.group.removeChannelId group) ≠ []) :
    D.group.recordedSize (ids.foldl D.group.removeChannelId group) =
      D.group.recordedSize group := by
  induction ids generalizing group with
  | nil => rfl
  | cons id rest ih =>
    rw [List.foldl_cons] at hne ⊢
    rw [ih _ hne]
    apply hS.removed
    obtain ⟨a, ha⟩ := List.exists_mem_of_ne_nil _ hne
    exact List.ne_nil_of_mem ((removed_foldl hD _ rest a).mp ha).2

theorem regroup_regroups (hD : GroupContract D.group) (hS : GroupSizeContract D.group)
    {m : SetGroupChannel} {w w₀ : World D} {redefined : D.group.GroupChannel}
    (hlisted : Listed w₀ (D.group.new m.groupChannelId) m.channelIds redefined)
    (hsize : ∀ size, m.channelIds ≠ [] → (∀ id ∈ m.channelIds, SizeAt w id size) →
      D.group.recordedSize redefined = some size) :
    Regroups m w (regroup w m.groupChannelId m.channelIds redefined) := by
  refine ⟨?_, ?_, ?_, retainNonempty_nonempty hD _, ?_, ?_, rfl, rfl⟩
  · intro kind
    funext id
    exact minerAt_regroup w m.groupChannelId m.channelIds redefined kind (.stored id)
  · intro id
    rw [isMember_regroup hD hlisted]
    simp
  · intro g hg id
    rw [isMember_regroup hD hlisted]
    simp [hg]
  · intro group size hg hall
    obtain ⟨_, ⟨_, hids, rfl⟩ | ⟨hne, _⟩⟩ := (groups_regroup_iff hD _ _ _ _ _ _).mp hg
    · exact hsize size hids hall
    · exact absurd rfl hne
  · intro g hg group' hgroup
    obtain ⟨hne, ⟨heq, _⟩ | ⟨_, old, hold, rfl⟩⟩ := (groups_regroup_iff hD _ _ _ _ _ _).mp hgroup
    · exact absurd heq hg
    · exact ⟨old, hold, removed_foldl_size hD hS m.channelIds old hne⟩

theorem regroups_twice {m : SetGroupChannel} {w₁ w₂ w₃ w₄ : World D} {size : ℕ}
    (hfirst : Regroups m w₁ w₂) (hgroups : w₃.manager.groupChannels = w₂.manager.groupChannels)
    (hsize : ∀ id ∈ m.channelIds, SizeAt w₁ id size)
    (hsize' : ∀ id ∈ m.channelIds, SizeAt w₃ id size) (hsecond : Regroups m w₃ w₄) :
    SameGroups w₃.manager.groupChannels w₄.manager.groupChannels := by
  have hbefore : ∀ g id, IsMember w₃ g id ↔ IsMember w₂ g id := by
    intro g id
    unfold IsMember
    rw [hgroups]
  have hne : NonemptyGroups w₃ := by
    intro g group hg
    rw [hgroups] at hg
    exact hfirst.nonempty g group hg
  refine sameGroups_of_members hne hsecond.nonempty ?_ ?_
  · intro g id
    by_cases hg : g = m.groupChannelId
    · subst hg
      rw [hsecond.listed, hbefore, hfirst.listed]
    · rw [hsecond.others g hg, hbefore, hfirst.others g hg, and_assoc, and_self]
  · intro g group group' hg hg'
    by_cases htarget : g = m.groupChannelId
    · subst htarget
      rw [hgroups] at hg
      rw [hfirst.size group size hg hsize, hsecond.size group' size hg' hsize']
    · obtain ⟨old, hold, hsame⟩ := hsecond.sizes g htarget group' hg'
      cases hg.symm.trans hold
      exact hsame

section Handler

variable {env : World D → World D → Prop}

theorem refuses_of_failed_listing (hD : GroupContract D.group) (hS : GroupSizeContract D.group)
    (hV : ValidationKeepsSize D) (henv : ∀ a b, env a b → WorldInterferes a b)
    {m : SetGroupChannel} {w w' : World D}
    {res : Except Sv2CpuMinerError (Option D.group.GroupChannel)}
    (hadd : Runs env (addListed m.groupChannelId (D.group.new m.groupChannelId) m.channelIds)
      w res w')
    (hfails : ∀ redefined, res ≠ .ok (some redefined)) (halone : LeavesChannelsAlone w w') :
    RefusesRegroup w' m := by
  by_contra hfit
  have hopen : ∀ id ∈ m.channelIds, ChannelOpen w' id := by
    intro id hid
    by_contra hclosed
    exact hfit (.unknown hid hclosed)
  have hsizes : ∃ size, ∀ id ∈ m.channelIds, SizeAt w' id size := by
    by_contra hdiffer
    exact hfit (.sizesDiffer hdiffer)
  obtain ⟨size, hsize⟩ := hsizes
  have hnew : D.group.getChannelIds (D.group.new m.groupChannelId) ≠ [] →
      D.group.recordedSize (D.group.new m.groupChannelId) = some size :=
    fun hne => absurd (hD.new _) hne
  obtain ⟨redefined, hres⟩ := addListed_succeeds hS hV henv (fun id hid =>
    ⟨(isOpen_congr halone.1).mp (hopen id hid), fun hp => hfit (.poisoned hid hp),
      (sizeAt_of_alone hV halone).mp (hsize id hid)⟩) hnew hadd
  exact hfails redefined hres

theorem not_refuses_of_usable {m : SetGroupChannel} {w : World D}
    (hfree : ¬ ChannelOpen w m.groupChannelId)
    (husable : ∀ id ∈ m.channelIds, ChannelOpen w id ∧ ¬ LockPoisoned w id)
    (hsizes : m.channelIds ≠ [] → ∃ size, ∀ id ∈ m.channelIds, SizeAt w id size) :
    ¬ RefusesRegroup w m := by
  intro hrefused
  cases hrefused with
  | openGroup hopen => exact hfree hopen
  | unknown hid hclosed => exact hclosed (husable _ hid).1
  | poisoned hid hp => exact (husable _ hid).2 hp
  | sizesDiffer hdiffer =>
    apply hdiffer
    by_cases hids : m.channelIds = []
    · refine ⟨0, ?_⟩
      intro id hid
      rw [hids] at hid
      exact absurd hid List.not_mem_nil
    · exact hsizes hids

/-- The message is refused for a reason and changes nothing but the log, or
the group is redefined. -/
theorem setGroupChannel_result (hD : GroupContract D.group) (hS : GroupSizeContract D.group)
    (hV : ValidationKeepsSize D) (henv : ∀ a b, env a b → WorldInterferes a b)
    {m : SetGroupChannel} {w w' : World D} {r : Except Sv2CpuMinerError Unit}
    (hstd : w.manager.requiresStandardJobs = false)
    (h : Runs env (handle (.setGroupChannel m)) w r w') :
    (¬ RefusesRegroup w m ∧ r = .ok () ∧ ∃ w₁ w₂, ReflTransGen env w w₁ ∧ Regroups m w₁ w₂ ∧
      w₂.log = w₁.log ∧ ReflTransGen env w₂ w') ∨
    (RefusesRegroup w' m ∧
      ((r = .ok () ∧ ∃ w₁ e, ReflTransGen env w w₁ ∧ ReflTransGen env (w₁.logError e) w') ∨
        (r = .error .poisonLock ∧ ReflTransGen env w w'))) := by
  obtain ⟨w₀, h₀, hrest⟩ := runs_observe_manager h
  have halone₀ := env_alone henv h₀
  rw [halone₀.1.requiresStandardJobs, hstd] at hrest
  split at hrest
  · contradiction
  split at hrest
  · rename_i hkeys
    obtain ⟨hr, w₁, h₁, h'⟩ := runs_perform_iff.mp hrest
    have hopen : ChannelOpen w₀ m.groupChannelId := by
      rw [isOpen_iff_keys]
      simpa only [Bool.or_eq_true] using hkeys
    have hafter := ((env_alone henv h₁).trans (logged_alone w₁ _)).trans (env_alone henv h')
    exact .inr ⟨.openGroup ((isOpen_congr hafter.1).mpr hopen),
      .inl ⟨hr, w₁, _, h₀.trans h₁, h'⟩⟩
  rename_i hkeys
  have hfree : ¬ ChannelOpen w m.groupChannelId := by
    rw [← isOpen_congr halone₀.1, isOpen_iff_keys]
    simpa only [Bool.or_eq_true] using hkeys
  rcases runs_bind_iff.mp hrest with ⟨listed, w₁, hadd, hlast⟩ | ⟨e, rfl, hadd⟩
  · rcases addListed_cases henv hadd with ⟨redefined, hl, hlisted, h₁⟩ | ⟨hl, w₂, e, h₂, h₁⟩ |
      ⟨hl, _⟩
    · cases hl
      obtain ⟨rfl, w₂, h₂, h'⟩ := runs_perform_iff.mp hlast
      have halone₂ := env_alone henv ((h₀.trans h₁).trans h₂)
      obtain ⟨husable, hsizes⟩ := addListed_sound hS hD hV henv hadd
      refine .inl ⟨?_, rfl, w₂, _, (h₀.trans h₁).trans h₂, regroup_regroups hD hS hlisted ?_, rfl,
        h'⟩
      · apply not_refuses_of_usable hfree
        · intro id hid
          obtain ⟨hopen, hlock⟩ := husable id hid
          exact ⟨(isOpen_congr halone₀.1).mp hopen,
            fun hp => hlock (lockPoisoned_of_alone halone₀ hp)⟩
        · intro hids
          obtain ⟨size, _, _, hall⟩ := hsizes hids
          exact ⟨size, fun id hid => (sizeAt_of_alone hV halone₀).mp (hall id hid)⟩
      · intro size hids hall
        obtain ⟨size', _, hrecorded, hall'⟩ := hsizes hids
        obtain ⟨id, hid⟩ := List.exists_mem_of_ne_nil _ hids
        have hopen := (isOpen_congr halone₀.1).mp (husable id hid).1
        have hthen := (sizeAt_of_alone hV halone₀).mp (hall' id hid)
        have hnow := (sizeAt_of_alone hV halone₂).mp (hall id hid)
        rw [hrecorded, sizeAt_unique hopen hthen hnow]
    · cases hl
      obtain ⟨hr, h'⟩ := runs_done_iff.mp hlast
      have halone := ((env_alone henv h₂).trans (logged_alone w₂ e)).trans (env_alone henv h₁)
      refine .inr ⟨?_, .inl ⟨hr, w₂, e, h₀.trans h₂, h₁.trans h'⟩⟩
      exact refuses_of_failed_listing hD hS hV henv (hadd.append h') (fun _ hc => nomatch hc)
        (halone.trans (env_alone henv h'))
    · contradiction
  · rcases addListed_cases henv hadd with ⟨_, hl, _⟩ | ⟨hl, _⟩ | ⟨hl, h'⟩
    · contradiction
    · contradiction
    · cases hl
      refine .inr ⟨?_, .inr ⟨rfl, h₀.trans h'⟩⟩
      exact refuses_of_failed_listing hD hS hV henv hadd (fun _ hc => nomatch hc)
        (env_alone henv h')

theorem common_size {w : World D} {m : SetGroupChannel} (h : ¬ RefusesRegroup w m) :
    ∃ size, ∀ id ∈ m.channelIds, SizeAt w id size := by
  by_contra hdiffer
  exact h (.sizesDiffer hdiffer)

theorem setGroupChannel_again (hD : GroupContract D.group) (hS : GroupSizeContract D.group)
    (hV : ValidationKeepsSize D) (henv : ∀ a b, env a b → WorldInterferes a b)
    {m : SetGroupChannel} {w w₁ w₂ w' w'' : World D} {r : Except Sv2CpuMinerError Unit}
    (hstd : w.manager.requiresStandardJobs = false) (hfit : ¬ RefusesRegroup w m)
    (h₁ : ReflTransGen env w w₁) (hfirst : Regroups m w₁ w₂) (h' : ReflTransGen env w₂ w')
    (h : Runs env (handle (.setGroupChannel m)) w' r w'') :
    ∃ w₃ w₄, ReflTransGen env w' w₃ ∧ ReflTransGen env w₄ w'' ∧
      (∀ kind, w₄.manager.channels kind = w₃.manager.channels kind) ∧
      SameGroups w₃.manager.groupChannels w₄.manager.groupChannels ∧
      w₄.ambient = w₃.ambient := by
  have hsame : ∀ groups : PartialMap UInt32 D.group.GroupChannel, SameGroups groups groups := by
    intro groups g
    cases hg : groups g with
    | none => exact .inl ⟨rfl, rfl⟩
    | some group => exact .inr ⟨group, group, rfl, rfl, fun _ => Iff.rfl, rfl⟩
  have hstd' : w'.manager.requiresStandardJobs = false := by
    rw [(env_alone henv h').1.requiresStandardJobs]
    have hsettings : w₂.manager.requiresStandardJobs = w₁.manager.requiresStandardJobs :=
      congrArg (fun s => s.2.2.2.2) hfirst.settings
    rw [hsettings, (env_alone henv h₁).1.requiresStandardJobs]
    exact hstd
  rcases setGroupChannel_result hD hS hV henv hstd' h with
    ⟨_, _, w₃, w₄, h₃, hsecond, _, h₄⟩ | ⟨_, ⟨_, w₃, e, h₃, h₄⟩ | ⟨_, h₃⟩⟩
  · obtain ⟨size, hsize⟩ := common_size hfit
    have hbefore : ∀ id ∈ m.channelIds, SizeAt w₁ id size :=
      fun id hid => (sizeAt_of_alone hV (env_alone henv h₁)).mpr (hsize id hid)
    have hagain : ∀ id ∈ m.channelIds, SizeAt w₃ id size := by
      intro id hid
      refine (sizeAt_of_alone hV (env_alone henv (h'.trans h₃))).mpr ?_
      exact (hbefore id hid).of_same (fun kind => congrFun (hfirst.channels kind) id)
    have hgroups := (env_alone henv (h'.trans h₃)).1.groups
    exact ⟨w₃, w₄, h₃, h₄, hsecond.channels,
      regroups_twice hfirst hgroups hbefore hagain hsecond, hsecond.ambient⟩
  · exact ⟨w₃, w₃.logError e, h₃, h₄, fun _ => rfl, hsame _, rfl⟩
  · exact ⟨w'', w'', h₃, .refl, fun _ => rfl, hsame _, rfl⟩

end Handler

/-- Handled with `Ok` and nothing logged. -/
def Accepted (w : World D) (r : Except Sv2CpuMinerError Unit) (w' : World D) : Prop :=
  r = .ok () ∧ w'.log = w.log

theorem not_accepted_of_logged {w w₁ w' : World D} {e : ErrorLog}
    {r : Except Sv2CpuMinerError Unit} (h₁ : w₁.log = w.log)
    (h' : w'.log = (w₁.logError e).log) : ¬ Accepted w r w' := by
  intro haccepted
  exact logError_ne w₁ e (h'.symm.trans (haccepted.2.trans h₁.symm))

/-- Handled without interruption, the message is refused for a reason and the
manager stays as it was, or the group is redefined for good. -/
theorem setGroupChannel_uninterrupted (hD : GroupContract D.group)
    (hS : GroupSizeContract D.group) (hV : ValidationKeepsSize D) {w : World D}
    (hstd : w.manager.requiresStandardJobs = false) (m : SetGroupChannel) :
    (RefusesRegroup w m ↔ ¬ Accepted w ((handle (.setGroupChannel m)).eval w).1
        ((handle (.setGroupChannel m)).eval w).2) ∧
      (RefusesRegroup w m → ((handle (.setGroupChannel m)).eval w).2.manager = w.manager) ∧
      (¬ RefusesRegroup w m → Regroups m w ((handle (.setGroupChannel m)).eval w).2 ∧
        SameMaps ((handle (.setGroupChannel m)).eval w).2 ((handle (.setGroupChannel m)).eval
          ((handle (.setGroupChannel m)).eval w).2).2) := by
  have hrun : Runs (fun _ _ => False) (handle (.setGroupChannel m)) w _ _ :=
    runs_eval (handle (.setGroupChannel m)) w
  generalize (handle (.setGroupChannel m)).eval w = out at hrun
  rcases setGroupChannel_result hD hS hV (fun _ _ h => h.elim) hstd hrun with
    ⟨hfit, hr, w₁, w₂, h₁, hregroups, hlog, h'⟩ | ⟨hrefused, ⟨hr, w₁, e, h₁, h'⟩ | ⟨hr, h'⟩⟩
  · have heq₁ := eq_of_still h₁
    have heq₂ := eq_of_still h'
    subst heq₁
    have hrun' : Runs (fun _ _ => False) (handle (.setGroupChannel m)) out.2 _ _ :=
      runs_eval (handle (.setGroupChannel m)) out.2
    obtain ⟨w₃, w₄, h₃, h₄, hchannels, hgroups, _⟩ := setGroupChannel_again hD hS hV
      (fun _ _ h => h.elim) hstd hfit .refl hregroups h' hrun'
    rw [eq_of_still h₃] at hchannels hgroups
    have hsame : SameMaps out.2 ((handle (.setGroupChannel m)).eval out.2).2 := by
      rw [eq_of_still h₄]
      exact ⟨hchannels, hgroups⟩
    have haccepted : Accepted w₁ out.1 out.2 := ⟨hr, heq₂ ▸ hlog⟩
    exact ⟨iff_of_false hfit (not_not.mpr haccepted), fun h => absurd h hfit,
      fun _ => ⟨heq₂ ▸ hregroups, hsame⟩⟩
  · have heq₁ := eq_of_still h₁
    have heq₂ := eq_of_still h'
    subst heq₁
    have hback : LeavesChannelsAlone out.2 w₁ := by
      rw [heq₂]
      exact ⟨(onlyLogs_sameRegistry _ _ ⟨_, rfl⟩).symm,
        fun kind place => onlyLogs_rigMoves kind place _ _ ⟨w₁.log, rfl⟩⟩
    have hbefore := hrefused.of_alone hV hback
    have hnot : ¬ Accepted w₁ out.1 out.2 := by
      rw [heq₂]
      exact not_accepted_of_logged rfl rfl
    refine ⟨iff_of_true hbefore hnot, fun _ => ?_, fun h => absurd hbefore h⟩
    rw [heq₂]
    rfl
  · have heq := eq_of_still h'
    have hbefore : RefusesRegroup w m := heq ▸ hrefused
    refine ⟨iff_of_true hbefore ?_, fun _ => by rw [heq], fun h => absurd hbefore h⟩
    intro haccepted
    rw [hr] at haccepted
    exact nomatch haccepted.1

/-- While tasks, clock and shutdown act, a reason found at the start refuses
the message, and a message refused has a reason at the end. -/
theorem setGroupChannel_step (hD : GroupContract D.group) (hS : GroupSizeContract D.group)
    (hV : ValidationKeepsSize D) {w w' : World D}
    (hstd : w.manager.requiresStandardJobs = false) {m : SetGroupChannel}
    {r : Except Sv2CpuMinerError Unit} (h : WorldStep w (.message (.setGroupChannel m) r) w') :
    (RefusesRegroup w m → ¬ Accepted w r w') ∧
      (¬ Accepted w r w' → RefusesRegroup w' m ∧ LeavesChannelsAlone w w') ∧
      (Accepted w r w' → ∃ w₁ w₂, WorldOthers w w₁ ∧ Regroups m w₁ w₂ ∧ WorldOthers w₂ w' ∧
        ∀ (r' : Except Sv2CpuMinerError Unit) (w'' : World D),
          WorldStep w' (.message (.setGroupChannel m) r') w'' → KeepsMaps w' w'') := by
  have henv : ∀ a b : World D, WorldInterferes a b → WorldInterferes a b := fun _ _ h => h
  have hrun : Runs WorldInterferes (handle (.setGroupChannel m)) w r w' := by
    cases h with
    | message hrun => exact hrun
  have hrefuses : RefusesRegroup w' m → ¬ Accepted w r w' → LeavesChannelsAlone w w' →
      (RefusesRegroup w m → ¬ Accepted w r w') ∧
      (¬ Accepted w r w' → RefusesRegroup w' m ∧ LeavesChannelsAlone w w') ∧
      (Accepted w r w' → ∃ w₁ w₂, WorldOthers w w₁ ∧ Regroups m w₁ w₂ ∧ WorldOthers w₂ w' ∧
        ∀ (r' : Except Sv2CpuMinerError Unit) (w'' : World D),
          WorldStep w' (.message (.setGroupChannel m) r') w'' → KeepsMaps w' w'') :=
    fun hrefused hnot halone =>
      ⟨fun _ => hnot, fun _ => ⟨hrefused, halone⟩, fun haccepted => absurd haccepted hnot⟩
  rcases setGroupChannel_result hD hS hV henv hstd hrun with
    ⟨hfit, hr, w₁, w₂, h₁, hregroups, hlog, h'⟩ | ⟨hrefused, ⟨_, w₁, e, h₁, h'⟩ | ⟨hr, h'⟩⟩
  · have haccepted : Accepted w r w' :=
      ⟨hr, (worldOthers_log h').trans (hlog.trans (worldOthers_log h₁))⟩
    refine ⟨fun hrefused => absurd hrefused hfit, fun hnot => absurd haccepted hnot, fun _ => ?_⟩
    refine ⟨w₁, w₂, h₁, hregroups, h', ?_⟩
    intro r' w'' hagain
    cases hagain with
    | message hrun' =>
      obtain ⟨w₃, w₄, h₃, h₄, hchannels, hgroups, hamb⟩ :=
        setGroupChannel_again hD hS hV henv hstd hfit h₁ hregroups h' hrun'
      have hsame₃ := worldOthers_sameRegistry h₃
      have hsame₄ := worldOthers_sameRegistry h₄
      refine ⟨?_, ?_, ?_⟩
      · intro kind id
        rw [hsame₄.keys kind id, hchannels kind, hsame₃.keys kind id]
      · intro kind id
        have hmiddle := rigMoves_of_channel (congrFun (hchannels kind) id) hamb
        exact ((worldOthers_rigMoves h₃ kind (.stored id)).trans hmiddle).trans
          (worldOthers_rigMoves h₄ kind (.stored id))
      · rw [hsame₃.groups, ← hsame₄.groups] at hgroups
        exact hgroups
  · exact hrefuses hrefused (not_accepted_of_logged (worldOthers_log h₁) (worldOthers_log h'))
      (((worldOthers_alone h₁).trans (logged_alone w₁ e)).trans (worldOthers_alone h'))
  · refine hrefuses hrefused ?_ (worldOthers_alone h')
    intro haccepted
    rw [hr] at haccepted
    exact nomatch haccepted.1

/-- In every world whose connection takes group messages, a group is redefined
unless the message has a reason to be refused, and then nothing changes.
Handled without interruption this is an exact alternative; tasks, clock and
shutdown can only add a poisoned lock meanwhile. Handling an accepted message
again changes neither channels nor groups. -/
theorem group_redefined_or_refused (D : Deps) (hD : GroupContract D.group)
    (hS : GroupSizeContract D.group) (hV : ValidationKeepsSize D) (w : World D)
    (hstd : w.manager.requiresStandardJobs = false) (m : SetGroupChannel) :
    ((RefusesRegroup w m ↔ ¬ Accepted w ((handle (.setGroupChannel m)).eval w).1
        ((handle (.setGroupChannel m)).eval w).2) ∧
      (RefusesRegroup w m → ((handle (.setGroupChannel m)).eval w).2.manager = w.manager) ∧
      (¬ RefusesRegroup w m → Regroups m w ((handle (.setGroupChannel m)).eval w).2 ∧
        SameMaps ((handle (.setGroupChannel m)).eval w).2 ((handle (.setGroupChannel m)).eval
          ((handle (.setGroupChannel m)).eval w).2).2)) ∧
    ∀ (r : Except Sv2CpuMinerError Unit) (w' : World D),
      WorldStep w (.message (.setGroupChannel m) r) w' →
      (RefusesRegroup w m → ¬ Accepted w r w') ∧
      (¬ Accepted w r w' → RefusesRegroup w' m ∧ LeavesChannelsAlone w w') ∧
      (Accepted w r w' → ∃ w₁ w₂, WorldOthers w w₁ ∧ Regroups m w₁ w₂ ∧ WorldOthers w₂ w' ∧
        ∀ (r' : Except Sv2CpuMinerError Unit) (w'' : World D),
          WorldStep w' (.message (.setGroupChannel m) r') w'' → KeepsMaps w' w'') :=
  ⟨setGroupChannel_uninterrupted hD hS hV hstd m,
    fun _ _ h => setGroupChannel_step hD hS hV hstd h⟩

theorem sample_validationKeepsSize : ValidationKeepsSize sampleDeps := by
  intro kind channel share
  rcases sample_validate kind channel share with ⟨e, h⟩ | ⟨channel', h, _, hkeeps⟩
  · rw [h]
  · rw [h]
    exact hkeeps.size

/-- Both members of a group are moved to another one. -/
theorem sample_regrouped :
    ∃ w w' : World sampleDeps, play World.execute sampleWorld sampleOpenings = some w ∧
      w.execute (.message (setGroupMessage 11 [2, 1, 2]) (.ok ())) = some w' ∧
      Accepted w (.ok ()) w' ∧ ¬ RefusesRegroup w ⟨11, [2, 1, 2]⟩ ∧
      ∃ w₁ w₂, WorldOthers w w₁ ∧ Regroups ⟨11, [2, 1, 2]⟩ w₁ w₂ ∧
        WorldOthers w₂ w' ∧ ∀ (r' : Except Sv2CpuMinerError Unit) (w'' : World sampleDeps),
          WorldStep w' (.message (setGroupMessage 11 [2, 1, 2]) r') w'' → KeepsMaps w' w'' := by
  have hplay : ((play World.execute sampleWorld sampleOpenings).bind fun w =>
      (w.execute (.message (setGroupMessage 11 [2, 1, 2]) (.ok ()))).map fun w' =>
        (w.log.isEmpty, w'.log.isEmpty, w.manager.requiresStandardJobs)) =
      some (true, true, false) := by decide +kernel
  obtain ⟨w, hw, hrest⟩ := Option.bind_eq_some_iff.mp hplay
  obtain ⟨w', hstep, hchecks⟩ := Option.map_eq_some_iff.mp hrest
  simp only [Prod.mk.injEq, List.isEmpty_iff] at hchecks
  obtain ⟨hempty, hempty', hstd⟩ := hchecks
  have haccepted : Accepted w (.ok ()) w' := ⟨rfl, hempty'.trans hempty.symm⟩
  obtain ⟨_, hsteps⟩ := group_redefined_or_refused sampleDeps sample_groupContract
    sample_groupSizes sample_validationKeepsSize w hstd ⟨11, [2, 1, 2]⟩
  obtain ⟨hrefused, _, hregrouped⟩ := hsteps _ _ (worldStep_of_execute hstep)
  exact ⟨w, w', hw, hstep, haccepted, fun h => hrefused h haccepted, hregrouped haccepted⟩

end CpuMinerSv2.Regrouping
