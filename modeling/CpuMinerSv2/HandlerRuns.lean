import CpuMinerSv2.Registry

/-!
The run of a handler, taken apart once for every message: it calls some of
the stored miners and leaves the registry as it is, or opens a channel, or
closes some, or redefines a group. Tasks, clock and shutdown act before and
after, and while channel sizes are read.
-/

namespace CpuMinerSv2.HandlerRuns

open Messages Channels Primitives Interference MineJob MinerMethods MinerRuns Manager
  ManagerFrames Deliveries Registry Relation

variable {D : Deps}

/-- Steps of the world while a handler runs. -/
abbrev WorldOthers : World D → World D → Prop := ReflTransGen WorldInterferes

/-- Stored as a standard or as an extended channel. -/
def ChannelOpen (w : World D) (id : UInt32) : Prop :=
  ∃ kind, (w.minerAt kind (.stored id)).isSome = true

theorem isOpen_congr {w w' : World D} (h : SameRegistry w w') {id : UInt32} :
    ChannelOpen w' id ↔ ChannelOpen w id := by
  unfold ChannelOpen
  simp only [h.places]

theorem isOpen_iff_keys {w : World D} {id : UInt32} :
    ChannelOpen w id ↔ w.manager.standardChannels.containsKey id = true ∨
      w.manager.extendedChannels.containsKey id = true := by
  constructor
  · intro h
    obtain ⟨kind, hkey⟩ := h
    cases kind with
    | standard => exact .inl hkey
    | extended => exact .inr hkey
  · intro h
    rcases h with hkey | hkey
    · exact ⟨.standard, hkey⟩
    · exact ⟨.extended, hkey⟩

theorem resolves_iff {w : World D} {kind : Kind} {id : UInt32} :
    Resolves w kind id ↔ kind = .standard ∨ w.minerAt .standard (.stored id) = none := by
  unfold Resolves
  apply or_congr_right
  exact Option.isSome_eq_false_iff.trans Option.isNone_iff_eq_none

theorem resolves_unique {w : World D} {kind kind' : Kind} {id : UInt32}
    (hres : Resolves w kind id) (hres' : Resolves w kind' id)
    (hkey : (w.minerAt kind (.stored id)).isSome = true)
    (hkey' : (w.minerAt kind' (.stored id)).isSome = true) : kind' = kind := by
  have hother : ∀ {k : Kind}, Resolves w k id →
      (w.minerAt .standard (.stored id)).isSome = true → k = .standard := by
    intro k hk hstd
    rcases resolves_iff.mp hk with h | h
    · exact h
    · rw [h] at hstd
      contradiction
  cases kind with
  | standard => exact hother hres' hkey
  | extended =>
    cases kind' with
    | standard => exact (hother hres hkey').symm
    | extended => rfl

theorem ChannelOpen.resolved {w : World D} {id : UInt32} (h : ChannelOpen w id) :
    ∃ kind, ∃ r : Rig (D.client kind), Resolves w kind id ∧
      w.rigAt kind (.stored id) = some r := by
  have hrig : ∀ {kind : Kind} {miner : ChannelMiner (D.client kind)},
      w.minerAt kind (.stored id) = some miner →
        w.rigAt kind (.stored id) = some ⟨w.ambient, miner⟩ :=
    fun hm => rigAt_eq_some_iff.mpr ⟨hm, rfl⟩
  cases hstd : w.minerAt .standard (.stored id) with
  | some miner => exact ⟨.standard, _, .inl rfl, hrig hstd⟩
  | none =>
    obtain ⟨kind, hkey⟩ := h
    obtain ⟨miner, hm⟩ := Option.isSome_iff_exists.mp hkey
    exact ⟨kind, _, resolves_iff.mpr (.inr hstd), hrig hm⟩

theorem putRig_rigAt {w : World D} {kind : Kind} {place : Place} {r : Rig (D.client kind)}
    (h : w.rigAt kind place = some r) : World.putRig kind place r w = w := by
  obtain ⟨hm, hamb⟩ := rigAt_eq_some_iff.mp h
  have hput : w.putMiner kind r.miner place = w := by
    cases place with
    | stored id =>
      have hsame : (w.manager.channels kind).insert id r.miner = w.manager.channels kind :=
        Function.update_eq_self_iff.mpr hm.symm
      simp only [World.putMiner, hsame]
      cases kind <;> rfl
    | dropped n =>
      have hsame : (w.dropped kind).set n r.miner = w.dropped kind := by
        obtain ⟨hlt, heq⟩ := List.getElem?_eq_some_iff.mp hm
        rw [← heq]
        exact List.set_getElem_self hlt
      simp only [World.putMiner, hsame]
      cases kind <;> rfl
  rw [World.putRig, hput, hamb]

/-- What is found when the size of a channel is read in this world. -/
inductive SizeRead (w : World D) (id : UInt32) : Except Sv2CpuMinerError (Option ℕ) → Prop
  | closed (h : ¬ ChannelOpen w id) : SizeRead w id (.ok none)
  | poisoned {kind : Kind} {r : Rig (D.client kind)} (hres : Resolves w kind id)
      (hr : w.rigAt kind (.stored id) = some r) (hlock : r.miner.channel.poisoned = true) :
      SizeRead w id (.error .poisonLock)
  | read {kind : Kind} {r : Rig (D.client kind)} (hres : Resolves w kind id)
      (hr : w.rigAt kind (.stored id) = some r) (hlock : r.miner.channel.poisoned = false) :
      SizeRead w id (.ok (some ((D.client kind).fullExtranonceSize r.miner.channel.value)))

theorem readSize_cases {env : World D → World D → Prop} (kind : Kind) {id : UInt32}
    {w w' : World D} {res : Except Sv2CpuMinerError (Option ℕ)}
    (h : Runs env (Prog.focus (World.rigAt kind (.stored id)) (World.putRig kind (.stored id))
      (MinerMethods.fullExtranonceSize (K := D.client kind))) w res w') :
    ∃ w₁, ReflTransGen env w w₁ ∧ ReflTransGen env w₁ w' ∧
      ((w₁.minerAt kind (.stored id)).isSome = true → Resolves w₁ kind id →
        SizeRead w₁ id res) := by
  simp only [MinerMethods.fullExtranonceSize, readChannel, Prog.focus, runs_act_iff, id_eq] at h
  obtain ⟨w₁, h₁, hrest⟩ := h
  cases hr : w₁.rigAt kind (.stored id) with
  | none =>
    simp only [hr, runs_done_iff] at hrest
    refine ⟨w₁, h₁, hrest.2, ?_⟩
    intro hkey _
    have hnone : w₁.minerAt kind (.stored id) = none := Option.map_eq_none_iff.mp hr
    rw [hnone] at hkey
    contradiction
  | some r =>
    simp only [hr, putRig_rigAt hr] at hrest
    cases hlock : r.miner.channel.poisoned with
    | true =>
      simp only [RwCell.read, hlock, ↓reduceIte, Prog.focus, runs_fail_iff] at hrest
      obtain ⟨rfl, h'⟩ := hrest
      exact ⟨w₁, h₁, h', fun _ hres => .poisoned hres hr hlock⟩
    | false =>
      simp only [RwCell.read, hlock, Bool.false_eq_true, ↓reduceIte, Prog.focus,
        runs_done_iff] at hrest
      obtain ⟨rfl, h'⟩ := hrest
      exact ⟨w₁, h₁, h', fun _ hres => .read hres hr hlock⟩

theorem env_sameRegistry {env : World D → World D → Prop}
    (henv : ∀ a b, env a b → WorldInterferes a b) {w w' : World D} (h : ReflTransGen env w w') :
    SameRegistry w w' :=
  worldOthers_sameRegistry (ReflTransGen.mono henv _ _ h)

theorem fullExtranonceSize_cases {env : World D → World D → Prop}
    (henv : ∀ a b, env a b → WorldInterferes a b) {id : UInt32} {w w' : World D}
    {res : Except Sv2CpuMinerError (Option ℕ)}
    (h : Runs env (Manager.fullExtranonceSize id) w res w') :
    ∃ w₁, ReflTransGen env w w₁ ∧ ReflTransGen env w₁ w' ∧ SizeRead w₁ id res := by
  obtain ⟨w₀, h₀, hrest⟩ := runs_observe_manager h
  have hread : ∀ kind : Kind, w₀.manager.channels kind id ≠ none → Resolves w₀ kind id →
      Runs env (Prog.focus (World.rigAt kind (.stored id)) (World.putRig kind (.stored id))
        (MinerMethods.fullExtranonceSize (K := D.client kind))) w₀ res w' →
      ∃ w₁, ReflTransGen env w w₁ ∧ ReflTransGen env w₁ w' ∧ SizeRead w₁ id res := by
    intro kind hkey hres hrun
    obtain ⟨w₁, h₁, h', hsize⟩ := readSize_cases kind hrun
    have hsame := env_sameRegistry henv h₁
    refine ⟨w₁, h₀.trans h₁, h', hsize ?_ (hsame.resolves.mpr hres)⟩
    rw [hsame.places]
    exact Option.isSome_iff_ne_none.mpr hkey
  split at hrest
  · rename_i hstd
    exact hread .standard (Option.isSome_iff_ne_none.mp hstd) (.inl rfl) hrest
  · rename_i hstd
    have hres : Resolves w₀ .extended id := .inr (Bool.eq_false_iff.mpr hstd)
    split at hrest
    · rename_i hext
      exact hread .extended (Option.isSome_iff_ne_none.mp hext) hres hrest
    · rename_i hext
      obtain ⟨rfl, h'⟩ := runs_done_iff.mp hrest
      refine ⟨w₀, h₀, h', .closed ?_⟩
      rw [isOpen_iff_keys, not_or]
      exact ⟨hstd, hext⟩

/-- Every listed channel is open and has joined the group in turn, with the
size it had when it was looked up. -/
inductive Listed (w : World D) :
    D.group.GroupChannel → List UInt32 → D.group.GroupChannel → Prop
  | nil {group : D.group.GroupChannel} : Listed w group [] group
  | cons {group joined redefined : D.group.GroupChannel} {id : UInt32} {rest : List UInt32}
      {kind : Kind} {w₁ : World D} {r : Rig (D.client kind)} (hres : Resolves w kind id)
      (h₁ : WorldOthers w w₁) (hr : w₁.rigAt kind (.stored id) = some r)
      (hadd : D.group.addChannelId group id
        ((D.client kind).fullExtranonceSize r.miner.channel.value) = (.ok (), joined))
      (hrest : Listed w joined rest redefined) : Listed w group (id :: rest) redefined

theorem Listed.prepend {w w₀ : World D} (h₀ : WorldOthers w w₀)
    {group redefined : D.group.GroupChannel} {ids : List UInt32}
    (h : Listed w₀ group ids redefined) : Listed w group ids redefined := by
  induction h with
  | nil => exact .nil
  | cons hres h₁ hr hadd _ ih =>
    exact .cons ((worldOthers_sameRegistry h₀).resolves.mp hres) (h₀.trans h₁) hr hadd ih

theorem Listed.isOpen {w : World D} {group redefined : D.group.GroupChannel} {ids : List UInt32}
    (h : Listed w group ids redefined) : ∀ id ∈ ids, ChannelOpen w id := by
  induction h with
  | nil => simp
  | @cons _ _ _ id rest kind w₁ r _ h₁ hr _ _ ih =>
    intro a ha
    rcases List.mem_cons.mp ha with rfl | ha
    · apply (isOpen_congr (worldOthers_sameRegistry h₁)).mp
      exact ⟨kind, Option.isSome_of_eq_some (rigAt_eq_some_iff.mp hr).1⟩
    · exact ih a ha

theorem Listed.members (hD : GroupContract D.group) {w : World D}
    {group redefined : D.group.GroupChannel} {ids : List UInt32}
    (h : Listed w group ids redefined) (a : UInt32) :
    a ∈ D.group.getChannelIds redefined ↔ a ∈ ids ∨ a ∈ D.group.getChannelIds group := by
  induction h with
  | nil => simp
  | @cons group joined _ id rest kind _ r _ _ _ hadd _ ih =>
    have hmem := hD.added group id ((D.client kind).fullExtranonceSize r.miner.channel.value)
      (by rw [hadd]) a
    rw [hadd] at hmem
    rw [ih, hmem, List.mem_cons, or_left_comm, or_assoc]

theorem runs_logNone {env : World D → World D → Prop} {α : Type} {e : ErrorLog} {w w' : World D}
    {res : Except Sv2CpuMinerError (Option α)}
    (h : Runs env ((Manager.logError e).bind fun _ => .done none) w res w') :
    res = .ok none ∧ ∃ w₁, ReflTransGen env w w₁ ∧ ReflTransGen env (w₁.logError e) w' := by
  simp only [Manager.logError, runs_bind_iff, runs_perform_iff, runs_done_iff] at h
  rcases h with ⟨_, w₂, ⟨_, w₁, h₁, h₂⟩, rfl, h'⟩ | ⟨_, _, he, _⟩
  · exact ⟨rfl, w₁, h₁, h₂.trans h'⟩
  · contradiction

/-- Either all are put into the group and nothing else happens, or the reason
why not is logged, or a size cannot be read. -/
theorem addListed_cases {env : World D → World D → Prop}
    (henv : ∀ a b, env a b → WorldInterferes a b) {g : UInt32} {ids : List UInt32}
    {group : D.group.GroupChannel} {w w' : World D}
    {res : Except Sv2CpuMinerError (Option D.group.GroupChannel)}
    (h : Runs env (addListed g group ids) w res w') :
    (∃ redefined, res = .ok (some redefined) ∧ Listed w group ids redefined ∧
      ReflTransGen env w w') ∨
    (res = .ok none ∧ ∃ w₁ e, ReflTransGen env w w₁ ∧ ReflTransGen env (w₁.logError e) w') ∨
    (res = .error .poisonLock ∧ ReflTransGen env w w') := by
  have hlog : ∀ {w w₀ : World D} {e : ErrorLog} {res : Except Sv2CpuMinerError
      (Option D.group.GroupChannel)}, ReflTransGen env w w₀ →
      Runs env ((Manager.logError e).bind fun _ => .done none) w₀ res w' →
      res = .ok none ∧ ∃ w₁ e, ReflTransGen env w w₁ ∧ ReflTransGen env (w₁.logError e) w' := by
    intro w w₀ e res h₀ hrun
    obtain ⟨rfl, w₁, h₁, h'⟩ := runs_logNone hrun
    exact ⟨rfl, w₁, e, h₀.trans h₁, h'⟩
  induction ids generalizing group w with
  | nil =>
    obtain ⟨rfl, h'⟩ := runs_done_iff.mp h
    exact .inl ⟨group, rfl, .nil, h'⟩
  | cons id rest ih =>
    simp only [addListed, Prog.bind_eq] at h
    rcases runs_bind_iff.mp h with ⟨found, w₂, hread, hrest⟩ | ⟨e, rfl, hread⟩
    · obtain ⟨w₁, h₁, h₂, hsize⟩ := fullExtranonceSize_cases henv hread
      have h₀ := h₁.trans h₂
      cases hsize with
      | closed => exact .inr (.inl (hlog h₀ hrest))
      | read hres hr =>
        have hbefore := (env_sameRegistry henv h₁).resolves.mp hres
        dsimp only at hrest
        split at hrest
        · rename_i u joined hadd
          rcases ih hrest with ⟨redefined, rfl, hl, h'⟩ | ⟨rfl, w₃, e, h₃, h'⟩ | ⟨rfl, h'⟩
          · have hlisted := hl.prepend (ReflTransGen.mono henv _ _ h₀)
            exact .inl ⟨redefined, rfl,
              .cons hbefore (ReflTransGen.mono henv _ _ h₁) hr hadd hlisted, h₀.trans h'⟩
          · exact .inr (.inl ⟨rfl, w₃, e, h₀.trans h₃, h'⟩)
          · exact .inr (.inr ⟨rfl, h₀.trans h'⟩)
        · exact .inr (.inl (hlog h₀ hrest))
    · obtain ⟨w₁, h₁, h₂, hsize⟩ := fullExtranonceSize_cases henv hread
      cases hsize with
      | poisoned => exact .inr (.inr ⟨rfl, h₁.trans h₂⟩)

/-- What a message would open. -/
def opening : ServerMessage → Option (Opening D)
  | .openStandardMiningChannelSuccess m => some (openStandard m)
  | .openExtendedMiningChannelSuccess m => some (openExtended m)
  | _ => none

theorem accepts_congr {w w' : World D} (h : SameRegistry w w') {m : ServerMessage}
    {o : Opening D} (ho : opening m = some o) {channel : (D.client o.kind).Channel}
    {group : D.group.GroupChannel} (hacc : Accepts o w' channel group) :
    Accepts o w channel group := by
  have hnew : ∀ p, o.newChannel w'.manager p = o.newChannel w.manager p := by
    intro p
    have huser := congrArg Prod.fst h.settings
    have hrate := congrArg (fun s => s.2.1) h.settings
    dsimp only [settings] at huser hrate
    cases m with
    | openStandardMiningChannelSuccess m =>
      cases ho
      simp only [openStandard, huser, hrate]
      rfl
    | openExtendedMiningChannelSuccess m =>
      cases ho
      simp only [openExtended, huser, hrate]
      rfl
    | _ => contradiction
  obtain ⟨p, hp, hc⟩ := hacc.made
  obtain ⟨hstd, hext, hne, hgroup⟩ := hacc.joinable
  have hjoined := hacc.joined
  rw [hnew] at hc
  rw [h.groups] at hgroup
  simp only [joinedGroup, h.groups] at hjoined
  exact ⟨⟨p, hp, hc⟩, ⟨(h.keys .standard _).symm.trans hstd, (h.keys .extended _).symm.trans hext,
    hne, hgroup⟩, hjoined⟩

/-- The four ways a handler can go. -/
inductive HandlerRun (w : World D) :
    ServerMessage → Except Sv2CpuMinerError Unit → World D → Prop
  | quiet {m : ServerMessage} {res : Except Sv2CpuMinerError Unit} {w' : World D}
      (hsame : SameRegistry w w') (hcalls : Delivers (Targets w m) w w')
      (hopen : ∀ o, opening m = some o → res = .ok () ∧
        ¬ ∃ channel group, Accepts o w channel group)
      (hregroup : ∀ g, m = .setGroupChannel g → ¬ (res = .ok () ∧ w'.log = w.log)) :
      HandlerRun w m res w'
  | opened {m : ServerMessage} {o : Opening D} {w₁ w' : World D}
      {channel : (D.client o.kind).Channel} {group : D.group.GroupChannel}
      (ho : opening m = some o) (h₁ : WorldOthers w w₁) (hacc : Accepts o w₁ channel group)
      (h' : WorldOthers (opened o w₁ channel group) w') : HandlerRun w m (.ok ()) w'
  | closed {m : CloseChannel} {w₁ w' : World D} (h₁ : WorldOthers w w₁)
      (h' : WorldOthers (closeChannel m.channelId w₁) w') :
      HandlerRun w (.closeChannel m) (.ok ()) w'
  | regrouped {m : SetGroupChannel} {redefined : D.group.GroupChannel} {w₁ w' : World D}
      (hfree : ¬ ChannelOpen w m.groupChannelId)
      (hlisted : Listed w (D.group.new m.groupChannelId) m.channelIds redefined)
      (h₁ : WorldOthers w w₁)
      (h' : WorldOthers (regroup w₁ m.groupChannelId m.channelIds redefined) w') :
      HandlerRun w (.setGroupChannel m) (.ok ()) w'

theorem nonemptyGroups_congr {w w' : World D} (hsame : SameRegistry w w')
    (h : NonemptyGroups w) : NonemptyGroups w' := by
  intro g group hg
  rw [hsame.groups] at hg
  exact h g group hg

theorem logged_quiet {w w₁ w' : World D} {log : List ErrorLog} (h₁ : WorldOthers w w₁)
    (hlog : log ≠ w₁.log) (h' : WorldOthers { w₁ with log := log } w') :
    SameRegistry w w' ∧ (∀ kind place, RigMoves kind place w w') ∧ w'.log ≠ w.log := by
  refine ⟨?_, ?_, ?_⟩
  · have hsame := (worldOthers_sameRegistry h₁).trans (onlyLogs_sameRegistry _ _ ⟨log, rfl⟩)
    exact hsame.trans (worldOthers_sameRegistry h')
  · intro kind place
    have hmoves := (worldOthers_rigMoves h₁ kind place).trans
      (onlyLogs_rigMoves kind place _ _ ⟨log, rfl⟩)
    exact hmoves.trans (worldOthers_rigMoves h' kind place)
  · rw [worldOthers_log h', ← worldOthers_log h₁]
    exact hlog

theorem logError_ne (w : World D) (e : ErrorLog) : (w.logError e).log ≠ w.log := by
  intro h
  have hlen := congrArg List.length h
  simp [World.logError] at hlen

theorem opening_cases (hD : GroupContract D.group) {m : ServerMessage} {o : Opening D}
    (ho : opening m = some o) {w w' : World D} {res : Except Sv2CpuMinerError Unit}
    (hne : NonemptyGroups w) (h : Runs WorldInterferes (Prog.perform o.perform) w res w') :
    HandlerRun w m res w' := by
  obtain ⟨rfl, w₁, h₁, h'⟩ := runs_perform_iff.mp h
  have hsame := worldOthers_sameRegistry h₁
  rcases perform_cases hD o (nonemptyGroups_congr hsame hne) with ⟨channel, group, hacc, heq⟩ |
    ⟨hnot, log, hlog, heq⟩
  · rw [heq] at h'
    exact .opened ho h₁ hacc h'
  · rw [heq] at h'
    obtain ⟨hquiet, hmoves, _⟩ := logged_quiet h₁ hlog h'
    refine .quiet hquiet (Delivers.of_rigMoves hmoves) ?_ ?_
    · intro o' ho'
      cases ho.symm.trans ho'
      refine ⟨rfl, ?_⟩
      intro hacc
      obtain ⟨channel, group, hacc⟩ := hacc
      exact hnot ⟨channel, group, accepts_congr hsame.symm ho hacc⟩
    · intro g hg
      subst hg
      contradiction

theorem setGroupChannel_cases {m : SetGroupChannel} {w w' : World D}
    {res : Except Sv2CpuMinerError Unit}
    (h : Runs WorldInterferes (handleSetGroupChannel m) w res w') :
    HandlerRun w (.setGroupChannel m) res w' := by
  have hquiet : ∀ {w₁ : World D} {e : ErrorLog}, WorldOthers w w₁ →
      WorldOthers (w₁.logError e) w' → HandlerRun w (.setGroupChannel m) res w' := by
    intro w₁ e h₁ h'
    obtain ⟨hsame, hmoves, hlog⟩ := logged_quiet h₁ (logError_ne w₁ e) h'
    exact .quiet hsame (Delivers.of_rigMoves hmoves) (fun _ ho => nomatch ho)
      (fun _ _ hok => hlog hok.2)
  have hfailed : ∀ {e : Sv2CpuMinerError}, res = .error e → WorldOthers w w' →
      HandlerRun w (.setGroupChannel m) res w' := by
    intro e he h'
    refine .quiet (worldOthers_sameRegistry h') (Delivers.of_rigMoves (worldOthers_rigMoves h'))
      (fun _ ho => nomatch ho) ?_
    intro _ _ hok
    rw [he] at hok
    exact nomatch hok.1
  obtain ⟨w₀, h₀, hrest⟩ := runs_observe_manager h
  have hsame := worldOthers_sameRegistry h₀
  split at hrest
  · obtain ⟨he, h'⟩ := runs_fail_iff.mp hrest
    exact hfailed he (h₀.trans h')
  · split at hrest
    · obtain ⟨_, w₁, h₁, h'⟩ := runs_perform_iff.mp hrest
      exact hquiet (h₀.trans h₁) h'
    · rename_i hkeys
      have hfree : ¬ ChannelOpen w m.groupChannelId := by
        rw [← isOpen_congr hsame, isOpen_iff_keys]
        simpa only [Bool.or_eq_true] using hkeys
      rcases runs_bind_iff.mp hrest with ⟨listed, w₁, hadd, hlast⟩ | ⟨e, he, hadd⟩
      · rcases addListed_cases (fun _ _ hab => hab) hadd with
          ⟨redefined, hl, hlisted, h₁⟩ | ⟨hl, w₂, e, h₂, h₁⟩ | ⟨hl, _⟩
        · cases hl
          obtain ⟨rfl, w₂, h₂, h'⟩ := runs_perform_iff.mp hlast
          exact .regrouped hfree (hlisted.prepend h₀) ((h₀.trans h₁).trans h₂) h'
        · cases hl
          obtain ⟨_, h'⟩ := runs_done_iff.mp hlast
          exact hquiet (h₀.trans h₂) (h₁.trans h')
        · contradiction
      · rcases addListed_cases (fun _ _ hab => hab) hadd with ⟨_, hl, _⟩ | ⟨hl, _⟩ | ⟨_, h₁⟩
        · contradiction
        · contradiction
        · exact hfailed he (h₀.trans h₁)

/-- Every run of a handler goes one of the four ways. -/
theorem handle_cases (hD : GroupContract D.group) {m : ServerMessage} {w w' : World D}
    {res : Except Sv2CpuMinerError Unit} (hne : NonemptyGroups w)
    (h : Runs WorldInterferes (handle m) w res w') : HandlerRun w m res w' := by
  have hkeeps : KeepsRegistry m → opening (D := D) m = none →
      (∀ g, m ≠ .setGroupChannel g) → HandlerRun w m res w' := by
    intro hm hopen hgroup
    refine .quiet (guarantees_sameRegistry (handle_sameRegistry m hm) h) (handle_delivers hD hm h)
      ?_ (fun g hg => absurd hg (hgroup g))
    intro o ho
    rw [hopen] at ho
    contradiction
  cases m with
  | openStandardMiningChannelSuccess m => exact opening_cases hD rfl hne h
  | openExtendedMiningChannelSuccess m => exact opening_cases hD rfl hne h
  | closeChannel m =>
    obtain ⟨rfl, w₁, h₁, h'⟩ := runs_perform_iff.mp h
    exact .closed h₁ h'
  | setGroupChannel m => exact setGroupChannel_cases h
  | _ => exact hkeeps trivial rfl (fun g hg => nomatch hg)

theorem closeChannel_preserve {I : World D → Prop} (hclose : ∀ w id, I w → I (closeOne w id))
    (hretain : ∀ w, I w → I w.retainNonempty) (id : UInt32) {w : World D} (hw : I w) :
    I (closeChannel id w) := by
  have hfold : ∀ (ids : List UInt32) (w : World D), I w → I (ids.foldl closeOne w) := by
    intro ids
    induction ids with
    | nil => exact fun _ h => h
    | cons a rest ih => exact fun w h => ih _ (hclose w a h)
  exact hretain _ (hfold _ w hw)

/-- An invariant of the registry that opening, closing one id, dropping empty
groups and regrouping keep. -/
theorem handlerRun_preserve {I : World D → Prop} {m : ServerMessage} {w w' : World D}
    {res : Except Sv2CpuMinerError Unit} (h : HandlerRun w m res w')
    (hsame : ∀ a b, SameRegistry a b → I a → I b)
    (hopen : ∀ o w₁ channel group, opening m = some o → SameRegistry w w₁ →
      Accepts o w₁ channel group → I w₁ → I (opened o w₁ channel group))
    (hclose : ∀ w id, I w → I (closeOne w id)) (hretain : ∀ w, I w → I w.retainNonempty)
    (hregroup : ∀ w g ids redefined, I w → I (regroup w g ids redefined)) (hw : I w) : I w' := by
  cases h with
  | quiet hquiet => exact hsame _ _ hquiet hw
  | @opened _ o w₁ _ channel group ho h₁ hacc h' =>
    have hbefore := worldOthers_sameRegistry h₁
    have hopened := hopen o w₁ channel group ho hbefore hacc (hsame _ _ hbefore hw)
    exact hsame _ _ (worldOthers_sameRegistry h') hopened
  | @closed m _ _ h₁ h' =>
    have hclosed := closeChannel_preserve hclose hretain m.channelId
      (hsame _ _ (worldOthers_sameRegistry h₁) hw)
    exact hsame _ _ (worldOthers_sameRegistry h') hclosed
  | @regrouped m redefined _ _ _ _ h₁ h' =>
    have hregrouped := hregroup _ m.groupChannelId m.channelIds redefined
      (hsame _ _ (worldOthers_sameRegistry h₁) hw)
    exact hsame _ _ (worldOthers_sameRegistry h') hregrouped

theorem step_settings (hD : GroupContract D.group) {w w' : World D} {l : WorldLabel}
    (hne : NonemptyGroups w) (h : WorldStep w l w') :
    settings w'.manager = settings w.manager := by
  cases h with
  | event he => exact (interferes_sameRegistry _ _ ⟨_, he⟩).settings
  | message hrun =>
    refine handlerRun_preserve (I := fun a => settings a.manager = settings w.manager)
      (handle_cases hD hne hrun) ?_ ?_ ?_ ?_ ?_ rfl
    · exact fun a b hsame ha => hsame.settings.trans ha
    · intro o a channel group _ _ _ ha
      unfold opened
      rw [settings_insertMiner, settings_setGroups]
      exact ha
    · intro a id ha
      rcases closeOne_cases a id with ⟨kind, miner, _, _, heq⟩ | ⟨_, heq⟩
      · rw [heq, leaveGroups, settings_setGroups, settings_removeMiner]
        exact ha
      · rw [heq]
        exact ha
    · exact fun a ha => ha
    · exact fun a g ids redefined ha => ha

end CpuMinerSv2.HandlerRuns
