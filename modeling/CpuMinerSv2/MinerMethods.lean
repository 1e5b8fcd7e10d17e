import CpuMinerSv2.Interference
import CpuMinerSv2.MineJob

/-!
The methods of a channel miner as programs that its own tasks, the clock and
a shutdown may interrupt between any two accesses to shared state, and the
runs of one miner: calls in any order, interleaved with everything else.
-/

namespace CpuMinerSv2.MinerMethods

open Messages Channels Primitives Interference MineJob

/-- One channel miner with the clock and the connection's token. -/
structure Rig (K : ClientChannel) where
  ambient : Ambient
  miner : ChannelMiner K

section Methods

variable {K : ClientChannel} {α : Type}

/-- `SharedRw::write` with a call that may refuse. -/
def writeChannel (op : K.Channel → Outcome K.Channel α) : Prog (Rig K) Sv2CpuMinerError α :=
  .act
    (fun r => { r with miner :=
      r.miner.setChannel (r.miner.channel.write (fun channel => (op channel).2)) })
    (fun r =>
      if r.miner.channel.poisoned then .fail .poisonLock
      else match (op r.miner.channel.value).1 with
        | .ok a => .done a
        | .error e => .fail (K.channelError e))

/-- `SharedRw::read`. -/
def readChannel (f : K.Channel → α) : Prog (Rig K) Sv2CpuMinerError α :=
  .act id (fun r => match r.miner.channel.read f with
    | some a => .done a
    | none => .fail .poisonLock)

/-- Cancel the token of the past job's task unless it is cancelled already. -/
def cancelPastTask (m : ChannelMiner K) : ChannelMiner K :=
  if m.tokens.isRaised m.minerCancellationToken then m
  else m.cancelToken m.minerCancellationToken

/-- Replace the miner token by a new one and spawn `mine_job` with it. -/
def spawnTask (m : ChannelMiner K) : ChannelMiner K :=
  { m with
    tokens := m.tokens.make
    minerCancellationToken := m.tokens.next
    tasks := m.tasks ++ [{ minerCancellationToken := m.tokens.next, phase := .spawned }] }

def respawnMiningTask : Prog (Rig K) Sv2CpuMinerError Unit := do
  .perform fun r => { r with miner := cancelPastTask r.miner }
  .perform fun r => { r with miner := spawnTask r.miner }

def fullExtranonceSize : Prog (Rig K) Sv2CpuMinerError ℕ := readChannel K.fullExtranonceSize

def setExtranoncePrefix (extranoncePrefix : ExtranoncePrefix) :
    Prog (Rig K) Sv2CpuMinerError Unit :=
  writeChannel fun channel => K.setExtranoncePrefix channel extranoncePrefix

def setTarget (target : Target) : Prog (Rig K) Sv2CpuMinerError Unit :=
  writeChannel fun channel => K.setTarget channel target

/-- Store the job; mining restarts at once on one that is already active. -/
def onJob (message : K.JobMessage) : Prog (Rig K) Sv2CpuMinerError Unit := do
  writeChannel fun channel => K.onJob channel message
  if (K.jobMessageMinNtime message).isSome then respawnMiningTask

/-- Activate the referenced future job and restart mining. -/
def onSetNewPrevHash (message : SetNewPrevHash) : Prog (Rig K) Sv2CpuMinerError Unit := do
  writeChannel fun channel => K.onSetNewPrevHash channel message
  respawnMiningTask

/-- Returns the updated acknowledged shares and work sum. -/
def onShareAcknowledgement (newSubmitsAcceptedCount : UInt32) (newSharesSum : UInt64) :
    Prog (Rig K) Sv2CpuMinerError (UInt32 × UInt64) :=
  writeChannel fun channel =>
    let channel := K.onShareAcknowledgement channel newSubmitsAcceptedCount newSharesSum
    (.ok (K.getAcknowledgedShares channel, K.getAcknowledgedWorkSum channel), channel)

/-- Returns the updated count of rejected shares. -/
def onShareRejection (errorCode : String) : Prog (Rig K) Sv2CpuMinerError UInt32 :=
  writeChannel fun channel =>
    let channel := K.onShareRejection channel errorCode
    (.ok (K.getRejectedSharesCount channel), channel)

/-- A miner with a fresh token, and a second one for single submit. -/
def new (channel : K.Channel) (cpuUsagePercent : ℕ) (singleSubmit : Bool) :
    ChannelMiner K where
  channel := RwCell.new channel
  minerCancellationToken := 0
  singleSubmitCancellationToken := if singleSubmit then some 1 else none
  cpuUsagePercent := cpuUsagePercent
  tokens := if singleSubmit then ⟨[false, false]⟩ else ⟨[false]⟩
  tasks := []
  sent := []

end Methods

abbrev StandardChannelMiner (D : Deps) := ChannelMiner (standardClient D)

abbrev ExtendedChannelMiner (D : Deps) := ChannelMiner (extendedClient D)

namespace StandardChannelMiner

variable {D : Deps}

def onNewMiningJob (newMiningJob : NewMiningJob) :
    Prog (Rig (standardClient D)) Sv2CpuMinerError Unit :=
  onJob (K := standardClient D) (.newMiningJob newMiningJob)

def onGroupChannelJob (newExtendedMiningJob : NewExtendedMiningJob) :
    Prog (Rig (standardClient D)) Sv2CpuMinerError Unit :=
  onJob (K := standardClient D) (.groupChannelJob newExtendedMiningJob)

end StandardChannelMiner

namespace ExtendedChannelMiner

variable {D : Deps}

/-- The extended miner writes the respawn out by hand, here and below. -/
def onNewExtendedMiningJob (newExtendedMiningJob : NewExtendedMiningJob) :
    Prog (Rig (extendedClient D)) Sv2CpuMinerError Unit := do
  writeChannel fun channel => D.extended.onNewExtendedMiningJob channel newExtendedMiningJob
  if newExtendedMiningJob.minNtime.isSome then
    .perform fun r => { r with miner := cancelPastTask r.miner }
    .perform fun r => { r with miner := spawnTask r.miner }

def onSetNewPrevHash (setNewPrevHash : SetNewPrevHash) :
    Prog (Rig (extendedClient D)) Sv2CpuMinerError Unit := do
  writeChannel fun channel => D.extended.onSetNewPrevHash channel setNewPrevHash
  .perform fun r => { r with miner := cancelPastTask r.miner }
  .perform fun r => { r with miner := spawnTask r.miner }

/-- The copies have not drifted from the respawn of the standard miner. -/
theorem onNewExtendedMiningJob_eq (newExtendedMiningJob : NewExtendedMiningJob) :
    onNewExtendedMiningJob newExtendedMiningJob =
      onJob (K := extendedClient D) newExtendedMiningJob := rfl

theorem onSetNewPrevHash_eq (setNewPrevHash : SetNewPrevHash) :
    onSetNewPrevHash setNewPrevHash =
      MinerMethods.onSetNewPrevHash (K := extendedClient D) setNewPrevHash := rfl

end ExtendedChannelMiner

/-- What can happen beside a method call. -/
inductive Event where
  | task (i : ℕ) (move : Move)
  | tick (elapsed : ℕ)
  | shutdown
deriving DecidableEq

/-- The public methods of a channel miner. -/
inductive Call (K : ClientChannel) where
  | fullExtranonceSize
  | setExtranoncePrefix (extranoncePrefix : ExtranoncePrefix)
  | setTarget (target : Target)
  | job (message : K.JobMessage)
  | setNewPrevHash (message : SetNewPrevHash)
  | shareAcknowledgement (newSubmitsAcceptedCount : UInt32) (newSharesSum : UInt64)
  | shareRejection (errorCode : String)

/-- An event, or a call with its result. -/
inductive Label (K : ClientChannel) where
  | event (e : Event)
  | call (c : Call K) (r : Except Sv2CpuMinerError Unit)

section Steps

variable {K : ClientChannel}

def Rig.advance (r : Rig K) : Event → Option (Rig K)
  | .task i move => (stepTask r.miner r.ambient i move).map fun m => { r with miner := m }
  | .tick elapsed => some { r with ambient := { r.ambient with now := r.ambient.now + elapsed } }
  | .shutdown => some { r with ambient := { r.ambient with globalCancelled := true } }

/-- The value a method returns is dropped here: callers only log it. -/
def Call.program : Call K → Prog (Rig K) Sv2CpuMinerError Unit
  | .fullExtranonceSize => MinerMethods.fullExtranonceSize.bind fun _ => .done ()
  | .setExtranoncePrefix p => MinerMethods.setExtranoncePrefix p
  | .setTarget target => MinerMethods.setTarget target
  | .job message => onJob message
  | .setNewPrevHash message => onSetNewPrevHash message
  | .shareAcknowledgement n s => (onShareAcknowledgement n s).bind fun _ => .done ()
  | .shareRejection code => (onShareRejection code).bind fun _ => .done ()

/-- Steps that the tasks, the clock or a shutdown take while a method runs. -/
def Interferes (allowed : Rig K → Event → Prop) (r r' : Rig K) : Prop :=
  ∃ e, allowed r e ∧ r.advance e = some r'

/-- One step of a run. `allowed` restricts the events; `Unrestricted` does not. -/
inductive Step (allowed : Rig K → Event → Prop) : Rig K → Label K → Rig K → Prop
  | event {r r' : Rig K} {e : Event} (ha : allowed r e) (h : r.advance e = some r') :
      Step allowed r (.event e) r'
  | call {r r' : Rig K} {c : Call K} {res : Except Sv2CpuMinerError Unit}
      (h : Runs (Interferes allowed) c.program r res r') : Step allowed r (.call c res) r'

def Unrestricted (_ : Rig K) (_ : Event) : Prop := True

/-- A job carrying a `min_ntime` and a new prev hash activate a job. -/
def Call.activating : Call K → Bool
  | .job message => (K.jobMessageMinNtime message).isSome
  | .setNewPrevHash _ => true
  | _ => false

/-- What the call does to the channel it finds behind the lock. -/
def Call.outcome : Call K → K.Channel → Outcome K.Channel Unit
  | .fullExtranonceSize, channel => (.ok (), channel)
  | .setExtranoncePrefix p, channel => K.setExtranoncePrefix channel p
  | .setTarget target, channel => K.setTarget channel target
  | .job message, channel => K.onJob channel message
  | .setNewPrevHash message, channel => K.onSetNewPrevHash channel message
  | .shareAcknowledgement n s, channel => (.ok (), K.onShareAcknowledgement channel n s)
  | .shareRejection code, channel => (.ok (), K.onShareRejection channel code)

/-- An executable step: a call runs without interruption and gives the result
of its label. -/
def execute (r : Rig K) : Label K → Option (Rig K)
  | .event e => r.advance e
  | .call c res => if (c.program.eval r).1 = res then some (c.program.eval r).2 else none

theorem step_of_execute {allowed : Rig K → Event → Prop} {r r' : Rig K} {l : Label K}
    (ha : ∀ e, l = .event e → allowed r e) (h : execute r l = some r') : Step allowed r l r' := by
  cases l with
  | event e => exact .event (ha e rfl) h
  | call c res =>
    simp only [execute, Option.ite_none_right_eq_some, Option.some.injEq] at h
    obtain ⟨rfl, rfl⟩ := h
    exact .call (runs_eval c.program r)

theorem run_of_execute {r r' : Rig K} {ls : List (Label K)} (h : play execute r ls = some r') :
    Run (Step Unrestricted) r ls r' := by
  refine run_of_play ?_ h
  intro s l s' hstep
  exact step_of_execute (fun _ _ => trivial) hstep

/-- Execution of a label whose event passes a test. -/
def executeTested (test : Rig K → Event → Bool) (r : Rig K) : Label K → Option (Rig K)
  | .event e => if test r e then r.advance e else none
  | .call c res => execute r (.call c res)

theorem run_of_executeTested {test : Rig K → Event → Bool} {allowed : Rig K → Event → Prop}
    (htest : ∀ r e, test r e = true → allowed r e) {r r' : Rig K} {ls : List (Label K)}
    (h : play (executeTested test) r ls = some r') : Run (Step allowed) r ls r' := by
  refine run_of_play ?_ h
  intro s l s' hstep
  cases l with
  | event e =>
    simp only [executeTested, Option.ite_none_right_eq_some] at hstep
    exact .event (htest s e hstep.1) hstep.2
  | call c res =>
    refine step_of_execute ?_ hstep
    rintro e hl
    contradiction

end Steps

end CpuMinerSv2.MinerMethods
