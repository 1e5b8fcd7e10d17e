import CpuMinerSv2.MinerMethods

/-!
The channel manager and its handler for every mining message. The world holds
the manager, the miners it no longer stores but whose tasks live on, and the
errors it has logged. Maps and groups are owned by the handler alone, so work
on them between two accesses to a channel lock is one action.
-/

namespace CpuMinerSv2.Manager

open Messages Channels Primitives Interference MineJob MinerMethods

structure ChannelManager (D : Deps) where
  userIdentity : String
  nominalHashratePerChannel : F32
  singleSubmit : Bool
  cpuUsagePercent : ℕ
  requiresStandardJobs : Bool
  extendedChannels : PartialMap UInt32 (ExtendedChannelMiner D)
  standardChannels : PartialMap UInt32 (StandardChannelMiner D)
  groupChannels : PartialMap UInt32 D.group.GroupChannel

/-- The errors a handler logs before it goes on. -/
inductive ErrorLog where
  | invalidExtranoncePrefix (message : String) (e : ChannelError)
  | failedToCreate (kind : Kind) (e : ChannelError)
  | idsCollide (channelId groupChannelId : UInt32)
  | cannotJoinGroup (channelId groupChannelId : UInt32) (e : ChannelError)
  | channelNotFound (channelId : UInt32) (message : String)
  | groupListsUnknown (groupChannelId channelId : UInt32)
  | callFailed (message : String) (kind : Kind) (channelId : UInt32) (e : Sv2CpuMinerError)
  | reinterpretsChannel (groupChannelId : UInt32)
  | listsUnknown (channelId : UInt32)
  | cannotRedefineGroup (channelId groupChannelId : UInt32) (e : ChannelError)
  | unexpectedMessage (message : String)

structure World (D : Deps) where
  manager : ChannelManager D
  droppedStandard : List (StandardChannelMiner D)
  droppedExtended : List (ExtendedChannelMiner D)
  ambient : Ambient
  log : List ErrorLog

section Access

variable {D : Deps}

namespace ChannelManager

/-- An empty manager. -/
def new (userIdentity : String) (nominalHashratePerChannel : F32) (singleSubmit : Bool)
    (cpuUsagePercent : ℕ) (requiresStandardJobs : Bool) : ChannelManager D where
  userIdentity := userIdentity
  nominalHashratePerChannel := nominalHashratePerChannel
  singleSubmit := singleSubmit
  cpuUsagePercent := cpuUsagePercent
  requiresStandardJobs := requiresStandardJobs
  extendedChannels := PartialMap.empty
  standardChannels := PartialMap.empty
  groupChannels := PartialMap.empty

def channels (mgr : ChannelManager D) :
    (kind : Kind) → PartialMap UInt32 (ChannelMiner (D.client kind))
  | .standard => mgr.standardChannels
  | .extended => mgr.extendedChannels

def setChannels (mgr : ChannelManager D) :
    (kind : Kind) → PartialMap UInt32 (ChannelMiner (D.client kind)) → ChannelManager D
  | .standard, channels => { mgr with standardChannels := channels }
  | .extended, channels => { mgr with extendedChannels := channels }

/-- The members of the group with this id, or else the id itself. -/
def addressedChannels (mgr : ChannelManager D) (channelId : UInt32) : List UInt32 :=
  match mgr.groupChannels channelId with
  | some group => D.group.getChannelIds group
  | none => [channelId]

end ChannelManager

/-- Where a miner is kept: under its id, or among those dropped. -/
inductive Place where
  | stored (channelId : UInt32)
  | dropped (n : ℕ)
deriving DecidableEq

namespace World

/-- The world of a new manager. -/
def initial (manager : ChannelManager D) (ambient : Ambient) : World D where
  manager := manager
  droppedStandard := []
  droppedExtended := []
  ambient := ambient
  log := []

def dropped (w : World D) : (kind : Kind) → List (ChannelMiner (D.client kind))
  | .standard => w.droppedStandard
  | .extended => w.droppedExtended

def setDropped (w : World D) :
    (kind : Kind) → List (ChannelMiner (D.client kind)) → World D
  | .standard, miners => { w with droppedStandard := miners }
  | .extended, miners => { w with droppedExtended := miners }

def minerAt (w : World D) (kind : Kind) : Place → Option (ChannelMiner (D.client kind))
  | .stored channelId => w.manager.channels kind channelId
  | .dropped n => (w.dropped kind)[n]?

def putMiner (w : World D) (kind : Kind) (miner : ChannelMiner (D.client kind)) :
    Place → World D
  | .stored channelId =>
    let channels := (w.manager.channels kind).insert channelId miner
    { w with manager := w.manager.setChannels kind channels }
  | .dropped n => w.setDropped kind ((w.dropped kind).set n miner)

def rigAt (kind : Kind) (place : Place) (w : World D) : Option (Rig (D.client kind)) :=
  (w.minerAt kind place).map (Rig.mk w.ambient)

def putRig (kind : Kind) (place : Place) (rig : Rig (D.client kind)) (w : World D) : World D :=
  { w.putMiner kind rig.miner place with ambient := rig.ambient }

/-- The manager lets go of a miner. -/
def drop (w : World D) (kind : Kind) (miner : ChannelMiner (D.client kind)) : World D :=
  w.setDropped kind (w.dropped kind ++ [miner])

/-- `HashMap::insert`: a miner stored under the same id is dropped. -/
def insertMiner (w : World D) (kind : Kind) (channelId : UInt32)
    (miner : ChannelMiner (D.client kind)) : World D :=
  match w.manager.channels kind channelId with
  | some old => (w.drop kind old).putMiner kind miner (.stored channelId)
  | none => w.putMiner kind miner (.stored channelId)

/-- `HashMap::remove` of a miner that is there. -/
def removeMiner (w : World D) (kind : Kind) (channelId : UInt32)
    (miner : ChannelMiner (D.client kind)) : World D :=
  let w := w.drop kind miner
  let channels := (w.manager.channels kind).remove channelId
  { w with manager := w.manager.setChannels kind channels }

def setGroups (w : World D) (groups : PartialMap UInt32 D.group.GroupChannel) : World D :=
  { w with manager := { w.manager with groupChannels := groups } }

def logError (w : World D) (e : ErrorLog) : World D := { w with log := w.log ++ [e] }

/-- Keep the groups that have members. -/
def retainNonempty (w : World D) : World D :=
  w.setGroups (w.manager.groupChannels.retain (fun group => !D.group.isEmpty group))

end World

inductive WorldEvent where
  | task (kind : Kind) (place : Place) (i : ℕ) (move : Move)
  | tick (elapsed : ℕ)
  | shutdown
deriving DecidableEq

def World.advance (w : World D) : WorldEvent → Option (World D)
  | .task kind place i move => (w.minerAt kind place).bind fun miner =>
      (stepTask miner w.ambient i move).map fun miner' => w.putMiner kind miner' place
  | .tick elapsed => some { w with ambient := { w.ambient with now := w.ambient.now + elapsed } }
  | .shutdown => some { w with ambient := { w.ambient with globalCancelled := true } }

def WorldInterferes (w w' : World D) : Prop := ∃ e, w.advance e = some w'

end Access

abbrev Handler (D : Deps) := Prog (World D) Sv2CpuMinerError Unit

section Handlers

variable {D : Deps}

def logError (e : ErrorLog) : Handler D := .perform fun w => w.logError e

def onlyIf (condition : Bool) (p : Handler D) : Handler D := if condition then p else .done ()

/-- An unusable channel ends the connection; another failure is only logged. -/
def reportFailure {α : Type} (message : String) (kind : Kind) (channelId : UInt32) :
    Except Sv2CpuMinerError α → Handler D
  | .ok _ => .done ()
  | .error .poisonLock => .fail .poisonLock
  | .error e => logError (.callFailed message kind channelId e)

/-- Every failure is only logged. -/
def logFailure {α : Type} (message : String) (kind : Kind) (channelId : UInt32) :
    Except Sv2CpuMinerError α → Handler D
  | .ok _ => .done ()
  | .error e => logError (.callFailed message kind channelId e)

/-- Call a method of a stored miner, and match on its result. -/
def callMiner {α : Type} (kind : Kind) (channelId : UInt32)
    (method : Prog (Rig (D.client kind)) Sv2CpuMinerError α)
    (report : Kind → UInt32 → Except Sv2CpuMinerError (Option α) → Handler D) : Handler D :=
  (Prog.focus (World.rigAt kind (.stored channelId)) (World.putRig kind (.stored channelId))
    method).attempt.bind (report kind channelId)

/-- Call the standard miner stored under an id, else the extended one. -/
def deliver {α : Type} (onStandard : Prog (Rig (standardClient D)) Sv2CpuMinerError α)
    (onExtended : Prog (Rig (extendedClient D)) Sv2CpuMinerError α)
    (report : Kind → UInt32 → Except Sv2CpuMinerError (Option α) → Handler D)
    (missing : UInt32 → ErrorLog) (channelId : UInt32) : Handler D := do
  let manager ← .observe World.manager
  if manager.standardChannels.containsKey channelId then
    callMiner .standard channelId onStandard report
  else if manager.extendedChannels.containsKey channelId then
    callMiner .extended channelId onExtended report
  else logError (missing channelId)

def fullExtranonceSize (channelId : UInt32) :
    Prog (World D) Sv2CpuMinerError (Option ℕ) := do
  let manager ← .observe World.manager
  if manager.standardChannels.containsKey channelId then
    .focus (World.rigAt .standard (.stored channelId)) (World.putRig .standard (.stored channelId))
      (MinerMethods.fullExtranonceSize (K := standardClient D))
  else if manager.extendedChannels.containsKey channelId then
    .focus (World.rigAt .extended (.stored channelId)) (World.putRig .extended (.stored channelId))
      (MinerMethods.fullExtranonceSize (K := extendedClient D))
  else .done none

/-- Whether the channel is now a member of the group; if not, the reason is logged. -/
def joinGroup (w : World D) (channelId groupChannelId : UInt32) (fullExtranonceSize : ℕ) :
    Bool × World D :=
  let reinterpretsChannel := w.manager.standardChannels.containsKey groupChannelId ||
    w.manager.extendedChannels.containsKey groupChannelId
  if reinterpretsChannel || channelId == groupChannelId ||
      w.manager.groupChannels.containsKey channelId then
    (false, w.logError (.idsCollide channelId groupChannelId))
  else
    let group := (w.manager.groupChannels groupChannelId).getD (D.group.new groupChannelId)
    match D.group.addChannelId group channelId fullExtranonceSize with
    | (.ok _, group) => (true, w.setGroups (w.manager.groupChannels.insert groupChannelId group))
    | (.error e, group) =>
      (false, ((w.setGroups (w.manager.groupChannels.insert groupChannelId group)).logError
        (.cannotJoinGroup channelId groupChannelId e)).retainNonempty)

/-- What the two open handlers differ in. -/
structure Opening (D : Deps) where
  kind : Kind
  message : String
  channelId : UInt32
  groupChannelId : UInt32
  extranoncePrefix : Bytes
  newChannel : ChannelManager D → ExtranoncePrefix → Except ChannelError (D.client kind).Channel
  fullExtranonceSize : ℕ

/-- Make the channel, join its group, store its miner. -/
def Opening.perform (o : Opening D) (w : World D) : World D :=
  match D.fromWire o.extranoncePrefix with
  | .error e => w.logError (.invalidExtranoncePrefix o.message e)
  | .ok extranoncePrefix =>
    match o.newChannel w.manager extranoncePrefix with
    | .error e => w.logError (.failedToCreate o.kind e)
    | .ok channel =>
      match joinGroup w o.channelId o.groupChannelId o.fullExtranonceSize with
      | (false, w) => w
      | (true, w) => w.insertMiner o.kind o.channelId
          (new channel w.manager.cpuUsagePercent w.manager.singleSubmit)

def openStandard (m : OpenStandardMiningChannelSuccess) : Opening D where
  kind := .standard
  message := "OpenStandardMiningChannel.Success"
  channelId := m.channelId
  groupChannelId := m.groupChannelId
  extranoncePrefix := m.extranoncePrefix
  newChannel mgr extranoncePrefix := D.standard.new m.channelId mgr.userIdentity extranoncePrefix
    (Target.fromLeBytes m.target) mgr.nominalHashratePerChannel
  fullExtranonceSize := m.extranoncePrefix.length

def openExtended (m : OpenExtendedMiningChannelSuccess) : Opening D where
  kind := .extended
  message := "OpenExtendedMiningChannel.Success"
  channelId := m.channelId
  groupChannelId := m.groupChannelId
  extranoncePrefix := m.extranoncePrefix
  newChannel mgr extranoncePrefix := D.extended.new m.channelId mgr.userIdentity extranoncePrefix
    (Target.fromLeBytes m.target) mgr.nominalHashratePerChannel true m.extranonceSize
  fullExtranonceSize := m.extranoncePrefix.length + m.extranonceSize.toNat

def handleOpenStandardMiningChannelSuccess (m : OpenStandardMiningChannelSuccess) : Handler D :=
  .perform (openStandard m).perform

def handleOpenExtendedMiningChannelSuccess (m : OpenExtendedMiningChannelSuccess) : Handler D :=
  .perform (openExtended m).perform

def handleOpenMiningChannelError (_ : OpenMiningChannelError) : Handler D := .done ()

def handleUpdateChannelError (_ : UpdateChannelError) : Handler D := .done ()

def leaveGroups (w : World D) (channelId : UInt32) : World D :=
  w.setGroups (w.manager.groupChannels.mapValues fun group =>
    D.group.removeChannelId group channelId)

/-- Remove a channel from its map, then from every group. -/
def closeOne (w : World D) (channelId : UInt32) : World D :=
  match w.manager.standardChannels channelId with
  | some miner => leaveGroups (w.removeMiner .standard channelId miner) channelId
  | none =>
    match w.manager.extendedChannels channelId with
    | some miner => leaveGroups (w.removeMiner .extended channelId miner) channelId
    | none => w.logError (.channelNotFound channelId "CloseChannel")

def closeChannel (channelId : UInt32) (w : World D) : World D :=
  ((w.manager.addressedChannels channelId).foldl closeOne w).retainNonempty

def handleCloseChannel (m : CloseChannel) : Handler D := .perform (closeChannel m.channelId)

def handleSetExtranoncePrefix (m : SetExtranoncePrefix) : Handler D :=
  match D.fromWire m.extranoncePrefix with
  | .error e => logError (.invalidExtranoncePrefix "SetExtranoncePrefix" e)
  | .ok extranoncePrefix => do
    let manager ← .observe World.manager
    let hasStandardChannel := manager.standardChannels.containsKey m.channelId
    let hasExtendedChannel := manager.extendedChannels.containsKey m.channelId
    onlyIf hasStandardChannel
      (callMiner .standard m.channelId
        (setExtranoncePrefix (K := standardClient D) extranoncePrefix)
        (reportFailure "SetExtranoncePrefix"))
    -- the prefix is minted again from the same bytes
    onlyIf hasExtendedChannel
      (callMiner .extended m.channelId
        (setExtranoncePrefix (K := extendedClient D) extranoncePrefix)
        (reportFailure "SetExtranoncePrefix"))
    onlyIf (!hasStandardChannel && !hasExtendedChannel)
      (logError (.channelNotFound m.channelId "SetExtranoncePrefix"))

def handleSubmitSharesSuccess (m : SubmitSharesSuccess) : Handler D :=
  deliver (onShareAcknowledgement m.newSubmitsAcceptedCount m.newSharesSum)
    (onShareAcknowledgement m.newSubmitsAcceptedCount m.newSharesSum)
    (logFailure "SubmitShares.Success") (.channelNotFound · "SubmitShares.Success") m.channelId

def handleSubmitSharesError (m : SubmitSharesError) : Handler D :=
  deliver (onShareRejection m.errorCode) (onShareRejection m.errorCode)
    (logFailure "SubmitShares.Error") (.channelNotFound · "SubmitShares.Error") m.channelId

def handleNewMiningJob (m : NewMiningJob) : Handler D := do
  let manager ← .observe World.manager
  if manager.standardChannels.containsKey m.channelId then
    callMiner .standard m.channelId (StandardChannelMiner.onNewMiningJob m)
      (reportFailure "NewMiningJob")
  else logError (.channelNotFound m.channelId "NewMiningJob")

def handleNewExtendedMiningJob (m : NewExtendedMiningJob) : Handler D := do
  let manager ← .observe World.manager
  if manager.requiresStandardJobs then .fail (.standardJobsOnly "NewExtendedMiningJob")
  else
    match manager.groupChannels m.channelId with
    | none =>
      -- a standard channel only ever receives an extended job through its group
      if manager.extendedChannels.containsKey m.channelId then
        callMiner .extended m.channelId (ExtendedChannelMiner.onNewExtendedMiningJob m)
          (reportFailure "NewExtendedMiningJob")
      else logError (.channelNotFound m.channelId "NewExtendedMiningJob")
    | some group =>
      .forEach (deliver (StandardChannelMiner.onGroupChannelJob m)
        (ExtendedChannelMiner.onNewExtendedMiningJob m) (reportFailure "NewExtendedMiningJob")
        (.groupListsUnknown m.channelId)) (D.group.getChannelIds group)

def handleSetNewPrevHash (m : SetNewPrevHash) : Handler D := do
  let manager ← .observe World.manager
  .forEach (deliver (onSetNewPrevHash m) (ExtendedChannelMiner.onSetNewPrevHash m)
    (reportFailure "SetNewPrevHash") (.channelNotFound · "SetNewPrevHash"))
    (manager.addressedChannels m.channelId)

def handleSetCustomMiningJobSuccess (_ : SetCustomMiningJobSuccess) : Handler D := do
  logError (.unexpectedMessage "SetCustomMiningJob.Success")
  .fail (.unexpectedMessage 0 D.messageTypeSetCustomMiningJobSuccess)

def handleSetCustomMiningJobError (_ : SetCustomMiningJobError) : Handler D := do
  logError (.unexpectedMessage "SetCustomMiningJob.Error")
  .fail (.unexpectedMessage 0 D.messageTypeSetCustomMiningJobError)

def handleSetTarget (m : SetTarget) : Handler D := do
  let target := Target.fromLeBytes m.maximumTarget
  let manager ← .observe World.manager
  .forEach (deliver (setTarget target) (setTarget target) (reportFailure "SetTarget")
    (.channelNotFound · "SetTarget")) (manager.addressedChannels m.channelId)

/-- Put every listed channel into the new group, before any group is touched. -/
def addListed (groupChannelId : UInt32) : D.group.GroupChannel → List UInt32 →
    Prog (World D) Sv2CpuMinerError (Option D.group.GroupChannel)
  | group, [] => .done (some group)
  | group, channelId :: rest => do
    match ← fullExtranonceSize channelId with
    | none =>
      logError (.listsUnknown channelId)
      .done none
    | some size =>
      match D.group.addChannelId group channelId size with
      | (.ok _, group) => addListed groupChannelId group rest
      | (.error e, _) =>
        logError (.cannotRedefineGroup channelId groupChannelId e)
        .done none

/-- The listed channels leave their previous groups; the target group becomes
exactly the listed channels. -/
def regroup (w : World D) (groupChannelId : UInt32) (channelIds : List UInt32)
    (redefinedGroup : D.group.GroupChannel) : World D :=
  let groups := (w.manager.groupChannels.mapValues fun group =>
    channelIds.foldl D.group.removeChannelId group).remove groupChannelId
  (w.setGroups (if channelIds.isEmpty then groups
    else groups.insert groupChannelId redefinedGroup)).retainNonempty

def handleSetGroupChannel (m : SetGroupChannel) : Handler D := do
  let manager ← .observe World.manager
  if manager.requiresStandardJobs then .fail (.standardJobsOnly "SetGroupChannel")
  else if manager.standardChannels.containsKey m.groupChannelId ||
      manager.extendedChannels.containsKey m.groupChannelId then
    logError (.reinterpretsChannel m.groupChannelId)
  else
    match ← addListed m.groupChannelId (D.group.new m.groupChannelId) m.channelIds with
    | none => .done ()
    | some redefinedGroup =>
      .perform fun w => regroup w m.groupChannelId m.channelIds redefinedGroup

/-- The handler of each message. -/
def handle : ServerMessage → Handler D
  | .openStandardMiningChannelSuccess m => handleOpenStandardMiningChannelSuccess m
  | .openExtendedMiningChannelSuccess m => handleOpenExtendedMiningChannelSuccess m
  | .openMiningChannelError m => handleOpenMiningChannelError m
  | .updateChannelError m => handleUpdateChannelError m
  | .closeChannel m => handleCloseChannel m
  | .setExtranoncePrefix m => handleSetExtranoncePrefix m
  | .submitSharesSuccess m => handleSubmitSharesSuccess m
  | .submitSharesError m => handleSubmitSharesError m
  | .newMiningJob m => handleNewMiningJob m
  | .newExtendedMiningJob m => handleNewExtendedMiningJob m
  | .setNewPrevHash m => handleSetNewPrevHash m
  | .setCustomMiningJobSuccess m => handleSetCustomMiningJobSuccess m
  | .setCustomMiningJobError m => handleSetCustomMiningJobError m
  | .setTarget m => handleSetTarget m
  | .setGroupChannel m => handleSetGroupChannel m

end Handlers

inductive WorldLabel where
  | event (e : WorldEvent)
  | message (m : ServerMessage) (r : Except Sv2CpuMinerError Unit)

/-- An event, or a message handled to its end while events happen. -/
inductive WorldStep {D : Deps} : World D → WorldLabel → World D → Prop
  | event {w w' : World D} {e : WorldEvent} (h : w.advance e = some w') :
      WorldStep w (.event e) w'
  | message {w w' : World D} {m : ServerMessage} {r : Except Sv2CpuMinerError Unit}
      (h : Runs WorldInterferes (handle m) w r w') : WorldStep w (.message m r) w'

/-- An executable step: a handler runs without interruption and gives the
result of its label. -/
def World.execute {D : Deps} (w : World D) : WorldLabel → Option (World D)
  | .event e => w.advance e
  | .message m r => if ((handle m).eval w).1 = r then some ((handle m).eval w).2 else none

theorem worldStep_of_execute {D : Deps} {w w' : World D} {l : WorldLabel}
    (h : w.execute l = some w') : WorldStep w l w' := by
  cases l with
  | event e => exact .event h
  | message m r =>
    simp only [World.execute, Option.ite_none_right_eq_some, Option.some.injEq] at h
    obtain ⟨rfl, rfl⟩ := h
    exact .message (runs_eval (handle m) w)

theorem worldRun_of_play {D : Deps} {w w' : World D} {ls : List WorldLabel}
    (h : play World.execute w ls = some w') : Run WorldStep w ls w' := by
  refine run_of_play ?_ h
  intro s l s' hstep
  exact worldStep_of_execute hstep

end CpuMinerSv2.Manager
