import MyCode.Types
import Mathlib.Data.List.Basic

/-!
# VCLOCK timer wheel

The state and the functions of `vclock_utl.c`.  Timer nodes are owned by the
callers, so the instance keeps them in a map from node identities; a doubly
linked list is the list of the identities it links, and `pstHead` of a node
names the list it is in.  A callback runs between two turns of the firing
loop of `VCLOCK_Step`, where it may call the interface again.
-/

namespace MyCode.Vclock

open Function

def timerTotleLevel : Nat := 6

def timerScalePerLevel : Nat := 64

def timerFlagCycle : UINT := 0x1

def timerFlagPause : UINT := 0x2

abbrev NodeId := Nat

structure VclockNode where
  /-- The list the node is linked in, as a level and a slot. -/
  pstHead : Option (Nat × Nat)
  ulTick : UINT
  uiTriggerTick : UINT
  flag : UINT

structure VclockInstance where
  ulNodeCount : UINT
  uiCurrentTick : UINT
  ulCurrentLevelTick : Nat → Nat
  stTimerLevel : Nat → Nat → List NodeId
  node : NodeId → VclockNode

def vclockInitInstance : VclockInstance where
  ulNodeCount := 0
  uiCurrentTick := 0
  ulCurrentLevelTick _ := 0
  stTimerLevel _ _ := []
  node _ := ⟨none, 0, 0, 0⟩

namespace VclockInstance

def setNode (vclock : VclockInstance) (id : NodeId) (node : VclockNode) : VclockInstance :=
  { vclock with node := update vclock.node id node }

def setList (vclock : VclockInstance) (level slot : Nat) (list : List NodeId) :
    VclockInstance :=
  { vclock with
    stTimerLevel := fun l s =>
      if l = level ∧ s = slot then list else vclock.stTimerLevel l s }

def dllDel (vclock : VclockInstance) (level slot : Nat) (id : NodeId) : VclockInstance :=
  (vclock.setList level slot ((vclock.stTimerLevel level slot).erase id)).setNode id
    { vclock.node id with pstHead := none }

def dllDelIfInList (vclock : VclockInstance) (id : NodeId) : VclockInstance :=
  match (vclock.node id).pstHead with
  | none => vclock
  | some (level, slot) => vclock.dllDel level slot id

def dllAddToHead (vclock : VclockInstance) (level slot : Nat) (id : NodeId) :
    VclockInstance :=
  (vclock.setList level slot (id :: vclock.stTimerLevel level slot)).setNode id
    { vclock.node id with pstHead := some (level, slot) }

end VclockInstance

/-- The `while` loop that looks for the level of a distance: the level and
what is left of the distance there. -/
def vclockTimerLevel : Nat → Nat → Nat → Nat × Nat
  | 0, ulLevel, ulTickTmp => (ulLevel, ulTickTmp)
  | fuel + 1, ulLevel, ulTickTmp =>
    if ulTickTmp / timerScalePerLevel ≠ 0 then
      vclockTimerLevel fuel (ulLevel + 1) (ulTickTmp / timerScalePerLevel)
    else
      (ulLevel, ulTickTmp)

/-- `_vclock_timer_add`.  A 32-bit distance is below `64 ^ 6`, so the search
for its level ends within six turns. -/
def vclockTimerAdd (vclock : VclockInstance) (id : NodeId) (uiTick : UINT) :
    VclockInstance :=
  let vclock := vclock.dllDelIfInList id
  let vclock := vclock.setNode id
    { vclock.node id with uiTriggerTick := vclock.uiCurrentTick + uiTick }
  let (ulLevel, ulTickTmp) := vclockTimerLevel timerTotleLevel 0 uiTick.toNat
  let ulTickTmp := ulTickTmp + vclock.ulCurrentLevelTick ulLevel
  let ulTickTmp :=
    if ulTickTmp ≥ timerScalePerLevel then ulTickTmp - timerScalePerLevel else ulTickTmp
  vclock.dllAddToHead ulLevel ulTickTmp id

/-- `VCLOCK_AddTimer` with `_vclock_add_timer`, up to the place in the wheel:
the node is initialized as linked nowhere. -/
def vclockInitTimer (vclock : VclockInstance) (id : NodeId) (tick flag : UINT) :
    VclockInstance :=
  let vclock := vclock.setNode id
    { vclock.node id with pstHead := none, flag := flag, ulTick := tick }
  { vclock with ulNodeCount := vclock.ulNodeCount + 1 }

def vclockAddTimer (vclock : VclockInstance) (id : NodeId) (firstTick tick flag : UINT) :
    VclockInstance :=
  vclockTimerAdd (vclockInitTimer vclock id tick flag) id (firstTick + 1)

def vclockDelTimer (vclock : VclockInstance) (id : NodeId) : VclockInstance :=
  match (vclock.node id).pstHead with
  | none => vclock
  | some (level, slot) =>
    let vclock := vclock.dllDel level slot id
    { vclock with ulNodeCount := vclock.ulNodeCount - 1 }

def vclockPause (vclock : VclockInstance) (id : NodeId) : VclockInstance :=
  let vclock := vclock.dllDelIfInList id
  vclock.setNode id
    { vclock.node id with flag := (vclock.node id).flag ||| timerFlagPause }

def vclockResume (vclock : VclockInstance) (id : NodeId) (firstTick : UINT) :
    VclockInstance :=
  if (vclock.node id).flag &&& timerFlagPause = 0 then
    vclock
  else
    let vclock := vclock.setNode id
      { vclock.node id with flag := (vclock.node id).flag &&& ~~~timerFlagPause }
    vclockTimerAdd vclock id firstTick

def vclockRestartWithTick (vclock : VclockInstance) (id : NodeId) (firstTick tick : UINT) :
    VclockInstance :=
  let vclock := vclock.setNode id { vclock.node id with ulTick := tick }
  vclockTimerAdd vclock id firstTick

def vclockGetTickLeft (vclock : VclockInstance) (id : NodeId) : UINT :=
  (vclock.node id).uiTriggerTick - vclock.uiCurrentTick

def vclockRefresh (vclock : VclockInstance) (id : NodeId) : VclockInstance :=
  if (vclock.node id).ulTick = vclockGetTickLeft vclock id then
    vclock
  else
    vclockRestartWithTick vclock id (vclock.node id).ulTick (vclock.node id).ulTick

/-- The first loop of `VCLOCK_Step`: move the hands, from level `i` up, until
one does not wrap.  The result also says where it stopped. -/
def vclockMoveHands : Nat → Nat → (Nat → Nat) → (Nat → Nat) × Nat
  | 0, i, levelTick => (levelTick, i)
  | levels + 1, i, levelTick =>
    if levelTick i + 1 ≥ timerScalePerLevel then
      vclockMoveHands levels (i + 1) (update levelTick i 0)
    else
      (update levelTick i (levelTick i + 1), i)

/-- Add the nodes that level `i` is due to hand down again, relative to the
moved tick.  The scan holds the successor of the node it moves. -/
def vclockCascadeLevel (vclock : VclockInstance) (i : Nat) : VclockInstance :=
  (vclock.stTimerLevel i (vclock.ulCurrentLevelTick i)).foldl
    (fun vclock id =>
      vclockTimerAdd vclock id ((vclock.node id).uiTriggerTick - vclock.uiCurrentTick))
    vclock

/-- The loop over the levels `i`, ..., `1`. -/
def vclockCascade (vclock : VclockInstance) : Nat → VclockInstance
  | 0 => vclock
  | i + 1 => vclockCascade (vclockCascadeLevel vclock (i + 1)) i

/-- `VCLOCK_Step` up to its firing loop. -/
def vclockStepBegin (vclock : VclockInstance) : VclockInstance :=
  let (levelTick, i) := vclockMoveHands timerTotleLevel 0 vclock.ulCurrentLevelTick
  let vclock := { vclock with
    uiCurrentTick := vclock.uiCurrentTick + 1
    ulCurrentLevelTick := levelTick }
  vclockCascade vclock (if i ≥ timerTotleLevel then timerTotleLevel - 1 else i)

/-- One turn of the firing loop, up to the callback: the node whose callback
is to run. -/
def vclockStepFire (vclock : VclockInstance) : Option (NodeId × VclockInstance) :=
  match vclock.stTimerLevel 0 (vclock.ulCurrentLevelTick 0) with
  | [] => none
  | id :: _ =>
    let vclock := vclock.dllDel 0 (vclock.ulCurrentLevelTick 0) id
    if (vclock.node id).flag &&& timerFlagCycle ≠ 0 then
      some (id, vclockTimerAdd vclock id (vclock.node id).ulTick)
    else
      some (id, { vclock with ulNodeCount := vclock.ulNodeCount - 1 })

inductive VclockCall where
  | addTimer (id : NodeId) (firstTick tick flag : UINT)
  | delTimer (id : NodeId)
  | pause (id : NodeId)
  | resume (id : NodeId) (firstTick : UINT)
  | restartWithTick (id : NodeId) (firstTick tick : UINT)
  | refresh (id : NodeId)

namespace VclockCall

def id : VclockCall → NodeId
  | addTimer id _ _ _ => id
  | delTimer id => id
  | pause id => id
  | resume id _ => id
  | restartWithTick id _ _ => id
  | refresh id => id

def apply (vclock : VclockInstance) : VclockCall → VclockInstance
  | addTimer id firstTick tick flag => vclockAddTimer vclock id firstTick tick flag
  | delTimer id => vclockDelTimer vclock id
  | pause id => vclockPause vclock id
  | resume id firstTick => vclockResume vclock id firstTick
  | restartWithTick id firstTick tick => vclockRestartWithTick vclock id firstTick tick
  | refresh id => vclockRefresh vclock id

/-- A linked node is not added a second time: adding initializes its links. -/
def Proper (vclock : VclockInstance) : VclockCall → Prop
  | addTimer id _ _ _ => (vclock.node id).pstHead = none
  | _ => True

end VclockCall

/-- Any number of calls that meet `allowed`. -/
inductive Calls (allowed : VclockCall → Prop) : VclockInstance → VclockInstance → Prop where
  | none {vclock} : Calls allowed vclock vclock
  | call {vclock call after} :
      allowed call →
      call.Proper vclock →
      Calls allowed (call.apply vclock) after →
      Calls allowed vclock after

/-- The firing loop with the calls of the callbacks, and the nodes it fires. -/
inductive Firing (allowed : VclockCall → Prop) :
    VclockInstance → List NodeId → VclockInstance → Prop where
  | done {vclock} : vclockStepFire vclock = none → Firing allowed vclock [] vclock
  | fire {vclock id fired called rest after} :
      vclockStepFire vclock = some (id, fired) →
      Calls allowed fired called →
      Firing allowed called rest after →
      Firing allowed vclock (id :: rest) after

/-- Completed steps with calls before each, and the nodes each step fires. -/
inductive Steps (allowed : VclockCall → Prop) :
    VclockInstance → List (List NodeId) → VclockInstance → Prop where
  | none {vclock after} : Calls allowed vclock after → Steps allowed vclock [] after
  | step {vclock called fired stepped rest after} :
      Calls allowed vclock called →
      Firing allowed (vclockStepBegin called) fired stepped →
      Steps allowed stepped rest after →
      Steps allowed vclock (fired :: rest) after

/-- A wheel between two steps of a run from its initialization. -/
def Reachable (vclock : VclockInstance) : Prop :=
  ∃ fired, Steps (fun _ => True) vclockInitInstance fired vclock

end MyCode.Vclock
