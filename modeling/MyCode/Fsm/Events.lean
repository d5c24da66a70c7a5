import MyCode.ByteQue.Refinement
import MyCode.Fsm.Compile

/-!
# Chains of events

The machine that is meant keeps its events in a list, and handles each one by the lines of
the switch map.  It also writes down which events were taken up and which were pushed.
-/

namespace MyCode.Fsm

open Lib ByteQue List Option Nat

variable {S : List UCHAR → UCHAR → Nat → Option Nat} {N : UINT → UINT → UINT → UINT} {User : Type}
  {hEventQue : Option QueCtrl}

/-- A queue of `FSM_InitEventQue` holds these events, the oldest one first. -/
structure QueHolds (capacity : Nat) (que : QueCtrl) (pending : List UINT) : Prop where
  flag : hasFlag que.uiFlag queFlagOverwrite = false
  size : que.uiCapacity.toNat = capacity
  fits : que.uiCount ≤ que.uiCapacity
  base : que.uiCapacity ≠ 0 → que.uiBase < que.uiCapacity
  events : cyclicWindow que.ahData capacity que.uiBase.toNat que.uiCount.toNat = pending

theorem toNat_zero : (0 : UINT).toNat = 0 := rfl

theorem toNat_one : (1 : UINT).toNat = 1 := rfl

variable {capacity : Nat} {que : QueCtrl} {pending : List UINT} {uiEvent : UINT}

theorem QueHolds.created (uiCapacity : UINT) (memory : Nat → UINT) :
    QueHolds uiCapacity.toNat (queCreate uiCapacity 0 memory) [] where
  flag := show hasFlag 0 queFlagOverwrite = false by decide
  size := rfl
  fits := zero_le _
  base := by
    intro someRoom
    exact Nat.pos_of_ne_zero fun none => someRoom (BitVec.eq_of_toNat_eq none)
  events := rfl

theorem QueHolds.count (holds : QueHolds capacity que pending) :
    que.uiCount.toNat = pending.length := by
  simp [← holds.events]

theorem QueHolds.pop_nil (holds : QueHolds capacity que []) : quePop N que = (que, none) := by
  have empty : que.uiCount = 0 := BitVec.eq_of_toNat_eq holds.count
  simp [quePop, empty]

theorem QueHolds.pop_cons (holds : QueHolds capacity que (uiEvent :: pending))
    (adds : CyclicAdd N) :
    ∃ after, quePop N que = (after, some uiEvent) ∧ QueHolds capacity after pending := by
  have count := holds.count
  have fits := BitVec.le_def.mp holds.fits
  rw [length_cons] at count
  have someThere : que.uiCount ≠ 0 := by
    intro empty
    rw [empty] at count
    simp at count
  have room : que.uiCapacity ≠ 0 := by
    intro none
    rw [none, toNat_zero] at fits
    omega
  have one : (1 : UINT) ≤ que.uiCapacity := by
    rw [BitVec.le_def, toNat_one]
    omega
  have base := holds.base room
  have next := adds que.uiBase 1 que.uiCapacity base one
  have less : (que.uiCount - 1).toNat = pending.length := by
    rw [BitVec.toNat_sub_of_le (by rw [BitVec.le_def]; simp [count]), count]
    simp
  have events := holds.events
  rw [count, cyclicWindow_cons, cons.injEq, ← holds.size,
    mod_eq_of_lt (BitVec.lt_def.mp base)] at events
  refine ⟨{ que with uiBase := N que.uiBase 1 que.uiCapacity, uiCount := que.uiCount - 1 }, ?_, ?_⟩
  · simp only [quePop, if_neg someThere, events.1]
  refine ⟨holds.flag, holds.size, ?_, ?_, ?_⟩
  · show que.uiCount - 1 ≤ que.uiCapacity
    rw [BitVec.le_def, less]
    omega
  · intro _
    rw [BitVec.lt_def, next]
    apply mod_lt
    omega
  · simp only [next, less, ← holds.size, cyclicWindow_mod]
    exact events.2

theorem QueHolds.push_full (holds : QueHolds capacity que pending)
    (full : ¬pending.length < capacity) : quePush N que uiEvent = (que, .err) := by
  have count := holds.count
  have size := holds.size
  have filled : que.uiCount ≥ que.uiCapacity := by
    rw [ge_iff_le, BitVec.le_def]
    omega
  simp [quePush, filled, holds.flag]

theorem QueHolds.push_room (holds : QueHolds capacity que pending) (adds : CyclicAdd N)
    (uiEvent : UINT) (room : pending.length < capacity) :
    ∃ after, quePush N que uiEvent = (after, .ok) ∧
      QueHolds capacity after (pending ++ [uiEvent]) := by
  have count := holds.count
  have size := holds.size
  have under : ¬que.uiCount ≥ que.uiCapacity := by
    rw [ge_iff_le, BitVec.le_def]
    omega
  have someRoom : que.uiCapacity ≠ 0 := by
    intro none
    rw [none, toNat_zero] at size
    omega
  have place := adds que.uiBase que.uiCount que.uiCapacity (holds.base someRoom) holds.fits
  have more : (que.uiCount + 1).toNat = pending.length + 1 := by
    rw [BitVec.toNat_add, toNat_one, count]
    omega
  refine ⟨queAppend N que uiEvent, ?_, ?_⟩
  · simp [quePush, if_neg under]
  refine ⟨holds.flag, holds.size, ?_, holds.base, ?_⟩
  · show que.uiCount + 1 ≤ que.uiCapacity
    rw [BitVec.le_def, more]
    omega
  have written : (queAppend N que uiEvent).ahData = Function.update que.ahData
      ((que.uiBase.toNat + que.uiCount.toNat) % capacity) uiEvent := by
    funext cell
    rw [queAppend, Function.update_apply, ← size, ← place]
  rw [written]
  simp only [queAppend, more]
  rw [← count, cyclicWindow_push (by omega), holds.events]

/-- A machine with its events in a list, and the events that were taken up and pushed. -/
structure Served (User : Type) where
  uiCurState : UINT
  uiOldState : UINT
  hUserPrivateData : User
  pending : List UINT
  taken : List UINT
  pushed : List UINT
  progress : Progress

def Served.enter (served : Served User) (uiState : UINT) : Served User :=
  if served.uiCurState = uiState then served
  else { served with uiOldState := served.uiCurState, uiCurState := uiState }

/-- `room` is the capacity of the queue, if there is one. -/
def ActionCode.perform (room : Option Nat) : ActionCode User → Served User → Served User × BsStatus
  | .done eRet hUserPrivateData, served =>
    ({ served with hUserPrivateData := hUserPrivateData }, eRet)
  | .pushEvent uiEvent next, served =>
    match room with
    | none => (next .notSupport).perform room served
    | some capacity =>
      if served.pending.length < capacity then
        (next .ok).perform room { served with
          pending := served.pending ++ [uiEvent], pushed := served.pushed ++ [uiEvent] }
      else (next .err).perform room served
  | .setState uiState next, served =>
    next.perform room (if uiState = fsmStateNoChange then served else served.enter uiState)

section Serve

variable (pstStateMap : List FsmStateMap) (pstEventMap : List FsmEventMap)
  (lines : List (FsmSwitchMap User)) (room : Option Nat)

def Served.handle (served : Served User) (uiEvent : UINT) : Served User × BsStatus :=
  match performedLine pstStateMap pstEventMap lines served.uiCurState uiEvent with
  | none => (served, .ok)
  | some line =>
    let served := served.enter (line.nextState pstStateMap served.uiCurState)
    match line.pfEventFunc with
    | none => (served, .ok)
    | some action =>
      (action served.uiCurState served.uiOldState served.hUserPrivateData uiEvent).perform
        room served

/-- The oldest event is taken up next, until an action answers `BS_STOP`, no event is left, or
the event that is taken up is the invalid one. -/
def Served.round (served : Served User) : Served User :=
  match served.progress with
  | .returned _ => served
  | .handling uiEvent =>
    let (served, eRet) := served.handle pstStateMap pstEventMap lines room uiEvent
    if eRet = .stop then { served with progress := .returned eRet }
    else
      match served.pending with
      | [] => { served with progress := .returned eRet }
      | uiEvent :: pending =>
        { served with
          pending := pending
          taken := served.taken ++ [uiEvent]
          progress := if uiEvent = fsmInvalidEvent then .returned eRet else .handling uiEvent }

def serve (served : Served User) : Nat → Served User
  | 0 => served
  | rounds + 1 => (serve served rounds).round pstStateMap pstEventMap lines room

end Serve

def FsmS.serving (fsm : FsmS User) (pending : List UINT) (uiEvent : UINT) : Served User :=
  { uiCurState := fsm.uiCurState
    uiOldState := fsm.uiOldState
    hUserPrivateData := fsm.hUserPrivateData
    pending := pending
    taken := [uiEvent]
    pushed := []
    progress := .handling uiEvent }

inductive QueueHolds : Option QueCtrl → Option Nat → List UINT → Prop where
  | absent : QueueHolds none none []
  | present {que : QueCtrl} {capacity : Nat} {pending : List UINT} :
      QueHolds capacity que pending → QueueHolds (some que) (some capacity) pending

structure Follows (room : Option Nat) (fsm : FsmS User) (served : Served User) : Prop where
  current : fsm.uiCurState = served.uiCurState
  old : fsm.uiOldState = served.uiOldState
  user : fsm.hUserPrivateData = served.hUserPrivateData
  queue : QueueHolds fsm.hEventQue room served.pending
  changed : served.uiCurState ≠ fsmStateNoChange

variable {room : Option Nat} {fsm : FsmS User} {served : Served User} {uiState : UINT}
  {pstStateMap : List FsmStateMap} {pstEventMap : List FsmEventMap} {tbl : FsmSwitchTbl User}
  {lines : List (FsmSwitchMap User)}

theorem Follows.setState (follows : Follows room fsm served) (uiState : UINT) :
    Follows room (fsmSetState fsm uiState)
      (if uiState = fsmStateNoChange then served else served.enter uiState) := by
  rw [fsmSetState]
  by_cases unchanged : uiState = fsmStateNoChange
  · have other : fsm.uiCurState ≠ uiState := by
      rw [follows.current, unchanged]
      exact follows.changed
    rw [if_neg other, if_pos unchanged, if_pos unchanged]
    exact follows
  · rw [if_neg unchanged, if_neg unchanged, Served.enter, ← follows.current]
    split
    · exact follows
    · exact ⟨rfl, rfl, follows.user, follows.queue, unchanged⟩

theorem QueueHolds.there (queue : QueueHolds hEventQue (some capacity) pending) :
    ∃ que, hEventQue = some que ∧ QueHolds capacity que pending := by
  cases queue with
  | present holds => exact ⟨_, rfl, holds⟩

theorem QueueHolds.missing (queue : QueueHolds hEventQue none pending) :
    hEventQue = none ∧ pending = [] := by
  cases queue with
  | absent => exact ⟨rfl, rfl⟩

theorem Follows.push_absent (follows : Follows none fsm served) :
    fsmPushEvent N fsm uiEvent = (fsm, .notSupport) := by
  simp [fsmPushEvent, follows.queue.missing.1]

theorem Follows.push_full (follows : Follows (some capacity) fsm served)
    (full : ¬served.pending.length < capacity) : fsmPushEvent N fsm uiEvent = (fsm, .err) := by
  obtain ⟨_, present, holds⟩ := follows.queue.there
  simp only [fsmPushEvent, present, holds.push_full full]
  rw [← present]

theorem Follows.push_room (follows : Follows (some capacity) fsm served) (adds : CyclicAdd N)
    (uiEvent : UINT) (room : served.pending.length < capacity) :
    ∃ after, fsmPushEvent N fsm uiEvent = (after, .ok) ∧
      Follows (some capacity) after { served with
        pending := served.pending ++ [uiEvent], pushed := served.pushed ++ [uiEvent] } := by
  obtain ⟨_, present, holds⟩ := follows.queue.there
  obtain ⟨after, pushed, held⟩ := holds.push_room adds uiEvent room
  refine ⟨{ fsm with hEventQue := some after }, ?_, ?_⟩
  · simp [fsmPushEvent, present, pushed]
  · exact ⟨follows.current, follows.old, follows.user, .present held, follows.changed⟩

theorem Follows.run (follows : Follows room fsm served) (adds : CyclicAdd N)
    (code : ActionCode User) :
    (code.run N fsm).2 = (code.perform room served).2 ∧
      Follows room (code.run N fsm).1 (code.perform room served).1 := by
  induction code generalizing fsm served with
  | done => exact ⟨rfl, follows.current, follows.old, rfl, follows.queue, follows.changed⟩
  | pushEvent uiEvent next ih =>
    rw [ActionCode.run, ActionCode.perform.eq_def]
    cases room with
    | none =>
      rw [follows.push_absent]
      exact ih _ follows
    | some =>
      dsimp only
      split
      · next free =>
        obtain ⟨_, pushed, held⟩ := follows.push_room adds uiEvent free
        rw [pushed]
        exact ih _ held
      · next full =>
        rw [follows.push_full full]
        exact ih _ follows
  | setState _ _ ih => exact ih (follows.setState _)

theorem Follows.pop_nil (follows : Follows room fsm served) (none_left : served.pending = []) :
    fsmPopEvent N fsm = (fsm, fsmInvalidEvent) := by
  have queue := follows.queue
  rw [none_left] at queue
  cases room with
  | none => simp only [fsmPopEvent, queue.missing.1]
  | some =>
    obtain ⟨_, present, holds⟩ := queue.there
    simp only [fsmPopEvent, present, holds.pop_nil, getD_none]
    rw [← present]

theorem Follows.pop_cons (follows : Follows room fsm served) (adds : CyclicAdd N)
    (next : served.pending = uiEvent :: pending) :
    ∃ after, fsmPopEvent N fsm = (after, uiEvent) ∧
      Follows room after { served with pending := pending } := by
  have queue := follows.queue
  rw [next] at queue
  cases room with
  | none => exact absurd queue.missing.2 (cons_ne_nil _ _)
  | some =>
    obtain ⟨_, present, holds⟩ := queue.there
    obtain ⟨after, popped, held⟩ := holds.pop_cons adds
    refine ⟨{ fsm with hEventQue := some after }, ?_, ?_⟩
    · simp [fsmPopEvent, present, popped]
    · exact ⟨follows.current, follows.old, follows.user, .present held, follows.changed⟩

/-- What the lines and the table have to do with each other. -/
structure Dispatches (pstStateMap : List FsmStateMap) (pstEventMap : List FsmEventMap)
    (lines : List (FsmSwitchMap User)) (tbl : FsmSwitchTbl User) : Prop where
  states : StateNames pstStateMap
  events : DistinctKeys FsmEventMap.pcEventName pstEventMap
  compiled : Compiled pstStateMap pstEventMap lines tbl

theorem StateNames.stateKey_ne (states : StateNames pstStateMap) {name : List UCHAR}
    (other : ¬(name = [] ∨ name = fsmStateNoChangeString)) :
    Fsm.stateKey pstStateMap name ≠ fsmStateNoChange := by
  rw [Fsm.stateKey, if_neg other]
  split
  · decide
  split
  · next entry found => exact (states.free entry (mem_of_find?_eq_some found)).2
  · decide

section

variable (follows : Follows room fsm served)

include follows

theorem Follows.move (states : StateNames pstStateMap) (line : FsmSwitchMap User) :
    Follows room (fsmSetState fsm (stateKey pstStateMap line.pcNextState))
      (served.enter (line.nextState pstStateMap served.uiCurState)) := by
  have moved := follows.setState
  by_cases stays : line.pcNextState = [] ∨ line.pcNextState = fsmStateNoChangeString
  · have unchanged : stateKey pstStateMap line.pcNextState = fsmStateNoChange := by
      rw [stateKey, if_pos stays]
    have same : served.enter (line.nextState pstStateMap served.uiCurState) = served := by
      rw [FsmSwitchMap.nextState, if_pos stays, Served.enter, if_pos rfl]
    rw [unchanged, same]
    simpa using moved fsmStateNoChange
  · have leaves := states.stateKey_ne stays
    rw [FsmSwitchMap.nextState, if_neg stays]
    simpa [leaves] using moved (stateKey pstStateMap line.pcNextState)

section

variable (adds : CyclicAdd N) (dispatches : Dispatches pstStateMap pstEventMap lines tbl)

include adds dispatches

theorem Follows.handle (uiEvent : UINT) :
    (fsmHandleOne N tbl fsm uiEvent).2 =
        (served.handle pstStateMap pstEventMap lines room uiEvent).2 ∧
      Follows room (fsmHandleOne N tbl fsm uiEvent).1
        (served.handle pstStateMap pstEventMap lines room uiEvent).1 := by
  rw [fsmHandleOne, Served.handle, follows.current,
    dispatches.compiled.findEventAction dispatches.states dispatches.events follows.changed]
  cases performedLine pstStateMap pstEventMap lines served.uiCurState uiEvent with
  | none => exact ⟨rfl, follows⟩
  | some line =>
    have moved := follows.move dispatches.states line
    simp only [map_some, FsmSwitchMap.node]
    cases line.pfEventFunc with
    | none => exact ⟨rfl, moved⟩
    | some =>
      rw [moved.current, moved.old, moved.user]
      exact moved.run adds _

theorem Follows.round {progress : Progress} (same : progress = served.progress) :
    (fsmEventRound N tbl (fsm, progress)).2 =
        (served.round pstStateMap pstEventMap lines room).progress ∧
      Follows room (fsmEventRound N tbl (fsm, progress)).1
        (served.round pstStateMap pstEventMap lines room) := by
  rw [Served.round, ← same]
  cases progress with
  | returned => exact ⟨same, follows⟩
  | handling uiEvent =>
    obtain ⟨answer, held⟩ := follows.handle adds dispatches uiEvent
    simp only [fsmEventRound, answer]
    split
    · exact ⟨rfl, held.current, held.old, held.user, held.queue, held.changed⟩
    cases left : (served.handle pstStateMap pstEventMap lines room uiEvent).1.pending with
    | nil =>
      rw [held.pop_nil left]
      have queue := held.queue
      simp only [left] at queue ⊢
      exact ⟨rfl, held.current, held.old, held.user, queue, held.changed⟩
    | cons =>
      obtain ⟨_, popped, kept⟩ := held.pop_cons adds left
      rw [popped]
      dsimp only
      split
      · exact ⟨rfl, kept.current, kept.old, kept.user, kept.queue, kept.changed⟩
      · exact ⟨rfl, kept.current, kept.old, kept.user, kept.queue, kept.changed⟩

theorem Follows.handles (begins : served.progress = .handling uiEvent) (rounds : Nat) :
    (fsmEventHandle N tbl fsm uiEvent rounds).2 =
        (serve pstStateMap pstEventMap lines room served rounds).progress ∧
      Follows room (fsmEventHandle N tbl fsm uiEvent rounds).1
        (serve pstStateMap pstEventMap lines room served rounds) := by
  induction rounds with
  | zero => exact ⟨begins.symm, follows⟩
  | succ _ ih => exact ih.2.round adds dispatches ih.1

end

end

/-- What was taken up and what is still pending are the first event, the events that were
pending before, and those that were pushed since. -/
def Served.InOrder (earlier : List UINT) (served : Served User) : Prop :=
  served.taken ++ served.pending = earlier ++ served.pushed

theorem Served.enter_lists (served : Served User) (uiState : UINT) :
    (served.enter uiState).taken = served.taken ∧
      (served.enter uiState).pending = served.pending ∧
      (served.enter uiState).pushed = served.pushed := by
  rw [Served.enter]
  split <;> exact ⟨rfl, rfl, rfl⟩

variable {earlier : List UINT}

section

variable (inOrder : served.InOrder earlier)

include inOrder

theorem Served.InOrder.enter (uiState : UINT) : (served.enter uiState).InOrder earlier := by
  obtain ⟨taken, pending, pushed⟩ := served.enter_lists uiState
  rw [Served.InOrder, taken, pending, pushed]
  exact inOrder

theorem Served.InOrder.perform (code : ActionCode User) :
    (code.perform room served).1.InOrder earlier := by
  induction code generalizing served with
  | done => exact inOrder
  | pushEvent _ _ ih =>
    rw [ActionCode.perform.eq_def]
    cases room with
    | none => exact ih _ inOrder
    | some =>
      dsimp only
      split
      · apply ih
        rw [Served.InOrder] at inOrder ⊢
        rw [← append_assoc, inOrder, append_assoc]
      · exact ih _ inOrder
  | setState uiState _ ih =>
    apply ih
    split
    · exact inOrder
    · exact inOrder.enter uiState

theorem Served.InOrder.handle (uiEvent : UINT) :
    (served.handle pstStateMap pstEventMap lines room uiEvent).1.InOrder earlier := by
  rw [Served.handle]
  split
  · exact inOrder
  next line _ =>
  have entered := inOrder.enter (line.nextState pstStateMap served.uiCurState)
  split
  · exact entered
  · exact entered.perform _

theorem Served.InOrder.round :
    (served.round pstStateMap pstEventMap lines room).InOrder earlier := by
  rw [Served.round]
  split
  · exact inOrder
  next uiEvent _ =>
  have handled : (served.handle pstStateMap pstEventMap lines room uiEvent).1.InOrder earlier :=
    inOrder.handle uiEvent
  dsimp only
  split
  · exact handled
  split
  · exact handled
  next next =>
  rw [Served.InOrder, next] at handled
  rw [Served.InOrder, append_assoc]
  exact handled

theorem Served.InOrder.serve (rounds : Nat) :
    (Fsm.serve pstStateMap pstEventMap lines room served rounds).InOrder earlier := by
  induction rounds with
  | zero => exact inOrder
  | succ _ ih => exact ih.round

end

/-- `FSM_EventHandle` does, round by round, what the machine of the switch map does, and takes
the events up in the order in which they were pushed. -/
theorem fsmEventHandle_serves (first : FindsFirst S) (adds : CyclicAdd N)
    (states : StateNames pstStateMap) (events : DistinctKeys FsmEventMap.pcEventName pstEventMap)
    (short : ∀ line ∈ lines, line.Short)
    (created : fsmCreateSwitchTbl S pstStateMap pstEventMap lines = some tbl)
    (current : fsm.uiCurState ≠ fsmStateNoChange) (queue : QueueHolds fsm.hEventQue room pending)
    (uiEvent : UINT) (rounds : Nat) :
    let run := fsmEventHandle N tbl fsm uiEvent rounds
    let served := serve pstStateMap pstEventMap lines room (fsm.serving pending uiEvent) rounds
    run.2 = served.progress ∧ Follows room run.1 served ∧
      served.taken ++ served.pending = uiEvent :: (pending ++ served.pushed) := by
  have begins : Follows room fsm (fsm.serving pending uiEvent) := ⟨rfl, rfl, rfl, queue, current⟩
  have dispatches : Dispatches pstStateMap pstEventMap lines tbl :=
    ⟨states, events, fsmCreateSwitchTbl_compiled first states short created⟩
  have inOrder : (fsm.serving pending uiEvent).InOrder (uiEvent :: pending) := by
    exact (append_nil _).symm
  obtain ⟨progress, follows⟩ := begins.handles adds dispatches rfl rounds
  exact ⟨progress, follows, inOrder.serve rounds⟩

/-- `TXT_Strnchr` as it is documented. -/
def txtStrnchr (text : List UCHAR) (c : UCHAR) (length : Nat) : Option Nat :=
  (text.take length).findIdx? fun byte => byte == c

theorem txtStrnchr_first : FindsFirst txtStrnchr := fun _ _ _ _ => rfl

/-- The states `a` and `b`. -/
def exampleStates (b : UINT) : List FsmStateMap :=
  [⟨[0x61], 1⟩, ⟨[0x62], b⟩]

/-- The events `x` and `y`. -/
def exampleEvents : List FsmEventMap :=
  [⟨[0x78], 10⟩, ⟨[0x79], 11⟩]

/-- In `a` the event `x` leads to `b` and pushes `y`, which stops everywhere. -/
def exampleLines : List (FsmSwitchMap Unit) :=
  [⟨[0x61], [0x78], [0x62], some fun _ _ _ _ => .pushEvent 11 fun _ => .done .ok ()⟩,
    ⟨[0x61, 0x2c, 0x2a], [0x79, 0x2c, 0x78], [0x40], some fun _ _ _ _ => .done .stop ()⟩]

def exampleFsm : FsmS Unit :=
  { hEventQue := some (queCreate 4 0 fun _ => 0)
    uiCurState := 1
    uiOldState := 0
    hUserPrivateData := () }

theorem fsmEventHandle_serves_pushed :
    ∃ tbl, fsmCreateSwitchTbl txtStrnchr (exampleStates 2) exampleEvents exampleLines = some tbl ∧
      (fsmEventHandle cycleIndexAdd tbl exampleFsm 10 2).2 =
        (serve (exampleStates 2) exampleEvents exampleLines (some 4)
          (exampleFsm.serving [] 10) 2).progress := by
  have accepted : (fsmCreateSwitchTbl txtStrnchr (exampleStates 2) exampleEvents
      exampleLines).isSome := by
    decide +kernel
  obtain ⟨tbl, created⟩ := isSome_iff_exists.mp accepted
  have states : StateNames (exampleStates 2) :=
    ⟨distinctKeys_iff_nodup.mpr (by decide), distinctKeys_iff_nodup.mpr (by decide), by decide,
      by decide⟩
  have short : ∀ line ∈ exampleLines, line.Short := by
    simp only [exampleLines, forall_mem_cons]
    exact ⟨⟨by decide, by decide, by decide⟩, ⟨by decide, by decide, by decide⟩, by simp⟩
  exact ⟨tbl, created, (fsmEventHandle_serves txtStrnchr_first cyclicAdd_cycleIndexAdd states
    (distinctKeys_iff_nodup.mpr (by decide)) short created (by decide) (.present (.created 4 _)) 10 2).1⟩

/-- A state with the number that stands for `@` is never entered. -/
theorem fsmEventHandle_stays :
    (exampleStates fsmStateNoChange).Pairwise (fun first second =>
      first.pcStateName ≠ second.pcStateName ∧ first.uiState ≠ second.uiState) ∧
    (∀ entry ∈ exampleStates fsmStateNoChange, entry.pcStateName ≠ [] ∧
      entry.pcStateName ≠ fsmStateNoChangeString ∧ entry.pcStateName ≠ fsmStateAnyString) ∧
    (performedLine (exampleStates fsmStateNoChange) exampleEvents exampleLines 1 10).map
      (fun line => line.nextState (exampleStates fsmStateNoChange) 1) = some fsmStateNoChange ∧
    (fsmCreateSwitchTbl txtStrnchr (exampleStates fsmStateNoChange) exampleEvents
      exampleLines).map (fun tbl => (fsmEventHandle cycleIndexAdd tbl exampleFsm 10 1).1.uiCurState)
        = some 1 := by
  decide +kernel

end MyCode.Fsm
