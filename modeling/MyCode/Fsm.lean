import Mathlib.Data.List.Find
import Mathlib.Data.List.Nodup
import MyCode.Lib.KeyedList
import MyCode.Types

/-!
# State machines

`fsm/fsm_utl.c`, with the event queue of `queue/que_utl.c` and the element scan of
`lstr_utl.h`.  A text is its bytes before the terminating zero.  `TXT_Strnchr` and
`NUM_CYCLE_INDEX_ADD` are not part of the sources and enter as parameters.
-/

namespace MyCode.Fsm

def fsmInvalidState : UINT := 0xffffffff

def fsmInvalidEvent : UINT := 0xffffffff

def fsmStateNoChange : UINT := 0xfffffffe

def fsmStateAny : UINT := 0xfffffffd

def fsmStateNoChangeString : List UCHAR := [0x40]

def fsmStateAnyString : List UCHAR := [0x2a]

def comma : UCHAR := 0x2c

def queFlagOverwrite : UINT := 1

/-- `QUE_CTRL_S`; the handles in it are events. -/
structure QueCtrl where
  uiBase : UINT
  uiCount : UINT
  uiCapacity : UINT
  uiFlag : UINT
  ahData : Nat → UINT

def queCreate (uiCapacity uiFlag : UINT) (memory : Nat → UINT) : QueCtrl :=
  ⟨0, 0, uiCapacity, uiFlag, memory⟩

section Queue

variable (NUM_CYCLE_INDEX_ADD : UINT → UINT → UINT → UINT)

def quePop (que : QueCtrl) : QueCtrl × Option UINT :=
  if que.uiCount = 0 then (que, none)
  else
    ({ que with
        uiBase := NUM_CYCLE_INDEX_ADD que.uiBase 1 que.uiCapacity
        uiCount := que.uiCount - 1 },
      some (que.ahData que.uiBase.toNat))

/-- What `QUE_Push` does once there is room. -/
def queAppend (que : QueCtrl) (hItem : UINT) : QueCtrl :=
  let uiDest := NUM_CYCLE_INDEX_ADD que.uiBase que.uiCount que.uiCapacity
  { que with
    ahData := fun place => if place = uiDest.toNat then hItem else que.ahData place
    uiCount := que.uiCount + 1 }

def quePush (que : QueCtrl) (hItem : UINT) : QueCtrl × BsStatus :=
  if que.uiCount ≥ que.uiCapacity then
    if hasFlag que.uiFlag queFlagOverwrite then
      (queAppend NUM_CYCLE_INDEX_ADD (quePop NUM_CYCLE_INDEX_ADD que).1 hItem, .ok)
    else
      (que, .err)
  else
    (queAppend NUM_CYCLE_INDEX_ADD que hItem, .ok)

end Queue

/-- `FSM_S` beside its switch table. -/
structure FsmS (User : Type) where
  hEventQue : Option QueCtrl
  uiCurState : UINT
  uiOldState : UINT
  hUserPrivateData : User

/-- What an action does: it pushes events and sets the state, and may look at what a push
answers. -/
inductive ActionCode (User : Type) where
  | done (eRet : BsStatus) (hUserPrivateData : User)
  | pushEvent (uiEvent : UINT) (next : BsStatus → ActionCode User)
  | setState (uiState : UINT) (next : ActionCode User)

/-- `PF_FSM_EVENT_FUNC`, given the current and the old state, the private data and the
event. -/
abbrev PfFsmEventFunc (User : Type) : Type :=
  UINT → UINT → User → UINT → ActionCode User

structure FsmStateMap where
  pcStateName : List UCHAR
  uiState : UINT

structure FsmEventMap where
  pcEventName : List UCHAR
  uiEvent : UINT

structure FsmSwitchMap (User : Type) where
  pcState : List UCHAR
  pcEvent : List UCHAR
  pcNextState : List UCHAR
  pfEventFunc : Option (PfFsmEventFunc User)

structure FsmSwitchEvent (User : Type) where
  uiEvent : UINT
  uiNextState : UINT
  pfActionFunc : Option (PfFsmEventFunc User)

structure FsmSwitchList (User : Type) where
  uiState : UINT
  pcState : List UCHAR
  stEventList : List (FsmSwitchEvent User)

structure FsmSwitchTbl (User : Type) where
  pstStateMap : List FsmStateMap
  pstEventMap : List FsmEventMap
  pstSwitchMap : List (FsmSwitchMap User)
  pstSwitchList : List (FsmSwitchList User)

/-- `strncmp` finds no difference. -/
def strncmpEq (first second : List UCHAR) (length : Nat) : Bool :=
  first.take length == second.take length

def fsmGetStateByName (pstStateMap : List FsmStateMap) (pcStateName : List UCHAR)
    (uiStateNameLen : Nat) : UINT :=
  if strncmpEq fsmStateNoChangeString pcStateName uiStateNameLen then fsmStateNoChange
  else if strncmpEq fsmStateAnyString pcStateName uiStateNameLen then fsmStateAny
  else
    match pstStateMap.find? fun entry =>
        entry.pcStateName.length == uiStateNameLen &&
          strncmpEq entry.pcStateName pcStateName uiStateNameLen with
    | some entry => entry.uiState
    | none => fsmInvalidState

def fsmGetEventByName (pstEventMap : List FsmEventMap) (pcEventName : List UCHAR)
    (uiEventNameLen : Nat) : UINT :=
  match pstEventMap.find? fun entry =>
      entry.pcEventName.length == uiEventNameLen &&
        strncmpEq entry.pcEventName pcEventName uiEventNameLen with
  | some entry => entry.uiEvent
  | none => fsmInvalidEvent

variable {User : Type}

section Build

variable (TXT_Strnchr : List UCHAR → UCHAR → Nat → Option Nat)

/-- The elements that `LSTR_SCAN_ELEMENT_BEGIN` goes through: the text from an element on, and
the length of the element.  The rounds are more than the commas. -/
def lstrScanRounds (cSplitChar : UCHAR) : Nat → List UCHAR → Nat → List (List UCHAR × Nat)
  | 0, _, _ => []
  | rounds + 1, pc, uiRemainLen =>
    match TXT_Strnchr pc cSplitChar uiRemainLen with
    | none => [(pc, uiRemainLen)]
    | some found =>
      (pc, found) ::
        lstrScanRounds cSplitChar rounds (pc.drop (found + 1)) (uiRemainLen - found - 1)

def uintLen (text : List UCHAR) : Nat :=
  text.length % 2 ^ 32

def lstrScanElements (text : List UCHAR) (cSplitChar : UCHAR) : List (List UCHAR × Nat) :=
  lstrScanRounds TXT_Strnchr cSplitChar (uintLen text + 1) text (uintLen text)

def fsmGetSwitchList (pstSwitchList : List (FsmSwitchList User)) (uiState : UINT) : Option Nat :=
  pstSwitchList.findIdx? fun list => list.uiState = uiState

def FsmSwitchList.add (list : FsmSwitchList User) (node : FsmSwitchEvent User) :
    FsmSwitchList User :=
  { list with stEventList := list.stEventList ++ [node] }

def fsmAddEventNode (tbl : FsmSwitchTbl User) (uiState uiEvent : UINT)
    (line : FsmSwitchMap User) : Option (FsmSwitchTbl User) :=
  let uiNextState := fsmGetStateByName tbl.pstStateMap line.pcNextState (uintLen line.pcNextState)
  if uiNextState = fsmInvalidState then none
  else
    match fsmGetSwitchList tbl.pstSwitchList uiState with
    | none => none
    | some place =>
      some { tbl with
        pstSwitchList := tbl.pstSwitchList.modify place fun list =>
          list.add ⟨uiEvent, uiNextState, line.pfEventFunc⟩ }

def fsmParseSwitchEvent (uiState : UINT) (line : FsmSwitchMap User) (tbl : FsmSwitchTbl User) :
    Option (FsmSwitchTbl User) :=
  (lstrScanElements TXT_Strnchr line.pcEvent comma).foldlM (fun tbl element =>
    let uiEvent := fsmGetEventByName tbl.pstEventMap element.1 element.2
    if uiEvent = fsmInvalidEvent then none
    else fsmAddEventNode tbl uiState uiEvent line) tbl

def fsmParseSwitchMapLine (tbl : FsmSwitchTbl User) (line : FsmSwitchMap User) :
    Option (FsmSwitchTbl User) :=
  (lstrScanElements TXT_Strnchr line.pcState comma).foldlM (fun tbl element =>
    let uiState := fsmGetStateByName tbl.pstStateMap element.1 element.2
    if uiState = fsmInvalidState then none
    else fsmParseSwitchEvent TXT_Strnchr uiState line tbl) tbl

def fsmCreateStateList (pstStateMap : List FsmStateMap) : List (FsmSwitchList User) :=
  (pstStateMap.map fun entry => ⟨entry.uiState, entry.pcStateName, []⟩) ++
    [⟨fsmStateAny, fsmStateAnyString, []⟩, ⟨fsmStateNoChange, fsmStateNoChangeString, []⟩]

/-- `none` when a name is not known; there is memory for the table. -/
def fsmCreateSwitchTbl (pstStateMap : List FsmStateMap) (pstEventMap : List FsmEventMap)
    (pstSwitchMap : List (FsmSwitchMap User)) : Option (FsmSwitchTbl User) :=
  pstSwitchMap.foldlM (fsmParseSwitchMapLine TXT_Strnchr)
    ⟨pstStateMap, pstEventMap, pstSwitchMap, fsmCreateStateList pstStateMap⟩

end Build

def fsmFindNomalEventAction (tbl : FsmSwitchTbl User) (uiState uiEvent : UINT) :
    Option (FsmSwitchEvent User) :=
  match fsmGetSwitchList tbl.pstSwitchList uiState with
  | none => none
  | some place =>
    (tbl.pstSwitchList[place]?).bind fun list =>
      list.stEventList.find? fun node => node.uiEvent = uiEvent

def fsmFindAnyStateEventAction (tbl : FsmSwitchTbl User) (uiEvent : UINT) :
    Option (FsmSwitchEvent User) :=
  match fsmGetSwitchList tbl.pstSwitchList fsmStateAny with
  | none => none
  | some place =>
    (tbl.pstSwitchList[place]?).bind fun list =>
      list.stEventList.find? fun node => node.uiEvent = uiEvent

def fsmFindEventAction (tbl : FsmSwitchTbl User) (uiState uiEvent : UINT) :
    Option (FsmSwitchEvent User) :=
  match fsmFindNomalEventAction tbl uiState uiEvent with
  | some node => some node
  | none => fsmFindAnyStateEventAction tbl uiEvent

def fsmSetState (fsm : FsmS User) (uiState : UINT) : FsmS User :=
  if fsm.uiCurState = uiState then fsm
  else if uiState = fsmStateNoChange then fsm
  else { fsm with uiOldState := fsm.uiCurState, uiCurState := uiState }

section Run

variable (NUM_CYCLE_INDEX_ADD : UINT → UINT → UINT → UINT)

def fsmPushEvent (fsm : FsmS User) (uiEvent : UINT) : FsmS User × BsStatus :=
  match fsm.hEventQue with
  | none => (fsm, .notSupport)
  | some que =>
    match quePush NUM_CYCLE_INDEX_ADD que uiEvent with
    | (que, .ok) => ({ fsm with hEventQue := some que }, .ok)
    | (que, _) => ({ fsm with hEventQue := some que }, .err)

def fsmPopEvent (fsm : FsmS User) : FsmS User × UINT :=
  match fsm.hEventQue with
  | none => (fsm, fsmInvalidEvent)
  | some que =>
    let (que, item) := quePop NUM_CYCLE_INDEX_ADD que
    ({ fsm with hEventQue := some que }, item.getD fsmInvalidEvent)

def ActionCode.run : ActionCode User → FsmS User → FsmS User × BsStatus
  | .done eRet hUserPrivateData, fsm => ({ fsm with hUserPrivateData := hUserPrivateData }, eRet)
  | .pushEvent uiEvent next, fsm =>
    let (fsm, status) := fsmPushEvent NUM_CYCLE_INDEX_ADD fsm uiEvent
    (next status).run fsm
  | .setState uiState next, fsm => next.run (fsmSetState fsm uiState)

/-- `_fsm_EventHandle`. -/
def fsmHandleOne (tbl : FsmSwitchTbl User) (fsm : FsmS User) (uiEvent : UINT) :
    FsmS User × BsStatus :=
  match fsmFindEventAction tbl fsm.uiCurState uiEvent with
  | none => (fsm, .ok)
  | some node =>
    let fsm := fsmSetState fsm node.uiNextState
    match node.pfActionFunc with
    | none => (fsm, .ok)
    | some action =>
      (action fsm.uiCurState fsm.uiOldState fsm.hUserPrivateData uiEvent).run
        NUM_CYCLE_INDEX_ADD fsm

/-- Where the loop of `FSM_EventHandle` is. -/
inductive Progress where
  | handling (uiEventTmp : UINT)
  | returned (eRet : BsStatus)
  deriving DecidableEq

def fsmEventRound (tbl : FsmSwitchTbl User) : FsmS User × Progress → FsmS User × Progress
  | (fsm, .returned eRet) => (fsm, .returned eRet)
  | (fsm, .handling uiEventTmp) =>
    let (fsm, eRet) := fsmHandleOne NUM_CYCLE_INDEX_ADD tbl fsm uiEventTmp
    if eRet = .stop then (fsm, .returned eRet)
    else
      let (fsm, uiEventTmp) := fsmPopEvent NUM_CYCLE_INDEX_ADD fsm
      if uiEventTmp = fsmInvalidEvent then (fsm, .returned eRet)
      else (fsm, .handling uiEventTmp)

/-- `FSM_EventHandle` after some rounds; it returns when it has stopped handling. -/
def fsmEventHandle (tbl : FsmSwitchTbl User) (fsm : FsmS User) (uiEvent : UINT) :
    Nat → FsmS User × Progress
  | 0 => (fsm, .handling uiEvent)
  | rounds + 1 => fsmEventRound NUM_CYCLE_INDEX_ADD tbl (fsmEventHandle tbl fsm uiEvent rounds)

end Run

end MyCode.Fsm

/-!
## The rules that a switch table is compiled from

A line of the switch map is a rule for the states and the events it lists.  The lists of a
compiled table hold the entries of these rules, each at its state.
-/

namespace MyCode.Fsm

open Lib

variable {text : List UCHAR} {length : Nat}

/-- `TXT_Strnchr` gives the place of the first such byte. -/
def FindsFirst (TXT_Strnchr : List UCHAR → UCHAR → Nat → Option Nat) : Prop :=
  ∀ (text : List UCHAR) (c : UCHAR) (length : Nat), length ≤ text.length →
    TXT_Strnchr text c length = (text.take length).findIdx? fun byte => byte == c

def elements (text : List UCHAR) : List (List UCHAR) :=
  text.splitOn comma

variable {S : List UCHAR → UCHAR → Nat → Option Nat}

theorem take_split {found : Nat} (inside : length ≤ text.length)
    (first : (text.take length).findIdx? (fun byte => byte == comma) = some found) :
    found < length ∧ comma ∉ text.take found ∧
      text.take length =
        text.take found ++ comma :: (text.drop (found + 1)).take (length - found - 1) := by
  obtain ⟨bounded, there, before⟩ := List.findIdx?_eq_some_iff_getElem.mp first
  have less : found < length := lt_of_lt_of_le bounded (by simp)
  have within := lt_of_lt_of_le less inside
  have separator : text[found] = comma := by
    rw [List.getElem_take] at there
    exact eq_of_beq there
  refine ⟨less, ?_, ?_⟩
  · intro inTaken
    obtain ⟨i, small, same⟩ := List.getElem_of_mem inTaken
    rw [List.getElem_take] at same
    have earlier : i < found := lt_of_lt_of_le small (by simp)
    apply before i earlier
    rw [List.getElem_take, same]
    exact beq_self_eq_true comma
  · have rest : length = found + ((length - found - 1) + 1) := by omega
    rw [rest, List.take_add, List.drop_eq_getElem_cons within, List.take_succ_cons, separator]
    congr 4
    omega

theorem lstrScanRounds_elements (first : FindsFirst S) {rounds : Nat} {pc : List UCHAR}
    {uiRemainLen : Nat} (inside : uiRemainLen ≤ pc.length) (enough : uiRemainLen < rounds) :
    (∀ element ∈ lstrScanRounds S comma rounds pc uiRemainLen, element.2 ≤ element.1.length) ∧
    (lstrScanRounds S comma rounds pc uiRemainLen).map (fun element => element.1.take element.2) =
      (pc.take uiRemainLen).splitOn comma := by
  induction rounds generalizing pc uiRemainLen with
  | zero => omega
  | succ _ ih =>
    simp only [lstrScanRounds, first pc comma uiRemainLen inside]
    cases found : (pc.take uiRemainLen).findIdx? fun byte => byte == comma with
    | none =>
      have without := List.findIdx?_eq_none_iff.mp found
      rw [List.splitOn_eq_singleton_of_beq_eq_false without]
      simpa using inside
    | some place =>
      obtain ⟨less, clean, split⟩ := take_split inside found
      have shorter : uiRemainLen - place - 1 ≤ (pc.drop (place + 1)).length := by
        rw [List.length_drop]
        omega
      obtain ⟨bounded, rest⟩ := ih shorter (by omega)
      rw [split, List.splitOn_append_cons_self_of_not_mem clean, List.map_cons, rest]
      refine ⟨?_, rfl⟩
      intro element member
      rcases List.mem_cons.mp member with rfl | later
      · exact le_trans (le_of_lt less) inside
      · exact bounded element later

theorem uintLen_eq (short : text.length < 2 ^ 32) : uintLen text = text.length :=
  Nat.mod_eq_of_lt short

theorem lstrScanElements_elements (first : FindsFirst S) (short : text.length < 2 ^ 32) :
    (∀ element ∈ lstrScanElements S text comma, element.2 ≤ element.1.length) ∧
    (lstrScanElements S text comma).map (fun element => element.1.take element.2) =
      elements text := by
  rw [lstrScanElements, uintLen_eq short]
  have scanned := lstrScanRounds_elements first (le_refl text.length) (Nat.lt_succ_self _)
  rwa [List.take_length] at scanned

theorem exists_mem_lstrScanElements (first : FindsFirst S) (short : text.length < 2 ^ 32) :
    ∃ element, element ∈ lstrScanElements S text comma := by
  have scanned := (lstrScanElements_elements first short).2
  apply List.exists_mem_of_ne_nil
  intro empty
  rw [empty] at scanned
  exact List.splitOn_ne_nil _ _ scanned.symm

section Names

variable (pstStateMap : List FsmStateMap) (pstEventMap : List FsmEventMap)

/-- The number of a state name; the empty name counts as `@`. -/
def stateKey (name : List UCHAR) : UINT :=
  if name = [] ∨ name = fsmStateNoChangeString then fsmStateNoChange
  else if name = fsmStateAnyString then fsmStateAny
  else
    match pstStateMap.find? fun entry => entry.pcStateName = name with
    | some entry => entry.uiState
    | none => fsmInvalidState

def eventKey (name : List UCHAR) : UINT :=
  match pstEventMap.find? fun entry => entry.pcEventName = name with
  | some entry => entry.uiEvent
  | none => fsmInvalidEvent

end Names

theorem name_matches {name : List UCHAR} (inside : length ≤ text.length) :
    (name.length == length && strncmpEq name text length) = decide (name = text.take length) := by
  rw [Bool.eq_iff_iff]
  simp only [strncmpEq, Bool.and_eq_true, beq_iff_eq, decide_eq_true_eq]
  constructor
  · rintro ⟨rfl, same⟩
    rwa [List.take_length] at same
  rintro rfl
  have taken : (text.take length).length = length := by
    rw [List.length_take]
    omega
  refine ⟨taken, ?_⟩
  rw [List.take_of_length_le (le_of_eq taken)]

theorem reserved_matches {c : UCHAR} (inside : length ≤ text.length) :
    strncmpEq [c] text length = decide (text.take length = [] ∨ text.take length = [c]) := by
  rw [Bool.eq_iff_iff]
  simp only [strncmpEq, beq_iff_eq, decide_eq_true_eq]
  cases length with
  | zero => simp
  | succ length =>
    have nonempty : text.take (length + 1) ≠ [] := by
      intro empty
      have lengths := congrArg List.length empty
      rw [List.length_take] at lengths
      simp only [List.length_nil] at lengths
      omega
    simp only [List.take_succ_cons, List.take_nil, nonempty, false_or]
    exact eq_comm

theorem fsmGetStateByName_eq (pstStateMap : List FsmStateMap) (inside : length ≤ text.length) :
    fsmGetStateByName pstStateMap text length = stateKey pstStateMap (text.take length) := by
  have noChange : strncmpEq fsmStateNoChangeString text length =
      decide (text.take length = [] ∨ text.take length = fsmStateNoChangeString) :=
    reserved_matches inside
  have anyState : strncmpEq fsmStateAnyString text length =
      decide (text.take length = [] ∨ text.take length = fsmStateAnyString) :=
    reserved_matches inside
  simp only [fsmGetStateByName, stateKey, noChange, anyState, name_matches inside,
    decide_eq_true_eq]
  split
  · rfl
  next changed =>
  have nonempty : text.take length ≠ [] := fun empty => changed (Or.inl empty)
  simp [nonempty]

theorem fsmGetEventByName_eq (pstEventMap : List FsmEventMap) (inside : length ≤ text.length) :
    fsmGetEventByName pstEventMap text length = eventKey pstEventMap (text.take length) := by
  simp [fsmGetEventByName, eventKey, name_matches inside]

end MyCode.Fsm
