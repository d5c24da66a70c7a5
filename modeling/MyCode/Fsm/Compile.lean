import MyCode.Fsm

/-!
# Compiled switch tables

Every line that is parsed files the entries of its rule, so that looking a state and an event
up finds the first line that lists both: what the texts of the switch map say, a compiled table
does.
-/

namespace MyCode.Fsm

open Lib Function List

variable {S : List UCHAR → UCHAR → Nat → Option Nat} {User : Type}

abbrev Entry (User : Type) : Type :=
  UINT × UINT × UINT × Option (PfFsmEventFunc User)

def Entry.node (entry : Entry User) : FsmSwitchEvent User :=
  ⟨entry.2.1, entry.2.2.1, entry.2.2.2⟩

def FsmSwitchMap.rule (pstStateMap : List FsmStateMap) (pstEventMap : List FsmEventMap)
    (line : FsmSwitchMap User) : KeyedRule UINT UINT (UINT × Option (PfFsmEventFunc User)) :=
  { keys := (elements line.pcState).map (stateKey pstStateMap)
    triggers := (elements line.pcEvent).map (eventKey pstEventMap)
    act := (stateKey pstStateMap line.pcNextState, line.pfEventFunc) }

def FsmSwitchList.file (entries : List (Entry User)) (list : FsmSwitchList User) :
    FsmSwitchList User :=
  { list with
    stEventList := list.stEventList ++
      (entries.filter fun entry => entry.1 = list.uiState).map Entry.node }

def FsmSwitchTbl.file (tbl : FsmSwitchTbl User) (entries : List (Entry User)) :
    FsmSwitchTbl User :=
  { tbl with pstSwitchList := tbl.pstSwitchList.map (FsmSwitchList.file entries) }

@[simp]
theorem FsmSwitchList.file_uiState (entries : List (Entry User)) (list : FsmSwitchList User) :
    (list.file entries).uiState = list.uiState := rfl

theorem FsmSwitchList.file_nil (list : FsmSwitchList User) : list.file [] = list := by
  simp [FsmSwitchList.file]

theorem FsmSwitchList.file_append (list : FsmSwitchList User) (first second : List (Entry User)) :
    (list.file first).file second = list.file (first ++ second) := by
  simp only [FsmSwitchList.file, filter_append, map_append, append_assoc]
  rfl

@[simp]
theorem FsmSwitchTbl.file_nil (tbl : FsmSwitchTbl User) : tbl.file [] = tbl := by
  have same : (FsmSwitchList.file [] : FsmSwitchList User → FsmSwitchList User) = id :=
    funext FsmSwitchList.file_nil
  rw [FsmSwitchTbl.file, same, map_id]

theorem FsmSwitchTbl.file_append (tbl : FsmSwitchTbl User) (first second : List (Entry User)) :
    (tbl.file first).file second = tbl.file (first ++ second) := by
  simp [FsmSwitchTbl.file, map_map, comp_def, FsmSwitchList.file_append]

def FsmSwitchTbl.states (tbl : FsmSwitchTbl User) : List UINT :=
  tbl.pstSwitchList.map FsmSwitchList.uiState

@[simp]
theorem FsmSwitchTbl.file_states (tbl : FsmSwitchTbl User) (entries : List (Entry User)) :
    (tbl.file entries).states = tbl.states := by
  simp [FsmSwitchTbl.states, FsmSwitchTbl.file, comp_def]

theorem modify_eq_file {lists : List (FsmSwitchList User)} {place : Nat} {entry : Entry User}
    (distinct : (lists.map FsmSwitchList.uiState).Nodup)
    (found : fsmGetSwitchList lists entry.1 = some place) :
    lists.modify place (fun list => list.add entry.node) = lists.map (FsmSwitchList.file [entry]) := by
  induction lists generalizing place with
  | nil => simp [fsmGetSwitchList] at found
  | cons list rest ih =>
    rw [map_cons, nodup_cons] at distinct
    simp only [fsmGetSwitchList, findIdx?_cons, decide_eq_true_eq] at found
    split at found
    · next here =>
      obtain rfl := Option.some.inj found
      have others : rest.map (FsmSwitchList.file [entry]) = rest := by
        rw [map_congr_left (g := id), map_id]
        intro other member
        have elsewhere : entry.1 ≠ other.uiState := by
          intro same
          apply distinct.1
          rw [here, same]
          exact mem_map_of_mem member
        simp [FsmSwitchList.file, elsewhere]
      simp [FsmSwitchList.file, FsmSwitchList.add, here, others]
    · next elsewhere =>
      obtain ⟨_, foundBelow, rfl⟩ := Option.map_eq_some_iff.mp found
      have rested := ih distinct.2 foundBelow
      have other : ¬entry.1 = list.uiState := fun same => elsewhere same.symm
      simp [FsmSwitchList.file, other, rested]

variable {pstStateMap : List FsmStateMap} {pstEventMap : List FsmEventMap}
  {tbl next : FsmSwitchTbl User} {line : FsmSwitchMap User} {uiState uiEvent : UINT}

structure BuildOk (pstStateMap : List FsmStateMap) (pstEventMap : List FsmEventMap)
    (tbl : FsmSwitchTbl User) : Prop where
  stateMap : tbl.pstStateMap = pstStateMap
  eventMap : tbl.pstEventMap = pstEventMap
  distinct : tbl.states.Nodup

variable (built : BuildOk pstStateMap pstEventMap tbl)

include built in
theorem BuildOk.file (entries : List (Entry User)) :
    BuildOk pstStateMap pstEventMap (tbl.file entries) :=
  ⟨built.stateMap, built.eventMap, by simpa using built.distinct⟩

theorem foldlM_file {Item : Type} {step : FsmSwitchTbl User → Item → Option (FsmSwitchTbl User)}
    {entries : Item → List (Entry User)} {Good : Item → Prop} {states : List UINT}
    {items : List Item} {tbl last : FsmSwitchTbl User}
    (steps : ∀ item ∈ items, ∀ tbl next, BuildOk pstStateMap pstEventMap tbl →
      tbl.states = states → step tbl item = some next →
      next = tbl.file (entries item) ∧ Good item)
    (built : BuildOk pstStateMap pstEventMap tbl) (lists : tbl.states = states)
    (done : items.foldlM step tbl = some last) :
    last = tbl.file (items.flatMap entries) ∧ ∀ item ∈ items, Good item := by
  induction items generalizing tbl with
  | nil =>
    obtain rfl := Option.some.inj done
    simp
  | cons item _ ih =>
    obtain ⟨next, stepped, later⟩ := Option.bind_eq_some_iff.mp done
    obtain ⟨rfl, good⟩ := steps item mem_cons_self tbl next built lists stepped
    obtain ⟨rfl, goods⟩ := ih
      (fun other member => steps other (mem_cons_of_mem _ member)) (built.file _)
      (by simpa using lists) later
    refine ⟨?_, forall_mem_cons.mpr ⟨good, goods⟩⟩
    rw [FsmSwitchTbl.file_append, flatMap_cons]

/-- The texts of a line are short enough for their lengths in 32 bits. -/
structure FsmSwitchMap.Short (line : FsmSwitchMap User) : Prop where
  pcState : line.pcState.length < 2 ^ 32
  pcEvent : line.pcEvent.length < 2 ^ 32
  pcNextState : line.pcNextState.length < 2 ^ 32

include built in
theorem BuildOk.addEventNode (short : line.Short)
    (added : fsmAddEventNode tbl uiState uiEvent line = some next) :
    next = tbl.file [(uiState, uiEvent, (line.rule pstStateMap pstEventMap).act)] ∧
      uiState ∈ tbl.states := by
  have target : fsmGetStateByName tbl.pstStateMap line.pcNextState (uintLen line.pcNextState) =
      stateKey pstStateMap line.pcNextState := by
    rw [uintLen_eq short.pcNextState, built.stateMap,
      fsmGetStateByName_eq pstStateMap (le_refl line.pcNextState.length), take_length]
  simp only [fsmAddEventNode, target] at added
  split at added
  · exact absurd added.symm (Option.some_ne_none _)
  split at added
  · exact absurd added.symm (Option.some_ne_none _)
  next place found =>
  obtain rfl := Option.some.inj added
  have filed : tbl.pstSwitchList.modify place (fun list => list.add
        ⟨uiEvent, stateKey pstStateMap line.pcNextState, line.pfEventFunc⟩) =
      tbl.pstSwitchList.map (FsmSwitchList.file
        [(uiState, uiEvent, (line.rule pstStateMap pstEventMap).act)]) :=
    @modify_eq_file _ _ _ (uiState, uiEvent, (line.rule pstStateMap pstEventMap).act)
      built.distinct found
  obtain ⟨inside, there, _⟩ := findIdx?_eq_some_iff_getElem.mp found
  refine ⟨?_, ?_⟩
  · rw [FsmSwitchTbl.file, ← filed]
  · rw [← of_decide_eq_true there]
    exact mem_map_of_mem (getElem_mem inside)

structure Known (states : List UINT)
    (rule : KeyedRule UINT UINT (UINT × Option (PfFsmEventFunc User))) : Prop where
  keys : ∀ key ∈ rule.keys, key ≠ fsmInvalidState ∧ key ∈ states
  triggers : ∀ trigger ∈ rule.triggers, trigger ≠ fsmInvalidEvent

include built in
/-- Scanning a text files the entries of its names, and all of them are known. -/
theorem BuildOk.scan {text : List UCHAR} {find : FsmSwitchTbl User → List UCHAR → Nat → UINT}
    {invalid : UINT} {add : FsmSwitchTbl User → UINT → Option (FsmSwitchTbl User)}
    (keyOf : List UCHAR → UINT) (entries : UINT → List (Entry User)) (Good : UINT → Prop)
    (first : FindsFirst S) (short : text.length < 2 ^ 32)
    (finds : ∀ before name length, BuildOk pstStateMap pstEventMap before →
      length ≤ name.length → find before name length = keyOf (name.take length))
    (adds : ∀ before after key, BuildOk pstStateMap pstEventMap before →
      before.states = tbl.states → add before key = some after →
      after = before.file (entries key) ∧ Good key)
    (parsed : (lstrScanElements S text comma).foldlM (fun before element =>
      if find before element.1 element.2 = invalid then none
      else add before (find before element.1 element.2)) tbl = some next) :
    next = tbl.file (((elements text).map keyOf).flatMap entries) ∧
      (∀ key ∈ (elements text).map keyOf, key ≠ invalid ∧ Good key) ∧ ∃ key, Good key := by
  obtain ⟨inside, scanned⟩ := lstrScanElements_elements first short
  obtain ⟨filed, goods⟩ := @foldlM_file _ _ _ _ _
    (fun element => entries (keyOf (element.1.take element.2)))
    (fun element => keyOf (element.1.take element.2) ≠ invalid ∧
      Good (keyOf (element.1.take element.2))) _ _ _ _
    (fun element member before after building lists stepped => by
      rw [finds _ _ _ building (inside element member)] at stepped
      split at stepped
      · exact absurd stepped.symm (Option.some_ne_none _)
      next valid =>
      obtain ⟨filed, good⟩ := adds _ _ _ building lists stepped
      exact ⟨filed, valid, good⟩) built rfl parsed
  obtain ⟨element, member⟩ := exists_mem_lstrScanElements first short
  rw [← scanned, map_map, flatMap_map, forall_mem_map]
  exact ⟨filed, goods, _, (goods element member).2⟩

include built in
theorem BuildOk.parseSwitchEvent (first : FindsFirst S) (short : line.Short)
    (parsed : fsmParseSwitchEvent S uiState line tbl = some next) :
    next = tbl.file ((line.rule pstStateMap pstEventMap).triggers.map fun trigger =>
        (uiState, trigger, (line.rule pstStateMap pstEventMap).act)) ∧
      uiState ∈ tbl.states ∧
      ∀ trigger ∈ (line.rule pstStateMap pstEventMap).triggers, trigger ≠ fsmInvalidEvent := by
  obtain ⟨filed, known, _, there⟩ := built.scan (eventKey pstEventMap)
    (fun trigger => [(uiState, trigger, (line.rule pstStateMap pstEventMap).act)])
    (fun _ => uiState ∈ tbl.states) first short.pcEvent
    (fun before name length building inside => by
      rw [building.eventMap, fsmGetEventByName_eq pstEventMap inside])
    (fun _ _ _ building lists added => lists ▸ building.addEventNode short added) parsed
  exact ⟨filed.trans (congrArg tbl.file map_eq_flatMap.symm), there,
    fun trigger member => (known trigger member).1⟩

include built in
theorem BuildOk.parseSwitchMapLine (first : FindsFirst S) (short : line.Short)
    (parsed : fsmParseSwitchMapLine S tbl line = some next) :
    next = tbl.file (line.rule pstStateMap pstEventMap).entries ∧
      Known tbl.states (line.rule pstStateMap pstEventMap) := by
  obtain ⟨filed, known, _, there⟩ := built.scan (stateKey pstStateMap)
    (fun key => (line.rule pstStateMap pstEventMap).triggers.map fun trigger =>
      (key, trigger, (line.rule pstStateMap pstEventMap).act))
    (fun key => key ∈ tbl.states ∧
      ∀ trigger ∈ (line.rule pstStateMap pstEventMap).triggers, trigger ≠ fsmInvalidEvent)
    first short.pcState
    (fun before name length building inside => by
      rw [building.stateMap, fsmGetStateByName_eq pstStateMap inside])
    (fun _ _ _ building lists added => lists ▸ building.parseSwitchEvent first short added) parsed
  exact ⟨filed, fun key member => ⟨(known key member).1, (known key member).2.1⟩, there.2⟩

structure StateNames (pstStateMap : List FsmStateMap) : Prop where
  names : DistinctKeys FsmStateMap.pcStateName pstStateMap
  ids : DistinctKeys FsmStateMap.uiState pstStateMap
  named : ∀ entry ∈ pstStateMap, entry.pcStateName ≠ [] ∧
    entry.pcStateName ≠ fsmStateNoChangeString ∧ entry.pcStateName ≠ fsmStateAnyString
  free : ∀ entry ∈ pstStateMap, entry.uiState ≠ fsmStateAny ∧ entry.uiState ≠ fsmStateNoChange

/-- The states of the lists, the two reserved ones last. -/
def initialStates (pstStateMap : List FsmStateMap) : List UINT :=
  pstStateMap.map FsmStateMap.uiState ++ [fsmStateAny, fsmStateNoChange]

theorem fsmCreateStateList_states (pstStateMap : List FsmStateMap) :
    (fsmCreateStateList pstStateMap : List (FsmSwitchList User)).map FsmSwitchList.uiState =
      initialStates pstStateMap := by
  simp [fsmCreateStateList, initialStates, comp_def]

theorem StateNames.nodup (known : StateNames pstStateMap) : (initialStates pstStateMap).Nodup := by
  rw [initialStates, nodup_append]
  refine ⟨distinctKeys_iff_nodup.mp known.ids, by decide, ?_⟩
  intro id member other reserved
  obtain ⟨entry, inside, rfl⟩ := mem_map.mp member
  have free := known.free entry inside
  rcases mem_pair.mp reserved with rfl | rfl
  · exact free.1
  · exact free.2

variable {lines : List (FsmSwitchMap User)}

def lineEntries (pstStateMap : List FsmStateMap) (pstEventMap : List FsmEventMap)
    (lines : List (FsmSwitchMap User)) : List (Entry User) :=
  lines.flatMap fun line => (line.rule pstStateMap pstEventMap).entries

structure Compiled (pstStateMap : List FsmStateMap) (pstEventMap : List FsmEventMap)
    (lines : List (FsmSwitchMap User)) (tbl : FsmSwitchTbl User) : Prop where
  lists : tbl.pstSwitchList = (fsmCreateStateList pstStateMap).map
    (FsmSwitchList.file (lineEntries pstStateMap pstEventMap lines))
  known : ∀ line ∈ lines, Known (initialStates pstStateMap) (line.rule pstStateMap pstEventMap)

theorem fsmCreateSwitchTbl_compiled (first : FindsFirst S) (names : StateNames pstStateMap)
    (short : ∀ line ∈ lines, line.Short)
    (created : fsmCreateSwitchTbl S pstStateMap pstEventMap lines = some tbl) :
    Compiled pstStateMap pstEventMap lines tbl := by
  have built : BuildOk pstStateMap pstEventMap (⟨pstStateMap, pstEventMap, lines,
      fsmCreateStateList pstStateMap⟩ : FsmSwitchTbl User) :=
    ⟨rfl, rfl, by simpa [FsmSwitchTbl.states, fsmCreateStateList_states] using names.nodup⟩
  have steps : ∀ line ∈ lines, ∀ before after, BuildOk pstStateMap pstEventMap before →
      before.states = initialStates pstStateMap →
      fsmParseSwitchMapLine S before line = some after →
      after = before.file (line.rule pstStateMap pstEventMap).entries ∧
        Known (initialStates pstStateMap) (line.rule pstStateMap pstEventMap) := by
    intro line member before after building lists stepped
    obtain ⟨filed, known⟩ := building.parseSwitchMapLine first (short line member) stepped
    exact ⟨filed, lists ▸ known⟩
  obtain ⟨rfl, known⟩ := foldlM_file steps built (fsmCreateStateList_states pstStateMap) created
  exact ⟨rfl, known⟩

theorem Compiled.mem_states (compiled : Compiled pstStateMap pstEventMap lines tbl)
    {entry : Entry User} (member : entry ∈ lineEntries pstStateMap pstEventMap lines) :
    entry.1 ∈ initialStates pstStateMap := by
  obtain ⟨line, inside, filed⟩ := mem_flatMap.mp member
  have keyed := (KeyedRule.mem_entries.mp filed).1
  exact ((compiled.known line inside).keys entry.1 keyed).2

theorem fsmCreateStateList_empty {list : FsmSwitchList User}
    (member : list ∈ fsmCreateStateList pstStateMap) : list.stEventList = [] := by
  simp only [fsmCreateStateList, mem_append, mem_map, mem_cons, not_mem_nil, or_false] at member
  rcases member with ⟨-, _, rfl⟩ | rfl | rfl <;> rfl

/-- The first entry of a list for an event is the first entry of all for the state and the
event. -/
theorem Compiled.find_node (compiled : Compiled pstStateMap pstEventMap lines tbl)
    (uiState uiEvent : UINT) :
    fsmFindNomalEventAction tbl uiState uiEvent =
      ((lineEntries pstStateMap pstEventMap lines).find? fun entry =>
        entry.1 = uiState ∧ entry.2.1 = uiEvent).map Entry.node := by
  rw [fsmFindNomalEventAction]
  cases found : fsmGetSwitchList tbl.pstSwitchList uiState with
  | none =>
    have absent := findIdx?_eq_none_iff.mp found
    have unfiled : (lineEntries pstStateMap pstEventMap lines).find? (fun entry =>
        entry.1 = uiState ∧ entry.2.1 = uiEvent) = none := by
      rw [find?_eq_none]
      intro entry member matched
      have keyed := compiled.mem_states member
      rw [← fsmCreateStateList_states] at keyed
      obtain ⟨list, inside, same⟩ := mem_map.mp keyed
      have listed : list.file (lineEntries pstStateMap pstEventMap lines) ∈ tbl.pstSwitchList := by
        rw [compiled.lists]
        exact mem_map_of_mem inside
      have other := absent _ listed
      rw [FsmSwitchList.file_uiState, same, (of_decide_eq_true matched).1] at other
      exact of_decide_eq_false other rfl
    rw [unfiled]
    rfl
  | some place =>
    obtain ⟨inside, there, _⟩ := findIdx?_eq_some_iff_getElem.mp found
    obtain ⟨list, created, same⟩ : ∃ list ∈ fsmCreateStateList pstStateMap,
        list.file (lineEntries pstStateMap pstEventMap lines) = tbl.pstSwitchList[place] := by
      apply mem_map.mp
      simp only [← compiled.lists]
      exact getElem_mem inside
    have state : list.uiState = uiState := by
      rw [← FsmSwitchList.file_uiState, same]
      exact of_decide_eq_true there
    simp only [getElem?_eq_getElem inside, Option.bind_some]
    rw [← same, FsmSwitchList.file, fsmCreateStateList_empty created]
    simp only [nil_append, find?_map, find?_filter, state]
    congr 2
    funext entry
    apply decide_eq_decide.mpr
    exact and_congr decide_eq_true_iff decide_eq_true_iff

variable {User : Type} {name : List UCHAR}
  {entry : FsmStateMap}

section Lines

variable (pstStateMap : List FsmStateMap) (pstEventMap : List FsmEventMap)

def FsmSwitchMap.ListsState (line : FsmSwitchMap User) (uiState : UINT) : Prop :=
  ∃ entry ∈ pstStateMap, entry.uiState = uiState ∧ entry.pcStateName ∈ elements line.pcState

def FsmSwitchMap.ListsAny (line : FsmSwitchMap User) : Prop :=
  fsmStateAnyString ∈ elements line.pcState

def FsmSwitchMap.ListsEvent (line : FsmSwitchMap User) (uiEvent : UINT) : Prop :=
  ∃ entry ∈ pstEventMap, entry.uiEvent = uiEvent ∧ entry.pcEventName ∈ elements line.pcEvent

instance (line : FsmSwitchMap User) (uiState : UINT) :
    Decidable (line.ListsState pstStateMap uiState) :=
  inferInstanceAs (Decidable (∃ _ ∈ _, _))

instance (line : FsmSwitchMap User) : Decidable line.ListsAny :=
  inferInstanceAs (Decidable (_ ∈ _))

instance (line : FsmSwitchMap User) (uiEvent : UINT) :
    Decidable (line.ListsEvent pstEventMap uiEvent) :=
  inferInstanceAs (Decidable (∃ _ ∈ _, _))

/-- The first line that lists the state and the event, or else the first that lists `*` and the
event. -/
def performedLine (lines : List (FsmSwitchMap User)) (uiState uiEvent : UINT) :
    Option (FsmSwitchMap User) :=
  (lines.find? fun line =>
    line.ListsState pstStateMap uiState ∧ line.ListsEvent pstEventMap uiEvent).or
  (lines.find? fun line => line.ListsAny ∧ line.ListsEvent pstEventMap uiEvent)

/-- The state that a line leads to; `@` and the empty text stay. -/
def FsmSwitchMap.nextState (line : FsmSwitchMap User) (uiState : UINT) : UINT :=
  if line.pcNextState = [] ∨ line.pcNextState = fsmStateNoChangeString then uiState
  else stateKey pstStateMap line.pcNextState

end Lines

variable {pstStateMap : List FsmStateMap} {pstEventMap : List FsmEventMap}
  {tbl : FsmSwitchTbl User} {lines : List (FsmSwitchMap User)} {line : FsmSwitchMap User}
  {uiState uiEvent : UINT}

theorem find_name (names : DistinctKeys FsmStateMap.pcStateName pstStateMap) :
    pstStateMap.find? (fun entry => entry.pcStateName = name) = some entry ↔
      entry ∈ pstStateMap ∧ entry.pcStateName = name :=
  find?_eq_some_iff_key (fun _ _ => decide_eq_true_iff) names

section

variable (known : StateNames pstStateMap)

include known

theorem StateNames.stateKey (member : entry ∈ pstStateMap) :
    Fsm.stateKey pstStateMap entry.pcStateName = entry.uiState := by
  obtain ⟨nonempty, notNoChange, notAny⟩ := known.named entry member
  have found := (find_name known.names).mpr ⟨member, rfl⟩
  rw [Fsm.stateKey, if_neg (not_or.mpr ⟨nonempty, notNoChange⟩), if_neg notAny, found]

theorem StateNames.stateKey_eq
    (unreserved : uiState ≠ fsmStateAny ∧ uiState ≠ fsmStateNoChange ∧ uiState ≠ fsmInvalidState)
    (keyed : Fsm.stateKey pstStateMap name = uiState) :
    ∃ entry ∈ pstStateMap, entry.uiState = uiState ∧ entry.pcStateName = name := by
  rw [Fsm.stateKey] at keyed
  split at keyed
  · exact absurd keyed.symm unreserved.2.1
  split at keyed
  · exact absurd keyed.symm unreserved.1
  split at keyed
  · next entry found =>
    obtain ⟨member, named⟩ := (find_name known.names).mp found
    exact ⟨entry, member, keyed, named⟩
  · exact absurd keyed.symm unreserved.2.2

theorem StateNames.mem_keys
    (rule : Known (initialStates pstStateMap) (line.rule pstStateMap pstEventMap))
    (unreserved : uiState ≠ fsmStateAny ∧ uiState ≠ fsmStateNoChange) :
    uiState ∈ (line.rule pstStateMap pstEventMap).keys ↔ line.ListsState pstStateMap uiState := by
  constructor
  · intro keyed
    have valid := (rule.keys uiState keyed).1
    obtain ⟨_, listed, same⟩ := mem_map.mp keyed
    obtain ⟨entry, member, state, rfl⟩ := known.stateKey_eq ⟨unreserved.1, unreserved.2, valid⟩ same
    exact ⟨entry, member, state, listed⟩
  · rintro ⟨_, member, rfl, listed⟩
    exact mem_map.mpr ⟨_, listed, known.stateKey member⟩

theorem StateNames.any_mem_keys :
    fsmStateAny ∈ (line.rule pstStateMap pstEventMap).keys ↔ line.ListsAny := by
  constructor
  · intro keyed
    obtain ⟨_, listed, same⟩ := mem_map.mp keyed
    rw [Fsm.stateKey] at same
    split at same
    · exact absurd same (by decide)
    split at same
    · next any =>
      rw [FsmSwitchMap.ListsAny, ← any]
      exact listed
    split at same
    · next entry found =>
      have member := mem_of_find?_eq_some found
      exact absurd same (known.free entry member).1
    · exact absurd same (by decide)
  · intro listed
    exact mem_map.mpr ⟨_, listed, rfl⟩

end

theorem mem_triggers (names : DistinctKeys FsmEventMap.pcEventName pstEventMap)
    (rule : Known (initialStates pstStateMap) (line.rule pstStateMap pstEventMap)) :
    uiEvent ∈ (line.rule pstStateMap pstEventMap).triggers ↔
      line.ListsEvent pstEventMap uiEvent := by
  have find_event {name : List UCHAR} {entry : FsmEventMap} :
      pstEventMap.find? (fun entry => entry.pcEventName = name) = some entry ↔
        entry ∈ pstEventMap ∧ entry.pcEventName = name :=
    find?_eq_some_iff_key (fun _ _ => decide_eq_true_iff) names
  constructor
  · intro triggered
    have valid := rule.triggers uiEvent triggered
    obtain ⟨_, listed, same⟩ := mem_map.mp triggered
    rw [eventKey] at same
    split at same
    · next entry found =>
      obtain ⟨member, rfl⟩ := find_event.mp found
      exact ⟨entry, member, same, listed⟩
    · exact absurd same.symm valid
  · rintro ⟨_, member, rfl, listed⟩
    refine mem_map.mpr ⟨_, listed, ?_⟩
    rw [eventKey, find_event.mpr ⟨member, rfl⟩]

def FsmSwitchMap.node (pstStateMap : List FsmStateMap) (uiEvent : UINT)
    (line : FsmSwitchMap User) : FsmSwitchEvent User :=
  ⟨uiEvent, stateKey pstStateMap line.pcNextState, line.pfEventFunc⟩

theorem Compiled.find_line (compiled : Compiled pstStateMap pstEventMap lines tbl) {key : UINT}
    {test : FsmSwitchMap User → Bool}
    (tests : ∀ line ∈ lines, (line.rule pstStateMap pstEventMap).names key uiEvent = test line) :
    fsmFindNomalEventAction tbl key uiEvent =
      (lines.find? test).map (FsmSwitchMap.node pstStateMap uiEvent) := by
  have entries : lineEntries pstStateMap pstEventMap lines =
      (lines.map (FsmSwitchMap.rule pstStateMap pstEventMap)).flatMap KeyedRule.entries := by
    rw [flatMap_map]
    rfl
  have found : lines.find? ((fun rule => rule.names key uiEvent) ∘
      FsmSwitchMap.rule pstStateMap pstEventMap) = lines.find? test :=
    find?_congr tests
  rw [compiled.find_node, entries, find?_entries, find?_map, found, Option.map_map, Option.map_map]
  rfl

theorem Compiled.findEventAction (compiled : Compiled pstStateMap pstEventMap lines tbl)
    (states : StateNames pstStateMap) (events : DistinctKeys FsmEventMap.pcEventName pstEventMap)
    (current : uiState ≠ fsmStateNoChange) :
    fsmFindEventAction tbl uiState uiEvent =
      (performedLine pstStateMap pstEventMap lines uiState uiEvent).map
        (FsmSwitchMap.node pstStateMap uiEvent) := by
  have anyLine : fsmFindNomalEventAction tbl fsmStateAny uiEvent =
      (lines.find? fun line => line.ListsAny ∧ line.ListsEvent pstEventMap uiEvent).map
        (FsmSwitchMap.node pstStateMap uiEvent) := by
    apply compiled.find_line
    intro line member
    apply decide_eq_decide.mpr
    exact and_congr states.any_mem_keys (mem_triggers events (compiled.known line member))
  have anyAction : fsmFindAnyStateEventAction tbl uiEvent =
      fsmFindNomalEventAction tbl fsmStateAny uiEvent := rfl
  rw [fsmFindEventAction, anyAction, anyLine, performedLine]
  by_cases any : uiState = fsmStateAny
  · have unlisted : (lines.find? fun line => decide (line.ListsState pstStateMap uiState ∧
        line.ListsEvent pstEventMap uiEvent)) = none := by
      rw [find?_eq_none]
      intro line _ lists
      obtain ⟨⟨entry, member, state, _⟩, _⟩ := of_decide_eq_true lists
      exact (states.free entry member).1 (state.trans any)
    rw [unlisted, any, anyLine, Option.none_or]
    cases lines.find? fun line => decide (line.ListsAny ∧ line.ListsEvent pstEventMap uiEvent) <;>
      rfl
  have stateLine : fsmFindNomalEventAction tbl uiState uiEvent =
      (lines.find? fun line => line.ListsState pstStateMap uiState ∧
        line.ListsEvent pstEventMap uiEvent).map (FsmSwitchMap.node pstStateMap uiEvent) := by
    apply compiled.find_line
    intro line member
    have known := compiled.known line member
    apply decide_eq_decide.mpr
    exact and_congr (states.mem_keys known ⟨any, current⟩) (mem_triggers events known)
  rw [stateLine]
  cases lines.find? fun line => decide (line.ListsState pstStateMap uiState ∧
    line.ListsEvent pstEventMap uiEvent) <;> rfl

end MyCode.Fsm
