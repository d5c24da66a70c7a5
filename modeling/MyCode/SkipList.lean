import Mathlib.Logic.Function.Basic
import MyCode.Types

/-!
# Skip list

`skip_list/skip_list.c`.  Nodes are addressed by numbers.  `none` is an access through NULL,
to freed memory, outside the links of a node or outside the filled part of `update`.
-/

namespace MyCode.SkipList

variable {Value : Type}

def SKL_MAX_LEVEL : Nat := 32

/-- NULL as a value or a link is `none`. -/
structure SklNode (Value : Type) where
  key : UINT
  level : Nat
  value : Option Value
  forward : List (Option Nat)

/-- `fresh` is the next address that the allocator hands out. -/
structure SklCtrl (Value : Type) where
  max_level : Nat
  count : UINT
  header : Nat
  nodes : Nat → Option (SklNode Value)
  fresh : Nat

/-- The ones at the low end of the random number. -/
def sklRandLevel (rand : UINT) : Nat :=
  ((List.range 32).takeWhile fun i => rand.getLsbD i).length

def sklNewNode (level : Nat) : SklNode Value :=
  { key := 0
    level := 0
    value := none
    forward := List.replicate (level + 1) none }

def sklCreate (max_level : Nat) : Option (SklCtrl Value) :=
  if max_level ≤ SKL_MAX_LEVEL ∧ max_level ≥ 1 then
    some
      { max_level := max_level
        count := 0
        header := 0
        nodes := Function.update (fun _ => none) 0 (some (sklNewNode (max_level - 1)))
        fresh := 1 }
  else
    none

def sklForward (ctrl : SklCtrl Value) (x i : Nat) : Option (Option Nat) := do
  let node ← ctrl.nodes x
  node.forward[i]?

def sklSetForward (ctrl : SklCtrl Value) (x i : Nat) (link : Option Nat) :
    Option (SklCtrl Value) := do
  let node ← ctrl.nodes x
  if i < node.forward.length then
    some
      { ctrl with
        nodes := Function.update ctrl.nodes x
          (some { node with forward := node.forward.set i link }) }
  else
    none

/-- `MEM_Free`. -/
def sklFree (ctrl : SklCtrl Value) (x : Nat) : Option (SklCtrl Value) := do
  let _ ← ctrl.nodes x
  some { ctrl with nodes := Function.update ctrl.nodes x none }

/-- The inner loop of search and insertion; a node is met at most once on a level. -/
def sklWalk (ctrl : SklCtrl Value) (key : UINT) (i : Nat) : Nat → Nat → Option Nat
  | 0, _ => none
  | rounds + 1, x => do
      let next ← sklForward ctrl x i
      match next with
      | none => some x
      | some n =>
        let node ← ctrl.nodes n
        if node.key < key then sklWalk ctrl key i rounds n else some x

/-- The inner loop of deletion, which does not look for NULL. -/
def sklWalkUnchecked (ctrl : SklCtrl Value) (key : UINT) (i : Nat) : Nat → Nat → Option Nat
  | 0, _ => none
  | rounds + 1, x => do
      let next ← sklForward ctrl x i
      let n ← next
      let node ← ctrl.nodes n
      if node.key < key then sklWalkUnchecked ctrl key i rounds n else some x

/-- The outer loop, from the highest level down: the last node and `update`. -/
def sklDescend (walk : Nat → Nat → Option Nat) : Nat → Nat → List Nat → Option (Nat × List Nat)
  | 0, x, update => some (x, update)
  | i + 1, x, update => do
      let x ← walk i x
      sklDescend walk i x (x :: update)

/-- The loop over the nodes; `x` is the node that is freed next. -/
def sklResetLoop (rounds : Nat) (ctrl : SklCtrl Value) (x : Nat) : Option (SklCtrl Value) :=
  match rounds with
  | 0 => none
  | rounds + 1 => do
      let next ← sklForward ctrl x 0
      match next with
      | none => some ctrl
      | some n =>
        let ctrl ← sklFree ctrl x
        sklResetLoop rounds ctrl n

/-- The header is zeroed, also when the loop has freed it. -/
def sklReset (ctrl : SklCtrl Value) : Option (SklCtrl Value) := do
  let ctrl ← sklResetLoop (ctrl.fresh + 1) ctrl ctrl.header
  let _ ← ctrl.nodes ctrl.header
  some
    { ctrl with
      nodes := Function.update ctrl.nodes ctrl.header (some (sklNewNode (ctrl.max_level - 1)))
      count := 0 }

def sklSearch (ctrl : SklCtrl Value) (key : UINT) : Option (Option Value) := do
  let (x, _) ←
    sklDescend (fun i => sklWalk ctrl key i (ctrl.fresh + 1)) ctrl.max_level ctrl.header []
  let next ← sklForward ctrl x 0
  match next with
  | none => some none
  | some n =>
    let node ← ctrl.nodes n
    if node.key = key then some node.value else some none

/-- The loop that links the new node, from its level down. -/
def sklLink (update : List Nat) (new_node : Nat) : Nat → SklCtrl Value → Option (SklCtrl Value)
  | 0, ctrl => some ctrl
  | i + 1, ctrl => do
      let x ← update[i]?
      let link ← sklForward ctrl x i
      let ctrl ← sklSetForward ctrl new_node i link
      let ctrl ← sklSetForward ctrl x i (some new_node)
      sklLink update new_node i ctrl

/-- The key behind the last smaller one is read without a look for NULL. -/
def sklInsert (ctrl : SklCtrl Value) (key : UINT) (value : Value) (rand : UINT) :
    Option (SklCtrl Value × BsStatus) := do
  let (x, update) ←
    sklDescend (fun i => sklWalk ctrl key i (ctrl.fresh + 1)) ctrl.max_level ctrl.header []
  let next ← sklForward ctrl x 0
  let n ← next
  let node ← ctrl.nodes n
  if node.key = key then
    some ({ ctrl with
      nodes := Function.update ctrl.nodes n (some { node with value := some value }) },
      .alreadyExist)
  else do
    let level := sklRandLevel rand
    let new_node : SklNode Value :=
      { (sklNewNode level : SklNode Value) with key := key, value := some value, level := level }
    let ctrl ← sklLink update ctrl.fresh (level + 1)
      { ctrl with
        nodes := Function.update ctrl.nodes ctrl.fresh (some new_node)
        fresh := ctrl.fresh + 1 }
    some ({ ctrl with count := ctrl.count + 1 }, .ok)

/-- The loop that takes the node out of the levels it is on; `left` levels come from `i` on. -/
def sklUnlink (update : List Nat) (x : Nat) : Nat → Nat → SklCtrl Value → Option (SklCtrl Value)
  | 0, _, ctrl => some ctrl
  | left + 1, i, ctrl => do
      let before ← update[i]?
      let link ← sklForward ctrl before i
      if link ≠ some x then
        some ctrl
      else do
        let next ← sklForward ctrl x i
        let ctrl ← sklSetForward ctrl before i next
        sklUnlink update x left (i + 1) ctrl

def sklDelete (ctrl : SklCtrl Value) (key : UINT) : Option (SklCtrl Value × Option Value) := do
  let (x, update) ←
    sklDescend (fun i => sklWalkUnchecked ctrl key i (ctrl.fresh + 1)) ctrl.max_level
      ctrl.header []
  let next ← sklForward ctrl x 0
  match next with
  | none => some (ctrl, none)
  | some n =>
    let node ← ctrl.nodes n
    if node.key ≠ key then
      some (ctrl, none)
    else do
      let ctrl ← sklUnlink update n ctrl.max_level 0 ctrl
      let ctrl ← sklFree ctrl n
      some ({ ctrl with count := ctrl.count - 1 }, node.value)

inductive SklCall (Value : Type) where
  | insert (key : UINT) (value : Value) (rand : UINT)
  | search (key : UINT)
  | delete (key : UINT)
  | reset

inductive SklAnswer (Value : Type) where
  | status (status : BsStatus)
  | value (value : Option Value)
  | done

def SklCall.run (ctrl : SklCtrl Value) : SklCall Value → Option (SklCtrl Value × SklAnswer Value)
  | insert key value rand => do
      let (ctrl, status) ← sklInsert ctrl key value rand
      some (ctrl, .status status)
  | search key => do
      let value ← sklSearch ctrl key
      some (ctrl, .value value)
  | delete key => do
      let (ctrl, value) ← sklDelete ctrl key
      some (ctrl, .value value)
  | reset => do
      let ctrl ← sklReset ctrl
      some (ctrl, .done)

end MyCode.SkipList

/-!
## Skip lists and ordered maps

A list that is created empty stays empty: nothing can be inserted into it.
-/

namespace MyCode.SkipList

variable {Value : Type}

/-- The nodes of a level in the order of their links, from a node on. -/
def Links (ctrl : SklCtrl Value) (i : Nat) : Nat → List Nat → Prop
  | x, [] => sklForward ctrl x i = some none
  | x, n :: rest => sklForward ctrl x i = some (some n) ∧ Links ctrl i n rest

/-- The lowest level holds the entries of the map in the order of their keys; every level is
a sublist of the one below. -/
structure SklAgrees (ctrl : SklCtrl Value) (map : UINT → Option Value) (levels : Nat → List Nat)
    (entries : List (UINT × Value)) : Prop where
  links : ∀ i, i < ctrl.max_level → Links ctrl i ctrl.header (levels i)
  sublist : ∀ i, i + 1 < ctrl.max_level → (levels (i + 1)).Sublist (levels i)
  nodes : (levels 0).map (fun x => (ctrl.nodes x).map fun node => (node.key, node.value)) =
    entries.map fun entry => some (entry.1, some entry.2)
  order : entries.Pairwise fun first second => first.1 < second.1
  map : ∀ key value, map key = some value ↔ (key, value) ∈ entries

def SklCall.apply (map : UINT → Option Value) : SklCall Value → UINT → Option Value
  | insert key value _ => Function.update map key (some value)
  | search _ => map
  | delete key => Function.update map key none
  | reset => fun _ => none

def SklCall.answer (map : UINT → Option Value) : SklCall Value → SklAnswer Value
  | insert key _ _ => .status (if (map key).isSome then .alreadyExist else .ok)
  | search key => .value (map key)
  | delete key => .value (map key)
  | reset => .done

/-- Every call of the run is answered as by the map and keeps the order of the levels. -/
def SklRefines : SklCtrl Value → (UINT → Option Value) → List (SklCall Value) → Prop
  | ctrl, map, [] => ∃ levels entries, SklAgrees ctrl map levels entries
  | ctrl, map, call :: rest =>
    (∃ levels entries, SklAgrees ctrl map levels entries) ∧
      ∃ after, call.run ctrl = some (after, call.answer map) ∧
        SklRefines after (call.apply map) rest

def SklCall.Harmless : SklCall Value → Prop
  | search _ => True
  | reset => True
  | _ => False

structure SklEmpty (ctrl : SklCtrl Value) : Prop where
  positive : 0 < ctrl.max_level
  header : ∃ node, ctrl.nodes ctrl.header = some node ∧
    node.forward = List.replicate ctrl.max_level none

variable {ctrl : SklCtrl Value} {map : UINT → Option Value} {key : UINT} {i : Nat}

section

variable (empty : SklEmpty ctrl)

include empty

theorem SklEmpty.forward (inside : i < ctrl.max_level) :
    sklForward ctrl ctrl.header i = some none := by
  obtain ⟨_, there, links⟩ := empty.header
  simp [sklForward, there, links, inside]

theorem SklEmpty.walk (inside : i < ctrl.max_level) (rounds : Nat) :
    sklWalk ctrl key i (rounds + 1) ctrl.header = some ctrl.header := by
  simp [sklWalk, empty.forward inside]

theorem SklEmpty.walkUnchecked (inside : i < ctrl.max_level)
    (rounds : Nat) : sklWalkUnchecked ctrl key i rounds ctrl.header = none := by
  cases rounds with
  | zero => rfl
  | succ =>
    simp [sklWalkUnchecked, empty.forward inside]

theorem SklEmpty.descend (i : Nat) (inside : i ≤ ctrl.max_level) (update : List Nat) : ∃ filled,
      sklDescend (fun i => sklWalk ctrl key i (ctrl.fresh + 1)) i ctrl.header update =
        some (ctrl.header, filled) := by
  induction i generalizing update with
  | zero => exact ⟨update, rfl⟩
  | succ i ih =>
    simp only [sklDescend, empty.walk (show i < ctrl.max_level by omega), Option.bind_eq_bind,
      Option.bind_some]
    exact ih (by omega) _

theorem SklEmpty.insert (value : Value) (rand : UINT) : sklInsert ctrl key value rand = none := by
  obtain ⟨_, descend⟩ := @SklEmpty.descend _ _ key empty ctrl.max_level (Nat.le_refl _) []
  simp [sklInsert, descend, empty.forward empty.positive]

theorem SklEmpty.delete : sklDelete ctrl key = none := by
  obtain ⟨top, whole⟩ : ∃ top, ctrl.max_level = top + 1 :=
    ⟨ctrl.max_level - 1, by have positive := empty.positive; omega⟩
  have stuck := @SklEmpty.walkUnchecked _ _ key top empty (by omega) (ctrl.fresh + 1)
  simp [sklDelete, whole, sklDescend, stuck]

theorem SklEmpty.search : sklSearch ctrl key = some none := by
  obtain ⟨_, descend⟩ := @SklEmpty.descend _ _ key empty ctrl.max_level (Nat.le_refl _) []
  simp [sklSearch, descend, empty.forward empty.positive]

theorem SklEmpty.reset : ∃ after, sklReset ctrl = some after ∧ SklEmpty after := by
  obtain ⟨_, there, _⟩ := empty.header
  have loop : sklResetLoop (ctrl.fresh + 1) ctrl ctrl.header = some ctrl := by
    simp [sklResetLoop, empty.forward empty.positive]
  let zeroed : SklNode Value := sklNewNode (ctrl.max_level - 1)
  refine ⟨{ ctrl with nodes := Function.update ctrl.nodes ctrl.header (some zeroed), count := 0 },
    ?_, ⟨empty.positive, zeroed, ?_, ?_⟩⟩
  · simp [sklReset, loop, there, zeroed]
  · simp
  have whole : ctrl.max_level - 1 + 1 = ctrl.max_level := by
    have positive := empty.positive
    omega
  change List.replicate (ctrl.max_level - 1 + 1) none = _
  rw [whole]

theorem SklEmpty.agrees (none : ∀ key, map key = none) : SklAgrees ctrl map (fun _ => []) [] := by
  refine ⟨fun i inside => empty.forward inside, fun _ _ => List.Sublist.refl _, rfl,
    List.Pairwise.nil, ?_⟩
  intro key value
  simp [none key]

theorem SklEmpty.refines (none : ∀ key, map key = none) (calls : List (SklCall Value)) :
    SklRefines ctrl map calls ↔ ∀ call ∈ calls, call.Harmless := by
  induction calls generalizing ctrl map with
  | nil => exact ⟨by simp, fun _ => ⟨_, _, empty.agrees none⟩⟩
  | cons call _ ih =>
    have agrees : ∃ levels entries, SklAgrees ctrl map levels entries := ⟨_, _, empty.agrees none⟩
    rw [List.forall_mem_cons]
    cases call with
    | insert => simp [SklRefines, SklCall.run, empty.insert, SklCall.Harmless]
    | delete => simp [SklRefines, SklCall.run, empty.delete, SklCall.Harmless]
    | search key =>
      have run : (SklCall.search key).run ctrl = some (ctrl, .value (map key)) := by
        simp [SklCall.run, empty.search, none key]
      simp only [SklRefines, agrees, run, SklCall.answer, SklCall.apply, SklCall.Harmless,
        Option.some.injEq, Prod.mk.injEq, and_true, true_and, exists_eq_left']
      exact ih empty none
    | reset =>
      obtain ⟨after, reset, emptyAfter⟩ := empty.reset
      have run : SklCall.reset.run ctrl = some (after, SklAnswer.done) := by
        simp [SklCall.run, reset]
      simp only [SklRefines, agrees, run, SklCall.answer, SklCall.apply, SklCall.Harmless,
        Option.some.injEq, Prod.mk.injEq, and_true, true_and, exists_eq_left']
      exact ih emptyAfter fun _ => rfl

end

theorem sklCreate_empty {max_level : Nat} (created : sklCreate max_level = some ctrl) :
    SklEmpty ctrl := by
  rw [sklCreate] at created
  split at created
  · next bounds =>
    simp only [Option.some.injEq] at created
    subst created
    have whole : max_level - 1 + 1 = max_level := by omega
    refine ⟨bounds.2, sklNewNode (max_level - 1), by simp, ?_⟩
    rw [sklNewNode, whole]
  · simp at created

/-- From an empty list on, whatever levels are drawn, the list refines the map exactly when
nothing is inserted and nothing is deleted. -/
theorem skipList_refines {max_level : Nat} (created : sklCreate max_level = some ctrl)
    (calls : List (SklCall Value)) :
    SklRefines ctrl (fun _ => none) calls ↔ ∀ call ∈ calls, call.Harmless :=
  (sklCreate_empty created).refines (fun _ => rfl) calls

theorem skipList_refines_search : ∃ ctrl : SklCtrl Nat, sklCreate 4 = some ctrl ∧
    SklRefines ctrl (fun _ => none) [.search 7, .reset, .search 8] :=
  ⟨_, rfl, (skipList_refines (show sklCreate 4 = some _ from rfl) _).mpr (by simp [SklCall.Harmless])⟩

/-- The first insertion reads the key behind the NULL link of the header. -/
theorem skipList_insert_faults : ∃ ctrl : SklCtrl Nat, sklCreate 4 = some ctrl ∧
    sklInsert ctrl 7 1 0 = none ∧ ¬ SklRefines ctrl (fun _ => none) [.insert 7 1 0] := by
  refine ⟨_, rfl, ?_, ?_⟩
  · rfl
  · rintro ⟨_, _, run, _⟩
    cases run

end MyCode.SkipList
