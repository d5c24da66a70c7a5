import MyCode.Types
import MyCode.Lib.Transition
import Mathlib.Data.List.Induction

/-!
# The ring of a consistent hash

The nodes are kept sorted by their hash, and several of them may share one.  The bounds of
the binary search are ints, whose sum overflows on rings of more than 2^30 nodes.
-/

namespace MyCode.ConsistentHash

open Lib List Option Nat

structure ConsistentHashNode where
  hash : UINT
  data : UINT
  deriving DecidableEq

structure ConsistentHashS where
  max : Int
  nodes : List ConsistentHashNode

def ConsistentHashS.count (ctrl : ConsistentHashS) : Int :=
  ctrl.nodes.length

def nodeAt (nodes : List ConsistentHashNode) (i : Int) : Option ConsistentHashNode :=
  if 0 ≤ i then nodes[i.toNat]? else none

/-- The loop of the search, which has no result where it reads outside the nodes or where
the sum of its bounds is no int. -/
def findBiggerLoop (nodes : List ConsistentHashNode) (key : UINT) (left right found : Int) :
    Option Int :=
  if left ≤ right then
    if 2 ^ 31 ≤ left + right then none
    else
      let mid := (left + right) / 2
      match nodeAt nodes mid with
      | none => none
      | some node =>
        if key = node.hash then some mid
        else if key ≤ node.hash then findBiggerLoop nodes key left (mid - 1) mid
        else findBiggerLoop nodes key (mid + 1) right found
  else some found
termination_by (right + 1 - left).toNat

def consistentHashFindBigger (ctrl : ConsistentHashS) (start stop : Int) (key : UINT) : Option Int :=
  findBiggerLoop ctrl.nodes key start stop (-1)

/-- The loop of `ConsistentHash_Match` is the same, but starts with the first node as found. -/
def consistentHashMatch (ctrl : ConsistentHashS) (key : UINT) : Option Int :=
  if ctrl.count ≤ 0 then some (-1) else findBiggerLoop ctrl.nodes key 0 (ctrl.count - 1) 0

def consistentHashAddNode (ctrl : ConsistentHashS) (key data : UINT) :
    Option (ConsistentHashS × Int) :=
  if ctrl.max ≤ ctrl.count then some (ctrl, -1)
  else
    (consistentHashFindBigger ctrl 0 (ctrl.count - 1) key).map fun found =>
      let place := if 0 ≤ found then found.toNat else ctrl.nodes.length
      ({ ctrl with nodes := ctrl.nodes.insertIdx place ⟨key, data⟩ }, 0)

def delByDataLoop (data : UINT) : Nat → List ConsistentHashNode → List ConsistentHashNode
  | 0, nodes => nodes
  | i + 1, nodes =>
    if (nodes[i]?.map ConsistentHashNode.data) ≠ some data then delByDataLoop data i nodes
    else delByDataLoop data i (nodes.eraseIdx i)

def consistentHashDelByData (ctrl : ConsistentHashS) (data : UINT) : ConsistentHashS :=
  { ctrl with nodes := delByDataLoop data ctrl.nodes.length ctrl.nodes }

inductive RingCall where
  | addNode (key data : UINT)
  | delByData (data : UINT)

/-- A ring, beside the nodes that were added and not deleted. -/
structure RingRun where
  ctrl : ConsistentHashS
  held : List ConsistentHashNode

def RingCall.run (run : RingRun) : RingCall → Option RingRun
  | addNode key data => do
    let (ctrl, ret) ← consistentHashAddNode run.ctrl key data
    some ⟨ctrl, if ret = 0 then ⟨key, data⟩ :: run.held else run.held⟩
  | delByData data =>
    some ⟨consistentHashDelByData run.ctrl data, run.held.filter fun node => node.data ≠ data⟩

def ring : System RingRun RingCall where
  start run := ∃ max, run = ⟨⟨max, []⟩, []⟩
  step run call after := call.run run = some after

variable {nodes : List ConsistentHashNode} {key : UINT} {run : RingRun}

def Sorted (nodes : List ConsistentHashNode) : Prop :=
  nodes.Pairwise fun node next => node.hash ≤ next.hash

/-- The index of a node that no smaller hash bounds the key from above, or -1. -/
inductive Bigger (nodes : List ConsistentHashNode) (key : UINT) : Int → Prop where
  | none (smaller : ∀ node ∈ nodes, node.hash < key) : Bigger nodes key (-1)
  | at (before after : List ConsistentHashNode) (node : ConsistentHashNode)
      (whole : nodes = before ++ node :: after) (notBelow : key ≤ node.hash)
      (least : ∀ other ∈ nodes, key ≤ other.hash → node.hash ≤ other.hash)
      (atMost : ∀ other ∈ before, other.hash ≤ key) : Bigger nodes key before.length

/-- The end of a search that started with a result. -/
def Ends (nodes : List ConsistentHashNode) (key : UINT) (start result : Int) : Prop :=
  result = start ∧ (∀ node ∈ nodes, node.hash < key) ∨ Bigger nodes key result ∧ 0 ≤ result

theorem Sorted.bigger {before after : List ConsistentHashNode} {node : ConsistentHashNode}
    (sorted : Sorted nodes) (whole : nodes = before ++ node :: after) (notBelow : key ≤ node.hash)
    (found : key = node.hash ∨ ∀ other ∈ before, other.hash < key) :
    Bigger nodes key before.length ∧ 0 ≤ (before.length : Int) := by
  subst whole
  obtain ⟨-, upper, across⟩ := pairwise_append.mp sorted
  have above := (pairwise_cons.mp upper).1
  refine ⟨.at before after node rfl notBelow (fun other inside atLeast => ?_)
    fun other inside => ?_, Int.natCast_nonneg _⟩
  · rcases mem_append.mp inside with early | late
    · rcases found with same | smaller
      · exact same ▸ atLeast
      · exact absurd (smaller other early) (BitVec.not_lt.mpr atLeast)
    · rcases mem_cons.mp late with rfl | later
      · exact BitVec.le_refl _
      · exact above other later
  · rcases found with same | smaller
    · exact same ▸ across other inside node mem_cons_self
    · exact BitVec.le_of_lt (smaller other inside)

/-- The nodes before the bounds are below the key, and the one behind them was found. -/
theorem findBiggerLoop_finds (sorted : Sorted nodes) (few : nodes.length ≤ 2 ^ 30)
    {before between after : List ConsistentHashNode} {start left right found : Int}
    (whole : nodes = before ++ between ++ after) (below : ∀ node ∈ before, node.hash < key)
    (isLeft : left = before.length) (isRight : right = before.length + between.length - 1)
    (known : after = [] ∧ found = start ∨ ∃ node rest, after = node :: rest ∧ key ≤ node.hash ∧
      found = before.length + between.length) :
    ∃ result, findBiggerLoop nodes key left right found = some result ∧
      Ends nodes key start result := by
  induction size : between.length using Nat.strongRecOn
    generalizing before between after left right found with
  | _ size ih =>
  subst size isLeft isRight
  rcases Nat.eq_zero_or_pos between.length with empty | positive
  · obtain rfl := eq_nil_of_length_eq_zero empty
    rw [findBiggerLoop, if_neg (by rw [length_nil]; omega)]
    refine ⟨found, rfl, ?_⟩
    rw [append_nil] at whole
    rcases known with ⟨rfl, rfl⟩ | ⟨node, rest, rfl, notBelow, rfl⟩
    · rw [append_nil] at whole
      exact .inl ⟨rfl, whole ▸ below⟩
    · exact .inr (sorted.bigger whole notBelow (.inr below))
  -- The middle is a place between the bounds.
  obtain ⟨first, node, second, rfl, half⟩ : ∃ first node second,
      between = first ++ node :: second ∧ first.length = (between.length - 1) / 2 := by
    have inside : (between.length - 1) / 2 < between.length := by omega
    have split := take_append_drop ((between.length - 1) / 2) between
    rw [drop_eq_getElem_cons inside] at split
    exact ⟨_, _, _, split.symm, length_take_of_le (Nat.le_of_lt inside)⟩
  have length := congrArg List.length whole
  simp only [length_append, length_cons] at half length positive ⊢
  have mid : ((before.length : Int) + (before.length +
      (first.length + (second.length + 1) : Nat) - 1)) / 2 = (before ++ first).length := by
    rw [length_append]
    omega
  have here : nodeAt nodes (before ++ first).length = some node := by
    rw [nodeAt, if_pos (Int.natCast_nonneg _), Int.toNat_natCast, whole]
    simp
  rw [findBiggerLoop, if_pos (by omega), if_neg (by omega), mid]
  simp only [here]
  have wholeHere : nodes = (before ++ first) ++ node :: (second ++ after) := by simp [whole]
  split
  · next same => exact ⟨_, rfl, .inr (sorted.bigger wholeHere (same ▸ BitVec.le_refl _) (.inl same))⟩
  split
  · next notBelow =>
    exact ih first.length (by simp) (by simp [whole]) below rfl (by simp)
      (.inr ⟨node, second ++ after, rfl, notBelow, by simp⟩) rfl
  next above =>
  have smaller := BitVec.not_le.mp above
  obtain ⟨-, -, lower⟩ := pairwise_append.mp (wholeHere ▸ sorted)
  have passed : ∀ other ∈ (before ++ first) ++ [node], other.hash < key := fun other inside =>
    (mem_append.mp inside).elim
      (fun early => Nat.lt_of_le_of_lt (lower other early node mem_cons_self) smaller)
      fun here => mem_singleton.mp here ▸ smaller
  have narrowed : nodes = (before ++ first ++ [node]) ++ second ++ after := by simp [whole]
  refine ih second.length (by simp; omega) narrowed passed (by simp; omega) (by simp; omega)
    ?_ rfl
  rcases known with nothing | ⟨next, rest, isRest, notBelow, isFound⟩
  · exact .inl nothing
  · exact .inr ⟨next, rest, isRest, notBelow, isFound.trans (by simp; omega)⟩

section

variable {ctrl : ConsistentHashS} (sorted : Sorted ctrl.nodes) (few : ctrl.nodes.length ≤ 2 ^ 30)

include sorted few

theorem findBiggerLoop_ends (key : UINT) (start : Int) :
    ∃ result, findBiggerLoop ctrl.nodes key 0 (ctrl.count - 1) start = some result ∧
      Ends ctrl.nodes key start result := by
  have whole : ctrl.nodes = [] ++ ctrl.nodes ++ [] := by simp
  exact findBiggerLoop_finds sorted few whole (by simp) rfl (by simp [ConsistentHashS.count])
    (.inl ⟨rfl, rfl⟩)

theorem consistentHashFindBigger_bigger (key : UINT) :
    ∃ found, consistentHashFindBigger ctrl 0 (ctrl.count - 1) key = some found ∧
      Bigger ctrl.nodes key found := by
  obtain ⟨found, search, ⟨rfl, smaller⟩ | ⟨bigger, -⟩⟩ := findBiggerLoop_ends sorted few key (-1)
  · exact ⟨-1, search, .none smaller⟩
  · exact ⟨found, search, bigger⟩

end

theorem insertIdx_between (before after : List ConsistentHashNode) (node : ConsistentHashNode) :
    (before ++ after).insertIdx before.length node = before ++ node :: after := by
  induction before with
  | nil => rfl
  | cons first _ ih => exact congrArg (first :: ·) ih

/-- A new node comes behind those below its key. -/
theorem Bigger.place {found : Int} (bigger : Bigger nodes key found) (data : UINT)
    (sorted : Sorted nodes) :
    ∃ before after, nodes = before ++ after ∧
      nodes.insertIdx (if 0 ≤ found then found.toNat else nodes.length) ⟨key, data⟩ =
        before ++ ⟨key, data⟩ :: after ∧
      (∀ node ∈ before, node.hash ≤ key) ∧ ∀ node ∈ after, key ≤ node.hash := by
  cases bigger with
  | none smaller =>
    exact ⟨nodes, [], (append_nil nodes).symm, insertIdx_length_self,
      fun node inside => BitVec.le_of_lt (smaller node inside), by simp⟩
  | «at» before after node whole notBelow _ atMost =>
    subst whole
    refine ⟨before, node :: after, rfl, ?_, atMost, ?_⟩
    · exact insertIdx_between before (node :: after) _
    obtain ⟨-, upper, -⟩ := pairwise_append.mp sorted
    intro other inside
    rcases mem_cons.mp inside with rfl | later
    · exact notBelow
    · exact BitVec.le_trans notBelow ((pairwise_cons.mp upper).1 other later)

theorem delByDataLoop_filter (data : UINT) (before after : List ConsistentHashNode) :
    delByDataLoop data before.length (before ++ after) =
      (before.filter fun node => node.data ≠ data) ++ after := by
  induction before using List.reverseRecOn generalizing after with
  | nil => rfl
  | append_singleton before node ih =>
    have here : (before ++ [node] ++ after)[before.length]? = some node := by simp
    have erased : (before ++ [node] ++ after).eraseIdx before.length = before ++ after := by
      simp [eraseIdx_append_of_length_le]
    rw [length_append, length_singleton, delByDataLoop, here, erased, filter_append]
    by_cases kept : node.data = data
    · simp [kept, ih]
    · simp [kept, ih, append_assoc]

structure RingOk (run : RingRun) : Prop where
  sorted : Sorted run.ctrl.nodes
  exactly : run.ctrl.nodes.Perm run.held
  finds : ∀ key, ∃ found, consistentHashFindBigger run.ctrl 0 (run.ctrl.count - 1) key = some found ∧
    Bigger run.ctrl.nodes key found

theorem RingCall.keeps {call : RingCall} {after : RingRun} (sorted : Sorted run.ctrl.nodes)
    (exactly : run.ctrl.nodes.Perm run.held) (few : run.ctrl.nodes.length < 2 ^ 30)
    (ran : call.run run = some after) : Sorted after.ctrl.nodes ∧
      after.ctrl.nodes.Perm after.held ∧ after.ctrl.nodes.length ≤ 2 ^ 30 := by
  cases call with
  | addNode key data =>
    obtain ⟨_, search, bigger⟩ := consistentHashFindBigger_bigger sorted (Nat.le_of_lt few) key
    obtain ⟨_, _, whole, placed, lower, upper⟩ := bigger.place data sorted
    simp only [RingCall.run, consistentHashAddNode] at ran
    split at ran
    · obtain rfl := some.inj ran
      exact ⟨sorted, exactly, (Nat.le_of_lt few)⟩
    rw [search] at ran
    obtain rfl := some.inj ran
    simp only [placed]
    refine ⟨?_, perm_middle.trans ((whole ▸ exactly).cons _), ?_⟩
    · obtain ⟨left, right, across⟩ := pairwise_append.mp (whole ▸ sorted)
      refine pairwise_append.mpr ⟨left, pairwise_cons.mpr ⟨upper, right⟩, ?_⟩
      intro node early other late
      rcases mem_cons.mp late with rfl | later
      · exact lower node early
      · exact across node early other later
    · rw [whole, length_append] at few
      rw [length_append, length_cons]
      omega
  | delByData data =>
    obtain rfl := some.inj ran
    have kept := delByDataLoop_filter data run.ctrl.nodes []
    rw [append_nil, append_nil] at kept
    simp only [consistentHashDelByData, kept]
    exact ⟨sorted.filter _, exactly.filter _, Nat.le_trans (length_filter_le _ _) (Nat.le_of_lt few)⟩

theorem ring_ordered (reached : ring.ReachableWhen
    (fun run _ => run.ctrl.nodes.length < 2 ^ 30) run) :
    Sorted run.ctrl.nodes ∧ run.ctrl.nodes.Perm run.held ∧ run.ctrl.nodes.length ≤ 2 ^ 30 := by
  induction reached with
  | start started =>
    obtain ⟨-, rfl⟩ := started
    exact ⟨.nil, .nil, zero_le _⟩
  | step _ few ran ih => exact RingCall.keeps ih.1 ih.2.1 few ran

/-- The next node on the ring from the key on. -/
structure Owner (held : List ConsistentHashNode) (key : UINT) (node : ConsistentHashNode) : Prop where
  isNode : node ∈ held
  next : (key ≤ node.hash ∧ ∀ other ∈ held, key ≤ other.hash → node.hash ≤ other.hash) ∨
    ∀ other ∈ held, other.hash < key ∧ node.hash ≤ other.hash

theorem ring_owner (reached : ring.ReachableWhen
    (fun run _ => run.ctrl.nodes.length < 2 ^ 30) run) (key : UINT) (some_ : run.held ≠ []) :
    ∃ i node, consistentHashMatch run.ctrl key = some i ∧ nodeAt run.ctrl.nodes i = some node ∧
      Owner run.held key node := by
  obtain ⟨sorted, exactly, few⟩ := ring_ordered reached
  obtain ⟨i, search, ends⟩ := findBiggerLoop_ends sorted few key 0
  obtain ⟨first, rest, isNodes⟩ := exists_cons_of_ne_nil fun empty =>
    some_ (nil_perm.mp (empty ▸ exactly))
  have count : ¬ run.ctrl.count ≤ 0 := by
    rw [ConsistentHashS.count, isNodes]
    simp
  rw [consistentHashMatch, if_neg count, search]
  refine ⟨i, ?_⟩
  rcases ends with ⟨rfl, smaller⟩ | ⟨bigger, notNegative⟩
  · refine ⟨first, rfl, by simp [nodeAt, isNodes], exactly.subset (by simp [isNodes]), .inr ?_⟩
    intro other inside
    rw [← exactly.mem_iff] at inside
    refine ⟨smaller other inside, ?_⟩
    rw [isNodes] at sorted inside
    rcases mem_cons.mp inside with rfl | later
    · exact BitVec.le_refl _
    · exact (pairwise_cons.mp sorted).1 other later
  cases bigger with
  | none => cases notNegative
  | «at» before after node whole notBelow least _ =>
    refine ⟨node, rfl, by simp [nodeAt, whole], exactly.subset (by simp [whole]),
      .inl ⟨notBelow, ?_⟩⟩
    exact fun other inside => least other (exactly.mem_iff.mpr inside)

theorem nodeAt_replicate (n : Nat) (positive : 0 < n) :
    nodeAt (replicate n ⟨0, 0⟩) ((0 + (n - 1)) / 2) = some ⟨0, 0⟩ := by
  rw [nodeAt, if_pos (by omega), getElem?_replicate, if_pos (by omega)]

theorem replicate_insertIdx (i rest : Nat) (node : ConsistentHashNode) :
    (replicate (i + rest) node).insertIdx i node = replicate (i + rest + 1) node := by
  have between := insertIdx_between (replicate i node) (replicate rest node) node
  rwa [← replicate_succ, replicate_append_replicate, replicate_append_replicate,
    length_replicate] at between

theorem ring_fills (n : Nat) (inside : n < 2 ^ 31) :
    ring.Reachable ⟨⟨2 ^ 31 - 1, replicate n ⟨0, 0⟩⟩, replicate n ⟨0, 0⟩⟩ := by
  induction n with
  | zero => exact .start ⟨_, rfl⟩
  | succ n ih =>
    have search : ∃ found, findBiggerLoop (replicate n ⟨0, 0⟩) 0 0 (n - 1) (-1) = some found ∧
        found ≤ n := by
      rw [findBiggerLoop]
      split
      · rw [if_neg (by omega)]
        simp only [nodeAt_replicate n (by omega)]
        exact ⟨_, rfl, by omega⟩
      · exact ⟨_, rfl, by omega⟩
    obtain ⟨found, search, _⟩ := search
    have added : ring.step ⟨⟨2 ^ 31 - 1, replicate n ⟨0, 0⟩⟩, replicate n ⟨0, 0⟩⟩ (.addNode 0 0)
        ⟨⟨2 ^ 31 - 1, replicate (n + 1) ⟨0, 0⟩⟩, replicate (n + 1) ⟨0, 0⟩⟩ := by
      simp only [ring, RingCall.run, consistentHashAddNode, ConsistentHashS.count,
        consistentHashFindBigger, length_replicate, search]
      rw [if_neg (by omega)]
      obtain ⟨rest, room⟩ := Nat.exists_eq_add_of_le
        (show (if 0 ≤ found then found.toNat else n) ≤ n by split <;> omega)
      have grown := replicate_insertIdx (if 0 ≤ found then found.toNat else n) rest ⟨0, 0⟩
      rw [← room] at grown
      rw [map_some, grown]
      rfl
    exact (ih (by omega)).next added

end MyCode.ConsistentHash
