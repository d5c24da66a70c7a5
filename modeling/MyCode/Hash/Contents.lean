import MyCode.Hash.Traversal
import MyCode.Lib.Transition
import Mathlib.Data.List.Pairwise

/-!
# The contents of a hash table

Runs of `HASH_Add`, `HASH_Del` and `HASH_DelAll`, kept beside the set of the nodes
that were added and not deleted since.  Nodes of one set may be equal for the
comparison function.
-/

namespace MyCode.Hash

open Function List BitVec Option

variable {Node Key : Type} [DecidableEq Node]

/-- `HASH_DelAll` with and without a free callback. -/
def hashDelAllWith (hash : HashS Node) (pfFreeFunc : Bool) : HashS Node :=
  if hash.uiNodeCount = 0 then
    hash
  else
    { hash with
      pstBuckets := fun i =>
        if pfFreeFunc && decide (i ≤ hash.mask.toNat) then [] else hash.pstBuckets i
      uiNodeCount := 0 }

inductive HashCall (Node : Type) where
  | add (pstNode : Node)
  | del (pstNode : Node)
  | delAll (pfFreeFunc : Bool)

def HashCall.run (funcs : HashFuncs Node Key) (hash : HashS Node) : HashCall Node → HashS Node
  | add pstNode => hashAdd funcs hash pstNode
  | del pstNode => hashDelNode funcs hash pstNode
  | delAll pfFreeFunc => hashDelAllWith hash pfFreeFunc

def HashCall.leaves (stored : Finset Node) : HashCall Node → Finset Node
  | add pstNode => insert pstNode stored
  | del pstNode => stored.erase pstNode
  | delAll _ => ∅

/-- A node is in a table once, and only a node of the table is deleted from it. -/
def HashCall.Enabled (stored : Finset Node) : HashCall Node → Prop
  | add pstNode => pstNode ∉ stored
  | del pstNode => pstNode ∈ stored
  | delAll _ => True

structure HashRun (Node : Type) where
  hash : HashS Node
  stored : Finset Node

def hashRunStart (bucket_num : UINT) : HashRun Node :=
  ⟨hashInit (bucket_num - 1), ∅⟩

def hashRunNext (funcs : HashFuncs Node Key) (run : HashRun Node) (call : HashCall Node) :
    HashRun Node :=
  ⟨call.run funcs run.hash, call.leaves run.stored⟩

/-- The runs of a table with at least one bucket. -/
def hashSystem (funcs : HashFuncs Node Key) : Lib.System (HashRun Node) (HashCall Node) where
  start run := ∃ bucket_num, bucket_num ≠ 0 ∧ run = hashRunStart bucket_num
  step run call after := call.Enabled run.stored ∧ after = hashRunNext funcs run call

/-- A table with nodes is emptied with a free callback, and the count does not wrap. -/
def HashFits (run : HashRun Node) : HashCall Node → Prop
  | .add _ => run.stored.card + 1 < 2 ^ 32
  | .del _ => True
  | .delAll pfFreeFunc => pfFreeFunc = true ∨ run.stored = ∅

/-- The table has distinct keys and holds the nodes of a set. -/
structure HashStores {Key : Type} (funcs : HashFuncs Node Key) (hash : HashS Node)
    (stored : Finset Node) : Prop where
  ok : HashOk funcs hash
  mem : ∀ node, node ∈ hashWalk hash ↔ node ∈ stored

/-- The nodes of a list are those of the table, each once. -/
def Visits (stored : Finset Node) (nodes : List Node) : Prop :=
  nodes.Nodup ∧ nodes.toFinset = stored

def HashFuncs.Agree (funcs : HashFuncs Node Key) : Prop :=
  ∀ first second, funcs.pfCmpFunc first second = 0 →
    funcs.pfHashIndexFunc first = funcs.pfHashIndexFunc second

/-- The table finds, counts and walks through the nodes that it should hold. -/
structure HashHolds (funcs : HashFuncs Node Key) (hash : HashS Node) (stored : Finset Node) :
    Prop where
  find : ∀ key, (∀ node, hashFind funcs hash key = some node →
    node ∈ stored ∧ funcs.pfCmpFunc (funcs.key node) key = 0) ∧
    ((hashFind funcs hash key).isSome ↔ ∃ node ∈ stored, funcs.pfCmpFunc (funcs.key node) key = 0)
  count : hash.uiNodeCount.toNat = stored.card
  walk : ∃ nodes, Visits stored nodes ∧ ∀ (State : Type)
    (pfWalkFunc : State → Node → State × UINT) (state : State),
    (∀ state node, 0 ≤ (pfWalkFunc state node).2.toInt) →
      hashWalkWith hash pfWalkFunc state =
        nodes.foldl (fun state node => (pfWalkFunc state node).1) state
  getNext : ∃ nodes, Visits stored nodes ∧ Lib.Enumerates (hashGetNext funcs hash) none nodes

/-- `HASH_GetNextDict` goes in ascending order through one of every kind of equal nodes. -/
structure HashAscends (funcs : HashFuncs Node Key) (hash : HashS Node) (stored : Finset Node)
    (nodes : List Node) : Prop where
  enumerates : Lib.Enumerates (hashGetNextDict funcs hash) none nodes
  inside : ∀ node ∈ nodes, node ∈ stored
  ascending : nodes.Pairwise funcs.Before
  covers : ∀ node ∈ stored, ∃! other, other ∈ nodes ∧
    funcs.pfCmpFunc (funcs.key other) (funcs.key node) = 0

section Stores

variable {Key : Type} {funcs : HashFuncs Node Key} {hash : HashS Node} {stored : Finset Node}
  {node other : Node} {key : Key}

omit [DecidableEq Node] in
theorem hashInit_stores (mask : UINT) : HashStores funcs (hashInit mask) ∅ := by
  refine ⟨hashInit_ok mask, fun node => ?_⟩
  simp [hashWalk, hashInit]

variable (lawful : funcs.Lawful)

omit [DecidableEq Node] in
include lawful in
theorem HashStores.find_eq_some_iff (stores : HashStores funcs hash stored) :
    hashFind funcs hash key = some node ↔ node ∈ stored ∧ funcs.key node = key := by
  rw [hashFind_eq_some_iff lawful stores.ok, stores.mem]

omit [DecidableEq Node] in
include lawful in
theorem HashStores.apart (stores : HashStores funcs hash stored) (isFirst : node ∈ stored)
    (isSecond : other ∈ stored) (same : funcs.key node = funcs.key other) : node = other := by
  have first := (stores.find_eq_some_iff lawful).mpr ⟨isFirst, same⟩
  have second := (stores.find_eq_some_iff lawful).mpr ⟨isSecond, rfl⟩
  exact some.inj (first.symm.trans second)

section

include lawful

omit [DecidableEq Node] in
theorem HashStores.absent (stores : HashStores funcs hash stored)
    (missed : hashFind funcs hash key = none) : ∀ other ∈ stored, funcs.key other ≠ key := by
  intro other inside
  exact (hashFind_eq_none_iff lawful stores.ok).mp missed other ((stores.mem other).mpr inside)

theorem HashStores.add (stores : HashStores funcs hash stored)
    (absent : ∀ other ∈ stored, funcs.key other ≠ funcs.key node) :
    HashStores funcs (hashAdd funcs hash node) (insert node stored) := by
  have missed : hashFind funcs hash (funcs.key node) = none := by
    apply (hashFind_eq_none_iff lawful stores.ok).mpr
    intro other inside
    exact absent other ((stores.mem other).mp inside)
  refine ⟨stores.ok.add lawful missed, fun other => ?_⟩
  rw [mem_hashWalk_add stores.ok, Finset.mem_insert, stores.mem]

theorem HashStores.del (stores : HashStores funcs hash stored) (inside : node ∈ stored) :
    HashStores funcs (hashDelNode funcs hash node) (stored.erase node) := by
  rw [hashDelNode_eq lawful stores.ok ((stores.mem node).mpr inside)]
  refine ⟨stores.ok.del lawful, fun other => ?_⟩
  rw [mem_hashWalk_del lawful stores.ok, stores.mem, Finset.mem_erase]
  constructor
  · rintro ⟨isOther, differs⟩
    exact ⟨fun same => differs (by rw [same]), isOther⟩
  · rintro ⟨differs, isOther⟩
    exact ⟨isOther, fun same => differs (stores.apart lawful isOther inside same)⟩

end

omit [DecidableEq Node] in
theorem HashStores.delAll (stores : HashStores funcs hash stored) (some : hash.uiNodeCount ≠ 0) :
    HashStores funcs (hashDelAllWith hash true) ∅ := by
  rw [hashDelAllWith, if_neg some]
  have bucket (i : Nat) :
      (if true && decide (i ≤ hash.mask.toNat) then [] else hash.pstBuckets i) = [] := by
    simp only [Bool.true_and, decide_eq_true_eq]
    split
    · rfl
    next outside =>
    -- No node is placed behind the last bucket.
    apply eq_nil_iff_forall_not_mem.mpr
    intro hashNode inside
    obtain ⟨-, place⟩ := stores.ok.placed i hashNode inside
    exact outside (place ▸ hashIndex_le hashNode.hashFactor)
  simp only [bucket]
  exact hashInit_stores hash.mask

omit [DecidableEq Node] in
theorem HashStores.delAllWithout (stores : HashStores funcs hash stored) :
    HashStores funcs (hashDelAllWith hash false) stored := by
  rw [hashDelAllWith]
  split
  · exact stores
  · exact ⟨⟨stores.ok.placed, stores.ok.distinct⟩, stores.mem⟩

end Stores

structure HashRunOk (funcs : HashFuncs Node Key) (run : HashRun Node) : Prop where
  placed : HashPlaced funcs run.hash
  distinct : ∀ i, (hashBucketNodes run.hash i).Nodup
  stored : ∀ node, node ∈ run.stored ↔ node ∈ hashWalk run.hash
  count : run.hash.uiNodeCount.toNat = run.stored.card

variable {funcs : HashFuncs Node Key} {run : HashRun Node} {hash : HashS Node} {node : Node}
  {call : HashCall Node}

omit [DecidableEq Node] in
theorem hashWalk_nodup (placed : HashPlaced funcs hash)
    (distinct : ∀ i, (hashBucketNodes hash i).Nodup) : (hashWalk hash).Nodup := by
  have index {i : Nat} {node : Node} (inside : node ∈ hashBucketNodes hash i) :
      hashIndex hash (funcs.pfHashIndexFunc (funcs.key node)) = i := by
    obtain ⟨hashNode, stored, rfl⟩ := List.mem_map.mp inside
    obtain ⟨factor, place⟩ := placed i hashNode stored
    rw [factor] at place
    exact place
  refine nodup_flatMap.mpr ⟨fun i _ => distinct i, ?_⟩
  apply nodup_range.imp
  intro first second differs node inFirst inSecond
  exact differs ((index inFirst).symm.trans (index inSecond))

omit [DecidableEq Node] in
theorem HashStores.keys_nodup {Key : Type} {funcs : HashFuncs Node Key} {hash : HashS Node}
    {stored : Finset Node} (lawful : funcs.Lawful) (stores : HashStores funcs hash stored) :
    ((hashWalk hash).map funcs.key).Nodup := by
  have distinct (i : Nat) : (hashBucketNodes hash i).Nodup := by
    apply Pairwise.map HashNode.node _ (stores.ok.distinct i)
    intro first second differs same
    exact differs (congrArg funcs.key same)
  apply Nodup.map_on _ (hashWalk_nodup stores.ok.placed distinct)
  intro first isFirst second isSecond same
  exact stores.apart lawful ((stores.mem first).mp isFirst) ((stores.mem second).mp isSecond) same

variable (ok : HashRunOk funcs run)

include ok in
theorem HashRunOk.visits : Visits run.stored (hashWalk run.hash) := by
  refine ⟨hashWalk_nodup ok.placed ok.distinct, ?_⟩
  ext node
  rw [List.mem_toFinset, ok.stored]

include ok in
theorem HashRunOk.add (absent : node ∉ run.stored) (fits : run.stored.card + 1 < 2 ^ 32) :
    HashRunOk funcs (hashRunNext funcs run (.add node)) where
  placed := ok.placed.add
  distinct i := by
    change ((update run.hash.pstBuckets _ _ i).map HashNode.node).Nodup
    by_cases same : i = hashIndex run.hash (funcs.pfHashIndexFunc (funcs.key node))
    · rw [same, update_self, map_append]
      refine nodup_append.mpr ⟨ok.distinct _, nodup_singleton _, ?_⟩
      rintro _ inside _ isNode rfl
      rw [mem_singleton.mp isNode] at inside
      obtain ⟨hashNode, stored, isOther⟩ := List.mem_map.mp inside
      exact absent ((ok.stored node).mpr (ok.placed.mem_hashWalk.mpr ⟨_, hashNode, stored, isOther⟩))
    · rw [update_of_ne same]
      exact ok.distinct i
  stored other := by
    change other ∈ insert node run.stored ↔ other ∈ hashWalk (hashAdd funcs run.hash node)
    rw [Finset.mem_insert, ok.placed.mem_hashWalk_add, ok.stored]
  count := by
    change (run.hash.uiNodeCount + 1).toNat = (insert node run.stored).card
    rw [Finset.card_insert_of_notMem absent, toNat_add, ok.count]
    exact Nat.mod_eq_of_lt fits

omit [DecidableEq Node] in
theorem mem_eraseP_node [DecidableEq Node] {nodes : List (HashNode Node)}
    (distinct : (nodes.map HashNode.node).Nodup) {hashNode : HashNode Node} :
    hashNode ∈ nodes.eraseP (fun other => decide (other.node = node)) ↔
      hashNode ∈ nodes ∧ hashNode.node ≠ node :=
  Lib.mem_eraseP_iff (fun _ _ => decide_eq_true_iff) (Lib.distinctKeys_iff_nodup.mpr distinct)

section

include ok

theorem HashRunOk.mem_deleted {i : Nat} {hashNode : HashNode Node} :
    hashNode ∈ (hashDelNode funcs run.hash node).pstBuckets i ↔
      hashNode ∈ run.hash.pstBuckets i ∧ hashNode.node ≠ node := by
  simp only [hashDelNode]
  rw [mem_update_bucket, mem_eraseP_node (ok.distinct _)]
  constructor
  · rintro (⟨rfl, kept⟩ | ⟨differs, inside⟩)
    · exact kept
    refine ⟨inside, fun same => differs ?_⟩
    obtain ⟨factor, place⟩ := ok.placed i hashNode inside
    rw [← place, factor, HashFuncs.nodeKey, same]
  · rintro ⟨inside, differs⟩
    by_cases same : i = hashIndex run.hash (funcs.pfHashIndexFunc (funcs.key node))
    · exact .inl ⟨same, same ▸ inside, differs⟩
    · exact .inr ⟨same, inside⟩

theorem HashRunOk.del (inside : node ∈ run.stored) :
    HashRunOk funcs (hashRunNext funcs run (.del node)) := by
  have placed : HashPlaced funcs (hashDelNode funcs run.hash node) :=
    fun i hashNode kept => ok.placed i hashNode (ok.mem_deleted.mp kept).1
  refine ⟨placed, fun i => ?_, fun other => ?_, ?_⟩
  · change ((update run.hash.pstBuckets _ _ i).map HashNode.node).Nodup
    rw [update_apply]
    split
    · exact (ok.distinct _).sublist (eraseP_sublist.map _)
    · exact ok.distinct i
  · change other ∈ run.stored.erase node ↔ other ∈ hashWalk (hashDelNode funcs run.hash node)
    simp only [Finset.mem_erase, ok.stored, placed.mem_hashWalk, ok.placed.mem_hashWalk,
      ok.mem_deleted]
    constructor
    · rintro ⟨differs, i, hashNode, stored, rfl⟩
      exact ⟨i, hashNode, ⟨stored, differs⟩, rfl⟩
    · rintro ⟨i, hashNode, ⟨stored, differs⟩, rfl⟩
      exact ⟨differs, i, hashNode, stored, rfl⟩
  · change (run.hash.uiNodeCount - 1).toNat = (run.stored.erase node).card
    have some := Finset.card_pos.mpr ⟨node, inside⟩
    have count := ok.count
    rw [Finset.card_erase_of_mem inside, ← count]
    bv_omega

theorem HashRunOk.delAll {pfFreeFunc : Bool} (fits : pfFreeFunc = true ∨ run.stored = ∅) :
    HashRunOk funcs (hashRunNext funcs run (.delAll pfFreeFunc)) := by
  have isEmpty : (run.hash.uiNodeCount = 0) → run.stored = ∅ := by
    intro zero
    have count := ok.count
    rw [zero] at count
    exact Finset.card_eq_zero.mp count.symm
  by_cases zero : run.hash.uiNodeCount = 0
  · have same : hashRunNext funcs run (.delAll pfFreeFunc) = run := by
      change (⟨hashDelAllWith run.hash pfFreeFunc, ∅⟩ : HashRun Node) = run
      rw [hashDelAllWith, if_pos zero, ← isEmpty zero]
    rw [same]
    exact ok
  have free : pfFreeFunc = true := by
    refine fits.resolve_right fun empty => zero ?_
    have count := ok.count
    rw [empty] at count
    exact eq_of_toNat_eq count
  have bucket (i : Nat) : (hashDelAllWith run.hash pfFreeFunc).pstBuckets i = [] := by
    rw [hashDelAllWith, if_neg zero, free]
    by_cases bounded : i ≤ run.hash.mask.toNat
    · simp [bounded]
    -- No node is placed behind the last bucket.
    simp only [Bool.true_and, decide_eq_true_eq, if_neg bounded]
    rw [eq_nil_iff_forall_not_mem]
    intro hashNode inside
    exact bounded ((ok.placed i hashNode inside).2 ▸ hashIndex_le _)
  have placed : HashPlaced funcs (hashDelAllWith run.hash pfFreeFunc) := by
    intro i hashNode inside
    rw [bucket] at inside
    cases inside
  refine ⟨placed, fun i => ?_, fun node => ?_, ?_⟩
  · change ((hashDelAllWith run.hash pfFreeFunc).pstBuckets i |>.map HashNode.node).Nodup
    rw [bucket]
    exact nodup_nil
  · change node ∈ (∅ : Finset Node) ↔ node ∈ hashWalk (hashDelAllWith run.hash pfFreeFunc)
    simp [placed.mem_hashWalk, bucket]
  · change (hashDelAllWith run.hash pfFreeFunc).uiNodeCount.toNat = 0
    rw [hashDelAllWith, if_neg zero]
    rfl

end

theorem hashSystem_ok (reached : (hashSystem funcs).ReachableWhen HashFits run) :
    HashRunOk funcs run := by
  apply reached.invariant
  · rintro _ ⟨bucket_num, -, rfl⟩
    have placed : HashPlaced funcs (hashInit (bucket_num - 1) : HashS Node) := nofun
    refine ⟨placed, fun _ => nodup_nil, fun node => ?_, rfl⟩
    change node ∈ (∅ : Finset Node) ↔ node ∈ hashWalk (hashInit (bucket_num - 1))
    simp only [Finset.notMem_empty, placed.mem_hashWalk, false_iff]
    rintro ⟨_, _, inside, -⟩
    cases inside
  · rintro _ call _ ok fits ⟨enabled, rfl⟩
    cases call with
    | add => exact ok.add enabled fits
    | del => exact ok.del enabled
    | delAll => exact ok.delAll fits

section

include ok

omit [DecidableEq Node] in
theorem HashRunOk.find (agree : funcs.Agree) (key : Key) :
    (∀ node, hashFind funcs run.hash key = some node →
      node ∈ run.stored ∧ funcs.pfCmpFunc (funcs.key node) key = 0) ∧
    ((hashFind funcs run.hash key).isSome ↔
      ∃ node ∈ run.stored, funcs.pfCmpFunc (funcs.key node) key = 0) := by
  have sound : ∀ node, hashFind funcs run.hash key = some node →
      node ∈ run.stored ∧ funcs.pfCmpFunc (funcs.key node) key = 0 := by
    intro node found
    obtain ⟨hashNode, isFound, rfl⟩ := map_eq_some_iff.mp found
    have matched := find?_some isFound
    rw [hashMatches, Bool.and_eq_true, beq_iff_eq, beq_iff_eq] at matched
    refine ⟨(ok.stored _).mpr (ok.placed.mem_hashWalk.mpr ?_), matched.2⟩
    exact ⟨_, hashNode, mem_of_find?_eq_some isFound, rfl⟩
  refine ⟨sound, ?_⟩
  constructor
  · intro isSome
    obtain ⟨node, found⟩ := isSome_iff_exists.mp isSome
    exact ⟨node, sound node found⟩
  rintro ⟨node, inside, same⟩
  obtain ⟨i, hashNode, stored, rfl⟩ := ok.placed.mem_hashWalk.mp ((ok.stored node).mp inside)
  obtain ⟨factor, place⟩ := ok.placed i hashNode stored
  have index : funcs.pfHashIndexFunc key = hashNode.hashFactor := by
    rw [factor, HashFuncs.nodeKey]
    exact (agree _ _ same).symm
  rw [hashFind, isSome_map, find?_isSome]
  refine ⟨hashNode, ?_, ?_⟩
  · rw [index, place]
    exact stored
  · rw [hashMatches, index, same]
    simp

theorem HashRunOk.holds (agree : funcs.Agree) :
    HashHolds funcs run.hash run.stored where
  find := ok.find agree
  count := ok.count
  walk := by
    refine ⟨hashWalk run.hash, ok.visits, fun State pfWalkFunc state goesOn => ?_⟩
    exact hashWalkWith_eq goesOn state
  getNext := ⟨hashWalk run.hash, ok.visits, hashGetNext_enumerates ok.placed ok.visits.1⟩

theorem HashRunOk.ascends (ordered : funcs.Ordered) :
    ∃ nodes, HashAscends funcs run.hash run.stored nodes := by
  have isStrictOrder := ordered.isStrictOrder
  have picks : Lib.PicksAbove funcs.Before run.stored (hashGetNextDict funcs run.hash) := by
    rw [← ok.visits.2]
    exact hashGetNextDict_picks ordered
  obtain ⟨nodes, enumerates⟩ := picks.ends none
  have ascending := enumerates.ascending picks
  refine ⟨nodes, enumerates, fun node inside => (enumerates.mem_above picks node inside).1,
    ascending, fun node stored => ?_⟩
  obtain ⟨other, inside, notBefore, notAfter⟩ := enumerates.covers picks node stored nofun
  have same := (ordered.zero_iff _ _).mpr ⟨notBefore, notAfter⟩
  refine ⟨other, ⟨inside, same⟩, ?_⟩
  rintro _ ⟨alsoInside, alsoSame⟩
  by_contra differs
  -- Two nodes of the ascending list are not equal to the same node.
  have back := (ordered.zero_iff _ _).mpr ((ordered.zero_iff _ _).mp alsoSame).symm
  have neither := (ordered.zero_iff _ _).mp (ordered.equal _ _ _ same back)
  have symmetric : Std.Symm fun first second : Node =>
      funcs.Before first second ∨ funcs.Before second first := ⟨fun _ _ => Or.symm⟩
  have apart : nodes.Pairwise fun first second =>
      funcs.Before first second ∨ funcs.Before second first := ascending.imp Or.inl
  rcases apart.forall inside alsoInside (Ne.symm differs) with before | before
  · exact neither.1 before
  · exact neither.2 before

end

/-- The table holds exactly the nodes that were added and not deleted since. -/
theorem hash_refines (agree : funcs.Agree)
    (reached : (hashSystem funcs).ReachableWhen HashFits run) :
    HashHolds funcs run.hash run.stored ∧
      (funcs.Ordered → ∃ nodes, HashAscends funcs run.hash run.stored nodes) := by
  have ok := hashSystem_ok reached
  exact ⟨ok.holds agree, ok.ascends⟩

def pairFuncs : HashFuncs (Nat × Nat) Nat where
  key := Prod.snd
  pfHashIndexFunc key := BitVec.ofNat 32 key
  pfCmpFunc first second := if first < second then -1 else if first = second then 0 else 1

def pairFuncsUnordered : HashFuncs (Nat × Nat) Nat :=
  { pairFuncs with pfCmpFunc := fun first second => if first = second then 0 else 1 }

theorem pairFuncs_agree : pairFuncs.Agree := by
  intro first second same
  have equal : first = second := by
    by_contra differs
    simp only [pairFuncs, if_neg differs] at same
    split at same <;> exact absurd same (by decide)
  rw [equal]

instance (stored : Finset Node) : (call : HashCall Node) → Decidable (call.Enabled stored)
  | .add pstNode => inferInstanceAs (Decidable (pstNode ∉ stored))
  | .del pstNode => inferInstanceAs (Decidable (pstNode ∈ stored))
  | .delAll _ => isTrue trivial

instance (run : HashRun Node) : (call : HashCall Node) → Decidable (HashFits run call)
  | .add _ => inferInstanceAs (Decidable (run.stored.card + 1 < 2 ^ 32))
  | .del _ => isTrue trivial
  | .delAll pfFreeFunc => inferInstanceAs (Decidable (pfFreeFunc = true ∨ run.stored = ∅))

def pairCalls : List (HashCall (Nat × Nat)) :=
  [.add (0, 5), .add (1, 5), .del (0, 5), .add (2, 7)]

theorem hash_refines_pairs :
    ∃ run, (hashSystem pairFuncs).ReachableWhen HashFits run ∧ run.stored = {(1, 5), (2, 7)} ∧
      HashHolds pairFuncs run.hash run.stored := by
  have steps (run : HashRun (Nat × Nat)) (call : HashCall (Nat × Nat))
      (met : HashFits run call ∧ call.Enabled run.stored) :
      HashFits run call ∧ (hashSystem pairFuncs).step run call (hashRunNext pairFuncs run call) :=
    ⟨met.1, met.2, rfl⟩
  have reached : (hashSystem pairFuncs).ReachableWhen HashFits
      (pairCalls.foldl (hashRunNext pairFuncs) (hashRunStart 2)) :=
    .foldl steps (.start ⟨2, by decide, rfl⟩) (by decide +kernel)
  exact ⟨_, reached, by decide +kernel, (hash_refines pairFuncs_agree reached).1⟩

theorem pairs_reachable (funcs : HashFuncs (Nat × Nat) Nat) (calls : List (HashCall (Nat × Nat)))
    (admitted : Lib.System.Admitted (fun run call => HashCall.Enabled run.stored call)
      (hashRunNext funcs) (hashRunStart 2) calls) :
    (hashSystem funcs).Reachable (calls.foldl (hashRunNext funcs) (hashRunStart 2)) := by
  have steps (run : HashRun (Nat × Nat)) (call : HashCall (Nat × Nat))
      (enabled : call.Enabled run.stored) :
      True ∧ (hashSystem funcs).step run call (hashRunNext funcs run call) :=
    ⟨trivial, enabled, rfl⟩
  exact .foldl steps (.start ⟨2, by decide, rfl⟩) admitted

/-- A table emptied without a free callback still finds its node; of two equal nodes
`HASH_GetNextDict` visits one; without an order it does not end. -/
theorem hash_differs :
    (∃ run, (hashSystem pairFuncs).Reachable run ∧ run.stored = ∅ ∧
      hashFind pairFuncs run.hash 5 = some (0, 5)) ∧
    (∃ run, (hashSystem pairFuncs).Reachable run ∧
      Lib.Enumerates (hashGetNextDict pairFuncs run.hash) none [(0, 5)] ∧
      ¬ ∃ nodes, Visits run.stored nodes ∧
        Lib.Enumerates (hashGetNextDict pairFuncs run.hash) none nodes) ∧
    (∃ run, (hashSystem pairFuncsUnordered).Reachable run ∧
      ¬ ∃ nodes, Lib.Enumerates (hashGetNextDict pairFuncsUnordered run.hash) none nodes) ∧
    ¬ ∀ (funcs : HashFuncs (Nat × Nat) Nat) (run : HashRun (Nat × Nat)), funcs.Agree →
      (hashSystem funcs).Reachable run → HashHolds funcs run.hash run.stored ∧
        ∃ nodes, Visits run.stored nodes ∧
          Lib.Enumerates (hashGetNextDict funcs run.hash) none nodes := by
  have dropped := pairs_reachable pairFuncs [.add (0, 5), .delAll false] (by decide +kernel)
  have twice := pairs_reachable pairFuncs [.add (0, 5), .add (1, 5)] (by decide +kernel)
  have apart := pairs_reachable pairFuncsUnordered [.add (0, 5), .add (1, 7)] (by decide +kernel)
  have one : Lib.Enumerates (hashGetNextDict pairFuncs
      ([HashCall.add (0, 5), .add (1, 5)].foldl (hashRunNext pairFuncs) (hashRunStart 2)).hash)
      none [(0, 5)] := .more (by decide +kernel) (.done (by decide +kernel))
  refine ⟨⟨_, dropped, rfl, by decide +kernel⟩, ⟨_, twice, one, ?_⟩, ⟨_, apart, ?_⟩, ?_⟩
  · rintro ⟨_, visits, enumerates⟩
    rw [← one.unique enumerates] at visits
    exact absurd visits.2 (by decide +kernel)
  · rintro ⟨_, enumerates⟩
    cases enumerates with
    | done stops => exact absurd stops (by decide +kernel)
    | @more _ first _ step enumerates =>
      have isFirst : some (0, 5) = some first := Eq.trans (by decide +kernel) step
      cases isFirst
      refine Lib.Enumerates.not_of_cycle (?_ : ∀ node, node ∈ [(0, 5), (1, 7)] → _) (by simp)
        enumerates
      decide +kernel
  · intro holds
    have found := ((holds _ _ pairFuncs_agree dropped).1.find 5).1 (0, 5) (by decide +kernel)
    exact absurd found.1 (by decide +kernel)

end MyCode.Hash
