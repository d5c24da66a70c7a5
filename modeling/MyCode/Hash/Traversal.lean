import MyCode.Hash
import MyCode.Lib.Enumeration

/-!
# Traversals of a hash table

`HASH_Walk` with its callback, `HASH_GetNext` and `HASH_GetNextDict`.  A node is
its pointer together with what it holds.
-/

namespace MyCode.Hash

open List

section Operations

variable {Node Key State : Type} (funcs : HashFuncs Node Key) (hash : HashS Node)

/-- The scan of one bucket, and whether the walk goes on. -/
def hashWalkBucket (pfWalkFunc : State → Node → State × UINT) :
    State → List (HashNode Node) → State × Bool
  | pUserHandle, [] => (pUserHandle, true)
  | pUserHandle, pstNodeFind :: rest =>
    let walked := pfWalkFunc pUserHandle pstNodeFind.node
    if walked.2.toInt < 0 then (walked.1, false) else hashWalkBucket pfWalkFunc walked.1 rest

def hashWalkBuckets (pfWalkFunc : State → Node → State × UINT) : State → List Nat → State
  | pUserHandle, [] => pUserHandle
  | pUserHandle, i :: rest =>
    let walked := hashWalkBucket pfWalkFunc pUserHandle (hash.pstBuckets i)
    if walked.2 then hashWalkBuckets pfWalkFunc walked.1 rest else walked.1

def hashWalkWith (pfWalkFunc : State → Node → State × UINT) (pUserHandle : State) : State :=
  hashWalkBuckets hash pfWalkFunc pUserHandle (range (hash.mask.toNat + 1))

def hashBucketNodes (i : Nat) : List Node :=
  (hash.pstBuckets i).map HashNode.node

/-- `DLL_NEXT` of a node of the list. -/
def dllNext [DecidableEq Node] (nodes : List Node) (node : Node) : Option Node :=
  (nodes.dropWhile fun other => decide (other ≠ node)).tail.head?

/-- The loop of `HASH_GetNext` over the buckets from `index` on. -/
def hashFirstFrom (index : Nat) : Option Node :=
  (range' index (hash.mask.toNat + 1 - index)).findSome? fun i =>
    (hashBucketNodes hash i).head?

def hashGetNext [DecidableEq Node] (curr_node : Option Node) : Option Node :=
  match curr_node with
  | none => hashFirstFrom hash 0
  | some node =>
    let index := hashIndex hash (funcs.pfHashIndexFunc (funcs.key node))
    match dllNext (hashBucketNodes hash index) node with
    | some next => some next
    | none => hashFirstFrom hash (index + 1)

def hashCmpNode (node1 node2 : Option Node) : UINT :=
  match node1, node2 with
  | none, _ => -1
  | some _, none => 1
  | some node1, some node2 => funcs.pfCmpFunc (funcs.key node1) (funcs.key node2)

/-- The body of the loop of `HASH_GetNextDict`. -/
def hashDictPick (curr_node pstNext : Option Node) (pstNodeFind : Node) : Option Node :=
  if 0 < (hashCmpNode funcs (some pstNodeFind) curr_node).toInt then
    match pstNext with
    | none => some pstNodeFind
    | some next =>
      if (hashCmpNode funcs (some pstNodeFind) (some next)).toInt < 0 then
        some pstNodeFind
      else
        some next
  else
    pstNext

def hashGetNextDict (curr_node : Option Node) : Option Node :=
  (hashWalk hash).foldl (hashDictPick funcs curr_node) none

end Operations

variable {Node Key State : Type} {funcs : HashFuncs Node Key} {hash : HashS Node}

section Walk

variable {pfWalkFunc : State → Node → State × UINT}
  (goesOn : ∀ state node, 0 ≤ (pfWalkFunc state node).2.toInt)

include goesOn

theorem hashWalkBucket_eq (state : State) (nodes : List (HashNode Node)) :
    hashWalkBucket pfWalkFunc state nodes =
      ((nodes.map HashNode.node).foldl (fun state node => (pfWalkFunc state node).1) state,
        true) := by
  induction nodes generalizing state with
  | nil => rfl
  | cons node _ ih =>
    have walked := goesOn state node.node
    simp only [hashWalkBucket, map_cons, foldl_cons]
    rw [if_neg (by omega), ih]

theorem hashWalkBuckets_eq (state : State) (buckets : List Nat) :
    hashWalkBuckets hash pfWalkFunc state buckets =
      (buckets.flatMap (hashBucketNodes hash)).foldl
        (fun state node => (pfWalkFunc state node).1) state := by
  induction buckets generalizing state with
  | nil => rfl
  | cons _ _ ih =>
    simp [hashWalkBuckets, hashWalkBucket_eq goesOn, ih, hashBucketNodes]

theorem hashWalkWith_eq (state : State) :
    hashWalkWith hash pfWalkFunc state =
      (hashWalk hash).foldl (fun state node => (pfWalkFunc state node).1) state :=
  hashWalkBuckets_eq goesOn state _

end Walk

/-- The nodes of the buckets from `index` on. -/
def hashNodesFrom (hash : HashS Node) (index : Nat) : List Node :=
  (range' index (hash.mask.toNat + 1 - index)).flatMap (hashBucketNodes hash)

theorem hashFirstFrom_eq (index : Nat) :
    hashFirstFrom hash index = (hashNodesFrom hash index).head? :=
  head?_flatMap.symm

theorem hashWalk_eq_nodesFrom : hashWalk hash = hashNodesFrom hash 0 := by
  rw [hashNodesFrom, Nat.sub_zero, ← range_eq_range']
  rfl

theorem hashNodesFrom_succ {index : Nat} (bounded : index ≤ hash.mask.toNat) :
    hashNodesFrom hash index = hashBucketNodes hash index ++ hashNodesFrom hash (index + 1) := by
  have count : hash.mask.toNat + 1 - index = hash.mask.toNat + 1 - (index + 1) + 1 := by omega
  rw [hashNodesFrom, hashNodesFrom, count, range'_succ, flatMap_cons]

theorem hashWalk_split {index : Nat} (bounded : index ≤ hash.mask.toNat) :
    ∃ passed, hashWalk hash =
      passed ++ (hashBucketNodes hash index ++ hashNodesFrom hash (index + 1)) := by
  rw [hashWalk_eq_nodesFrom]
  induction index with
  | zero => exact ⟨[], hashNodesFrom_succ bounded⟩
  | succ index ih =>
    obtain ⟨passed, same⟩ := ih (by omega)
    rw [same, hashNodesFrom_succ bounded]
    exact ⟨passed ++ hashBucketNodes hash index, (append_assoc _ _ _).symm⟩

theorem dllNext_eq [DecidableEq Node] {node : Node} {passed rest : List Node}
    (absent : node ∉ passed) : dllNext (passed ++ node :: rest) node = rest.head? := by
  have skip : ∀ other ∈ passed, decide (other ≠ node) = true := by
    intro other inside
    apply decide_eq_true
    rintro rfl
    exact absent inside
  rw [dllNext, dropWhile_append_of_pos skip, dropWhile_cons_of_neg (by simp)]
  rfl

theorem HashPlaced.mem_bucket (placed : HashPlaced funcs hash) {node : Node}
    (inside : node ∈ hashWalk hash) :
    node ∈ hashBucketNodes hash (hashIndex hash (funcs.pfHashIndexFunc (funcs.key node))) := by
  obtain ⟨i, hashNode, stored, rfl⟩ := placed.mem_hashWalk.mp inside
  obtain ⟨factor, place⟩ := placed i hashNode stored
  rw [factor] at place
  rw [← HashFuncs.nodeKey, place]
  exact mem_map_of_mem stored

/-- `HASH_GetNext` goes through the nodes in the order of `HASH_Walk`. -/
theorem hashGetNext_enumerates [DecidableEq Node] (placed : HashPlaced funcs hash)
    (distinct : (hashWalk hash).Nodup) :
    Lib.Enumerates (hashGetNext funcs hash) none (hashWalk hash) := by
  apply Lib.Enumerates.of_successor
  · intro passed node rest whole
    have inside : node ∈ hashWalk hash := by simp [whole]
    have bounded : hashIndex hash (funcs.pfHashIndexFunc (funcs.key node)) ≤ hash.mask.toNat :=
      hashIndex_le _
    obtain ⟨before, split⟩ := hashWalk_split bounded
    obtain ⟨front, back, bucket⟩ := append_of_mem (placed.mem_bucket inside)
    rw [bucket] at split
    have absent : node ∉ passed ∧ node ∉ rest := by
      rw [whole] at distinct
      simp only [nodup_middle, nodup_cons, mem_append, not_or] at distinct
      exact distinct.1
    -- The node occurs once, so both ways to split the walk at it are the same.
    have same : passed ++ node :: rest = (before ++ front) ++ node :: (back ++ hashNodesFrom hash
        (hashIndex hash (funcs.pfHashIndexFunc (funcs.key node)) + 1)) := by
      rw [← whole, split]
      simp
    obtain ⟨samePassed, -, sameRest⟩ := (append_cons_inj_of_notMem absent.1 absent.2).mp same
    have absentFront : node ∉ front := fun inFront =>
      absent.1 (samePassed ▸ mem_append_right _ inFront)
    simp only [hashGetNext, bucket, dllNext_eq absentFront, sameRest]
    cases back with
    | nil => exact hashFirstFrom_eq _
    | cons => rfl
  · rw [hashWalk_eq_nodesFrom]
    exact hashFirstFrom_eq 0

structure HashFuncs.Ordered (funcs : HashFuncs Node Key) : Prop where
  flips : ∀ first second,
    (funcs.pfCmpFunc first second).toInt < 0 ↔ 0 < (funcs.pfCmpFunc second first).toInt
  trans : ∀ first second third, (funcs.pfCmpFunc first second).toInt < 0 →
    (funcs.pfCmpFunc second third).toInt < 0 → (funcs.pfCmpFunc first third).toInt < 0
  equal : ∀ first second third, funcs.pfCmpFunc first second = 0 →
    funcs.pfCmpFunc second third = 0 → funcs.pfCmpFunc first third = 0

theorem HashFuncs.Ordered.zero_iff (ordered : funcs.Ordered) (first second : Key) :
    funcs.pfCmpFunc first second = 0 ↔ ¬ (funcs.pfCmpFunc first second).toInt < 0 ∧
      ¬ (funcs.pfCmpFunc second first).toInt < 0 := by
  rw [ordered.flips second first, ← BitVec.toInt_inj]
  change _ = (0 : Int) ↔ _
  omega

/-- The node comes first in the order of the comparison function. -/
def HashFuncs.Before (funcs : HashFuncs Node Key) (first second : Node) : Prop :=
  (funcs.pfCmpFunc (funcs.key first) (funcs.key second)).toInt < 0

theorem HashFuncs.Ordered.isStrictOrder (ordered : funcs.Ordered) :
    IsStrictOrder Node funcs.Before where
  irrefl node before := by
    have other := (ordered.flips _ _).mp before
    rw [HashFuncs.Before] at before
    omega
  trans first second third := ordered.trans _ _ _

/-- What the loop of `HASH_GetNextDict` has picked. -/
structure DictPicked (funcs : HashFuncs Node Key) (curr_node : Option Node) (nodes : List Node)
    (picked : Option Node) : Prop where
  inside : ∀ node, picked = some node → node ∈ nodes ∧ Lib.Above funcs.Before curr_node node
  least : ∀ node, picked = some node → ∀ other ∈ nodes,
    Lib.Above funcs.Before curr_node other → ¬ funcs.Before other node
  none : picked = none → ∀ other ∈ nodes, ¬ Lib.Above funcs.Before curr_node other

theorem hashCmpNode_above (ordered : funcs.Ordered) (curr_node : Option Node) (node : Node) :
    0 < (hashCmpNode funcs (some node) curr_node).toInt ↔
      Lib.Above funcs.Before curr_node node := by
  cases curr_node with
  | none =>
    constructor
    · exact nofun
    intro _
    change 0 < (1 : UINT).toInt
    decide
  | some current =>
    rw [hashCmpNode, ← ordered.flips]
    constructor
    · intro before lower same
      cases same
      exact before
    · exact fun above => above current rfl

theorem DictPicked.step (ordered : funcs.Ordered) {curr_node picked : Option Node}
    {nodes : List Node} (soFar : DictPicked funcs curr_node nodes picked) (node : Node) :
    DictPicked funcs curr_node (nodes ++ [node]) (hashDictPick funcs curr_node picked node) := by
  have isStrictOrder := ordered.isStrictOrder
  have inNodes {other : Node} (inside : other ∈ nodes ++ [node]) : other ∈ nodes ∨ other = node := by
    rcases mem_append.mp inside with old | new
    · exact .inl old
    · exact .inr (mem_singleton.mp new)
  unfold hashDictPick
  by_cases above : Lib.Above funcs.Before curr_node node
  · rw [if_pos ((hashCmpNode_above ordered curr_node node).mpr above)]
    cases picked with
    | none =>
      refine ⟨?_, ?_, nofun⟩
      · rintro _ ⟨⟩
        exact ⟨by simp, above⟩
      rintro _ ⟨⟩ other inside otherAbove
      rcases inNodes inside with old | rfl
      · exact absurd otherAbove (soFar.none rfl other old)
      · exact irrefl_of funcs.Before other
    | some next =>
      have old := soFar.inside next rfl
      dsimp only
      split
      · next before =>
        refine ⟨?_, ?_, nofun⟩
        · rintro _ ⟨⟩
          exact ⟨by simp, above⟩
        rintro _ ⟨⟩ other inside otherAbove earlier
        rcases inNodes inside with old | rfl
        · exact soFar.least next rfl other old otherAbove (trans_of funcs.Before earlier before)
        · exact irrefl_of funcs.Before other earlier
      next later =>
      refine ⟨?_, ?_, nofun⟩
      · rintro _ ⟨⟩
        exact ⟨mem_append_left _ old.1, old.2⟩
      rintro _ ⟨⟩ other inside otherAbove
      rcases inNodes inside with old | rfl
      · exact soFar.least next rfl other old otherAbove
      · exact later
  rw [if_neg fun picks => above ((hashCmpNode_above ordered curr_node node).mp picks)]
  refine ⟨fun next same => ?_, fun next same other inside otherAbove => ?_,
    fun absent other inside => ?_⟩
  · have old := soFar.inside next same
    exact ⟨mem_append_left _ old.1, old.2⟩
  · rcases inNodes inside with old | rfl
    · exact soFar.least next same other old otherAbove
    · exact absurd otherAbove above
  · rcases inNodes inside with old | rfl
    · exact soFar.none absent other old
    · exact above

theorem hashGetNextDict_picked (ordered : funcs.Ordered) (curr_node : Option Node) :
    DictPicked funcs curr_node (hashWalk hash) (hashGetNextDict funcs hash curr_node) := by
  have scan : ∀ (rest passed : List Node) (picked : Option Node),
      DictPicked funcs curr_node passed picked →
      DictPicked funcs curr_node (passed ++ rest)
        (rest.foldl (hashDictPick funcs curr_node) picked) := by
    intro rest
    induction rest with
    | nil =>
      intro passed picked soFar
      rw [append_nil]
      exact soFar
    | cons node _ ih =>
      intro passed picked soFar
      rw [append_cons]
      exact ih _ _ (soFar.step ordered node)
  apply scan _ []
  exact ⟨nofun, nofun, nofun⟩

theorem hashGetNextDict_picks [DecidableEq Node] (ordered : funcs.Ordered) :
    Lib.PicksAbove funcs.Before (hashWalk hash).toFinset (hashGetNextDict funcs hash) where
  picked curr_node node picked := by
    have isPicked : DictPicked funcs curr_node (hashWalk hash) _ :=
      hashGetNextDict_picked ordered curr_node
    obtain ⟨inside, above⟩ := isPicked.inside node picked
    refine ⟨mem_toFinset.mpr inside, above, fun other stored => ?_⟩
    exact isPicked.least node picked other (mem_toFinset.mp stored)
  exhausted curr_node absent other stored :=
    (hashGetNextDict_picked ordered curr_node).none absent other (mem_toFinset.mp stored)

end MyCode.Hash
