import MyCode.Types
import MyCode.Lib.KeyedList

/-!
# Hash tables

The tables of `hash_utl.c`: lists of nodes in `mask + 1` buckets.  The index
and comparison functions of a table read the key of a node only.  A pointer
that `HASH_Find` returns stands for the first match in its bucket.
-/

namespace MyCode.Hash

open Function List Option

structure HashFuncs (Node Key : Type) where
  key : Node → Key
  pfHashIndexFunc : Key → UINT
  pfCmpFunc : Key → Key → UINT

structure HashNode (Node : Type) where
  hashFactor : UINT
  node : Node

structure HashS (Node : Type) where
  mask : UINT
  pstBuckets : Nat → List (HashNode Node)
  uiNodeCount : UINT

section Operations

variable {Node Key : Type} (funcs : HashFuncs Node Key) (hash : HashS Node)

def hashIndex (hashFactor : UINT) : Nat :=
  (hashFactor &&& hash.mask).toNat

def hashInit (mask : UINT) : HashS Node :=
  ⟨mask, fun _ => [], 0⟩

def hashAdd (node : Node) : HashS Node :=
  let hashFactor := funcs.pfHashIndexFunc (funcs.key node)
  { hash with
    pstBuckets := update hash.pstBuckets (hashIndex hash hashFactor)
      (hash.pstBuckets (hashIndex hash hashFactor) ++ [⟨hashFactor, node⟩])
    uiNodeCount := hash.uiNodeCount + 1 }

/-- The test of `HASH_FindWithFactor`. -/
def hashMatches (key : Key) (node : HashNode Node) : Bool :=
  funcs.pfHashIndexFunc key == node.hashFactor && funcs.pfCmpFunc (funcs.key node.node) key == 0

def hashFind (key : Key) : Option Node :=
  ((hash.pstBuckets (hashIndex hash (funcs.pfHashIndexFunc key))).find?
    (hashMatches funcs key)).map HashNode.node

/-- Writing to the node that `HASH_Find` returns. -/
def hashUpdate (key : Key) (change : Node → Node) : HashS Node :=
  let index := hashIndex hash (funcs.pfHashIndexFunc key)
  { hash with
    pstBuckets := update hash.pstBuckets index
      (Lib.updateFirst (hashMatches funcs key) (fun node => { node with node := change node.node })
        (hash.pstBuckets index)) }

/-- `HASH_Del` of the node that `HASH_Find` returns. -/
def hashDel (key : Key) : HashS Node :=
  let index := hashIndex hash (funcs.pfHashIndexFunc key)
  { hash with
    pstBuckets := update hash.pstBuckets index
      ((hash.pstBuckets index).eraseP (hashMatches funcs key))
    uiNodeCount := hash.uiNodeCount - 1 }

/-- `HASH_Del` of a given node. -/
def hashDelNode [DecidableEq Node] (node : Node) : HashS Node :=
  let index := hashIndex hash (funcs.pfHashIndexFunc (funcs.key node))
  { hash with
    pstBuckets := update hash.pstBuckets index
      ((hash.pstBuckets index).eraseP fun other => decide (other.node = node))
    uiNodeCount := hash.uiNodeCount - 1 }

def hashDelAll : HashS Node :=
  if hash.uiNodeCount = 0 then
    hash
  else
    { hash with
      pstBuckets := fun i => if i ≤ hash.mask.toNat then [] else hash.pstBuckets i
      uiNodeCount := 0 }

/-- The nodes in the order in which `HASH_Walk` visits them. -/
def hashWalk : List Node :=
  (List.range (hash.mask.toNat + 1)).flatMap fun i => (hash.pstBuckets i).map HashNode.node

def hashUpdateAll (change : Node → Node) : HashS Node :=
  { hash with
    pstBuckets := fun i =>
      if i ≤ hash.mask.toNat then
        (hash.pstBuckets i).map fun node => { node with node := change node.node }
      else
        hash.pstBuckets i }

end Operations

variable {Node Key : Type} {funcs : HashFuncs Node Key} {hash : HashS Node} {node : Node}
  {key : Key}

def HashFuncs.Lawful (funcs : HashFuncs Node Key) : Prop :=
  ∀ first second, funcs.pfCmpFunc first second = 0 ↔ first = second

def HashFuncs.nodeKey (funcs : HashFuncs Node Key) (node : HashNode Node) : Key :=
  funcs.key node.node

/-- Every node is in the bucket of its key, and the keys are distinct. -/
structure HashOk (funcs : HashFuncs Node Key) (hash : HashS Node) : Prop where
  placed : ∀ i, ∀ node ∈ hash.pstBuckets i,
    node.hashFactor = funcs.pfHashIndexFunc (funcs.nodeKey node) ∧
      hashIndex hash node.hashFactor = i
  distinct : ∀ i, Lib.DistinctKeys funcs.nodeKey (hash.pstBuckets i)

theorem hashIndex_le (hashFactor : UINT) : hashIndex hash hashFactor ≤ hash.mask.toNat := by
  exact Nat.and_le_right

theorem hashMatches_iff (lawful : funcs.Lawful) (ok : HashOk funcs hash) (i : Nat) :
    ∀ node ∈ hash.pstBuckets i, hashMatches funcs key node = true ↔ funcs.nodeKey node = key := by
  intro node inside
  rw [hashMatches, Bool.and_eq_true, beq_iff_eq, beq_iff_eq, lawful, (ok.placed i node inside).1]
  exact ⟨And.right, fun same => ⟨by rw [same], same⟩⟩

/-- Every node is in the bucket of its hash factor. -/
def HashPlaced (funcs : HashFuncs Node Key) (hash : HashS Node) : Prop :=
  ∀ i, ∀ hashNode ∈ hash.pstBuckets i,
    hashNode.hashFactor = funcs.pfHashIndexFunc (funcs.nodeKey hashNode) ∧
      hashIndex hash hashNode.hashFactor = i

theorem HashPlaced.mem_hashWalk (placed : HashPlaced funcs hash) :
    node ∈ hashWalk hash ↔ ∃ i, ∃ hashNode ∈ hash.pstBuckets i, hashNode.node = node := by
  simp only [hashWalk, mem_flatMap, mem_range, List.mem_map]
  constructor
  · rintro ⟨i, -, hashNode, inside, rfl⟩
    exact ⟨i, hashNode, inside, rfl⟩
  rintro ⟨i, hashNode, inside, rfl⟩
  have place := (placed i hashNode inside).2
  exact ⟨i, Nat.lt_succ_of_le (place ▸ hashIndex_le _), hashNode, inside, rfl⟩

theorem mem_hashWalk (ok : HashOk funcs hash) :
    node ∈ hashWalk hash ↔ ∃ i, ∃ hashNode ∈ hash.pstBuckets i, hashNode.node = node :=
  HashPlaced.mem_hashWalk ok.placed

theorem hashFind_eq_some_iff (lawful : funcs.Lawful) (ok : HashOk funcs hash) :
    hashFind funcs hash key = some node ↔ node ∈ hashWalk hash ∧ funcs.key node = key := by
  rw [hashFind, map_eq_some_iff, mem_hashWalk ok]
  constructor
  · rintro ⟨hashNode, found, rfl⟩
    obtain ⟨inside, same⟩ := (Lib.find?_eq_some_iff_key (hashMatches_iff lawful ok _)
      (ok.distinct _)).mp found
    exact ⟨⟨_, hashNode, inside, rfl⟩, same⟩
  rintro ⟨⟨i, hashNode, inside, rfl⟩, same⟩
  refine ⟨hashNode, (Lib.find?_eq_some_iff_key (hashMatches_iff lawful ok _)
    (ok.distinct _)).mpr ⟨?_, same⟩, rfl⟩
  obtain ⟨factor, place⟩ := ok.placed i hashNode inside
  have keyOf : funcs.nodeKey hashNode = key := same
  rw [← keyOf, ← factor, place]
  exact inside

theorem hashFind_eq_none_iff (lawful : funcs.Lawful) (ok : HashOk funcs hash) :
    hashFind funcs hash key = none ↔ ∀ node ∈ hashWalk hash, funcs.key node ≠ key := by
  rw [eq_none_iff_forall_ne_some]
  constructor
  · exact fun missed node inside same =>
      missed node ((hashFind_eq_some_iff lawful ok).mpr ⟨inside, same⟩)
  intro absent node found
  obtain ⟨inside, same⟩ := (hashFind_eq_some_iff lawful ok).mp found
  exact absent node inside same

theorem hashInit_ok (mask : UINT) : HashOk funcs (hashInit mask) :=
  ⟨nofun, fun _ => Pairwise.nil⟩

theorem mem_update_bucket {i : Nat} {nodes : List (HashNode Node)} {j : Nat}
    {hashNode : HashNode Node} :
    hashNode ∈ update hash.pstBuckets i nodes j ↔
      j = i ∧ hashNode ∈ nodes ∨ j ≠ i ∧ hashNode ∈ hash.pstBuckets j := by
  by_cases same : j = i
  · rw [same, update_self]
    exact ⟨fun inside => .inl ⟨rfl, inside⟩, fun either =>
      either.elim And.right fun other => absurd rfl other.1⟩
  · rw [update_of_ne same]
    exact ⟨fun inside => .inr ⟨same, inside⟩, fun either =>
      either.elim (fun equal => absurd equal.1 same) And.right⟩

theorem HashPlaced.add (placed : HashPlaced funcs hash) :
    HashPlaced funcs (hashAdd funcs hash node) := by
  intro i hashNode inside
  rcases mem_update_bucket.mp inside with ⟨rfl, added⟩ | ⟨-, old⟩
  · rcases mem_append.mp added with old | new
    · exact placed _ hashNode old
    · rw [mem_singleton.mp new]
      exact ⟨rfl, rfl⟩
  · exact placed i hashNode old

theorem HashPlaced.mem_hashWalk_add (placed : HashPlaced funcs hash) {other : Node} :
    other ∈ hashWalk (hashAdd funcs hash node) ↔ other = node ∨ other ∈ hashWalk hash := by
  rw [placed.add.mem_hashWalk, placed.mem_hashWalk]
  constructor
  · rintro ⟨i, hashNode, inside, rfl⟩
    rcases mem_update_bucket.mp inside with ⟨rfl, added⟩ | ⟨-, old⟩
    · rcases mem_append.mp added with old | new
      · exact .inr ⟨_, hashNode, old, rfl⟩
      · rw [mem_singleton.mp new]
        exact .inl rfl
    · exact .inr ⟨i, hashNode, old, rfl⟩
  rintro (rfl | ⟨i, hashNode, inside, rfl⟩)
  · exact ⟨_, ⟨_, other⟩, mem_update_bucket.mpr
      (.inl ⟨rfl, mem_append_right _ (mem_singleton_self _)⟩), rfl⟩
  refine ⟨i, hashNode, mem_update_bucket.mpr ?_, rfl⟩
  by_cases same : i = hashIndex hash (funcs.pfHashIndexFunc (funcs.key node))
  · exact .inl ⟨same, mem_append_left _ (same ▸ inside)⟩
  · exact .inr ⟨same, inside⟩

theorem HashOk.add (lawful : funcs.Lawful) (ok : HashOk funcs hash)
    (absent : hashFind funcs hash (funcs.key node) = none) :
    HashOk funcs (hashAdd funcs hash node) := by
  constructor
  · exact HashPlaced.add ok.placed
  intro i
  simp only [hashAdd]
  by_cases same : i = hashIndex hash (funcs.pfHashIndexFunc (funcs.key node))
  · rw [same, update_self]
    refine (ok.distinct _).append_singleton fun other inside equal => ?_
    exact (hashFind_eq_none_iff lawful ok).mp absent other.node
      ((mem_hashWalk ok).mpr ⟨_, other, inside, rfl⟩) equal
  · rw [update_of_ne same]
    exact ok.distinct i

theorem mem_hashWalk_add (ok : HashOk funcs hash) {other : Node} :
    other ∈ hashWalk (hashAdd funcs hash node) ↔ other = node ∨ other ∈ hashWalk hash :=
  HashPlaced.mem_hashWalk_add ok.placed

theorem HashOk.index_of_key (ok : HashOk funcs hash) {i : Nat} {hashNode : HashNode Node}
    (inside : hashNode ∈ hash.pstBuckets i) (same : funcs.nodeKey hashNode = key) :
    i = hashIndex hash (funcs.pfHashIndexFunc key) := by
  obtain ⟨factor, place⟩ := ok.placed i hashNode inside
  rw [← place, factor, same]

section Update

variable {change : Node → Node} (lawful : funcs.Lawful) (ok : HashOk funcs hash)

include lawful ok

theorem mem_updated_bucket {i : Nat} {hashNode : HashNode Node} :
    hashNode ∈ (hashUpdate funcs hash key change).pstBuckets i ↔
      (∃ old ∈ hash.pstBuckets i, funcs.nodeKey old = key ∧
        hashNode = { old with node := change old.node }) ∨
      hashNode ∈ hash.pstBuckets i ∧ funcs.nodeKey hashNode ≠ key := by
  have updated := @Lib.mem_updateFirst _ _ funcs.nodeKey key _ _
    (hashMatches_iff lawful ok (hashIndex hash (funcs.pfHashIndexFunc key))) (ok.distinct _)
    (fun node => { node with node := change node.node }) hashNode
  simp only [hashUpdate]
  rw [mem_update_bucket, updated]
  by_cases same : i = hashIndex hash (funcs.pfHashIndexFunc key)
  · rw [same]
    exact ⟨fun either => either.elim And.right fun other => absurd rfl other.1,
      fun changed => .inl ⟨rfl, changed⟩⟩
  have other : ∀ node ∈ hash.pstBuckets i, funcs.nodeKey node ≠ key :=
    fun node inside equal => same (ok.index_of_key inside equal)
  constructor
  · rintro (⟨equal, -⟩ | ⟨-, inside⟩)
    · exact absurd equal same
    · exact .inr ⟨inside, other _ inside⟩
  · rintro (⟨old, inside, equal, -⟩ | ⟨inside, -⟩)
    · exact absurd equal (other old inside)
    · exact .inr ⟨same, inside⟩

variable (keeps : ∀ node, funcs.key (change node) = funcs.key node)

include keeps

theorem HashOk.update : HashOk funcs (hashUpdate funcs hash key change) := by
  constructor
  · intro i hashNode inside
    rcases (mem_updated_bucket lawful ok).mp inside with ⟨old, oldInside, -, rfl⟩ | ⟨kept, -⟩
    · obtain ⟨factor, place⟩ := ok.placed i old oldInside
      refine ⟨factor.trans ?_, place⟩
      rw [HashFuncs.nodeKey, HashFuncs.nodeKey, keeps]
    · exact ok.placed i hashNode kept
  intro i
  simp only [hashUpdate]
  by_cases same : i = hashIndex hash (funcs.pfHashIndexFunc key)
  · rw [same, update_self]
    exact (ok.distinct _).updateFirst fun node => keeps node.node
  · rw [update_of_ne same]
    exact ok.distinct i

theorem mem_hashWalk_update {other : Node} :
    other ∈ hashWalk (hashUpdate funcs hash key change) ↔
      (∃ node ∈ hashWalk hash, funcs.key node = key ∧ other = change node) ∨
        other ∈ hashWalk hash ∧ funcs.key other ≠ key := by
  rw [mem_hashWalk (ok.update lawful keeps)]
  simp only [mem_updated_bucket lawful ok, mem_hashWalk ok]
  constructor
  · rintro ⟨i, hashNode, ⟨old, inside, same, rfl⟩ | ⟨inside, different⟩, rfl⟩
    · exact .inl ⟨old.node, ⟨i, old, inside, rfl⟩, same, rfl⟩
    · exact .inr ⟨⟨i, hashNode, inside, rfl⟩, different⟩
  · rintro (⟨_, ⟨i, old, inside, rfl⟩, same, rfl⟩ | ⟨⟨i, hashNode, inside, rfl⟩, different⟩)
    · exact ⟨i, _, .inl ⟨old, inside, same, rfl⟩, rfl⟩
    · exact ⟨i, hashNode, .inr ⟨inside, different⟩, rfl⟩

end Update

section Delete

variable (lawful : funcs.Lawful) (ok : HashOk funcs hash)

include lawful ok

theorem mem_deleted_bucket {i : Nat} {hashNode : HashNode Node} :
    hashNode ∈ (hashDel funcs hash key).pstBuckets i ↔
      hashNode ∈ hash.pstBuckets i ∧ funcs.nodeKey hashNode ≠ key := by
  have erased := @Lib.mem_eraseP_iff _ _ funcs.nodeKey key _ _
    (hashMatches_iff lawful ok (hashIndex hash (funcs.pfHashIndexFunc key))) (ok.distinct _) hashNode
  simp only [hashDel]
  rw [mem_update_bucket, erased]
  by_cases same : i = hashIndex hash (funcs.pfHashIndexFunc key)
  · rw [same]
    exact ⟨fun either => either.elim And.right fun other => absurd rfl other.1,
      fun kept => .inl ⟨rfl, kept⟩⟩
  constructor
  · rintro (⟨equal, -⟩ | ⟨-, inside⟩)
    · exact absurd equal same
    · exact ⟨inside, fun equal => same (ok.index_of_key inside equal)⟩
  · exact fun kept => .inr ⟨same, kept.1⟩

theorem HashOk.del : HashOk funcs (hashDel funcs hash key) := by
  constructor
  · exact fun i hashNode inside => ok.placed i hashNode ((mem_deleted_bucket lawful ok).mp inside).1
  intro i
  simp only [hashDel]
  by_cases same : i = hashIndex hash (funcs.pfHashIndexFunc key)
  · rw [same, update_self]
    exact (ok.distinct _).eraseP _
  · rw [update_of_ne same]
    exact ok.distinct i

theorem mem_hashWalk_del {other : Node} :
    other ∈ hashWalk (hashDel funcs hash key) ↔ other ∈ hashWalk hash ∧ funcs.key other ≠ key := by
  rw [mem_hashWalk (ok.del lawful)]
  simp only [mem_deleted_bucket lawful ok, mem_hashWalk ok]
  constructor
  · rintro ⟨i, hashNode, ⟨inside, different⟩, rfl⟩
    exact ⟨⟨i, hashNode, inside, rfl⟩, different⟩
  · rintro ⟨⟨i, hashNode, inside, rfl⟩, different⟩
    exact ⟨i, hashNode, ⟨inside, different⟩, rfl⟩

theorem hashDelNode_eq [DecidableEq Node] {node : Node} (inside : node ∈ hashWalk hash) :
    hashDelNode funcs hash node = hashDel funcs hash (funcs.key node) := by
  obtain ⟨-, hashNode, -, rfl⟩ := (mem_hashWalk ok).mp inside
  have same (other : HashNode Node) (present : other ∈ hash.pstBuckets
      (hashIndex hash (funcs.pfHashIndexFunc (funcs.key hashNode.node)))) :
      decide (other.node = hashNode.node) = hashMatches funcs (funcs.key hashNode.node) other := by
    rw [Bool.eq_iff_iff, decide_eq_true_iff, hashMatches_iff lawful ok _ other present]
    constructor
    · intro equal
      rw [HashFuncs.nodeKey, equal]
    intro equal
    have found := (hashFind_eq_some_iff lawful ok).mpr
      ⟨(mem_hashWalk ok).mpr ⟨_, other, present, rfl⟩, equal⟩
    have foundSame := (hashFind_eq_some_iff lawful ok).mpr ⟨inside, rfl⟩
    exact some.inj (found.symm.trans foundSame)
  have buckets : (hash.pstBuckets
        (hashIndex hash (funcs.pfHashIndexFunc (funcs.key hashNode.node)))).eraseP
          (fun other => decide (other.node = hashNode.node)) =
      (hash.pstBuckets (hashIndex hash (funcs.pfHashIndexFunc (funcs.key hashNode.node)))).eraseP
        (hashMatches funcs (funcs.key hashNode.node)) := by
    generalize hash.pstBuckets _ = nodes at same
    induction nodes with
    | nil => rfl
    | cons head _ ih =>
      rw [eraseP_cons, eraseP_cons, same head mem_cons_self,
        ih fun other present => same other (mem_cons_of_mem _ present)]
  simp [hashDelNode, hashDel, buckets]

end Delete

section Lookup

variable [DecidableEq Key] (lawful : funcs.Lawful) (ok : HashOk funcs hash)

include lawful ok

theorem hashFind_add (absent : hashFind funcs hash (funcs.key node) = none) :
    hashFind funcs (hashAdd funcs hash node) =
      update (hashFind funcs hash) (funcs.key node) (some node) := by
  funext other
  apply ext
  intro found
  rw [hashFind_eq_some_iff lawful (ok.add lawful absent), mem_hashWalk_add ok]
  by_cases same : other = funcs.key node
  · subst same
    rw [update_self, some.injEq, eq_comm (a := node)]
    constructor
    · rintro ⟨rfl | inside, equal⟩
      · rfl
      · exact absurd equal ((hashFind_eq_none_iff lawful ok).mp absent found inside)
    · rintro rfl
      exact ⟨.inl rfl, rfl⟩
  · rw [update_of_ne same, hashFind_eq_some_iff lawful ok]
    constructor
    · rintro ⟨rfl | inside, equal⟩
      · exact absurd equal.symm same
      · exact ⟨inside, equal⟩
    · exact fun ⟨inside, equal⟩ => ⟨.inr inside, equal⟩

theorem hashFind_update {change : Node → Node}
    (keeps : ∀ node, funcs.key (change node) = funcs.key node) :
    hashFind funcs (hashUpdate funcs hash key change) =
      update (hashFind funcs hash) key ((hashFind funcs hash key).map change) := by
  funext other
  apply ext
  intro found
  rw [hashFind_eq_some_iff lawful (ok.update lawful keeps), mem_hashWalk_update lawful ok keeps]
  by_cases same : other = key
  · subst same
    rw [update_self, map_eq_some_iff]
    simp only [hashFind_eq_some_iff lawful ok]
    constructor
    · rintro ⟨⟨node, inside, equal, rfl⟩ | ⟨-, differs⟩, isKey⟩
      · exact ⟨node, ⟨inside, equal⟩, rfl⟩
      · exact absurd isKey differs
    · rintro ⟨node, ⟨inside, equal⟩, rfl⟩
      exact ⟨.inl ⟨node, inside, equal, rfl⟩, (keeps node).trans equal⟩
  · rw [update_of_ne same, hashFind_eq_some_iff lawful ok]
    constructor
    · rintro ⟨⟨node, _, equal, rfl⟩ | ⟨inside, -⟩, isKey⟩
      · exact absurd (isKey.symm.trans ((keeps node).trans equal)) same
      · exact ⟨inside, isKey⟩
    · exact fun ⟨inside, equal⟩ => ⟨.inr ⟨inside, fun isKey => same (equal.symm.trans isKey)⟩, equal⟩

theorem hashUpdate_at (change : Node → Node) :
    hashUpdate funcs hash key change =
      hashUpdate funcs hash key fun node => if funcs.key node = key then change node else node := by
  simp only [hashUpdate]
  congr 2
  apply Lib.updateFirst_congr
  intro hashNode inside passes
  have isKey : funcs.key hashNode.node = key :=
    (hashMatches_iff lawful ok _ hashNode inside).mp passes
  rw [if_pos isKey]

section UpdateAt

variable {change : Node → Node} (keeps : ∀ node, funcs.key node = key → funcs.key (change node) = key)

include keeps

omit lawful ok in
theorem key_updateAt (node : Node) :
    funcs.key (if funcs.key node = key then change node else node) = funcs.key node := by
  split
  · next same => rw [keeps node same, same]
  · rfl

theorem HashOk.updateAt : HashOk funcs (hashUpdate funcs hash key change) := by
  rw [hashUpdate_at lawful ok]
  exact ok.update lawful (key_updateAt keeps)

theorem hashFind_updateAt :
    hashFind funcs (hashUpdate funcs hash key change) =
      update (hashFind funcs hash) key ((hashFind funcs hash key).map change) := by
  rw [hashUpdate_at lawful ok, hashFind_update lawful ok (key_updateAt keeps)]
  cases found : hashFind funcs hash key with
  | none => rfl
  | some =>
    have isKey := ((hashFind_eq_some_iff lawful ok).mp found).2
    simp [isKey]

end UpdateAt

theorem hashFind_del :
    hashFind funcs (hashDel funcs hash key) = update (hashFind funcs hash) key none := by
  funext other
  apply ext
  intro found
  rw [hashFind_eq_some_iff lawful (ok.del lawful), mem_hashWalk_del lawful ok]
  by_cases same : other = key
  · subst same
    simp
  rw [update_of_ne same, hashFind_eq_some_iff lawful ok]
  constructor
  · exact fun ⟨⟨inside, _⟩, equal⟩ => ⟨inside, equal⟩
  · exact fun ⟨inside, equal⟩ => ⟨⟨inside, fun isKey => same (equal.symm.trans isKey)⟩, equal⟩

end Lookup

section Undo

variable (absent : hashFind funcs hash (funcs.key node) = none)
  (self : funcs.pfCmpFunc (funcs.key node) (funcs.key node) = 0)

include absent

theorem hashMatches_absent :
    ∀ hashNode ∈ hash.pstBuckets (hashIndex hash (funcs.pfHashIndexFunc (funcs.key node))),
      ¬ hashMatches funcs (funcs.key node) hashNode := by
  rw [hashFind, map_eq_none_iff] at absent
  exact find?_eq_none.mp absent

include self

theorem hashFind_add_absent :
    hashFind funcs (hashAdd funcs hash node) (funcs.key node) = some node := by
  have missed := absent
  rw [hashFind, map_eq_none_iff] at missed
  have isNew : hashMatches funcs (funcs.key node)
      ⟨funcs.pfHashIndexFunc (funcs.key node), node⟩ = true := by
    simp [hashMatches, self]
  simp only [hashFind, hashAdd, hashIndex, update_self]
  change Option.map _ (find? _ (hash.pstBuckets (hashIndex hash _) ++ _)) = _
  rw [find?_append, missed]
  simp [isNew]

theorem hashDel_add : hashDel funcs (hashAdd funcs hash node) (funcs.key node) = hash := by
  have isNew : hashMatches funcs (funcs.key node)
      ⟨funcs.pfHashIndexFunc (funcs.key node), node⟩ = true := by
    simp [hashMatches, self]
  have erased := eraseP_append_right (p := hashMatches funcs (funcs.key node))
    [⟨funcs.pfHashIndexFunc (funcs.key node), node⟩] (hashMatches_absent absent)
  rw [eraseP_cons, isNew] at erased
  simp only [hashIndex] at erased
  simp only [hashDel, hashAdd, hashIndex, update_self, update_idem, erased]
  simp [BitVec.add_sub_cancel]

end Undo

theorem hashDelAll_bucket_sublist (i : Nat) :
    ((hashDelAll hash).pstBuckets i).Sublist (hash.pstBuckets i) := by
  unfold hashDelAll
  split
  · exact Sublist.refl _
  simp only
  split
  · exact nil_sublist _
  · exact Sublist.refl _

theorem hashDelAll_mask : (hashDelAll hash).mask = hash.mask := by
  unfold hashDelAll
  split <;> rfl

theorem HashOk.delAll (ok : HashOk funcs hash) : HashOk funcs (hashDelAll hash) := by
  constructor
  · intro i hashNode inside
    obtain ⟨factor, place⟩ := ok.placed i hashNode ((hashDelAll_bucket_sublist i).subset inside)
    refine ⟨factor, ?_⟩
    rw [hashIndex, hashDelAll_mask]
    exact place
  · exact fun i => (ok.distinct i).sublist (hashDelAll_bucket_sublist i)

theorem mem_of_mem_hashWalk_delAll (ok : HashOk funcs hash)
    (inside : node ∈ hashWalk (hashDelAll hash)) : node ∈ hashWalk hash := by
  obtain ⟨i, hashNode, inBucket, rfl⟩ := (mem_hashWalk ok.delAll).mp inside
  exact (mem_hashWalk ok).mpr ⟨i, hashNode, (hashDelAll_bucket_sublist i).subset inBucket, rfl⟩

section UpdateAll

variable {change : Node → Node} (ok : HashOk funcs hash)
  (keeps : ∀ node, funcs.key (change node) = funcs.key node)

theorem hashUpdateAll_bucket (change : Node → Node) (ok : HashOk funcs hash) (i : Nat) :
    (hashUpdateAll hash change).pstBuckets i =
      (hash.pstBuckets i).map fun node => { node with node := change node.node } := by
  simp only [hashUpdateAll]
  split
  · rfl
  next beyond =>
  -- No node is placed behind the last bucket.
  have empty : hash.pstBuckets i = [] := by
    rw [eq_nil_iff_forall_not_mem]
    intro hashNode inside
    have place := (ok.placed i hashNode inside).2
    exact beyond (place ▸ hashIndex_le _)
  rw [empty, map_nil]

include ok keeps

theorem HashOk.updateAll : HashOk funcs (hashUpdateAll hash change) := by
  constructor
  · intro i hashNode inside
    rw [hashUpdateAll_bucket change ok, List.mem_map] at inside
    obtain ⟨old, oldInside, rfl⟩ := inside
    obtain ⟨factor, place⟩ := ok.placed i old oldInside
    refine ⟨factor.trans ?_, place⟩
    rw [HashFuncs.nodeKey, HashFuncs.nodeKey, keeps]
  · intro i
    rw [hashUpdateAll_bucket change ok]
    exact (ok.distinct i).map fun node => keeps node.node

theorem mem_hashWalk_updateAll {other : Node} :
    other ∈ hashWalk (hashUpdateAll hash change) ↔ ∃ node ∈ hashWalk hash, other = change node := by
  rw [mem_hashWalk (ok.updateAll keeps)]
  simp only [hashUpdateAll_bucket change ok, List.mem_map, mem_hashWalk ok]
  constructor
  · rintro ⟨i, _, ⟨old, inside, rfl⟩, rfl⟩
    exact ⟨old.node, ⟨i, old, inside, rfl⟩, rfl⟩
  · rintro ⟨_, ⟨i, old, inside, rfl⟩, rfl⟩
    exact ⟨i, _, ⟨old, inside, rfl⟩, rfl⟩

end UpdateAll

end MyCode.Hash
