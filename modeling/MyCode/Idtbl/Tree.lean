import MyCode.Avl.Contents
import MyCode.Idtbl.Reference

/-!
# Id tables in AVL trees

The tree compares the low word of the id of a call with the whole ids of its nodes.
-/

namespace MyCode.Idtbl

open Avl Lib Lib.BinTree Function List

variable {Data : Type} {contents : Contents Data} {id : UINT64} {data : Data}

/-- The low word of an id is the id, or is no id of the map. -/
def LowWordOk (contents : Contents Data) (id : UINT64) : Prop :=
  UINT_HANDLE id = id ∨ contents (UINT_HANDLE id) = none

/-- Ids that are added have 32 bits, what the low word of another id leads to is not there,
the nodes can be allocated, the ancestors fit, and only an empty table is reset. -/
def AvlMeets (state : IdtblAvl Data × Contents Data) : IdtblCall Data → Prop
  | .add id _ memory => memory = true ∧ UINT_HANDLE id = id ∧
      avlInsertCount state.1.avl_root (idtblAvlCmp (UINT_HANDLE id)) ≤ AVL_MAX_HEIGHT
  | .get id => LowWordOk state.2 id
  | .del id => LowWordOk state.2 id ∧
      avlDeleteCount state.1.avl_root (idtblAvlCmp (UINT_HANDLE id)) ≤ AVL_MAX_HEIGHT
  | .reset _ => ∀ id, state.2 id = none

structure AvlHolds (ctrl : IdtblAvl Data) (contents : Contents Data) : Prop where
  balanced : ∃ height, IsAvl height ctrl.avl_root
  sorted : ctrl.avl_root.inorder.Pairwise fun first second => first.id < second.id
  short : ∀ node ∈ ctrl.avl_root.inorder, UINT_HANDLE node.id = node.id
  data : ∀ id data, contents id = some data ↔ ⟨id, data⟩ ∈ ctrl.avl_root.inorder

variable {avl : IdtblAvl Data} {node : IdtblAvlNode Data}

theorem idtblAvlCmp_spec (id : UINT64) (node : IdtblAvlNode Data) :
    (idtblAvlCmp (UINT_HANDLE id) node = 0 ↔ node.id = UINT_HANDLE id) ∧
      (idtblAvlCmp (UINT_HANDLE id) node < 0 ↔ UINT_HANDLE id < node.id) ∧
      (0 < idtblAvlCmp (UINT_HANDLE id) node ↔ node.id < UINT_HANDLE id) := by
  have isKey : (HANDLE_UINT (UINT_HANDLE id)).setWidth 64 = UINT_HANDLE id := by
    simp [HANDLE_UINT, UINT_HANDLE]
  simp only [idtblAvlCmp, isKey]
  split
  · next same =>
    rw [same]
    simp
  next differs =>
  split
  · next greater =>
    refine ⟨?_, ?_, ?_⟩
    · simpa using differs
    · bv_omega
    · simpa using greater
  next smaller =>
  refine ⟨?_, ?_, ?_⟩
  · simpa using differs
  · bv_omega
  · bv_omega

section

variable (holds : AvlHolds avl contents)

include holds

theorem AvlHolds.ascends (id : UINT64) :
    Ascends (idtblAvlCmp (UINT_HANDLE id)) avl.avl_root.inorder := by
  apply holds.sorted.imp
  intro first second before notAfter
  rw [(idtblAvlCmp_spec id second).2.1]
  have notAfterFirst : ¬ first.id < UINT_HANDLE id := by
    rw [← (idtblAvlCmp_spec id first).2.2]
    omega
  bv_omega

theorem AvlHolds.absent
    (differs : ∀ node ∈ avl.avl_root.inorder, idtblAvlCmp (UINT_HANDLE id) node ≠ 0) :
    contents id = none := by
  cases held : contents id with
  | none => rfl
  | some data =>
    have inside := (holds.data id data).mp held
    have short := holds.short _ inside
    exact absurd ((idtblAvlCmp_spec id _).1.mpr short.symm) (differs _ inside)

theorem AvlHolds.present (low : LowWordOk contents id)
    (inside : node ∈ avl.avl_root.inorder) (zero : idtblAvlCmp (UINT_HANDLE id) node = 0) :
    node.id = id ∧ contents id = some node.data := by
  have isLow := (idtblAvlCmp_spec id node).1.mp zero
  have held := (holds.data node.id node.data).mpr inside
  rcases low with exact' | missing
  · rw [exact'] at isLow
    rw [isLow] at held
    exact ⟨isLow, held⟩
  · rw [isLow, missing] at held
    cases held

theorem AvlHolds.insert (short : UINT_HANDLE id = id)
    {first second : List (IdtblAvlNode Data)} {tree : AvlTree (IdtblAvlNode Data)} {height : Int}
    (order : avl.avl_root.inorder = first ++ second)
    (before : ∀ node ∈ first, 0 < idtblAvlCmp (UINT_HANDLE id) node)
    (after : ∀ node ∈ second, idtblAvlCmp (UINT_HANDLE id) node < 0) (balanced : IsAvl height tree)
    (inserted : tree.inorder = first ++ ⟨id, data⟩ :: second) :
    AvlHolds ⟨tree⟩ (update contents id (some data)) := by
  have sorted := holds.sorted
  rw [order, pairwise_append] at sorted
  have beforeId : ∀ node ∈ first, node.id < id := fun node inside =>
    short ▸ (idtblAvlCmp_spec id node).2.2.mp (before node inside)
  have afterId : ∀ node ∈ second, id < node.id := fun node inside =>
    short ▸ (idtblAvlCmp_spec id node).2.1.mp (after node inside)
  refine ⟨⟨height, balanced⟩, ?_, ?_, ?_⟩
  · simp only [inserted]
    refine pairwise_append.mpr ⟨sorted.1, pairwise_cons.mpr ⟨afterId, sorted.2.1⟩, ?_⟩
    intro earlier inFirst later inRest
    rcases mem_cons.mp inRest with rfl | inSecond
    · exact beforeId earlier inFirst
    · exact sorted.2.2 earlier inFirst later inSecond
  · intro node inside
    simp only [inserted, mem_append, mem_cons] at inside
    rcases inside with inFirst | rfl | inSecond
    · exact holds.short node (by rw [order]; exact mem_append_left _ inFirst)
    · exact short
    · exact holds.short node (by rw [order]; exact mem_append_right _ inSecond)
  intro other value
  simp only [inserted]
  by_cases same : other = id
  · rw [same, update_self]
    have notFirst : (⟨id, value⟩ : IdtblAvlNode Data) ∉ first := fun inside => by
      have less := beforeId _ inside
      exact absurd less (by bv_omega)
    have notSecond : (⟨id, value⟩ : IdtblAvlNode Data) ∉ second := fun inside => by
      have less := afterId _ inside
      exact absurd less (by bv_omega)
    simp only [mem_append, mem_cons, notFirst, notSecond, or_false, false_or,
      IdtblAvlNode.mk.injEq, true_and, Option.some.injEq]
    exact eq_comm
  · rw [update_of_ne same, holds.data, order]
    simp [same]

theorem AvlHolds.delete
    {first second : List (IdtblAvlNode Data)} {tree : AvlTree (IdtblAvlNode Data)} {height : Int}
    (order : avl.avl_root.inorder = first ++ node :: second) (balanced : IsAvl height tree)
    (deleted : tree.inorder = first ++ second) :
    AvlHolds ⟨tree⟩ (update contents node.id none) := by
  have kept : (first ++ second).Sublist avl.avl_root.inorder := by
    rw [order]
    exact (sublist_cons_self node second).append_left first
  have sorted := holds.sorted
  rw [order, pairwise_append, pairwise_cons] at sorted
  refine ⟨⟨height, balanced⟩, ?_, ?_, ?_⟩
  · simp only [deleted]
    exact holds.sorted.sublist kept
  · intro other inside
    simp only [deleted] at inside
    exact holds.short other (kept.subset inside)
  intro other value
  simp only [deleted]
  by_cases same : other = node.id
  · rw [same, update_self]
    have notFirst : (⟨node.id, value⟩ : IdtblAvlNode Data) ∉ first := fun inside => by
      have less := sorted.2.2 _ inside node mem_cons_self
      exact absurd less (by bv_omega)
    have notSecond : (⟨node.id, value⟩ : IdtblAvlNode Data) ∉ second := fun inside => by
      have less := sorted.2.1.1 _ inside
      exact absurd less (by bv_omega)
    simp [notFirst, notSecond]
  · have apart : (⟨other, value⟩ : IdtblAvlNode Data) ≠ node := fun equal =>
      same (congrArg IdtblAvlNode.id equal)
    rw [update_of_ne same, holds.data, order]
    simp [apart]

end

theorem idtblAvlCreate_holds : AvlHolds (idtblAvlCreate : IdtblAvl Data) noContents :=
  ⟨⟨0, .nil⟩, .nil, nofun, fun _ _ =>
    ⟨nofun, nofun⟩⟩

theorem AvlHolds.eq_nil (holds : AvlHolds avl contents) (empty : ∀ id, contents id = none) :
    avl = idtblAvlCreate := by
  obtain ⟨root⟩ := avl
  cases root with
  | nil => rfl
  | node _ pstNode =>
    have held := (holds.data pstNode.id pstNode.data).mpr (by simp [inorder])
    rw [empty] at held
    cases held

theorem idtblAvl_advances {call : IdtblCall Data} (holds : AvlHolds avl contents)
    (met : AvlMeets (avl, contents) call) : Advances idtblAvlFuncs AvlHolds avl contents call := by
  obtain ⟨_, balanced⟩ := holds.balanced
  cases call with
  | add id data _ =>
    obtain ⟨rfl, short, room⟩ := met
    simp only [Advances, IdtblFuncs.call, idtblAvlFuncs, idtblAvlAdd]
    rcases avlInsert_cases ⟨id, data⟩ balanced (holds.ascends id) room with
      ⟨node, inside, zero, inserted⟩ |
      ⟨_, _, tree, _, order, before, after, inserted, treeOk, place⟩
    · obtain ⟨-, held⟩ := holds.present (.inl short) inside zero
      refine ⟨avl, .status .alreadyExist, by simp [inserted], ?_, ?_⟩
      · simp [IdtblCall.Answers, held]
      · simpa [IdtblCall.leaves, held] using holds
    have absent : contents id = none := by
      apply holds.absent
      intro node inside
      rw [order] at inside
      rcases mem_append.mp inside with inFirst | inSecond
      · exact (before node inFirst).ne'
      · exact (after node inSecond).ne
    refine ⟨⟨tree⟩, .status .ok, by simp [inserted], ?_, ?_⟩
    · simp [IdtblCall.Answers, absent]
    · simp only [IdtblCall.leaves, absent]
      exact holds.insert short order before after treeOk place
  | get id =>
    simp only [Advances, IdtblFuncs.call, idtblAvlFuncs, idtblAvlGet]
    refine ⟨avl, .data (contents id), ?_, rfl, holds⟩
    rcases avlSearch_cases (holds.ascends id) with ⟨missed, differs⟩ | ⟨_, inside, found, zero⟩
    · rw [missed, holds.absent differs]
      rfl
    · rw [found, (holds.present met inside zero).2]
      rfl
  | del id =>
    obtain ⟨low, room⟩ := met
    simp only [Advances, IdtblFuncs.call, idtblAvlFuncs, idtblAvlDel]
    rcases avlDelete_cases balanced (holds.ascends id) room with
      ⟨differs, missed⟩ | ⟨_, node, _, tree, _, order, zero, deleted, treeOk, place⟩
    · have absent := holds.absent differs
      refine ⟨avl, .data (contents id), by simp [missed, absent], rfl, ?_⟩
      rw [IdtblCall.leaves, update_eq_self_iff.mpr absent.symm]
      exact holds
    have inside : node ∈ avl.avl_root.inorder := by
      rw [order]
      exact mem_append_right _ mem_cons_self
    obtain ⟨rfl, held⟩ := holds.present low inside zero
    exact ⟨⟨tree⟩, .data (contents node.id), by simp [deleted, held], rfl,
      holds.delete order treeOk place⟩
  | reset free_func =>
    obtain rfl := holds.eq_nil met
    have same : contents = noContents := funext met
    refine ⟨idtblAvlCreate, .freed [], rfl, ⟨[], rfl, ?_⟩, idtblAvlCreate_holds⟩
    cases free_func with
    | false => rfl
    | true =>
      rw [same]
      exact FreedOnce.nothing

end MyCode.Idtbl
