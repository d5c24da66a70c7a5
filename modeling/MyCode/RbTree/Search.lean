import MyCode.Lib.Turns
import MyCode.RbTree.Remove

/-!
# The way of a key

The comparisons with the nodes in order are positive, then zero, then negative, so that
each comparison tells on which side a key is.
-/

namespace MyCode.RbTree

open MyCode.Lib MyCode.Lib.BinTree List Option

def Guides (cmp_func : Nat → Int) (order : List Nat) : Prop :=
  order.Pairwise fun first second => (cmp_func first ≤ 0 → cmp_func second < 0) ∧
    (0 ≤ cmp_func second → 0 < cmp_func first)

variable {cmp_func : Nat → Int} {tree : RbTreeCtrl} {parent : Option Nat} {sub : BinTree Color Nat}
  {frames : List (Frame Color Nat)} {color : Color} {item turns : Nat} {left right : BinTree Color Nat}

theorem Guides.node (guides : Guides cmp_func (BinTree.node color item left right).inorder) :
    Guides cmp_func left.inorder ∧ Guides cmp_func right.inorder ∧
    (cmp_func item ≤ 0 → ∀ other ∈ right.inorder, cmp_func other < 0) ∧
    (0 ≤ cmp_func item → ∀ other ∈ left.inorder, 0 < cmp_func other) := by
  obtain ⟨leftGuides, rightGuides, apart⟩ := pairwise_append.mp guides
  obtain ⟨itemRight, rightGuides⟩ := pairwise_cons.mp rightGuides
  exact ⟨leftGuides, rightGuides, fun atMost other inside => (itemRight other inside).1 atMost,
    fun atLeast other inside => (apart other inside item mem_cons_self).2 atLeast⟩

theorem rbtreeSearch_finds (holds : tree.Holds parent sub) (guides : Guides cmp_func sub.inorder)
    (enough : sub.inorder.length < turns) :
    ∃ result, rbtreeSearch tree cmp_func turns sub.link = some result ∧
      (∀ found, result = some found → found ∈ sub.inorder ∧ cmp_func found = 0) ∧
      (result = none → ∀ other ∈ sub.inorder, cmp_func other ≠ 0) := by
  induction sub generalizing parent turns with
  | nil =>
    cases turns with
    | zero => cases enough
    | succ => exact ⟨none, rfl, by simp, by rintro _ _ ⟨⟩⟩
  | node _ item left right leftHypothesis rightHypothesis =>
    obtain ⟨isNode, leftHolds, rightHolds⟩ := holds
    obtain ⟨leftGuides, rightGuides, below, above⟩ := guides.node
    rw [inorder, length_append, length_cons] at enough
    cases turns with
    | zero => cases enough
    | succ turns =>
      have leftEnough : left.inorder.length < turns := by omega
      have rightEnough : right.inorder.length < turns := by omega
      rw [link, rbtreeSearch, isNode]
      by_cases isZero : cmp_func item = 0
      · refine ⟨some item, ?_, ?_, by simp⟩
        · simp [if_pos isZero]
        · rintro _ ⟨rfl⟩
          exact ⟨by simp [inorder], isZero⟩
      by_cases isLess : cmp_func item < 0
      · obtain ⟨result, searched, isFound, isNone⟩ := leftHypothesis leftHolds leftGuides leftEnough
        refine ⟨result, ?_, fun found same => ?_, fun same other inside => ?_⟩
        · simp only [if_neg isZero, if_pos isLess]
          exact searched
        · obtain ⟨inside, zero⟩ := isFound found same
          exact ⟨by simp [inorder, inside], zero⟩
        simp only [inorder, mem_append, mem_cons] at inside
        rcases inside with inLeft | rfl | inRight
        · exact isNone same other inLeft
        · exact isZero
        · exact Int.ne_of_lt (below (Int.le_of_lt isLess) other inRight)
      obtain ⟨result, searched, isFound, isNone⟩ := rightHypothesis rightHolds rightGuides rightEnough
      refine ⟨result, ?_, fun found same => ?_, fun same other inside => ?_⟩
      · simp only [if_neg isZero, if_neg isLess]
        exact searched
      · obtain ⟨inside, zero⟩ := isFound found same
        exact ⟨by simp [inorder, inside], zero⟩
      simp only [inorder, mem_append, mem_cons] at inside
      rcases inside with inLeft | rfl | inRight
      · exact Int.ne_of_gt (above (by omega) other inLeft)
      · exact isZero
      · exact isNone same other inRight

theorem rbtreeSearch_ends {height : Nat} (cmp_func : Nat → Int) (ok : IsRb color height sub) (holds : tree.Holds parent sub)
    (enough : 2 * height + (if color = .red then 2 else 1) ≤ turns) :
    (rbtreeSearch tree cmp_func turns sub.link).isSome := by
  induction ok generalizing parent turns with
  | nil =>
    cases turns with
    | zero => simp at enough
    | succ => rfl
  | red _ _ left right | black _ _ left right =>
    obtain ⟨isNode, leftHolds, rightHolds⟩ := holds
    cases turns with
    | zero => simp at enough
    | succ turns =>
      rw [link, rbtreeSearch, isNode]
      split
      · rfl
      split
      · exact left leftHolds (by split <;> simp_all <;> omega)
      · exact right rightHolds (by split <;> simp_all <;> omega)

theorem rbtreeMinimum_first (holds : tree.Holds parent (.node color x left right))
    (enough : (BinTree.node color x left right).inorder.length < turns) :
    ∃ first rest, (BinTree.node color x left right).inorder = first :: rest ∧
      rbtreeMinimum tree turns x = some first := by
  obtain ⟨frames, _, first, below, isPlug, allLeft, found⟩ :=
    RbTreeCtrl.rbtreeMinimum_leftmost holds
  rw [isPlug] at enough ⊢
  refine ⟨first, _, by rw [inorder_plug, before_of_left allLeft]; rfl, found turns ?_⟩
  exact Nat.lt_of_le_of_lt (length_le_plug _ _) enough

theorem rbtreeNextLoop_climbs (there : tree.At frames sub) (isLink : sub.link = some x)
    (enough : frames.length < turns) :
    rbtreeNextLoop tree turns x (above frames) = some (after frames).head? := by
  induction frames generalizing sub x turns with
  | nil =>
    cases turns with
    | zero => cases enough
    | succ => rfl
  | cons frame rest ih =>
    obtain ⟨side, color, y, far⟩ := frame
    cases turns with
    | zero => cases enough
    | succ turns =>
      have isNode := there.surrounds.1
      cases side with
      | left =>
        have apart : far.link ≠ some x := fun isFar =>
          disjoint_of_nodup_append there.nodup (mem_of_link isLink)
            (by simp [around, mem_of_link isFar])
        rw [above, rbtreeNextLoop, isNode]
        exact if_neg apart
      | right =>
        rw [above, rbtreeNextLoop, isNode]
        exact (if_pos isLink).trans (ih there.up (link_mk ..) (Nat.lt_of_succ_lt_succ enough))

theorem rbtreeNext_follows (there : tree.At frames (.node color x left right))
    (enough : (plug frames (.node color x left right)).inorder.length < turns) :
    rbtreeNext turns tree x = some (right.inorder ++ after frames).head? := by
  have within := length_le_plug frames (.node color x left right)
  rw [rbtreeNext, there.isNode]
  cases right with
  | nil => exact rbtreeNextLoop_climbs there rfl (by omega)
  | node =>
    rw [inorder_plug, inorder, length_append, length_append, length_append, length_cons] at enough
    obtain ⟨first, rest, isFirst, found⟩ :=
      rbtreeMinimum_first there.holds.2.2 (show _ < turns by omega)
    simp [link, found, isFirst]

def sideOf : List (Frame Color Nat) → Option Side
  | [] => none
  | frame :: _ => some frame.side

/-- The place of a key is between the smaller nodes and the greater ones. -/
structure Divides (cmp_func : Nat → Int) (frames : List (Frame Color Nat)) : Prop where
  before : ∀ other ∈ before frames, 0 < cmp_func other
  after : ∀ other ∈ BinTree.after frames, cmp_func other < 0

theorem Divides.toLeft (divides : Divides cmp_func frames) (isLess : cmp_func item < 0)
    (below : ∀ other ∈ right.inorder, cmp_func other < 0) :
    Divides cmp_func (⟨.left, color, item, right⟩ :: frames) where
  before := divides.before
  after other inside := by
    simp only [BinTree.after, cons_append, mem_cons, mem_append] at inside
    rcases inside with rfl | inRight | inAfter
    · exact isLess
    · exact below other inRight
    · exact divides.after other inAfter

theorem Divides.toRight (divides : Divides cmp_func frames) (isGreater : 0 < cmp_func item)
    (above : ∀ other ∈ left.inorder, 0 < cmp_func other) :
    Divides cmp_func (⟨.right, color, item, left⟩ :: frames) where
  before other inside := by
    simp only [BinTree.before, mem_append, mem_singleton] at inside
    rcases inside with (inBefore | inLeft) | rfl
    · exact divides.before other inBefore
    · exact above other inLeft
    · exact isGreater
  after := divides.after

/-- The walk of an insertion ends at a node with the key, or at its place; `cmp_ret_y` is the
comparison that led to the node above the place, not the one that led to the place. -/
theorem rbtreeInsertWalk_ends (holds : tree.Holds parent sub) (guides : Guides cmp_func sub.inorder)
    (divides : Divides cmp_func frames) {cmp_ret cmp_ret_y : Int}
    (last : cmp_ret < 0 ↔ sideOf frames = some .left)
    (lastButOne : cmp_ret_y < 0 ↔ sideOf frames.tail = some .left)
    (enough : sub.inorder.length < turns) :
    (∃ found ∈ sub.inorder, cmp_func found = 0 ∧
      rbtreeInsertWalk tree cmp_func turns sub.link (above frames) cmp_ret cmp_ret_y =
        some (.error .conflict)) ∨
    ∃ place ret, rbtreeInsertWalk tree cmp_func turns sub.link (above frames) cmp_ret cmp_ret_y =
        some (.ok (above place, ret)) ∧
      plug place .nil = plug frames sub ∧ Divides cmp_func place ∧
      (ret < 0 ↔ sideOf place.tail = some .left) := by
  induction sub generalizing parent turns frames cmp_ret cmp_ret_y with
  | nil =>
    cases turns with
    | zero => cases enough
    | succ => exact .inr ⟨frames, cmp_ret_y, rfl, rfl, divides, lastButOne⟩
  | node color item left right leftHypothesis rightHypothesis =>
    obtain ⟨isNode, leftHolds, rightHolds⟩ := holds
    obtain ⟨leftGuides, rightGuides, below, above⟩ := guides.node
    rw [inorder, length_append, length_cons] at enough
    cases turns with
    | zero => cases enough
    | succ turns =>
      have leftEnough : left.inorder.length < turns := by omega
      have rightEnough : right.inorder.length < turns := by omega
      rw [link, rbtreeInsertWalk, isNode]
      by_cases isLess : cmp_func item < 0
      · have nextLast : cmp_func item < 0 ↔
            sideOf (⟨.left, color, item, right⟩ :: frames) = some .left :=
          ⟨fun _ => rfl, fun _ => isLess⟩
        have nextDivides : Divides cmp_func (⟨.left, color, item, right⟩ :: frames) :=
          divides.toLeft isLess (below (Int.le_of_lt isLess))
        simp only [if_pos isLess]
        rcases leftHypothesis leftHolds leftGuides nextDivides nextLast last leftEnough with
          ⟨found, inside, zero, walked⟩ | ended
        · exact .inl ⟨found, by simp [inorder, inside], zero, walked⟩
        · exact .inr ended
      by_cases isGreater : 0 < cmp_func item
      · have nextLast : cmp_func item < 0 ↔
            sideOf (⟨.right, color, item, left⟩ :: frames) = some .left :=
          ⟨fun less => absurd less isLess, by rintro ⟨⟩⟩
        have nextDivides : Divides cmp_func (⟨.right, color, item, left⟩ :: frames) :=
          divides.toRight isGreater (above (Int.le_of_lt isGreater))
        simp only [if_neg isLess, if_pos isGreater]
        rcases rightHypothesis rightHolds rightGuides nextDivides nextLast last (by omega) with
          ⟨found, inside, zero, walked⟩ | ended
        · exact .inl ⟨found, by simp [inorder, inside], zero, walked⟩
        · exact .inr ended
      · refine .inl ⟨item, by simp [inorder], by omega, ?_⟩
        simp [if_neg isLess, if_neg isGreater]

theorem rbtreeSearch_grows (x : Option Nat) :
    Grows fun turns => rbtreeSearch tree cmp_func turns x := by
  intro turns result ended
  induction turns generalizing x with
  | zero => cases ended
  | succ _ ih =>
    cases x with
    | none => exact ended
    | some x =>
      simp only [rbtreeSearch] at ended ⊢
      by_cases isZero : cmp_func x = 0
      · simp only [if_pos isZero] at ended ⊢
        exact ended
      by_cases isLess : cmp_func x < 0
      · simp only [if_neg isZero, if_pos isLess] at ended ⊢
        exact ih _ ended
      · simp only [if_neg isZero, if_neg isLess] at ended ⊢
        exact ih _ ended

theorem rbtreeInsertWalk_grows (x y : Option Nat) (cmp_ret cmp_ret_y : Int) :
    Grows fun turns => rbtreeInsertWalk tree cmp_func turns x y cmp_ret cmp_ret_y := by
  intro turns result ended
  induction turns generalizing x y cmp_ret cmp_ret_y with
  | zero => cases ended
  | succ _ ih =>
    cases x with
    | none => exact ended
    | some x =>
      simp only [rbtreeInsertWalk] at ended ⊢
      by_cases isLess : cmp_func x < 0
      · simp only [if_pos isLess] at ended ⊢
        exact ih _ _ _ _ ended
      by_cases isGreater : 0 < cmp_func x
      · simp only [if_neg isLess, if_pos isGreater] at ended ⊢
        exact ih _ _ _ _ ended
      · simp only [if_neg isLess, if_neg isGreater] at ended ⊢
        exact ended

theorem rbtreeMinimum_grows (node : Nat) : Grows fun turns => rbtreeMinimum tree turns node := by
  intro turns result ended
  induction turns generalizing node with
  | zero => cases ended
  | succ _ ih =>
    simp only [rbtreeMinimum] at ended ⊢
    cases isLeft : (tree.node node).left with
    | none =>
      rw [isLeft] at ended
      exact ended
    | some left =>
      rw [isLeft] at ended
      exact ih left ended

theorem rbtreeInsertFixupLoop_grows (tree : RbTreeCtrl) (node : Nat) :
    Grows fun turns => rbtreeInsertFixupLoop turns tree node := by
  intro turns result ended
  induction turns generalizing tree node with
  | zero => cases ended
  | succ _ ih =>
    simp only [rbtreeInsertFixupLoop] at ended ⊢
    cases isParent : (tree.node node).parent with
    | none =>
      rw [isParent] at ended
      exact ended
    | some parent =>
      rw [isParent] at ended
      by_cases isRed : (tree.node parent).color = .red
      · simp only [if_pos isRed] at ended ⊢
        obtain ⟨gparent, isGparent, ended⟩ := bind_eq_some_iff.mp ended
        obtain ⟨next, turned, ended⟩ := bind_eq_some_iff.mp ended
        exact bind_eq_some_iff.mpr ⟨gparent, isGparent, bind_eq_some_iff.mpr
          ⟨next, turned, ih _ _ ended⟩⟩
      · simp only [if_neg isRed] at ended ⊢
        exact ended

theorem rbtreeDeleteFixupLoop_grows (tree : RbTreeCtrl) (node parent : Option Nat) :
    Grows fun turns => rbtreeDeleteFixupLoop turns tree node parent := by
  intro turns result ended
  induction turns generalizing tree node parent with
  | zero => cases ended
  | succ _ ih =>
    simp only [rbtreeDeleteFixupLoop] at ended ⊢
    by_cases goesOn : (!tree.isRed node && decide (node ≠ tree.root)) = true
    · simp only [if_pos goesOn] at ended ⊢
      obtain ⟨upper, isUpper, ended⟩ := bind_eq_some_iff.mp ended
      obtain ⟨⟨after, above⟩, turned, ended⟩ := bind_eq_some_iff.mp ended
      refine bind_eq_some_iff.mpr
        ⟨upper, isUpper, bind_eq_some_iff.mpr ⟨⟨after, above⟩, turned, ?_⟩⟩
      cases above with
      | true => exact ih _ _ _ ended
      | false => exact ended
    · simp only [if_neg goesOn] at ended ⊢
      exact ended

theorem rbtreeInsert_grows (tree : RbTreeCtrl) (node : Nat) :
    Grows fun turns => rbtreeInsert turns tree node cmp_func := by
  refine Grows.bind (rbtreeInsertWalk_grows _ _ _ _) fun walked => ?_
  cases walked with
  | error => exact .const _
  | ok =>
    refine Grows.bind ?_ fun _ => .const _
    exact Grows.bind (rbtreeInsertFixupLoop_grows _ _) fun _ => .const _

theorem rbtreeDeleteFixup_grows (tree : RbTreeCtrl) (node parent : Option Nat) :
    Grows fun turns => rbtreeDeleteFixup turns tree node parent :=
  Grows.bind (rbtreeDeleteFixupLoop_grows _ _ _) fun _ => .const _

theorem rbtreeDelNode_grows (tree : RbTreeCtrl) (node : Nat) :
    Grows fun turns => rbtreeDelNode turns tree node := by
  have outer : Grows fun turns => rbtreeDelOuter turns tree node :=
    Grows.ite _ (rbtreeDeleteFixup_grows _ _ _) (.const _)
  have inner (left right : Nat) : Grows fun turns => rbtreeDelInner turns tree node left right := by
    refine Grows.bind (rbtreeMinimum_grows right) fun replace => ?_
    refine Grows.bind (Grows.const _) fun unlinked => ?_
    exact Grows.ite _ (rbtreeDeleteFixup_grows _ _ _) (.const _)
  simp only [rbtreeDelNode]
  cases (tree.node node).left with
  | none => exact outer
  | some left =>
    cases (tree.node node).right with
    | none => exact outer
    | some right => exact inner left right

theorem rbtreeDel_grows (tree : RbTreeCtrl) : Grows fun turns => rbtreeDel turns tree cmp_func := by
  refine Grows.bind (rbtreeSearch_grows _) fun found => ?_
  cases found with
  | none => exact .const _
  | some node => exact Grows.bind (rbtreeDelNode_grows tree node) fun _ => .const _

end MyCode.RbTree
