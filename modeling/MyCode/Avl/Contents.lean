import MyCode.Avl

/-!
# The balance of AVL trees

A rotation restores the balance below a node whose subtrees differ by two, and the loop
up the ancestors restores that of the whole tree after a place has grown or shrunk by one.
-/

namespace MyCode.Avl

open Lib BinTree

variable {Node : Type} {side : Side} {nodep nearp innerp : Node}
  {near far tree outer inner nearer farther : AvlTree Node} {ancestors : List (Frame Int Node)}
  {height farHeight old new mark nearMark innerMark : Int}

theorem inorder_rotateTwice (side : Side) (mark first second nearMark innerMark top : Int)
    (nodep nearp innerp : Node) (outer nearer farther far : AvlTree Node) :
    (mk side mark innerp (mk side first nearp outer nearer)
      (mk side second nodep farther far)).inorder =
      (mk side top nodep (mk side nearMark nearp outer (mk side innerMark innerp nearer farther))
        far).inorder := by
  cases side <;> simp [mk, inorder]

theorem avlRotate_once (there : outer.link.isSome) (higher : inner.height ≤ outer.height) :
    avlRotate side nodep (mk side nearMark nearp outer inner) far =
      some (mk side (inner.height + 2) nearp outer
        (mk side (inner.height + 1) nodep inner far)) := by
  cases side <;> simp [avlRotate, mk, child, Side.other, there, higher]

theorem avlRotate_twice (lower : outer.height < innerMark) :
    avlRotate side nodep
        (mk side nearMark nearp outer (mk side innerMark innerp nearer farther)) far =
      some (mk side (innerMark + 1) innerp (mk side innerMark nearp outer nearer)
        (mk side innerMark nodep farther far)) := by
  have refused : ¬ innerMark ≤ outer.height := by omega
  cases side <;> simp [avlRotate, mk, child, Side.other, refused]

theorem avlRotate_ok (side : Side) (nodep : Node) (mark : Int)
    (nearOk : IsAvl (farHeight + 2) near) (farOk : IsAvl farHeight far) :
    ∃ rotated height, avlRotate side nodep near far = some rotated ∧ IsAvl height rotated ∧
      (height = farHeight + 2 ∨ height = farHeight + 3) ∧
      rotated.inorder = (mk side mark nodep near far).inorder := by
  have farNonneg := farOk.nonneg
  obtain ⟨nearp, outer, inner, outerHeight, innerHeight, rfl, outerOk, innerOk, _,
    _, _⟩ := nearOk.exists_mk (by omega) side
  have isOuter := outerOk.height_eq
  have isInner := innerOk.height_eq
  by_cases lower : outerHeight < innerHeight
  · obtain ⟨_, nearer, farther, _, _, rfl, nearerOk, fartherOk,
      _, _, _⟩ := innerOk.exists_mk (by omega) side
    have nearOk : IsAvl innerHeight (mk side innerHeight nearp outer nearer) :=
      outerOk.mk nearerOk (by omega) (by omega) (by omega)
    have nodeOk : IsAvl innerHeight (mk side innerHeight nodep farther far) :=
      fartherOk.mk farOk (by omega) (by omega) (by omega)
    refine ⟨_, _, avlRotate_twice (by omega), nearOk.mk nodeOk (by omega) (by omega) (by omega),
      by omega, ?_⟩
    exact inorder_rotateTwice side _ _ _ _ _ _ _ _ _ _ _ _ _
  have there := outerOk.link_isSome (by omega)
  have nodeOk : IsAvl (innerHeight + 1) (mk side (innerHeight + 1) nodep inner far) :=
    innerOk.mk farOk (by omega) (by omega) (by omega)
  refine ⟨_, innerHeight + 2, avlRotate_once there (by omega), ?_, ?_, ?_⟩
  · rw [isInner]
    exact outerOk.mk nodeOk (by omega) (by omega) (by omega)
  · omega
  · exact (inorder_rotate side _ _ _ _ _ _ _ _ _).symm

/-- What a turn of the loop leaves: a balanced subtree one higher or lower at most, and a stop
only where the height is the recorded one. -/
structure TurnOk (mark : Int) (before : AvlTree Node) (turn : AvlTree Node × Bool) : Prop where
  balanced : ∃ height, IsAvl height turn.1 ∧ height ≤ mark + 1 ∧ mark ≤ height + 1 ∧
    (turn.2 = false → height = mark)
  order : turn.1.inorder = before.inorder

theorem TurnOk.of_rotate {rotated : AvlTree Node} (ok : IsAvl height rotated)
    (upper : height ≤ mark + 1) (lower : mark ≤ height + 1)
    (order : rotated.inorder = tree.inorder) : TurnOk mark tree (rotated, true) :=
  ⟨⟨height, ok, upper, lower, nofun⟩, order⟩

theorem avlRebalanceNode_ok {left right : AvlTree Node} {leftHeight rightHeight : Int}
    (leftOk : IsAvl leftHeight left) (rightOk : IsAvl rightHeight right)
    (leftBound : leftHeight ≤ rightHeight + 2) (rightBound : rightHeight ≤ leftHeight + 2)
    (upper : max leftHeight rightHeight ≤ mark) (lower : mark ≤ max leftHeight rightHeight + 2)
    (apart : leftHeight = rightHeight + 2 ∨ rightHeight = leftHeight + 2 →
      mark ≤ max leftHeight rightHeight + 1) :
    ∃ turn, avlRebalanceNode (.node mark nodep left right) = some turn ∧
      TurnOk mark (.node mark nodep left right) turn := by
  have isLeft := leftOk.height_eq
  have isRight := rightOk.height_eq
  simp only [avlRebalanceNode, isLeft, isRight]
  split
  · next leftHigh =>
    obtain rfl : leftHeight = rightHeight + 2 := by omega
    obtain ⟨_, _, isRotated, ok, _, order⟩ := avlRotate_ok .left nodep mark leftOk rightOk
    rw [isRotated]
    exact ⟨_, rfl, .of_rotate ok (by omega) (by omega) order⟩
  split
  · next rightHigh =>
    obtain rfl : rightHeight = leftHeight + 2 := by omega
    obtain ⟨_, _, isRotated, ok, _, order⟩ := avlRotate_ok .right nodep mark rightOk leftOk
    rw [isRotated]
    exact ⟨_, rfl, .of_rotate ok (by omega) (by omega) order⟩
  have isMax : (if rightHeight > leftHeight then rightHeight else leftHeight) =
      max leftHeight rightHeight := by omega
  rw [isMax]
  split
  · next same =>
    exact ⟨_, rfl, ⟨mark, .node leftOk rightOk (by omega) (by omega) same, by omega, by omega,
      fun _ => rfl⟩, rfl⟩
  · exact ⟨_, rfl, .of_rotate (.node leftOk rightOk (by omega) (by omega) rfl) (by omega)
      (by omega) rfl⟩

theorem avlRebalanceNode_frame (side : Side) (nodep : Node) {far : AvlTree Node}
    (farOk : IsAvl farHeight far) (nearBound : old ≤ farHeight + 1) (farBound : farHeight ≤ old + 1)
    (recorded : mark = max old farHeight + 1) (ok : IsAvl new tree) (grown : new ≤ old + 1)
    (shrunk : old ≤ new + 1) :
    ∃ turn, avlRebalanceNode (plugFrame ⟨side, mark, nodep, far⟩ tree) = some turn ∧
      TurnOk mark (plugFrame ⟨side, mark, nodep, far⟩ tree) turn := by
  cases side with
  | left =>
    change ∃ turn, avlRebalanceNode (.node mark nodep tree far) = some turn ∧
      TurnOk mark (.node mark nodep tree far) turn
    exact avlRebalanceNode_ok ok farOk (by omega) (by omega) (by omega) (by omega) (by omega)
  | right =>
    change ∃ turn, avlRebalanceNode (.node mark nodep far tree) = some turn ∧
      TurnOk mark (.node mark nodep far tree) turn
    exact avlRebalanceNode_ok farOk ok (by omega) (by omega) (by omega) (by omega) (by omega)

theorem avlRebalance_ok (place : AvlPlace old ancestors) (ok : IsAvl new tree)
    (grown : new ≤ old + 1) (shrunk : old ≤ new + 1) :
    ∃ whole height, avlRebalance ancestors tree = some whole ∧ IsAvl height whole ∧
      whole.inorder = (plug ancestors tree).inorder := by
  induction place generalizing tree new with
  | root => exact ⟨tree, new, rfl, ok, rfl⟩
  | @under old farHeight mark side nodep far rest farOk nearBound farBound recorded restOk
      ih =>
      obtain ⟨⟨_, goesOn⟩, isTurn, ⟨height, nodeOk, upper, lower, stops⟩, order⟩ :=
        avlRebalanceNode_frame side nodep farOk nearBound farBound recorded ok grown shrunk
      rw [avlRebalance, isTurn]
      cases goesOn with
      | true =>
        obtain ⟨whole, height, isWhole, wholeOk, sameOrder⟩ := ih nodeOk upper lower
        exact ⟨whole, height, isWhole, wholeOk, sameOrder.trans (inorder_plug_congr rest order)⟩
      | false =>
        -- The height did not change, so that nothing above has to.
        obtain rfl := stops rfl
        obtain ⟨height, wholeOk⟩ := restOk.plug nodeOk
        exact ⟨_, height, rfl, wholeOk, inorder_plug_congr rest order⟩

end MyCode.Avl

/-!
## What AVL trees hold

The nodes of a tree ascend when the comparison function is positive at the first of them,
then zero at one at most and negative at the rest.  Inserting and deleting change the tree
at the place of the key and nowhere else.
-/

namespace MyCode.Avl

open Lib BinTree

variable {Node : Type} {cmp_func : Node → Int} {root tree place : AvlTree Node}
  {ancestors : List (Frame Int Node)} {height : Int} {nodep deletep : Node}
  {left right : AvlTree Node} {mark : Int}

/-- The key is after a node, at it or before it, in this order. -/
def Ascends (cmp_func : Node → Int) (nodes : List Node) : Prop :=
  nodes.Pairwise fun first second => cmp_func first ≤ 0 → cmp_func second < 0

structure AtPlace (cmp_func : Node → Int) (root : AvlTree Node) (ancestors : List (Frame Int Node))
    (place : AvlTree Node) : Prop where
  whole : plug ancestors place = root
  before : ∀ node ∈ before ancestors, 0 < cmp_func node
  after : ∀ node ∈ after ancestors, cmp_func node < 0

theorem AtPlace.below (ascends : Ascends cmp_func root.inorder)
    (atPlace : AtPlace cmp_func root ancestors (.node height nodep left right)) :
    (cmp_func nodep < 0 → AtPlace cmp_func root (⟨.left, height, nodep, right⟩ :: ancestors) left) ∧
    (0 < cmp_func nodep →
      AtPlace cmp_func root (⟨.right, height, nodep, left⟩ :: ancestors) right) := by
  have order : Ascends cmp_func (left.inorder ++ nodep :: right.inorder) := by
    rw [← atPlace.whole, inorder_plug, List.append_assoc] at ascends
    exact (ascends.sublist (List.sublist_append_right _ _)).sublist (List.sublist_append_left _ _)
  obtain ⟨-, rightAscends, leftBefore⟩ := List.pairwise_append.mp order
  constructor
  · intro negative
    refine ⟨atPlace.whole, atPlace.before, ?_⟩
    intro node inside
    rcases List.mem_append.mp inside with inRight | above
    · rcases List.mem_cons.mp inRight with rfl | inRight
      · exact negative
      · exact (List.pairwise_cons.mp rightAscends).1 node inRight (Int.le_of_lt negative)
    · exact atPlace.after node above
  intro positive
  refine ⟨atPlace.whole, ?_, atPlace.after⟩
  intro node inside
  rcases List.mem_append.mp inside with inside | isNode
  · rcases List.mem_append.mp inside with above | inLeft
    · exact atPlace.before node above
    · have later := leftBefore node inLeft nodep List.mem_cons_self
      omega
  · rw [List.mem_singleton.mp isNode]
    exact positive

theorem AtPlace.descend (ascends : Ascends cmp_func root.inorder)
    (atPlace : AtPlace cmp_func root ancestors tree) :
    ∃ found place, avlDescend cmp_func ancestors tree = (found, place) ∧
      AtPlace cmp_func root found place ∧ (∀ node, place.link = some node → cmp_func node = 0) := by
  induction tree generalizing ancestors with
  | nil => exact ⟨ancestors, .nil, rfl, atPlace, nofun⟩
  | node _ _ _ _ leftHypothesis rightHypothesis =>
    obtain ⟨toLeft, toRight⟩ := atPlace.below ascends
    simp only [avlDescend]
    split
    · next zero =>
      refine ⟨ancestors, _, rfl, atPlace, ?_⟩
      intro node isLink
      cases isLink
      exact zero
    · next differs =>
      split
      · next negative => exact leftHypothesis (toLeft negative)
      · next positive => exact rightHypothesis (toRight (by omega))

theorem AtPlace.start : AtPlace cmp_func root [] root :=
  ⟨rfl, nofun, nofun⟩

theorem avlSearch_eq (ancestors : List (Frame Int Node)) :
    avlSearch cmp_func tree = (avlDescend cmp_func ancestors tree).2.link := by
  induction tree generalizing ancestors with
  | nil => rfl
  | node _ _ _ _ leftHypothesis rightHypothesis =>
    simp only [avlSearch, avlDescend]
    split
    · rfl
    split
    · exact leftHypothesis _
    · exact rightHypothesis _

theorem descend_cases (ascends : Ascends cmp_func root.inorder) :
    ∃ ancestors place, avlDescend cmp_func [] root = (ancestors, place) ∧
      plug ancestors place = root ∧
      (place = .nil ∧ (∀ node ∈ before ancestors, 0 < cmp_func node) ∧
          (∀ node ∈ after ancestors, cmp_func node < 0) ∨
        ∃ height nodep left right, place = .node height nodep left right ∧ cmp_func nodep = 0) := by
  obtain ⟨ancestors, place, isPlace, atPlace, atKey⟩ := AtPlace.start.descend ascends
  refine ⟨ancestors, place, isPlace, atPlace.whole, ?_⟩
  cases place with
  | nil => exact .inl ⟨rfl, atPlace.before, atPlace.after⟩
  | node height nodep left right => exact .inr ⟨height, nodep, left, right, rfl, atKey nodep rfl⟩

theorem differs_of_place (positive : ∀ node ∈ before ancestors, 0 < cmp_func node)
    (negative : ∀ node ∈ after ancestors, cmp_func node < 0) :
    ∀ node ∈ (plug ancestors .nil).inorder, cmp_func node ≠ 0 := by
  intro node inside
  rw [inorder_plug, inorder, List.append_nil] at inside
  rcases List.mem_append.mp inside with earlier | later
  · exact (positive node earlier).ne'
  · exact (negative node later).ne

theorem avlSearch_cases (ascends : Ascends cmp_func root.inorder) :
    (avlSearch cmp_func root = none ∧ ∀ node ∈ root.inorder, cmp_func node ≠ 0) ∨
      ∃ node ∈ root.inorder, avlSearch cmp_func root = some node ∧ cmp_func node = 0 := by
  obtain ⟨_, _, isPlace, rfl, cases⟩ := descend_cases ascends
  rw [avlSearch_eq [], isPlace]
  rcases cases with ⟨rfl, positive, negative⟩ | ⟨_, nodep, _, _, rfl, zero⟩
  · exact .inl ⟨rfl, differs_of_place positive negative⟩
  refine .inr ⟨nodep, ?_, rfl, zero⟩
  rw [inorder_plug]
  simp [inorder]

theorem avlInsert_cases (newNode : Node) (ok : IsAvl height root)
    (ascends : Ascends cmp_func root.inorder)
    (room : avlInsertCount root cmp_func ≤ AVL_MAX_HEIGHT) :
    (∃ node ∈ root.inorder, cmp_func node = 0 ∧
        avlInsert root newNode cmp_func = some (root, .alreadyExist)) ∨
      ∃ first second tree height, root.inorder = first ++ second ∧
        (∀ node ∈ first, 0 < cmp_func node) ∧ (∀ node ∈ second, cmp_func node < 0) ∧
        avlInsert root newNode cmp_func = some (tree, .ok) ∧ IsAvl height tree ∧
        tree.inorder = first ++ newNode :: second := by
  rw [avlInsert, if_neg (Nat.not_lt.mpr room)]
  obtain ⟨_, _, isPlace, rfl, cases⟩ := descend_cases ascends
  rw [isPlace]
  rcases cases with ⟨rfl, positive, negative⟩ | ⟨height, nodep, _, _, rfl, zero⟩
  · obtain ⟨placeHeight, placeOk, atPlace, -⟩ := ok.unplug
    obtain rfl : placeHeight = 0 := placeOk.height_eq.symm
    have newOk : IsAvl 1 (.node 1 newNode .nil .nil) :=
      .node .nil .nil (by decide) (by decide) (by decide)
    obtain ⟨tree, height, isTree, treeOk, order⟩ := avlRebalance_ok atPlace newOk (by decide) (by decide)
    refine .inr ⟨_, _, tree, height, ?_, positive, negative, ?_, treeOk, ?_⟩
    · rw [inorder_plug, inorder, List.append_nil]
    · simp [isTree]
    · rw [order, inorder_plug]
      simp [inorder]
  · refine .inl ⟨nodep, ?_, zero, rfl⟩
    rw [inorder_plug]
    simp [inorder]

theorem avlLast_some (there : tree ≠ .nil) (ancestors : List (Frame Int Node)) :
    ∃ inner last below height, avlLast ancestors tree = some (inner ++ ancestors, last, below) ∧
      plug inner (.node height last below .nil) = tree ∧
      tree.inorder = (plug inner below).inorder ++ [last] := by
  induction tree generalizing ancestors with
  | nil => exact absurd rfl there
  | node height nodep left right _ rightHypothesis =>
    cases right with
    | nil => exact ⟨[], nodep, left, height, rfl, rfl, rfl⟩
    | node =>
      obtain ⟨inner, last, below, lastHeight, isLast, isRight, order⟩ :=
        rightHypothesis (by simp) (⟨.right, height, nodep, left⟩ :: ancestors)
      refine ⟨inner ++ [⟨.right, height, nodep, left⟩], last, below, lastHeight, ?_, ?_, ?_⟩
      · rw [List.append_assoc]
        exact isLast
      · rw [plug_append, isRight]
        rfl
      · rw [plug_append, inorder, order]
        simp [plug, plugFrame, mk, inorder]

theorem avlRebalance_dropped (ok : IsAvl height (plug ancestors (.node mark deletep .nil right))) :
    ∃ tree height, avlRebalance ancestors right = some tree ∧ IsAvl height tree ∧
      tree.inorder = (plug ancestors right).inorder := by
  obtain ⟨_, placeOk, atPlace, -⟩ := ok.unplug
  cases placeOk with
  | node leftOk rightOk =>
    have isLeft := leftOk.height_eq
    have rightNonneg := rightOk.nonneg
    rw [height_nil] at isLeft
    exact avlRebalance_ok atPlace rightOk (by omega) (by omega)

theorem avlRebalance_replaced (ok : IsAvl height (plug ancestors (.node mark deletep left right)))
    (there : left ≠ .nil) :
    ∃ inner last below tree height, avlLast [] left = some (inner, last, below) ∧
      avlRebalance (inner ++ ⟨.left, mark, last, right⟩ :: ancestors) below = some tree ∧
      IsAvl height tree ∧
      tree.inorder = before ancestors ++ (left.inorder ++ right.inorder) ++ after ancestors := by
  obtain ⟨inner, last, below, lastHeight, isLast, isLeft, leftOrder⟩ := avlLast_some there []
  rw [List.append_nil] at isLast
  have whole : plug ancestors (.node mark deletep left right) =
      plug (inner ++ ⟨.left, mark, deletep, right⟩ :: ancestors) (.node lastHeight last below .nil) := by
    rw [plug_append, isLeft]
    rfl
  rw [whole] at ok
  obtain ⟨_, lastOk, atPlace, -⟩ := ok.unplug
  cases lastOk with
  | node belowOk nilOk =>
    have isNil := nilOk.height_eq
    have belowNonneg := belowOk.nonneg
    rw [height_nil] at isNil
    obtain ⟨tree, height, isTree, treeOk, same⟩ :=
      avlRebalance_ok atPlace.rename belowOk (by omega) (by omega)
    refine ⟨inner, last, below, tree, height, isLast, isTree, treeOk, ?_⟩
    have order : (plug (⟨.left, mark, last, right⟩ :: ancestors) (plug inner below)).inorder =
        before ancestors ++ ((plug inner below).inorder ++ last :: right.inorder) ++
          after ancestors := inorder_plug ancestors _
    rw [same, plug_append, order, leftOrder]
    simp

theorem avlDelete_cases (ok : IsAvl height root) (ascends : Ascends cmp_func root.inorder)
    (room : avlDeleteCount root cmp_func ≤ AVL_MAX_HEIGHT) :
    ((∀ node ∈ root.inorder, cmp_func node ≠ 0) ∧ avlDelete root cmp_func = some (root, none)) ∨
      ∃ first node second tree height, root.inorder = first ++ node :: second ∧ cmp_func node = 0 ∧
        avlDelete root cmp_func = some (tree, some node) ∧ IsAvl height tree ∧
        tree.inorder = first ++ second := by
  rw [avlDelete, if_neg (Nat.not_lt.mpr room)]
  obtain ⟨ancestors, _, isPlace, rfl, cases⟩ := descend_cases ascends
  rw [isPlace]
  rcases cases with ⟨rfl, positive, negative⟩ | ⟨mark, deletep, left, right, rfl, zero⟩
  · exact .inl ⟨differs_of_place positive negative, rfl⟩
  have order : (plug ancestors (.node mark deletep left right)).inorder =
      (before ancestors ++ left.inorder) ++ deletep :: (right.inorder ++ after ancestors) := by
    rw [inorder_plug]
    simp [inorder]
  cases left with
  | nil =>
    obtain ⟨tree, height, isTree, treeOk, same⟩ := avlRebalance_dropped ok
    refine .inr ⟨_, deletep, _, tree, height, order, zero, ?_, treeOk, ?_⟩
    · simp [isTree]
    · rw [same, inorder_plug]
      simp [inorder]
  | node =>
    obtain ⟨_, _, _, tree, height, isLast, isTree, treeOk, same⟩ :=
      avlRebalance_replaced ok (by simp)
    refine .inr ⟨_, deletep, _, tree, height, order, zero, ?_, treeOk, ?_⟩
    · simp [isLast, isTree]
    · rw [same]
      simp

end MyCode.Avl
