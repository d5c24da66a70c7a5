import MyCode.RbTree.Memory

/-!
# Painting and rotating at a place
-/

namespace MyCode.RbTree

open MyCode.Lib MyCode.Lib.BinTree List

namespace RbTreeCtrl

structure Apart (address : Nat) (near far : BinTree Color Nat) (frames : List (Frame Color Nat)) : Prop where
  notNear : address ∉ near.inorder
  notFar : address ∉ far.inorder
  notAround : address ∉ around frames
  nearNodup : near.inorder.Nodup
  farNodup : far.inorder.Nodup
  aroundNodup : (around frames).Nodup
  nearFar : List.Disjoint near.inorder far.inorder
  nearAround : List.Disjoint near.inorder (around frames)
  farAround : List.Disjoint far.inorder (around frames)

variable {tree : RbTreeCtrl} {side : Side} {color below : Color} {x y : Nat}
  {near middle far : BinTree Color Nat} {frames : List (Frame Color Nat)}

theorem At.apart (there : tree.At frames (.mk side color x near far)) :
    Apart x near far frames := by
  have nodup := (((inorder_mk_perm side color x near far).append_right (around frames)).nodup_iff).mp
    there.nodup
  rw [cons_append, nodup_cons, mem_append, mem_append, not_or, not_or,
    nodup_append', nodup_append', disjoint_append_left] at nodup
  obtain ⟨⟨⟨notNear, notFar⟩, notAround⟩, ⟨nearNodup, farNodup, nearFar⟩, aroundNodup, nearAround, farAround⟩ :=
    nodup
  exact ⟨notNear, notFar, notAround, nearNodup, farNodup, aroundNodup, nearFar, nearAround, farAround⟩

section Self

variable {address : Nat} {left right parent link : Option Nat}
  (isNode : tree.node address = record side color left right parent)

include isNode

theorem setChild_near_self :
    (tree.setChild address side link).node address = record side color link right parent := by
  rw [RbTreeCtrl.setChild, write_self, isNode, setChild_near]

theorem setChild_far_self :
    (tree.setChild address side.other link).node address = record side color left link parent := by
  rw [RbTreeCtrl.setChild, write_self, isNode, setChild_far]

theorem setParent_self :
    (tree.setParent address link).node address = record side color left right link := by
  rw [RbTreeCtrl.setParent, write_self, isNode, setParent_record]

theorem setColor_self {paint : Color} :
    (tree.setColor address paint).node address = record side paint left right parent := by
  rw [RbTreeCtrl.setColor, write_self, isNode, setColor_record]

end Self

theorem At.setColor (there : tree.At frames (.mk side color x near far)) (paint : Color) :
    (tree.setColor x paint).At frames (.mk side paint x near far) := by
  have apart := there.apart
  obtain ⟨isNode, nearHolds, farHolds⟩ := holds_mk.mp there.holds
  have surrounds := there.surrounds
  rw [link_mk] at surrounds
  refine ⟨?_, holds_mk.mpr ⟨setColor_self isNode, nearHolds.write apart.notNear,
    farHolds.write apart.notFar⟩, ?_⟩
  · rw [link_mk]
    exact surrounds.write apart.notAround
  have same := inorder_mk_congr side color paint x (rfl : near.inorder = _) (rfl : far.inorder = _)
  rw [same]
  exact there.nodup

theorem At.setColorNode {left right : BinTree Color Nat}
    (there : tree.At frames (.node color x left right))
    (paint : Color) : (tree.setColor x paint).At frames (.node paint x left right) := by
  have isMk (color : Color) : BinTree.node color x left right = .mk .left color x left right := rfl
  rw [isMk] at there ⊢
  exact there.setColor paint

theorem At.rotate (there : tree.At frames (.mk side color x near (.mk side below y middle far))) :
    ∃ after, rbtreeRotate side tree x = some after ∧
      after.At frames (.mk side below y (.mk side color x near middle) far) := by
  have upper := there.apart
  have lower := there.far.apart
  have isX := there.node
  have isY := there.far.node
  obtain ⟨-, nearHolds, -⟩ := holds_mk.mp there.holds
  obtain ⟨-, middleHolds, farHolds⟩ := holds_mk.mp there.far.holds
  have surrounds := there.surrounds
  rw [link_mk] at surrounds isX
  -- Where the two nodes and the three subtrees are not.
  have yOutside := lower.notAround
  rw [around, cons_append, mem_cons, mem_append, not_or, not_or] at yOutside
  obtain ⟨differs, yNotNear, yNotAround⟩ := yOutside
  have middleOutside := lower.nearAround
  rw [around, cons_append, disjoint_cons_right, disjoint_append_right] at middleOutside
  obtain ⟨xNotMiddle, middleNear, middleAround⟩ := middleOutside
  have farOutside := lower.farAround
  rw [around, cons_append, disjoint_cons_right, disjoint_append_right] at farOutside
  obtain ⟨xNotFar, -, farAround⟩ := farOutside
  have xMiddle : middle.link ≠ some x := fun isLink => xNotMiddle (mem_of_link isLink)
  have yMiddle : middle.link ≠ some y := fun isLink => lower.notNear (mem_of_link isLink)
  -- The six writes.
  let first := tree.setChild x side.other middle.link
  let second := first.setParentOf middle.link (some x)
  let third := second.setParent y (above frames)
  let fourth := third.replaceChild side (above frames) x (some y)
  let fifth := fourth.setChild y side (some x)
  let sixth := fifth.setParent x (some y)
  have xFirst : first.node x = record side color near.link middle.link (above frames) :=
    setChild_far_self isX
  have xSecond : second.node x = record side color near.link middle.link (above frames) :=
    (setParentOf_node xMiddle).trans xFirst
  have xThird : third.node x = record side color near.link middle.link (above frames) :=
    (write_of_ne (Ne.symm differs)).trans xSecond
  have xFifth : fifth.node x = record side color near.link middle.link (above frames) :=
    (write_of_ne (Ne.symm differs)).trans ((replaceChild_node upper.notAround).trans xThird)
  have xSixth : sixth.node x = record side color near.link middle.link (some y) :=
    setParent_self xFifth
  have ySecond : second.node y = record side below middle.link far.link (some x) :=
    (setParentOf_node yMiddle).trans ((write_of_ne differs).trans isY)
  have yFourth : fourth.node y = record side below middle.link far.link (above frames) :=
    (replaceChild_node yNotAround).trans (setParent_self ySecond)
  have ySixth : sixth.node y = record side below (some x) far.link (above frames) :=
    (write_of_ne differs).trans (setChild_near_self yFourth)
  have nearSixth : sixth.Holds (some x) near :=
    (((((nearHolds.write upper.notNear).setParentOf_other middleNear).write yNotNear).replaceChild
      upper.nearAround).write yNotNear).write upper.notNear
  have farSixth : sixth.Holds (some y) far :=
    (((((farHolds.write xNotFar).setParentOf_other lower.nearFar).write lower.notFar).replaceChild
      farAround).write lower.notFar).write xNotFar
  have middleSixth : sixth.Holds (some x) middle :=
    (((((middleHolds.write xNotMiddle).setParentOf lower.nearNodup).write lower.notNear).replaceChild
      middleAround).write lower.notNear).write xNotMiddle
  have surroundsSixth : sixth.Surrounds frames (some y) :=
    (((((surrounds.write upper.notAround).setParentOf middleAround).write yNotAround).replaceChild
      upper.aroundNodup upper.notAround).write yNotAround).write upper.notAround
  refine ⟨sixth, ?_, ⟨?_, holds_mk.mpr ⟨?_, holds_mk.mpr ⟨xSixth, nearSixth, middleSixth⟩, farSixth⟩, ?_⟩⟩
  · have inner : (tree.node y).child side = middle.link := by rw [isY, record_near]
    have toY : (tree.node x).child side.other = some y := by rw [isX, record_far]
    have fromSecond : (second.node x).parent = above frames := by rw [xSecond, record_parent]
    have fromThird : (third.node x).parent = above frames := by rw [xThird, record_parent]
    simp only [rbtreeRotate, toY, inner, Option.bind_eq_bind, Option.bind_some]
    rw [fromSecond]
    rw [fromThird]
  · rw [link_mk]
    exact surroundsSixth
  · rw [link_mk]
    exact ySixth
  · rw [inorder_rotate side color color below below]
    exact there.nodup

end RbTreeCtrl

end MyCode.RbTree

/-!
## Balance after an insertion

The loop of `_rbtree_insert_fixup` carries a red node upwards until its parent is black.
-/

namespace MyCode.RbTree

open MyCode.Lib MyCode.Lib.BinTree

namespace RbTreeCtrl

section Rotate

variable {tree : RbTreeCtrl} {side : Side} {color below : Color} {x y : Nat}
  {near middle far : BinTree Color Nat} {frames : List (Frame Color Nat)}

theorem At.rotateOther
    (there : tree.At frames (.mk side color x (.mk side below y near middle) far)) :
    ∃ after, rbtreeRotate side.other tree x = some after ∧
      after.At frames (.mk side below y near (.mk side color x middle far)) := by
  rw [← mk_other, ← mk_other side below] at there
  obtain ⟨after, rotated, there⟩ := there.rotate
  refine ⟨after, rotated, ?_⟩
  rw [← mk_other, ← mk_other side color]
  exact there

theorem inorder_rotateOther (side : Side) (color below other otherBelow : Color) (x y : Nat)
    (near middle far : BinTree Color Nat) :
    (BinTree.mk side below y near (.mk side color x middle far)).inorder =
      (BinTree.mk side other x (.mk side otherBelow y near middle) far).inorder :=
  (inorder_rotate side otherBelow below other color y x near middle far).symm

end Rotate

structure Inserting (tree : RbTreeCtrl) (frames : List (Frame Color Nat)) (sub : BinTree Color Nat)
    (node height : Nat) : Prop where
  there : tree.At frames sub
  isNode : sub.link = some node
  below : IsRb .red height sub
  accepts : Accepts .black height frames

def InsertTurned (frames : List (Frame Color Nat)) (sub : BinTree Color Nat)
    (result : Option (RbTreeCtrl × Nat)) : Prop :=
  ∃ after node framesAfter subAfter height, result = some (after, node) ∧
    Inserting after framesAfter subAfter node height ∧
    (plug framesAfter subAfter).inorder = (plug frames sub).inorder ∧ framesAfter.length < frames.length

section Turn

variable {tree : RbTreeCtrl} {side place : Side} {gparent parent node height : Nat}
  {sub sibling uncle : BinTree Color Nat} {rest : List (Frame Color Nat)}

variable (accepts : Accepts .black (height + 1) rest) (siblingOk : IsRb .black height sibling)
  (below : IsRb .red height sub)

include accepts siblingOk below in
theorem Inserting.paint {left right : BinTree Color Nat} {address : Nat}
    (there : tree.At (⟨place, .red, parent, sibling⟩ ::
      ⟨side, .black, gparent, .node .red address left right⟩ :: rest) sub)
    (uncleOk : IsRb .red height (.node .red address left right)) :
    InsertTurned (⟨place, .red, parent, sibling⟩ ::
        ⟨side, .black, gparent, .node .red address left right⟩ :: rest) sub
      (some (((tree.setColor address .black).setColor parent .black).setColor gparent .red, gparent)) := by
  have uncleThere : tree.At (⟨side.other, .black, gparent, .mk place .red parent sub sibling⟩ :: rest)
      (.mk .left .red address left right) :=
    there.up.up.far
  have parentThere := (uncleThere.setColor .black).upOther.near
  have painted := (parentThere.setColor .black).up.setColor .red
  have blackUncle : IsRb .black (height + 1) (.mk .left .black address left right) := by
    cases uncleOk with
    | red leftOk rightOk => exact leftOk.black_mk rightOk
  refine ⟨_, gparent, rest, _, height + 1, rfl,
    ⟨painted, link_mk _ _ _ _ _, (below.black_mk siblingOk).red_mk blackUncle, accepts⟩, ?_, ?_⟩
  · apply inorder_plug_congr
    exact inorder_mk_congr _ _ _ _ (inorder_mk_congr _ _ _ _ rfl rfl) rfl
  · simp only [List.length_cons]
    omega

variable (isNode : sub.link = some node)

include accepts siblingOk below isNode in
theorem Inserting.rotateUp
    (there : tree.At (⟨side, .red, parent, sibling⟩ :: ⟨side, .black, gparent, uncle⟩ :: rest) sub)
    (uncleOk : IsRb .black height uncle) :
    ∃ after framesAfter,
      rbtreeRotate side.other ((tree.setColor parent .black).setColor gparent .red) gparent = some after ∧
      Inserting after framesAfter sub node height ∧
      (plug framesAfter sub).inorder =
        (plug (⟨side, .red, parent, sibling⟩ :: ⟨side, .black, gparent, uncle⟩ :: rest) sub).inorder ∧
      framesAfter.length = rest.length + 1 := by
  have painted := (there.up.setColor .black).up.setColor .red
  obtain ⟨after, rotated, afterThere⟩ := painted.rotateOther
  refine ⟨after, ⟨side, .black, parent, .mk side .red gparent sibling uncle⟩ :: rest, rotated,
    ⟨afterThere.near, isNode, below, .black (siblingOk.red_mk uncleOk) accepts⟩, ?_, rfl⟩
  exact inorder_plug_congr rest
    (inorder_rotateOther side .red .black .black .red gparent parent sub sibling uncle)

variable
  (there : tree.At (⟨place, .red, parent, sibling⟩ :: ⟨side, .black, gparent, uncle⟩ :: rest) sub)

include there accepts siblingOk below isNode in
theorem Inserting.rotate (uncleOk : IsRb .black height uncle) :
    InsertTurned (⟨place, .red, parent, sibling⟩ :: ⟨side, .black, gparent, uncle⟩ :: rest) sub
      (rbtreeInsertFixupRotate side tree gparent parent node) := by
  have isParent := there.up.node
  by_cases same : place = side
  · -- The node is on the outer side.
    subst same
    have notFar : (tree.node parent).child place.other ≠ some node := by
      rw [isParent, record_far]
      intro isLink
      exact there.up.apart.nearFar (mem_of_link isNode) (mem_of_link isLink)
    obtain ⟨after, framesAfter, rotated, inserting, sameOrder, length⟩ :=
      Inserting.rotateUp accepts siblingOk below isNode there uncleOk
    refine ⟨after, node, framesAfter, sub, height, ?_, inserting, sameOrder, ?_⟩
    · simp [rbtreeInsertFixupRotate, if_neg notFar, rotated]
    · simp only [List.length_cons, length]
      omega
  -- The node is on the inner side, and is rotated to the outer one.
  obtain rfl : place = side.other := by
    cases place <;> cases side <;> first | rfl | exact absurd rfl same
  obtain ⟨item, near, far, rfl, nearOk, farOk⟩ := below.exists_red side
  rw [link_mk] at isNode
  obtain rfl : item = node := Option.some.inj isNode
  have isFar : (tree.node parent).child side.other = some item := by
    rw [isParent, record_near, link_mk]
  have inner := there.upOther
  obtain ⟨_, rotatedInner, middleThere⟩ := inner.rotate
  obtain ⟨after, framesAfter, rotated, inserting, sameOrder, length⟩ :=
    Inserting.rotateUp accepts farOk (siblingOk.red_mk nearOk) (link_mk _ _ _ _ _)
      middleThere.near uncleOk
  refine ⟨after, parent, framesAfter, _, height, ?_, inserting, sameOrder.trans ?_, ?_⟩
  · simp [rbtreeInsertFixupRotate, if_pos isFar, rotatedInner, rotated]
  · apply inorder_plug_congr (⟨side, .black, gparent, uncle⟩ :: rest)
    change _ = (BinTree.mk side.other .red parent (.mk side .red item near far) sibling).inorder
    rw [mk_other]
    exact inorder_rotate side .red .red .red .red parent item sibling near far
  · simp only [List.length_cons, length]
    omega

include there accepts siblingOk below isNode in
theorem Inserting.turn
    {uncleColor : Color} (uncleOk : IsRb uncleColor height uncle) :
    InsertTurned (⟨place, .red, parent, sibling⟩ :: ⟨side, .black, gparent, uncle⟩ :: rest) sub
      (rbtreeInsertFixupTurn side tree gparent parent node) := by
  have isUncle : (tree.node gparent).child side.other = uncle.link := by
    rw [there.up.up.node, record_far]
  rw [rbtreeInsertFixupTurn, isUncle]
  cases uncle with
  | nil =>
    cases uncleOk with
    | nil => exact Inserting.rotate accepts siblingOk below isNode there .nil
  | node color address left right =>
    have uncleThere : tree.At (⟨side.other, .black, gparent, .mk place .red parent sub sibling⟩ :: rest)
        (.mk .left color address left right) :=
      there.up.up.far
    have isColor : (tree.node address).color = color := by
      rw [uncleThere.node, record_color]
    simp only [link, isColor]
    cases uncleOk with
    | red leftOk rightOk =>
      exact Inserting.paint accepts siblingOk below there (.red leftOk rightOk)
    | black leftOk rightOk =>
      exact Inserting.rotate accepts siblingOk below isNode there (.black leftOk rightOk)

end Turn

section Loop

variable {tree : RbTreeCtrl} {node height turns : Nat} {sub : BinTree Color Nat}
  {frames : List (Frame Color Nat)}

theorem At.side {side : Side} {color : Color} {address : Nat} {far : BinTree Color Nat}
    {rest : List (Frame Color Nat)} (there : tree.At (⟨side, color, address, far⟩ :: rest) sub)
    (some : sub.link ≠ none ∨ far.link ≠ none) :
    (if (tree.node address).left = sub.link then Side.left else .right) = side := by
  have isNode := there.up.node
  cases side with
  | left =>
    rw [isNode, if_pos]
    rfl
  | right =>
    rw [isNode, if_neg]
    intro same
    have sameLink := same
    have hasItem : ∃ item, sub.link = Option.some item := by
      rcases some with subSome | farSome
      · exact Option.ne_none_iff_exists'.mp subSome
      · exact Option.ne_none_iff_exists'.mp (sameLink ▸ farSome)
    obtain ⟨_, isItem⟩ := hasItem
    exact there.up.apart.nearFar (mem_of_link isItem) (mem_of_link (sameLink.trans isItem))

theorem rbtreeInsertFixupLoop_balanced (inserting : Inserting tree frames sub node height)
    (enough : frames.length < turns) :
    ∃ after whole color wholeHeight, rbtreeInsertFixupLoop turns tree node = some after ∧
      after.At [] whole ∧ IsRb color wholeHeight whole ∧
      whole.inorder = (plug frames sub).inorder := by
  induction turns generalizing tree frames sub node height with
  | zero => exact absurd enough (Nat.not_lt_zero _)
  | succ _ ih =>
    obtain ⟨there, isNode, below, accepts⟩ := inserting
    have isParent : (tree.node node).parent = above frames := by
      obtain ⟨_, _, _, rfl⟩ := exists_node_of_link isNode
      exact congrArg RbTreeNode.parent there.isNode
    rw [rbtreeInsertFixupLoop, isParent]
    cases accepts with
    | root => exact ⟨tree, sub, _, _, rfl, there, below, rfl⟩
    | @black _ _ side parent far _ rest farOk restOk =>
      have isBlack : (tree.node parent).color ≠ .red := by
        rw [there.up.node, record_color]
        exact nofun
      have accepted : Accepts .red height (⟨side, .black, parent, far⟩ :: rest) := .black farOk restOk
      obtain ⟨whole, ok⟩ := accepted.plug below
      refine ⟨tree, _, _, whole, ?_, at_plug.mp there, ok, rfl⟩
      simp [above, if_neg isBlack]
    | @red _ place parent sibling _ siblingOk restOk =>
      obtain ⟨side, gparent, _, _, _, rfl, uncleOk, accepts⟩ := restOk.of_red
      have isRed : (tree.node parent).color = .red := by
        rw [there.up.node, record_color]
      have isGparent : (tree.node parent).parent = some gparent := by
        rw [there.up.node, record_parent]
        rfl
      have isLink : (plugFrame ⟨place, .red, parent, sibling⟩ sub).link = some parent :=
        link_mk place Color.red parent sub sibling
      have isSide := there.up.side (.inl (isLink ▸ Option.some_ne_none _))
      rw [isLink] at isSide
      obtain ⟨_, _, _, _, _, turned, insertingAfter, sameOrder, shorter⟩ :=
        Inserting.turn accepts siblingOk below isNode there uncleOk
      obtain ⟨final, whole, color, wholeHeight, looped, finalThere, ok, finalOrder⟩ :=
        ih insertingAfter (Nat.lt_of_lt_of_le shorter (Nat.le_of_lt_succ enough))
      refine ⟨final, whole, color, wholeHeight, ?_, finalThere, ok, finalOrder.trans sameOrder⟩
      simp [above, if_pos isRed, isGparent, isSide, turned, looped]

theorem rbtreeInsertFixup_balanced (inserting : Inserting tree frames sub node height)
    (enough : frames.length < turns) :
    ∃ after whole wholeHeight, rbtreeInsertFixup turns tree node = some after ∧
      after.At [] whole ∧ IsRb .black wholeHeight whole ∧
      whole.inorder = (plug frames sub).inorder := by
  obtain ⟨middle, whole, _, _, looped, there, ok, sameOrder⟩ :=
    rbtreeInsertFixupLoop_balanced inserting enough
  cases whole with
  | nil =>
    have member : node ∈ (plug frames sub).inorder := by
      rw [inorder_plug]
      simp [mem_of_link inserting.isNode]
    rw [← sameOrder] at member
    cases member
  | node _ root left right =>
    have isRoot : middle.root = some root := there.surrounds
    have painted := there.setColorNode .black
    have blackOk : ∃ height, IsRb .black height (.node .black root left right) := by
      cases ok with
      | red leftOk rightOk => exact ⟨_, .black leftOk rightOk⟩
      | black leftOk rightOk => exact ⟨_, .black leftOk rightOk⟩
    obtain ⟨blackHeight, blackOk⟩ := blackOk
    refine ⟨middle.setColor root .black, _, blackHeight, ?_, painted, blackOk, sameOrder⟩
    simp [rbtreeInsertFixup, looped, isRoot]

end Loop

end RbTreeCtrl

end MyCode.RbTree
