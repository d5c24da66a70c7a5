import MyCode.RbTree.Delete

/-!
# Removing a node

`RBTree_DelNode` takes a node out of its place, or puts its successor there, and leaves
at most one subtree that lacks a black node.
-/

namespace MyCode.RbTree

open MyCode.Lib MyCode.Lib.BinTree List Option

namespace RbTreeCtrl

section Writes

variable {tree after : RbTreeCtrl} {parent : Option Nat} {sub other : BinTree Color Nat}
  {frames rest : List (Frame Color Nat)}

theorem Holds.of_plug (holds : tree.Holds parent (plug frames sub)) :
    tree.Holds ((above frames).or parent) sub := by
  induction frames generalizing sub with
  | nil => exact holds
  | cons _ _ ih => exact (holds_mk.mp (ih holds)).2.1

theorem Holds.plug_congr (holds : tree.Holds parent (plug frames sub))
    (sameLink : other.link = sub.link)
    (same : ∀ address ∈ around frames, after.node address = tree.node address)
    (exchanged : ∀ parent, tree.Holds parent sub → after.Holds parent other) :
    after.Holds parent (plug frames other) := by
  induction frames generalizing sub other with
  | nil => exact exchanged parent holds
  | cons frame _ ih =>
    obtain ⟨_, _, item, _⟩ := frame
    apply ih holds
    · rw [plugFrame, plugFrame, link_mk, link_mk]
    · intro address inside
      apply same
      exact mem_append_right _ inside
    intro parent held
    obtain ⟨isNode, subHolds, farHolds⟩ := holds_mk.mp held
    refine holds_mk.mpr ⟨?_, exchanged _ subHolds, farHolds.congr fun address inside => same address ?_⟩
    · rw [sameLink, same item mem_cons_self]
      exact isNode
    · exact mem_append_left _ (mem_cons_of_mem _ inside)

theorem link_plug_congr (frame : Frame Color Nat) (rest : List (Frame Color Nat)) :
    (plug (frame :: rest) other).link = (plug (frame :: rest) sub).link := by
  induction rest generalizing frame sub other with
  | nil =>
    change (BinTree.mk _ _ _ _ _).link = (BinTree.mk _ _ _ _ _).link
    rw [link_mk, link_mk]
  | cons second _ ih => exact ih second

theorem rbtreeMinimum_leftmost {color : Color} {item : Nat} {left right : BinTree Color Nat}
    (holds : tree.Holds parent (.node color item left right)) :
    ∃ frames colorBelow itemBelow rightBelow,
      BinTree.node color item left right = plug frames (.node colorBelow itemBelow .nil rightBelow) ∧
      (∀ frame ∈ frames, frame.side = .left) ∧
      ∀ turns, frames.length < turns → rbtreeMinimum tree turns item = some itemBelow := by
  induction left generalizing color item right parent with
  | nil =>
    refine ⟨[], color, item, right, rfl, nofun, fun turns positive => ?_⟩
    cases turns with
    | zero => cases positive
    | succ =>
      rw [rbtreeMinimum, holds.1]
      rfl
  | node _ _ _ _ leftHypothesis =>
    obtain ⟨frames, colorBelow, itemBelow, rightBelow, isPlug, allLeft, found⟩ := leftHypothesis holds.2.1
    refine ⟨frames ++ [⟨.left, color, item, right⟩], colorBelow, itemBelow, rightBelow, ?_, ?_, ?_⟩
    · rw [plug_append, ← isPlug]
      rfl
    · intro frame inside
      rcases mem_append.mp inside with inFrames | isLast
      · exact allLeft frame inFrames
      · rw [mem_singleton.mp isLast]
    intro turns enough
    rw [length_append, length_singleton] at enough
    cases turns with
    | zero => cases enough
    | succ turns =>
      rw [rbtreeMinimum, holds.1]
      exact found turns (Nat.lt_of_succ_lt_succ enough)

end Writes

section Colors

variable {tree : RbTreeCtrl} {side : Side} {color : Color} {item height turns : Nat}
  {sub : BinTree Color Nat} {frames : List (Frame Color Nat)}

/-- The end of `RBTree_DelNode`, where `sub` has taken the place of its parent. -/
theorem deleted_balanced (there : tree.At frames sub)
    (ok : IsRb color height (.mk side color item sub .nil))
    (accepts : Accepts color height frames) (enough : frames.length + 2 ≤ turns) :
    ∃ after whole wholeHeight,
      (if color = .black then rbtreeDeleteFixup turns tree sub.link (above frames) else some tree) = some after ∧
      after.At [] whole ∧ IsRb .black wholeHeight whole ∧ whole.inorder = (plug frames sub).inorder := by
  cases color with
  | red =>
    obtain ⟨-, subOk, -⟩ := ok.of_red_mk
    obtain ⟨whole, wholeOk⟩ := accepts.weaken.plug subOk
    exact ⟨tree, _, whole, rfl, at_plug.mp there, wholeOk, rfl⟩
  | black =>
    obtain ⟨_, _, -, rfl, -, subOk, -⟩ := ok.of_black_mk
    have atMost : pending frames sub ≤ turns := by
      rw [pending]
      cases rootColor sub <;> simp <;> omega
    exact rbtreeDeleteFixup_balanced ⟨there, subOk.lacks, accepts⟩ atMost

end Colors

section Outer

variable {tree : RbTreeCtrl} {side : Side} {color : Color} {item height turns : Nat}
  {sub : BinTree Color Nat} {frames : List (Frame Color Nat)}

theorem nodup_of_mk (there : tree.At frames (.mk side color item sub .nil)) :
    (sub.inorder ++ around frames).Nodup := by
  have apart := there.apart
  exact nodup_append'.mpr ⟨apart.nearNodup, apart.aroundNodup, apart.nearAround⟩

theorem rbtreeDelOuter_balanced (there : tree.At frames (.mk side color item sub .nil))
    (ok : IsRb color height (.mk side color item sub .nil)) (accepts : Accepts color height frames)
    (enough : frames.length + 2 ≤ turns) :
    ∃ after whole wholeHeight, rbtreeDelOuter turns tree item = some after ∧
      after.At [] whole ∧ IsRb .black wholeHeight whole ∧ whole.inorder = (plug frames sub).inorder := by
  have isNode := there.node
  have apart := there.apart
  have isChild : (if (tree.node item).left.isSome then (tree.node item).left else (tree.node item).right) =
      sub.link := by
    rw [isNode]
    cases side with
    | left =>
      cases sub.link <;> rfl
    | right => rfl
  have isParent : (tree.node item).parent = above frames := by rw [isNode, record_parent]
  have isColor : (tree.node item).color = color := by rw [isNode, record_color]
  obtain ⟨-, subHolds, -⟩ := holds_mk.mp there.holds
  have surrounds := there.surrounds
  rw [link_mk] at surrounds
  have linked : ((tree.setParentOf sub.link (above frames)).replaceChild .left (above frames) item sub.link).At
      frames sub :=
    ⟨(surrounds.setParentOf apart.nearAround).replaceChild apart.aroundNodup apart.notAround,
      (subHolds.setParentOf apart.nearNodup).replaceChild apart.nearAround, nodup_of_mk there⟩
  obtain ⟨after, whole, wholeHeight, deleted, afterThere, wholeOk, sameOrder⟩ :=
    deleted_balanced linked ok accepts enough
  refine ⟨after, whole, wholeHeight, ?_, afterThere, wholeOk, sameOrder⟩
  simp only [rbtreeDelOuter, isChild, isParent, isColor]
  exact deleted

end Outer

section Inner

variable {tree : RbTreeCtrl} {color rightColor : Color} {item replace height turns : Nat}
  {left sub : BinTree Color Nat} {parent : Option Nat} {frames below : List (Frame Color Nat)}

theorem rbtreeUnlink_holds {whole : BinTree Color Nat}
    (isWhole : plug below (.node rightColor replace .nil sub) = whole)
    (isItem : (tree.node item).right = whole.link) (holds : tree.Holds (some item) whole)
    (nodup : (item :: whole.inorder).Nodup)
    (allLeft : ∀ frame ∈ below, frame.side = .left) :
    ∃ after, rbtreeUnlink tree item replace sub.link (tree.node replace).parent =
        some (after, (above below).or (some replace)) ∧
      after.Holds (some replace) (plug below sub) ∧
      (after.node replace).right = (plug below sub).link ∧ after.root = tree.root ∧
      ∀ address ∉ whole.inorder, after.node address = tree.node address := by
  obtain ⟨isReplace, -, subHolds⟩ := (isWhole ▸ holds).of_plug
  have inorderPerm := isWhole ▸ inorder_plug_perm below (.node rightColor replace .nil sub)
  have notItem := (nodup_cons.mp nodup).1
  have partsNodup := inorderPerm.nodup_iff.mp (nodup_cons.mp nodup).2
  have inside {address : Nat} (member : address ∈ replace :: sub.inorder ++ around below) :
      address ∈ whole.inorder := inorderPerm.mem_iff.mpr member
  change (replace :: sub.inorder ++ around below).Nodup at partsNodup
  rw [cons_append, nodup_cons, mem_append, not_or, nodup_append'] at partsNodup
  obtain ⟨⟨-, notBelow⟩, subNodup, belowNodup, subBelow⟩ := partsNodup
  have isParent : (tree.node replace).parent = (above below).or (some item) := by rw [isReplace]
  rw [isParent]
  cases below with
  | nil =>
    refine ⟨tree, ?_, subHolds, ?_, rfl, fun _ _ => rfl⟩
    · change rbtreeUnlink tree item replace sub.link (some item) = _
      rw [rbtreeUnlink, if_pos rfl]
      rfl
    · rw [isReplace]
      rfl
  | cons frame rest =>
    obtain ⟨side, mark, upper, far⟩ := frame
    obtain rfl : side = .left := allLeft _ mem_cons_self
    rw [around, cons_append, nodup_cons, mem_append, not_or] at belowNodup
    rw [around, cons_append, disjoint_cons_right, disjoint_append_right] at subBelow
    obtain ⟨⟨upperNotFar, upperNotRest⟩, -⟩ := belowNodup
    obtain ⟨upperNotSub, subFar, subRest⟩ := subBelow
    have upperInside : upper ∈ whole.inorder := inside (by simp [around])
    have replaceInside : replace ∈ whole.inorder := inside (by simp)
    have itemNotUpper : item ≠ upper := fun same => notItem (same ▸ upperInside)
    have itemNotReplace : item ≠ replace := fun same => notItem (same ▸ replaceInside)
    have itemNotSub : sub.link ≠ some item := fun isLink =>
      notItem (inside (by simp [mem_of_link isLink]))
    -- The link to the successor is cut.
    let cut := plug (⟨.left, mark, upper, far⟩ :: rest) sub
    let first := tree.setParentOf sub.link (some upper)
    let second := first.setChild upper .left sub.link
    let third := second.setChild replace .right (tree.node item).right
    have cutHolds : second.Holds (some item) cut := by
      subst isWhole
      refine @Holds.plug_congr _ second _ _ _ rest holds rfl ?_ ?_
      · intro address member
        refine (write_of_ne ?_).trans (setParentOf_node ?_)
        · exact fun same => upperNotRest (same ▸ member)
        · exact fun isLink => subRest (mem_of_link isLink) member
      rintro parent ⟨isUpper, ⟨-, -, held⟩, farHolds⟩
      have upperNode : first.node upper = ⟨mark, some replace, far.link, parent⟩ :=
        (setParentOf_node fun isLink => upperNotSub (mem_of_link isLink)).trans isUpper
      refine ⟨?_, (held.setParentOf subNodup).write upperNotSub,
        (farHolds.setParentOf_other subFar).write upperNotFar⟩
      change (first.write upper _).node upper = _
      rw [write_self, upperNode]
      rfl
    have wholeNodup : cut.inorder.Nodup ∧ replace ∉ cut.inorder := by
      have perm := inorder_plug_perm (⟨.left, mark, upper, far⟩ :: rest) sub
      rw [perm.nodup_iff, perm.mem_iff]
      have parts := inorderPerm.nodup_iff.mp (nodup_cons.mp nodup).2
      exact ⟨(nodup_cons.mp parts).2, (nodup_cons.mp parts).1⟩
    have isLink : (tree.node item).right = cut.link :=
      isItem.trans (isWhole ▸ link_plug_congr _ _)
    have thirdHolds : third.Holds (some item) cut := cutHolds.write wholeNodup.2
    have thirdItem : third.node item = tree.node item :=
      (write_of_ne itemNotReplace).trans ((write_of_ne itemNotUpper).trans (setParentOf_node itemNotSub))
    have secondItem : second.node item = tree.node item :=
      (write_of_ne itemNotUpper).trans (setParentOf_node itemNotSub)
    have hasRight : ∃ right, (tree.node item).right = some right := by
      rw [isLink]
      have notNil : cut.link ≠ none := by
        intro isNil
        have empty := eq_nil_of_link isNil
        have member : upper ∈ cut.inorder :=
          (inorder_plug_perm _ _).mem_iff.mpr (by simp [around])
        rw [empty] at member
        cases member
      exact ne_none_iff_exists'.mp notNil
    obtain ⟨right, isRight⟩ := hasRight
    have moved : (third.setParentOf (tree.node item).right (some replace)).Holds (some replace) cut :=
      isLink ▸ thirdHolds.setParentOf wholeNodup.1
    rw [isRight] at moved
    have rightNotReplace : right ≠ replace := by
      rintro rfl
      exact wholeNodup.2 (mem_of_link (isLink.symm.trans isRight))
    refine ⟨third.setParent right (some replace), ?_, moved, ?_, ?_, ?_⟩
    · have notParent : ¬ some upper = some item := fun same => itemNotUpper (some.inj same).symm
      change rbtreeUnlink tree item replace sub.link (some upper) = _
      rw [rbtreeUnlink, if_neg notParent]
      change (((second.setChild replace .right (second.node item).right).node item).right.bind fun right =>
        some ((second.setChild replace .right (second.node item).right).setParent right (some replace),
          some upper)) = _
      rw [secondItem]
      have toRight : (third.node item).right = some right := by rw [thirdItem, isRight]
      rw [toRight]
      rfl
    · rw [← isLink]
      have kept : (third.setParent right (some replace)).node replace = third.node replace :=
        write_of_ne rightNotReplace.symm
      have written : third.node replace = (second.node replace).setChild .right (tree.node item).right :=
        write_self
      rw [kept, written]
      rfl
    · exact setParentOf_root
    intro address outside
    have notRight : address ≠ right := by
      rintro rfl
      apply outside
      exact mem_of_link (isItem.symm.trans isRight)
    have notReplace : address ≠ replace := fun same => outside (same ▸ replaceInside)
    have notUpper : address ≠ upper := fun same => outside (same ▸ upperInside)
    have notLink : sub.link ≠ some address := fun isLink =>
      outside (inside (by simp [mem_of_link isLink]))
    exact (write_of_ne notRight).trans ((write_of_ne notReplace).trans ((write_of_ne notUpper).trans
      (setParentOf_node notLink)))

theorem rbtreeDelInner_balanced {right : BinTree Color Nat} {leftItem rightItem : Nat}
    (there : tree.At frames (.node color item left right)) (isLeft : left.link = some leftItem)
    (isRight : right.link = some rightItem)
    (ok : IsRb .black height (plug frames (.node color item left right)))
    (enough : (plug frames (.node color item left right)).inorder.length + 2 ≤ turns) :
    ∃ after whole wholeHeight, rbtreeDelInner turns tree item leftItem rightItem = some after ∧
      after.At [] whole ∧ IsRb .black wholeHeight whole ∧
      whole.inorder = before frames ++ (left.inorder ++ right.inorder) ++ BinTree.after frames := by
  have onLeft : tree.At frames (.mk .left color item left right) := there
  have apart := onLeft.apart
  obtain ⟨isNode, leftHolds, rightHolds⟩ := there.holds
  have surrounds := there.surrounds
  -- The successor is the leftmost node on the right.
  obtain ⟨_, _, _, isTree⟩ := exists_node_of_link isRight
  obtain ⟨below, replaceColor, replace, sub, isPlug, allLeft, found⟩ :=
    rbtreeMinimum_leftmost (isTree ▸ rightHolds)
  rw [← isTree] at isPlug
  have order : right.inorder = replace :: (plug below sub).inorder := by
    rw [isPlug, inorder_plug, inorder_plug, before_of_left allLeft]
    rfl
  have shortBelow : below.length < turns := by
    have length := isPlug ▸ length_le_plug below (.node replaceColor replace .nil sub)
    rw [inorder_plug] at enough
    simp only [length_append, inorder, length_cons] at enough
    omega
  have shortAll : (below ++ ⟨.right, color, replace, left⟩ :: frames).length + 2 ≤ turns := by
    have length := length_le_plug (below ++ ⟨.right, color, item, left⟩ :: frames)
      (.node replaceColor replace .nil sub)
    rw [plug_append, plug, ← isPlug, length_append, length_cons] at length
    change _ ≤ (plug frames (.node color item left _)).inorder.length at length
    rw [length_append, length_cons]
    omega
  -- The link from above.
  let first := tree.replaceChild .left (above frames) item (some replace)
  have firstSurrounds : first.Surrounds frames (some replace) :=
    surrounds.replaceChild apart.aroundNodup apart.notAround
  have firstItem : first.node item = tree.node item := replaceChild_node apart.notAround
  have firstRight : first.Holds (some item) right :=
    rightHolds.replaceChild apart.farAround
  have firstLeft : first.Holds (some item) left := leftHolds.replaceChild apart.nearAround
  obtain ⟨second, unlinked, secondRight, secondReplace, secondRoot, secondSame⟩ :=
    rbtreeUnlink_holds isPlug.symm (by rw [firstItem, isNode]) firstRight
      (nodup_cons.mpr ⟨apart.notFar, apart.farNodup⟩) allLeft
  have replaceInside : replace ∈ right.inorder := by
    rw [order]
    exact mem_cons_self
  have replaceNotLeft : replace ∉ left.inorder := fun inside => apart.nearFar inside replaceInside
  have replaceNotAround : replace ∉ around frames := fun inside => apart.farAround replaceInside inside
  have partsNodup := apart.farNodup
  rw [order, nodup_cons] at partsNodup
  obtain ⟨replaceNotRest, _⟩ := partsNodup
  have restInside {address : Nat} (inside : address ∈ (plug below sub).inorder) :
      address ∈ right.inorder := by
    rw [order]
    exact mem_cons_of_mem _ inside
  have secondItem := (secondSame item apart.notFar).trans (firstItem.trans isNode)
  have secondSurrounds :=
    firstSurrounds.congr secondRoot fun address inside =>
      secondSame address fun isBelow => apart.farAround isBelow inside
  have secondLeft :=
    firstLeft.congr fun address inside => secondSame address fun isBelow => apart.nearFar inside isBelow
  -- The successor takes over the rest.
  let third := second.setParent replace (above frames)
  let fourth := third.setColor replace color
  let fifth := fourth.setChild replace .left left.link
  let sixth := fifth.setParentOf left.link (some replace)
  have thirdItem : third.node item = second.node item := by
    apply write_of_ne
    rintro rfl
    exact apart.notFar replaceInside
  have fourthItem : fourth.node item = second.node item := by
    refine Eq.trans (write_of_ne ?_) thirdItem
    rintro rfl
    exact apart.notFar replaceInside
  have fifthReplace : fifth.node replace = ⟨color, left.link, (plug below sub).link, above frames⟩ := by
    have third' : third.node replace = { second.node replace with parent := above frames } := write_self
    have fourth' : fourth.node replace = { third.node replace with color := color } := write_self
    have fifth' : fifth.node replace = (fourth.node replace).setChild .left left.link := write_self
    rw [fifth', fourth', third', ← secondReplace]
    rfl
  have leftNotReplace : left.link ≠ some replace := fun isLink => replaceNotLeft (mem_of_link isLink)
  have linked : sixth.At frames (.node color replace left (plug below sub)) := by
    refine ⟨?_, ⟨(setParentOf_node leftNotReplace).trans fifthReplace, ?_, ?_⟩, ?_⟩
    · exact (((secondSurrounds.write replaceNotAround).write replaceNotAround).write
        replaceNotAround).setParentOf apart.nearAround
    · exact (((secondLeft.write replaceNotLeft).write replaceNotLeft).write replaceNotLeft).setParentOf
        apart.nearNodup
    · exact (((secondRight.write replaceNotRest).write replaceNotRest).write
        replaceNotRest).setParentOf_other fun _ inLeft inRest => apart.nearFar inLeft (restInside inRest)
    have whole : ((left.inorder ++ item :: right.inorder) ++ around frames).Nodup := there.nodup
    rw [order] at whole
    refine Nodup.sublist ?_ whole
    exact ((sublist_cons_self _ _).append_left _).append_right _
  have placed : sixth.At (below ++ ⟨.right, color, replace, left⟩ :: frames) sub := by
    have lifted := at_plug.mp linked
    rw [at_plug, plug_append]
    exact lifted
  -- What was above the successor accepts its right subtree with one black node less.
  have whole : plug frames (.node color item left right) =
      plug (below ++ ⟨.right, color, item, left⟩ :: frames) (.mk .right replaceColor replace sub .nil) := by
    rw [plug_append, isPlug]
    rfl
  rw [whole] at ok
  obtain ⟨placeColor, _, subOk, accepts⟩ := ok.unplug
  obtain rfl : replaceColor = placeColor := by
    rw [← subOk.rootColor, rootColor_mk]
  obtain ⟨after, final, finalHeight, deleted, afterThere, finalOk, sameOrder⟩ :=
    deleted_balanced placed subOk accepts.rename shortAll
  refine ⟨after, final, finalHeight, ?_, afterThere, finalOk, sameOrder.trans ?_⟩
  · have isReplace := (isPlug ▸ firstRight).of_plug.1
    have isAbove : above (below ++ ⟨.right, color, replace, left⟩ :: frames) = (above below).or (some replace) :=
      above_append _ _
    rw [isAbove] at deleted
    have fromItem : (tree.node item).parent = above frames := by rw [isNode]
    simp only [rbtreeDelInner, found turns shortBelow, bind_eq_bind, bind_some, fromItem]
    have isChild : (first.node replace).right = sub.link := by rw [isReplace]
    have isColor : (first.node replace).color = replaceColor := by rw [isReplace]
    rw [isChild, unlinked, bind_some]
    have isParent : (second.node item).parent = above frames := by rw [secondItem]
    have isThird : ((second.setParent replace (above frames)).node item).color = color := by
      rw [thirdItem, secondItem]
    have isFourth : (((second.setParent replace (above frames)).setColor replace color).node item).left =
        left.link := by
      rw [fourthItem, secondItem]
    have isSixth : sixth = fifth.setParent leftItem (some replace) :=
      congrArg (fun link => fifth.setParentOf link (some replace)) isLeft
    rw [isSixth] at deleted
    simp only [isParent, isThird, isFourth]
    rw [← isColor] at deleted
    exact deleted
  · have lifted : plug (⟨.right, color, replace, left⟩ :: frames) (plug below sub) =
        plug frames (.node color replace left (plug below sub)) := rfl
    rw [plug_append, lifted, inorder_plug, order]
    rfl

end Inner

/-- `RBTree_DelNode` takes one node out of the order, and the tree stays balanced. -/
theorem rbtreeDelNode_balanced {tree : RbTreeCtrl} {whole : BinTree Color Nat}
    {item height turns : Nat} (there : tree.At [] whole) (ok : IsRb .black height whole)
    (inside : item ∈ whole.inorder) (enough : whole.inorder.length + 2 ≤ turns) :
    ∃ after final finalHeight first last, rbtreeDelNode turns tree item = some after ∧
      after.At [] final ∧ IsRb .black finalHeight final ∧
      whole.inorder = first ++ item :: last ∧ final.inorder = first ++ last := by
  obtain ⟨frames, color, left, right, rfl⟩ := exists_plug inside
  have placed := at_plug.mpr there
  have order : (plug frames (.node color item left right)).inorder =
      (before frames ++ left.inorder) ++ item :: (right.inorder ++ BinTree.after frames) := by
    rw [inorder_plug]
    simp [inorder]
  have short := Nat.le_trans (Nat.add_le_add_right (length_le_plug frames _) 2) enough
  obtain ⟨placeColor, _, subOk, accepts⟩ := ok.unplug
  obtain rfl : color = placeColor := subOk.rootColor
  have isNode := placed.isNode
  cases isLeft : left.link with
  | none =>
    obtain rfl := eq_nil_of_link isLeft
    have onRight : tree.At frames (.mk .right color item right .nil) := placed
    obtain ⟨after, final, finalHeight, deleted, afterThere, finalOk, finalOrder⟩ :=
      rbtreeDelOuter_balanced onRight subOk accepts short
    refine ⟨after, final, finalHeight, _, _, ?_, afterThere, finalOk, order, finalOrder.trans ?_⟩
    · rw [rbtreeDelNode, isNode]
      exact deleted
    · rw [inorder_plug]
      simp [inorder]
  | some =>
    cases isRight : right.link with
    | none =>
      obtain rfl := eq_nil_of_link isRight
      have onLeft : tree.At frames (.mk .left color item left .nil) := placed
      obtain ⟨after, final, finalHeight, deleted, afterThere, finalOk, finalOrder⟩ :=
        rbtreeDelOuter_balanced onLeft subOk accepts short
      refine ⟨after, final, finalHeight, _, _, ?_, afterThere, finalOk, order, finalOrder.trans ?_⟩
      · rw [rbtreeDelNode, isNode, isLeft]
        exact deleted
      · rw [inorder_plug]
        simp [inorder]
    | some =>
      obtain ⟨after, final, finalHeight, deleted, afterThere, finalOk, finalOrder⟩ :=
        rbtreeDelInner_balanced placed isLeft isRight ok enough
      refine ⟨after, final, finalHeight, _, _, ?_, afterThere, finalOk, order, finalOrder.trans ?_⟩
      · rw [rbtreeDelNode, isNode, isLeft, isRight]
        exact deleted
      · simp

end RbTreeCtrl

end MyCode.RbTree
