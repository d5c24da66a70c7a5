import MyCode.RbTree.Insert

/-!
# Balance after a deletion

The loop of `_rbtree_delete_fixup` carries a subtree upwards that lacks a black node.
-/

namespace MyCode.RbTree

open MyCode.Lib MyCode.Lib.BinTree Option

namespace RbTreeCtrl

structure Deleting (tree : RbTreeCtrl) (frames : List (Frame Color Nat)) (sub : BinTree Color Nat)
    (height : Nat) : Prop where
  there : tree.At frames sub
  lacks : Lacks height sub
  accepts : Accepts .black (height + 1) frames

/-- The loop ends at a subtree whose root is to be painted black. -/
def Settled (tree : RbTreeCtrl) (node : Option Nat) (order : List Nat) : Prop :=
  ∃ frames sub height, tree.At frames sub ∧ sub.link = node ∧
    IsRb .black height (plug frames (blacken sub)) ∧ (plug frames sub).inorder = order

def pending (frames : List (Frame Color Nat)) (sub : BinTree Color Nat) : Nat :=
  match rootColor sub with
  | .red => 1
  | .black => frames.length + 2

section Reads

variable {tree : RbTreeCtrl} {color : Color} {sub : BinTree Color Nat}
  {frames rest : List (Frame Color Nat)}

theorem At.isRed (there : tree.At frames sub) :
    tree.isRed sub.link = decide (rootColor sub = .red) := by
  cases sub with
  | nil => rfl
  | node color =>
    have isColor := congrArg RbTreeNode.color there.isNode
    apply decide_eq_decide.mpr
    rw [isColor, rootColor]

theorem Surrounds.root {link : Option Nat} {frame : Frame Color Nat}
    (surrounds : tree.Surrounds (frame :: rest) link) :
    ∃ root ∈ around (frame :: rest), tree.root = some root := by
  induction rest generalizing frame link with
  | nil => exact ⟨frame.item, List.mem_cons_self, surrounds.2.2⟩
  | cons _ _ ih =>
    obtain ⟨root, inside, isRoot⟩ := ih surrounds.2.2
    refine ⟨root, ?_, isRoot⟩
    exact List.mem_append_right _ inside

theorem At.link_ne_root {frame : Frame Color Nat} (there : tree.At (frame :: rest) sub) :
    sub.link ≠ tree.root := by
  obtain ⟨root, inside, isRoot⟩ := there.surrounds.root
  rw [isRoot]
  intro isLink
  exact List.disjoint_of_nodup_append there.nodup (mem_of_link isLink) inside

end Reads

section Turn

variable {tree : RbTreeCtrl} {side : Side} {color : Color} {parent other height : Nat}
  {sub near far sibling : BinTree Color Nat} {frames rest : List (Frame Color Nat)}

structure BlackSibling (tree : RbTreeCtrl) (side : Side) (sub : BinTree Color Nat) (parent other height : Nat)
    (color : Color) (near far : BinTree Color Nat) (rest : List (Frame Color Nat)) (bound : Nat) : Prop where
  there : tree.At (⟨side, color, parent, .mk side .black other near far⟩ :: rest) sub
  nearOk : ∃ nearColor, IsRb nearColor height near
  farOk : ∃ farColor, IsRb farColor height far
  accepts : color = .red ∧ Accepts .red (height + 1) rest ∨
    color = .black ∧ Accepts .black (height + 2) rest ∧ rest.length + 2 < bound

theorem deleteFixupRed_black (there : tree.At (⟨side, color, parent, sibling⟩ :: rest) sub)
    (accepts : Accepts .black (height + 1) (⟨side, color, parent, sibling⟩ :: rest))
    (isOther : sibling.link = some other) :
    ∃ after otherAfter colorAfter nearAfter farAfter restAfter,
      rbtreeDeleteFixupRed side tree parent other = some (after, otherAfter) ∧
      BlackSibling after side sub parent otherAfter height colorAfter nearAfter farAfter restAfter
        (rest.length + 3) ∧
      (plug (⟨side, colorAfter, parent, .mk side .black otherAfter nearAfter farAfter⟩ :: restAfter)
        sub).inorder = (plug (⟨side, color, parent, sibling⟩ :: rest) sub).inorder := by
  have siblingOk : ∃ siblingColor, IsRb siblingColor (height + 1) sibling ∧
      (siblingColor = .black ∧ color = .red ∧ Accepts .red (height + 1) rest ∨
        color = .black ∧ Accepts .black (height + 2) rest) := by
    cases accepts with
    | red siblingOk restOk => exact ⟨_, siblingOk, .inl ⟨rfl, rfl, restOk⟩⟩
    | black siblingOk restOk => exact ⟨_, siblingOk, .inr ⟨rfl, restOk⟩⟩
  obtain ⟨siblingColor, siblingOk, placeOk⟩ := siblingOk
  have siblingThere := there.up.far
  cases siblingColor with
  | black =>
    obtain ⟨item, near, far, _, _, rfl, nearOk, farOk⟩ := siblingOk.exists_black side
    rw [link_mk] at isOther
    obtain rfl : item = other := some.inj isOther
    have isBlack : (tree.node item).color ≠ .red := by
      rw [siblingThere.node, record_color]
      exact nofun
    refine ⟨tree, item, color, near, far, rest, if_neg isBlack, ⟨there, ⟨_, nearOk⟩, ⟨_, farOk⟩, ?_⟩, rfl⟩
    rcases placeOk with ⟨-, isRed, restOk⟩ | ⟨isBlack, restOk⟩
    · exact .inl ⟨isRed, restOk⟩
    · exact .inr ⟨isBlack, restOk, Nat.lt_succ_self _⟩
  | red =>
    obtain ⟨item, near, far, rfl, nearOk, farOk⟩ := siblingOk.exists_red side
    rw [link_mk] at isOther
    obtain rfl : item = other := some.inj isOther
    obtain ⟨isNot, -⟩ | ⟨rfl, restOk⟩ := placeOk
    · cases isNot
    obtain ⟨nearItem, nearNear, nearFar, _, _, rfl, nearNearOk, nearFarOk⟩ :=
      nearOk.exists_black side
    have isRed : (tree.node item).color = .red := by
      rw [siblingThere.node, record_color]
    have painted := (siblingThere.setColor .black).upOther.setColor .red
    obtain ⟨after, rotated, afterThere⟩ := painted.rotate
    refine ⟨after, nearItem, .red, nearNear, nearFar, ⟨side, .black, item, far⟩ :: rest, ?_,
      ⟨afterThere.near.near, ⟨_, nearNearOk⟩, ⟨_, nearFarOk⟩, .inl ⟨rfl, .black farOk restOk⟩⟩, ?_⟩
    · have isNear : (after.node parent).child side.other = some nearItem := by
        rw [afterThere.near.node, record_far, link_mk]
      simp [rbtreeDeleteFixupRed, if_pos isRed, rotated, isNear]
    · exact inorder_plug_congr rest
        (inorder_rotate side Color.red Color.black Color.black Color.red parent item sub
          (.mk side .black nearItem nearNear nearFar) far)

theorem deleteFixupNear_red
    (there : tree.At (⟨side, color, parent, .mk side .black other near far⟩ :: rest) sub)
    {nearColor farColor : Color} (nearOk : IsRb nearColor height near) (farOk : IsRb farColor height far)
    (someRed : nearColor = .red ∨ farColor = .red) :
    ∃ after otherAfter nearAfter farAfter nearColorAfter,
      rbtreeDeleteFixupNear side tree parent other = some (after, otherAfter) ∧
      after.At (⟨side, color, parent, .mk side .black otherAfter nearAfter farAfter⟩ :: rest) sub ∧
      IsRb nearColorAfter height nearAfter ∧ IsRb .red height farAfter ∧
      (BinTree.mk side .black otherAfter nearAfter farAfter).inorder =
        (BinTree.mk side .black other near far).inorder := by
  have otherThere := there.up.far
  have farRed : tree.isRed ((tree.node other).child side.other) = decide (farColor = .red) := by
    rw [otherThere.node, record_far, otherThere.far.isRed, farOk.rootColor]
  rw [rbtreeDeleteFixupNear, farRed]
  cases farColor with
  | red => exact ⟨tree, other, near, far, nearColor, rfl, there, nearOk, farOk, rfl⟩
  | black =>
    obtain rfl : nearColor = .red := by
      rcases someRed with nearRed | notRed
      · exact nearRed
      · cases notRed
    obtain ⟨item, nearNear, nearFar, rfl, nearNearOk, nearFarOk⟩ := nearOk.exists_red side
    have isNear : (tree.node other).child side = some item := by
      rw [otherThere.node, record_near, link_mk]
    have painted := (otherThere.near.setColor .black).up.setColor .red
    obtain ⟨after, rotated, afterThere⟩ := painted.rotateOther
    have parentThere := afterThere.upOther
    refine ⟨after, item, nearNear, .mk side .red other nearFar far, .black, ?_, parentThere.near,
      nearNearOk, nearFarOk.red_mk farOk, ?_⟩
    · have isOther : (after.node parent).child side.other = some item := by
        rw [parentThere.node, record_far, link_mk]
      simp [isNear, rotated, isOther]
    · exact inorder_rotateOther side .red .black .black .red other item nearNear nearFar far

theorem deleteFixupFar_balanced
    (there : tree.At (⟨side, color, parent, .mk side .black other near far⟩ :: rest) sub)
    {nearColor : Color} (nearOk : IsRb nearColor height near) (farOk : IsRb .red height far)
    (subOk : IsRb .black height sub)
    (accepts : color = .red ∧ Accepts .red (height + 1) rest ∨
      color = .black ∧ Accepts .black (height + 2) rest) :
    ∃ farItem after whole wholeHeight,
      (tree.node parent).color = color ∧
      (((tree.setColor other color).setColor parent .black).node other).child side.other = some farItem ∧
      rbtreeRotate side (((tree.setColor other color).setColor parent .black).setColor farItem .black) parent =
        some after ∧
      after.At [] whole ∧ IsRb .black wholeHeight whole ∧
      whole.inorder =
        (plug (⟨side, color, parent, .mk side .black other near far⟩ :: rest) sub).inorder := by
  have otherThere := there.up.far
  obtain ⟨farItem, farNear, farFar, rfl, farNearOk, farFarOk⟩ := farOk.exists_red side
  have painted := (otherThere.setColor color).upOther.setColor .black
  have isFar : (((tree.setColor other color).setColor parent .black).node other).child side.other =
      some farItem := by
    rw [painted.far.node, record_far, link_mk]
  have allPainted := (painted.far.far.setColor .black).upOther.upOther
  obtain ⟨after, rotated, afterThere⟩ := allPainted.rotate
  have balanced : ∃ wholeHeight, IsRb .black wholeHeight
      (plug rest (.mk side color other (.mk side .black parent sub near) (.mk side .black farItem farNear farFar))) := by
    rcases accepts with ⟨rfl, restOk⟩ | ⟨rfl, restOk⟩
    · exact restOk.plug ((subOk.black_mk nearOk).red_mk (farNearOk.black_mk farFarOk))
    · exact restOk.plug ((subOk.black_mk nearOk).black_mk (farNearOk.black_mk farFarOk))
  obtain ⟨wholeHeight, wholeOk⟩ := balanced
  refine ⟨farItem, after, _, wholeHeight, ?_, isFar, rotated, at_plug.mp afterThere, wholeOk, ?_⟩
  · rw [there.up.node, record_color]
  apply inorder_plug_congr rest
  refine (inorder_rotate side Color.black color color Color.black parent other sub near
    (.mk side .black farItem farNear farFar)).trans ?_
  exact inorder_mk_congr _ _ _ _ rfl (inorder_mk_congr _ _ _ _ rfl (inorder_mk_congr _ _ _ _ rfl rfl))

def DeleteTurned (parent : Nat) (order : List Nat) (bound : Nat) (result : Option (RbTreeCtrl × Bool)) : Prop :=
  (∃ after frames sub height, result = some (after, true) ∧ sub.link = some parent ∧
    Deleting after frames sub height ∧ (plug frames sub).inorder = order ∧ pending frames sub < bound) ∨
  ∃ after whole height, result = some (after, false) ∧ after.At [] whole ∧ IsRb .black height whole ∧
    whole.inorder = order

theorem BlackSibling.paint {bound : Nat}
    (black : BlackSibling tree side sub parent other height color near far rest bound)
    (subOk : IsRb .black height sub) (nearOk : IsRb .black height near) (farOk : IsRb .black height far)
    (positive : 1 < bound) :
    DeleteTurned parent (plug (⟨side, color, parent, .mk side .black other near far⟩ :: rest) sub).inorder bound
      (some (tree.setColor other .red, true)) := by
  have otherThere := black.there.up.far
  have painted := (otherThere.setColor .red).upOther
  have blackOk : IsRb .black (height + 1) (.mk side .black parent sub (.mk side .red other near far)) :=
    subOk.black_mk (nearOk.red_mk farOk)
  have sameOrder : (plug rest (.mk side color parent sub (.mk side .red other near far))).inorder =
      (plug (⟨side, color, parent, .mk side .black other near far⟩ :: rest) sub).inorder := by
    apply inorder_plug_congr rest
    exact inorder_mk_congr _ _ _ _ rfl (inorder_mk_congr _ _ _ _ rfl rfl)
  left
  rcases black.accepts with ⟨rfl, restOk⟩ | ⟨rfl, restOk, less⟩
  · refine ⟨_, rest, _, height, rfl, link_mk _ _ _ _ _, ⟨painted, .red (rootColor_mk) ?_, restOk.weaken⟩,
      sameOrder, ?_⟩
    · rw [blacken_mk]
      exact blackOk
    · simp only [pending, rootColor_mk]
      exact positive
  · refine ⟨_, rest, _, height + 1, rfl, link_mk _ _ _ _ _, ⟨painted, .black blackOk, restOk⟩, sameOrder, ?_⟩
    simp only [pending, rootColor_mk]
    exact less

theorem Deleting.turn (deleting : Deleting tree (⟨side, color, parent, sibling⟩ :: rest) sub height)
    (subOk : IsRb .black height sub) :
    DeleteTurned parent (plug (⟨side, color, parent, sibling⟩ :: rest) sub).inorder (rest.length + 3)
      (rbtreeDeleteFixupTurn side tree parent) := by
  obtain ⟨there, -, accepts⟩ := deleting
  have hasOther : ∃ other, sibling.link = some other := by
    have siblingOk : ∃ siblingColor, IsRb siblingColor (height + 1) sibling := by
      cases accepts with
      | red siblingOk => exact ⟨_, siblingOk⟩
      | black siblingOk => exact ⟨_, siblingOk⟩
    obtain ⟨_, siblingOk⟩ := siblingOk
    cases siblingOk with
    | red => exact ⟨_, rfl⟩
    | black => exact ⟨_, rfl⟩
  obtain ⟨other, isOther⟩ := hasOther
  obtain ⟨after, otherAfter, colorAfter, near, far, restAfter, turned, black, sameOrder⟩ :=
    deleteFixupRed_black there accepts isOther
  have toOther : (tree.node parent).child side.other = some other := by
    rw [there.up.node, record_far, isOther]
  obtain ⟨nearColor, nearOk⟩ := black.nearOk
  obtain ⟨farColor, farOk⟩ := black.farOk
  have otherThere := black.there.up.far
  have nearRed : after.isRed near.link = decide (nearColor = .red) := by
    rw [otherThere.near.isRed, nearOk.rootColor]
  have farRed : after.isRed far.link = decide (farColor = .red) := by
    rw [otherThere.far.isRed, farOk.rootColor]
  -- Left and right children are near and far ones in one order or the other.
  have bothBlack : (!after.isRed (after.node otherAfter).left && !after.isRed (after.node otherAfter).right) =
      (decide (nearColor ≠ .red) && decide (farColor ≠ .red)) := by
    rw [otherThere.node]
    cases side with
    | left =>
      change (!after.isRed near.link && !after.isRed far.link) = _
      rw [nearRed, farRed, decide_not, decide_not]
    | right =>
      change (!after.isRed far.link && !after.isRed near.link) = _
      rw [nearRed, farRed, decide_not, decide_not, Bool.and_comm]
  simp only [rbtreeDeleteFixupTurn, toOther, turned, bind_eq_bind, bind_some, bothBlack]
  rw [← sameOrder]
  split
  · next areBlack =>
    obtain ⟨nearNot, farNot⟩ := Bool.and_eq_true_iff.mp areBlack
    have nearBlack : nearColor = .black := by
      cases nearColor with
      | red => exact absurd nearNot (by decide)
      | black => rfl
    have farBlack : farColor = .black := by
      cases farColor with
      | red => exact absurd farNot (by decide)
      | black => rfl
    exact black.paint subOk (nearBlack ▸ nearOk) (farBlack ▸ farOk) (by omega)
  next notBlack =>
  have someRed : nearColor = .red ∨ farColor = .red := by
    cases nearColor with
    | red => exact .inl rfl
    | black =>
      cases farColor with
      | red => exact .inr rfl
      | black => exact absurd rfl notBlack
  obtain ⟨_, _, _, _, _, nearTurned, middleThere, nearMiddleOk,
    farMiddleOk, middleOrder⟩ := deleteFixupNear_red black.there nearOk farOk someRed
  have accepted : colorAfter = .red ∧ Accepts .red (height + 1) restAfter ∨
      colorAfter = .black ∧ Accepts .black (height + 2) restAfter :=
    black.accepts.imp_right fun both => ⟨both.1, both.2.1⟩
  obtain ⟨_, final, whole, wholeHeight, isColor, isFar, rotated, finalThere, wholeOk, wholeOrder⟩ :=
    deleteFixupFar_balanced middleThere nearMiddleOk farMiddleOk subOk accepted
  right
  refine ⟨final, whole, wholeHeight, ?_, finalThere, wholeOk, wholeOrder.trans ?_⟩
  · simp [nearTurned, isColor, isFar, rotated]
  · apply inorder_plug_congr restAfter
    exact inorder_mk_congr _ _ _ _ rfl middleOrder

end Turn

section Loop

variable {tree : RbTreeCtrl} {height turns : Nat} {sub : BinTree Color Nat} {frames : List (Frame Color Nat)}

theorem deleteFixupLoop_settles (deleting : Deleting tree frames sub height)
    (enough : pending frames sub ≤ turns) :
    ∃ after node, rbtreeDeleteFixupLoop turns tree sub.link (above frames) = some (after, node) ∧
      after.Settled node (plug frames sub).inorder := by
  induction turns generalizing tree frames sub height with
  | zero =>
    have positive : 0 < pending frames sub := by
      rw [pending]
      cases rootColor sub <;> simp
    omega
  | succ _ ih =>
    have there := deleting.there
    rw [rbtreeDeleteFixupLoop, there.isRed]
    rcases deleting.lacks with subOk | ⟨isRed, blackOk⟩
    · cases frames with
      | nil =>
        have isRoot := there.surrounds
        have painted : IsRb .black height (blacken sub) := by
          rw [subOk.blacken]
          exact subOk
        refine ⟨tree, sub.link, ?_, [], sub, height, there, rfl, painted, rfl⟩
        rw [isRoot]
        simp
      | cons frame rest =>
        obtain ⟨side, color, parent, sibling⟩ := frame
        have goesOn : (!decide (rootColor sub = .red) && decide (sub.link ≠ tree.root)) = true := by
          rw [subOk.rootColor]
          simp [there.link_ne_root]
        have hasSibling : sibling.link ≠ none := by
          intro isNil
          have isNil := eq_nil_of_link isNil
          subst isNil
          obtain _ | ⟨siblingOk, -⟩ | ⟨siblingOk, -⟩ := deleting.accepts
          · cases siblingOk
          · cases siblingOk
        have isSide := there.side (.inr hasSibling)
        have pendingNow : pending (⟨side, color, parent, sibling⟩ :: rest) sub = rest.length + 3 := by
          rw [pending, subOk.rootColor]
          rfl
        simp only [goesOn, if_true, above, bind_eq_bind, bind_some, isSide]
        rcases Deleting.turn deleting subOk with
          ⟨after, framesAfter, _, _, turned, isParent, deletingAfter, sameOrder, _⟩ |
          ⟨after, whole, wholeHeight, turned, wholeThere, wholeOk, sameOrder⟩
        · have isAbove : (after.node parent).parent = above framesAfter := by
            obtain ⟨_, _, _, rfl⟩ := exists_node_of_link isParent
            exact congrArg RbTreeNode.parent deletingAfter.there.isNode
          obtain ⟨final, node, looped, settled⟩ := ih deletingAfter (by omega)
          rw [isParent] at looped
          refine ⟨final, node, ?_, sameOrder ▸ settled⟩
          simp [turned, isAbove, looped]
        have painted : IsRb .black wholeHeight (blacken whole) := by
          rw [wholeOk.blacken]
          exact wholeOk
        refine ⟨after, after.root, ?_, [], whole, wholeHeight, wholeThere, wholeThere.surrounds.symm,
          painted, sameOrder⟩
        simp only [turned, bind_some]
        rfl
    · obtain ⟨whole, ok⟩ := deleting.accepts.plug blackOk
      refine ⟨tree, sub.link, ?_, frames, sub, whole, there, rfl, ok, rfl⟩
      rw [isRed]
      rfl

theorem rbtreeDeleteFixup_balanced (deleting : Deleting tree frames sub height)
    (enough : pending frames sub ≤ turns) :
    ∃ after whole wholeHeight, rbtreeDeleteFixup turns tree sub.link (above frames) = some after ∧
      after.At [] whole ∧ IsRb .black wholeHeight whole ∧ whole.inorder = (plug frames sub).inorder := by
  obtain ⟨middle, node, looped, placeFrames, place, wholeHeight, there, isNode, ok, sameOrder⟩ :=
    deleteFixupLoop_settles deleting enough
  rw [rbtreeDeleteFixup, looped]
  cases place with
  | nil =>
    obtain rfl : node = none := isNode.symm
    exact ⟨middle, _, wholeHeight, rfl, at_plug.mp there, ok, sameOrder⟩
  | node _ item =>
    obtain rfl : node = some item := isNode.symm
    have painted := there.setColorNode .black
    refine ⟨middle.setColor item .black, _, wholeHeight, rfl, at_plug.mp painted, ok, Eq.trans ?_ sameOrder⟩
    exact inorder_plug_congr placeFrames rfl

end Loop

end RbTreeCtrl

end MyCode.RbTree
