import MyCode.RbTree

/-!
# The tree in the memory

A tree is in the memory when each of its nodes has its colour and its links.  The same
is said of a subtree and of its place, so that a change at a node is one at a place.
-/

namespace MyCode.RbTree

open MyCode.Lib MyCode.Lib.BinTree List

/-- A node by its child on a side and the one on the other side. -/
def record (side : Side) (color : Color) (near far parent : Option Nat) : RbTreeNode :=
  match side with
  | .left => ⟨color, near, far, parent⟩
  | .right => ⟨color, far, near, parent⟩

section Record

variable {side : Side} {color other : Color} {near far parent link : Option Nat}

@[simp]
theorem record_color : (record side color near far parent).color = color := by
  cases side <;> rfl

@[simp]
theorem record_parent : (record side color near far parent).parent = parent := by
  cases side <;> rfl

@[simp]
theorem record_near : (record side color near far parent).child side = near := by
  cases side <;> rfl

@[simp]
theorem record_far : (record side color near far parent).child side.other = far := by
  cases side <;> rfl

@[simp]
theorem setChild_near :
    (record side color near far parent).setChild side link = record side color link far parent := by
  cases side <;> rfl

@[simp]
theorem setChild_far :
    (record side color near far parent).setChild side.other link = record side color near link parent := by
  cases side <;> rfl

theorem setColor_record :
    { record side color near far parent with color := other } = record side other near far parent := by
  cases side <;> rfl

theorem setParent_record :
    { record side color near far parent with parent := link } = record side color near far link := by
  cases side <;> rfl

end Record

namespace RbTreeCtrl

variable {before : Option Nat} {moved : BinTree Color Nat} {old : Nat}

/-- A subtree is in the memory below `parent`. -/
def Holds (tree : RbTreeCtrl) : (parent : Option Nat) → BinTree Color Nat → Prop
  | _, .nil => True
  | parent, .node color address left right =>
    tree.node address = ⟨color, left.link, right.link, parent⟩ ∧
    tree.Holds (some address) left ∧ tree.Holds (some address) right

/-- A place is in the memory, with a link in it. -/
def Surrounds (tree : RbTreeCtrl) : List (Frame Color Nat) → (link : Option Nat) → Prop
  | [], link => tree.root = link
  | ⟨side, color, address, far⟩ :: rest, link =>
    tree.node address = record side color link far.link (above rest) ∧
    tree.Holds (some address) far ∧ tree.Surrounds rest (some address)

structure At (tree : RbTreeCtrl) (frames : List (Frame Color Nat)) (sub : BinTree Color Nat) : Prop where
  surrounds : tree.Surrounds frames sub.link
  holds : tree.Holds (above frames) sub
  nodup : (sub.inorder ++ around frames).Nodup

section Write

variable {tree : RbTreeCtrl} {address other : Nat} {change : RbTreeNode → RbTreeNode}
  {parent link : Option Nat} {sub : BinTree Color Nat} {frames : List (Frame Color Nat)}

@[simp]
theorem write_self : (tree.write address change).node address = change (tree.node address) :=
  Function.update_self _ _ _

theorem write_of_ne (differs : other ≠ address) :
    (tree.write address change).node other = tree.node other :=
  Function.update_of_ne differs _ _

theorem Holds.congr {after : RbTreeCtrl} (holds : tree.Holds parent sub)
    (same : ∀ address ∈ sub.inorder, after.node address = tree.node address) :
    after.Holds parent sub := by
  induction sub generalizing parent with
  | nil => trivial
  | node _ item _ _ leftHypothesis rightHypothesis =>
    obtain ⟨isNode, leftHolds, rightHolds⟩ := holds
    refine ⟨(same item ?_).trans isNode, leftHypothesis leftHolds fun address inside => same address ?_,
      rightHypothesis rightHolds fun address inside => same address ?_⟩
    · simp [inorder]
    · simp [inorder, inside]
    · simp [inorder, inside]

theorem Surrounds.congr {after : RbTreeCtrl} (surrounds : tree.Surrounds frames link)
    (sameRoot : after.root = tree.root)
    (same : ∀ address ∈ around frames, after.node address = tree.node address) :
    after.Surrounds frames link := by
  induction frames generalizing link with
  | nil => exact sameRoot.trans surrounds
  | cons frame _ ih =>
    obtain ⟨_, _, item, _⟩ := frame
    obtain ⟨isNode, farHolds, restSurrounds⟩ := surrounds
    refine ⟨(same item ?_).trans isNode, farHolds.congr fun address inside => same address ?_,
      ih restSurrounds fun address inside => same address ?_⟩
    · simp [around]
    · simp [around, inside]
    · simp [around, inside]

theorem Holds.write (holds : tree.Holds parent sub) (outside : address ∉ sub.inorder) :
    (tree.write address change).Holds parent sub :=
  holds.congr fun _ inside => write_of_ne fun same => outside (same ▸ inside)

theorem Surrounds.write (surrounds : tree.Surrounds frames link)
    (outside : address ∉ around frames) : (tree.write address change).Surrounds frames link :=
  surrounds.congr rfl fun _ inside => write_of_ne fun same => outside (same ▸ inside)

theorem setParentOf_some : tree.setParentOf (some address) parent = tree.setParent address parent :=
  rfl

theorem setParentOf_node (outside : link ≠ some other) :
    (tree.setParentOf link parent).node other = tree.node other := by
  cases link with
  | none => rfl
  | some =>
    rw [setParentOf_some, setParent]
    exact write_of_ne fun same => outside (congrArg some same.symm)

@[simp]
theorem setParentOf_root : (tree.setParentOf link parent).root = tree.root := by
  cases link <;> rfl

theorem Holds.setParentOf (holds : tree.Holds before sub) (nodup : sub.inorder.Nodup) :
    (tree.setParentOf sub.link parent).Holds parent sub := by
  cases sub with
  | nil => trivial
  | node _ item left right =>
    obtain ⟨isNode, leftHolds, rightHolds⟩ := holds
    obtain ⟨-, nodupRight, apart⟩ := nodup_append.mp nodup
    have outsideRight := (nodup_cons.mp nodupRight).1
    have outsideLeft : item ∉ left.inorder := fun inside =>
      apart item inside item mem_cons_self rfl
    rw [BinTree.link, setParentOf_some, setParent]
    refine ⟨?_, leftHolds.write outsideLeft, rightHolds.write outsideRight⟩
    rw [write_self, isNode]

theorem Holds.setParentOf_other (holds : tree.Holds before sub)
    (apart : Disjoint moved.inorder sub.inorder) :
    (tree.setParentOf moved.link parent).Holds before sub :=
  holds.congr fun _ inside => setParentOf_node fun isLink => apart (mem_of_link isLink) inside

theorem Surrounds.setParentOf (surrounds : tree.Surrounds frames link)
    (apart : Disjoint moved.inorder (around frames)) :
    (tree.setParentOf moved.link parent).Surrounds frames link :=
  surrounds.congr setParentOf_root fun _ inside =>
    setParentOf_node fun isLink => apart (mem_of_link isLink) inside

theorem replaceChild_node {side : Side} (outside : other ∉ around frames) :
    (tree.replaceChild side (above frames) old link).node other = tree.node other := by
  cases frames with
  | nil => rfl
  | cons frame =>
    have differs : other ≠ frame.item := by
      rintro rfl
      exact outside mem_cons_self
    rw [above, RbTreeCtrl.replaceChild]
    split
    · exact write_of_ne differs
    · exact write_of_ne differs

theorem Holds.replaceChild {side : Side} (holds : tree.Holds parent sub)
    (apart : Disjoint sub.inorder (around frames)) :
    (tree.replaceChild side (above frames) old link).Holds parent sub :=
  holds.congr fun _ inside => replaceChild_node fun isAround => apart inside isAround

theorem Surrounds.replaceChild {side : Side} (surrounds : tree.Surrounds frames (some old))
    (nodup : (around frames).Nodup) (outside : old ∉ around frames) :
    (tree.replaceChild side (above frames) old link).Surrounds frames link := by
  cases frames with
  | nil => rfl
  | cons frame =>
    obtain ⟨place, _, item, far⟩ := frame
    obtain ⟨isNode, farHolds, restSurrounds⟩ := surrounds
    rw [around, cons_append, nodup_cons, mem_append, not_or] at nodup
    obtain ⟨notAround, -⟩ := nodup
    have notFar : far.link ≠ some old := by
      intro isLink
      exact outside (mem_cons_of_mem _ (mem_append_left _ (mem_of_link isLink)))
    -- The comparison tells on which side the place is.
    have written : tree.replaceChild side (some item) old link = tree.setChild item place link := by
      rw [RbTreeCtrl.replaceChild]
      by_cases same : side = place
      · rw [same, isNode, record_near, if_pos rfl]
      obtain rfl : side = place.other := by
        cases side <;> cases place <;> first | rfl | exact absurd rfl same
      rw [isNode, record_far, if_neg notFar, Side.other_other]
    rw [above, written]
    refine ⟨?_, farHolds.write notAround.1, restSurrounds.write notAround.2⟩
    rw [RbTreeCtrl.setChild, write_self, isNode, setChild_near]

end Write

section Moves

variable {tree : RbTreeCtrl} {side : Side} {color : Color} {address : Nat} {first second sub : BinTree Color Nat}
  {frames rest : List (Frame Color Nat)} {frame : Frame Color Nat} {parent : Option Nat}

theorem holds_mk : tree.Holds parent (.mk side color address first second) ↔
    tree.node address = record side color first.link second.link parent ∧
    tree.Holds (some address) first ∧ tree.Holds (some address) second := by
  cases side with
  | left => exact Iff.rfl
  | right => exact and_congr_right fun _ => and_comm

theorem at_cons : tree.At (frame :: rest) sub ↔ tree.At rest (plugFrame frame sub) := by
  obtain ⟨side, color, item, far⟩ := frame
  have perm : ((plugFrame ⟨side, color, item, far⟩ sub).inorder ++ around rest).Perm
      (sub.inorder ++ around (⟨side, color, item, far⟩ :: rest)) := by
    apply ((inorder_mk_perm side color item sub far).append_right _).trans
    rw [cons_append, append_assoc]
    exact perm_middle.symm
  constructor
  · rintro ⟨⟨isNode, farHolds, restSurrounds⟩, holds, nodup⟩
    refine ⟨?_, holds_mk.mpr ⟨isNode, holds, farHolds⟩, perm.nodup_iff.mpr nodup⟩
    rw [plugFrame, link_mk]
    exact restSurrounds
  rintro ⟨surrounds, holds, nodup⟩
  obtain ⟨isNode, nearHolds, farHolds⟩ := holds_mk.mp holds
  rw [plugFrame, link_mk] at surrounds
  exact ⟨⟨isNode, farHolds, surrounds⟩, nearHolds, perm.nodup_iff.mp nodup⟩

theorem at_plug : tree.At frames sub ↔ tree.At [] (plug frames sub) := by
  induction frames generalizing sub with
  | nil => exact Iff.rfl
  | cons _ _ ih => exact at_cons.trans ih

theorem At.near (there : tree.At frames (.mk side color address first second)) :
    tree.At (⟨side, color, address, second⟩ :: frames) first :=
  at_cons.mpr there

theorem At.far (there : tree.At frames (.mk side color address first second)) :
    tree.At (⟨side.other, color, address, first⟩ :: frames) second := by
  apply at_cons.mpr
  rw [plugFrame, mk_other]
  exact there

theorem At.up (there : tree.At (frame :: rest) sub) : tree.At rest (plugFrame frame sub) :=
  at_cons.mp there

theorem At.upOther (there : tree.At (⟨side.other, color, address, first⟩ :: rest) sub) :
    tree.At rest (.mk side color address first sub) := by
  have raised := there.up
  rw [plugFrame, mk_other] at raised
  exact raised

theorem At.node (there : tree.At frames (.mk side color address first second)) :
    tree.node address = record side color first.link second.link (above frames) :=
  (holds_mk.mp there.holds).1

theorem At.isNode {color : Color} {address : Nat} {left right : BinTree Color Nat}
    (there : tree.At frames (.node color address left right)) :
    tree.node address = ⟨color, left.link, right.link, above frames⟩ :=
  there.holds.1

end Moves

end RbTreeCtrl

end MyCode.RbTree
