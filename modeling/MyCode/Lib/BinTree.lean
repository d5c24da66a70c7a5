import Mathlib.Data.List.Nodup
import Mathlib.Data.List.Perm.Basic

/-!
# Binary trees with a place

A place in a tree is the list of the nodes above it, the nearest first, with what hangs
on the other side of each.  Left and right are values, so that mirrored cases are one.
-/

namespace MyCode.Lib

open List

universe u v

inductive Side where
  | left
  | right
  deriving DecidableEq, Repr

def Side.other : Side → Side
  | left => right
  | right => left

@[simp]
theorem Side.other_other (side : Side) : side.other.other = side := by
  cases side <;> rfl

inductive BinTree (Mark : Type u) (Item : Type v) where
  | nil
  | node (mark : Mark) (item : Item) (left right : BinTree Mark Item)

namespace BinTree

variable {Mark : Type u} {Item : Type v} {tree : BinTree Mark Item}

def link : BinTree Mark Item → Option Item
  | nil => none
  | node _ item _ _ => some item

def inorder : BinTree Mark Item → List Item
  | nil => []
  | node _ item left right => left.inorder ++ item :: right.inorder

/-- A node by its subtree on a side and the one on the other side. -/
def mk (side : Side) (mark : Mark) (item : Item) (near far : BinTree Mark Item) : BinTree Mark Item :=
  match side with
  | .left => node mark item near far
  | .right => node mark item far near

@[simp]
theorem link_mk (side : Side) (mark : Mark) (item : Item) (near far : BinTree Mark Item) :
    (mk side mark item near far).link = some item := by
  cases side <;> rfl

theorem mk_other (side : Side) (mark : Mark) (item : Item) (near far : BinTree Mark Item) :
    mk side.other mark item near far = mk side mark item far near := by
  cases side <;> rfl

theorem mem_of_link {item : Item} (isLink : tree.link = some item) : item ∈ tree.inorder := by
  cases tree with
  | nil => cases isLink
  | node =>
    cases isLink
    simp [inorder]

theorem eq_nil_of_link (isLink : tree.link = none) : tree = nil := by
  cases tree with
  | nil => rfl
  | node => cases isLink

theorem exists_node_of_link {item : Item} (isLink : tree.link = some item) :
    ∃ mark left right, tree = node mark item left right := by
  cases tree with
  | nil => cases isLink
  | node mark _ left right =>
    cases isLink
    exact ⟨mark, left, right, rfl⟩

theorem inorder_mk_perm (side : Side) (mark : Mark) (item : Item) (near far : BinTree Mark Item) :
    (mk side mark item near far).inorder.Perm (item :: (near.inorder ++ far.inorder)) := by
  cases side with
  | left => exact perm_middle
  | right => exact perm_middle.trans (perm_append_comm.cons item)

theorem inorder_rotate (side : Side) (mark mark' other other' : Mark) (item below : Item)
    (near middle far : BinTree Mark Item) :
    (mk side other below (mk side mark item near middle) far).inorder =
      (mk side mark' item near (mk side other' below middle far)).inorder := by
  cases side <;> simp [mk, inorder]

theorem inorder_mk_congr (side : Side) (mark other : Mark) (item : Item)
    {near far nearAfter farAfter : BinTree Mark Item} (sameNear : nearAfter.inorder = near.inorder)
    (sameFar : farAfter.inorder = far.inorder) :
    (mk side other item nearAfter farAfter).inorder = (mk side mark item near far).inorder := by
  cases side <;> simp [mk, inorder, sameNear, sameFar]

end BinTree

/-- A node above a place: the side of the place, and the subtree on the other side. -/
structure Frame (Mark : Type u) (Item : Type v) where
  side : Side
  mark : Mark
  item : Item
  far : BinTree Mark Item

namespace BinTree

variable {Mark : Type u} {Item : Type v}

def plugFrame (frame : Frame Mark Item) (tree : BinTree Mark Item) : BinTree Mark Item :=
  mk frame.side frame.mark frame.item tree frame.far

/-- The whole tree with a given one at a place. -/
def plug : List (Frame Mark Item) → BinTree Mark Item → BinTree Mark Item
  | [], tree => tree
  | frame :: rest, tree => plug rest (plugFrame frame tree)

def before : List (Frame Mark Item) → List Item
  | [] => []
  | ⟨.left, _, _, _⟩ :: rest => before rest
  | ⟨.right, _, item, far⟩ :: rest => before rest ++ far.inorder ++ [item]

def after : List (Frame Mark Item) → List Item
  | [] => []
  | ⟨.left, _, item, far⟩ :: rest => item :: far.inorder ++ after rest
  | ⟨.right, _, _, _⟩ :: rest => after rest

def around : List (Frame Mark Item) → List Item
  | [] => []
  | ⟨_, _, item, far⟩ :: rest => item :: far.inorder ++ around rest

def above : List (Frame Mark Item) → Option Item
  | [] => none
  | frame :: _ => some frame.item

theorem plug_append (first second : List (Frame Mark Item)) (tree : BinTree Mark Item) :
    plug (first ++ second) tree = plug second (plug first tree) := by
  induction first generalizing tree with
  | nil => rfl
  | cons frame _ ih => exact ih (plugFrame frame tree)

theorem inorder_plug (frames : List (Frame Mark Item)) (tree : BinTree Mark Item) :
    (plug frames tree).inorder = before frames ++ tree.inorder ++ after frames := by
  induction frames generalizing tree with
  | nil => simp [plug, before, after]
  | cons frame _ ih =>
    rw [plug, ih]
    obtain ⟨side, -, -, -⟩ := frame
    cases side <;> simp [plugFrame, mk, inorder, before, after]

theorem inorder_plug_congr (frames : List (Frame Mark Item)) {tree other : BinTree Mark Item}
    (same : tree.inorder = other.inorder) : (plug frames tree).inorder = (plug frames other).inorder := by
  rw [inorder_plug, inorder_plug, same]

theorem around_perm (frames : List (Frame Mark Item)) :
    (around frames).Perm (before frames ++ after frames) := by
  induction frames with
  | nil => exact Perm.nil
  | cons frame _ ih =>
    obtain ⟨side, -, item, far⟩ := frame
    cases side with
    | left =>
      refine ((ih.append_left (item :: far.inorder)).trans ?_)
      simp only [before, after, ← append_assoc]
      exact perm_append_comm.append_right _
    | right =>
      refine ((ih.append_left (item :: far.inorder)).trans ?_)
      simp only [before, after, ← append_assoc]
      refine Perm.append_right _ ?_
      refine perm_append_comm.trans ?_
      rw [append_assoc]
      exact (perm_append_singleton item far.inorder).symm.append_left _

theorem inorder_plug_perm (frames : List (Frame Mark Item)) (tree : BinTree Mark Item) :
    (plug frames tree).inorder.Perm (tree.inorder ++ around frames) := by
  rw [inorder_plug]
  refine (perm_append_comm.append_right _).trans ?_
  rw [append_assoc]
  exact (around_perm frames).symm.append_left _

theorem exists_plug {tree : BinTree Mark Item} {item : Item} (member : item ∈ tree.inorder) :
    ∃ frames mark left right, tree = plug frames (node mark item left right) := by
  induction tree with
  | nil => cases member
  | node mark root left right leftHypothesis rightHypothesis =>
    simp only [inorder, mem_append, mem_cons] at member
    rcases member with inLeft | rfl | inRight
    · obtain ⟨frames, markBelow, leftBelow, rightBelow, rfl⟩ := leftHypothesis inLeft
      refine ⟨frames ++ [⟨.left, mark, root, right⟩], markBelow, leftBelow, rightBelow, ?_⟩
      rw [plug_append]
      rfl
    · exact ⟨[], mark, left, right, rfl⟩
    obtain ⟨frames, markBelow, leftBelow, rightBelow, rfl⟩ := rightHypothesis inRight
    refine ⟨frames ++ [⟨.right, mark, root, left⟩], markBelow, leftBelow, rightBelow, ?_⟩
    rw [plug_append]
    rfl

theorem length_le_around (frames : List (Frame Mark Item)) : frames.length ≤
    (around frames).length := by
  induction frames with
  | nil => exact Nat.le_refl _
  | cons =>
    rw [around, length_append, length_cons, length_cons]
    omega

theorem length_le_plug (frames : List (Frame Mark Item)) (tree : BinTree Mark Item) :
    frames.length ≤ (plug frames tree).inorder.length := by
  rw [(inorder_plug_perm frames tree).length_eq, length_append]
  exact Nat.le_add_left_of_le (length_le_around frames)

theorem above_append (first second : List (Frame Mark Item)) :
    above (first ++ second) = (above first).or (above second) := by
  cases first <;> rfl

theorem before_of_left {frames : List (Frame Mark Item)}
    (allLeft : ∀ frame ∈ frames, frame.side = .left) : before frames = [] := by
  induction frames with
  | nil => rfl
  | cons frame _ ih =>
    obtain ⟨side, _, _, _⟩ := frame
    obtain rfl : side = .left := allLeft _ mem_cons_self
    exact ih fun frame inside => allLeft frame (mem_cons_of_mem _ inside)

end BinTree

end MyCode.Lib
