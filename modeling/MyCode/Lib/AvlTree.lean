import Mathlib.Data.Nat.Fib.Basic
import MyCode.Lib.BinTree

/-!
# Balanced binary trees

Trees whose nodes are marked with their heights, and the places in them: what a place
accepts is a tree of the height that was there.
-/

namespace MyCode.Lib

universe u

variable {Item : Type u}

open BinTree

def BinTree.height : BinTree Int Item → Int
  | .nil => 0
  | .node height _ _ _ => height

def BinTree.child (side : Side) : BinTree Int Item → BinTree Int Item
  | .nil => .nil
  | .node _ _ left right =>
    match side with
    | .left => left
    | .right => right

@[simp]
theorem BinTree.height_nil : (.nil : BinTree Int Item).height = 0 :=
  rfl

@[simp]
theorem BinTree.height_node (height : Int) (item : Item) (left right : BinTree Int Item) :
    (BinTree.node height item left right).height = height :=
  rfl

/-- The heights are recorded, and those of two brothers differ by one at most. -/
inductive IsAvl : Int → BinTree Int Item → Prop where
  | nil : IsAvl 0 .nil
  | node {height leftHeight rightHeight item left right} : IsAvl leftHeight left →
      IsAvl rightHeight right → leftHeight ≤ rightHeight + 1 → rightHeight ≤ leftHeight + 1 →
      height = max leftHeight rightHeight + 1 → IsAvl height (.node height item left right)

inductive AvlPlace : Int → List (Frame Int Item) → Prop where
  | root {height} : AvlPlace height []
  | under {height farHeight mark side item far rest} : IsAvl farHeight far →
      height ≤ farHeight + 1 → farHeight ≤ height + 1 → mark = max height farHeight + 1 →
      AvlPlace mark rest → AvlPlace height (⟨side, mark, item, far⟩ :: rest)

variable {height nearHeight farHeight mark whole : Int} {side : Side} {item : Item}
  {tree near far : BinTree Int Item} {frames : List (Frame Int Item)}

theorem IsAvl.height_eq (ok : IsAvl height tree) : tree.height = height := by
  cases ok with
  | nil => rfl
  | node => rfl

theorem IsAvl.nonneg (ok : IsAvl height tree) : 0 ≤ height := by
  induction ok with
  | nil => exact Int.le_refl 0
  | node => omega

theorem IsAvl.link_isSome (ok : IsAvl height tree) (positive : 0 < height) : tree.link.isSome := by
  cases ok with
  | nil => exact absurd positive (by decide)
  | node => rfl

theorem IsAvl.mk (nearOk : IsAvl nearHeight near) (farOk : IsAvl farHeight far)
    (nearBound : nearHeight ≤ farHeight + 1) (farBound : farHeight ≤ nearHeight + 1)
    (recorded : mark = max nearHeight farHeight + 1) : IsAvl mark (mk side mark item near far) := by
  cases side with
  | left => exact .node nearOk farOk nearBound farBound recorded
  | right => exact .node farOk nearOk farBound nearBound (by omega)

theorem IsAvl.exists_mk (ok : IsAvl height tree) (positive : 0 < height) (side : Side) :
    ∃ item near far nearHeight farHeight, tree = BinTree.mk side height item near far ∧
      IsAvl nearHeight near ∧ IsAvl farHeight far ∧ nearHeight ≤ farHeight + 1 ∧
      farHeight ≤ nearHeight + 1 ∧ height = max nearHeight farHeight + 1 := by
  cases ok with
  | nil => exact absurd positive (by decide)
  | node leftOk rightOk leftBound rightBound recorded =>
    cases side with
    | left => exact ⟨_, _, _, _, _, rfl, leftOk, rightOk, leftBound, rightBound, recorded⟩
    | right => exact ⟨_, _, _, _, _, rfl, rightOk, leftOk, rightBound, leftBound, by omega⟩

theorem IsAvl.of_mk (ok : IsAvl height (BinTree.mk side mark item near far)) :
    ∃ nearHeight farHeight, height = mark ∧ IsAvl nearHeight near ∧ IsAvl farHeight far ∧
      nearHeight ≤ farHeight + 1 ∧ farHeight ≤ nearHeight + 1 ∧
      mark = max nearHeight farHeight + 1 := by
  cases side with
  | left =>
    cases ok with
    | node leftOk rightOk leftBound rightBound recorded =>
      exact ⟨_, _, rfl, leftOk, rightOk, leftBound, rightBound, recorded⟩
  | right =>
    cases ok with
    | node leftOk rightOk leftBound rightBound =>
      exact ⟨_, _, rfl, rightOk, leftOk, rightBound, leftBound, by omega⟩

theorem AvlPlace.plug (place : AvlPlace height frames) (ok : IsAvl height tree) :
    ∃ whole, IsAvl whole (plug frames tree) := by
  induction place generalizing tree with
  | root => exact ⟨_, ok⟩
  | under farOk nearBound farBound recorded _ ih =>
    exact ih (ok.mk farOk nearBound farBound recorded)

/-- Every node of a balanced tree is at a place for its height; there are no more nodes above
it than the whole tree is high. -/
theorem IsAvl.unplug (ok : IsAvl whole (plug frames tree)) :
    ∃ height, IsAvl height tree ∧ AvlPlace height frames ∧ height + frames.length ≤ whole := by
  induction frames generalizing tree with
  | nil => exact ⟨whole, ok, .root, by simp⟩
  | cons _ _ ih =>
    obtain ⟨_, nodeOk, place, _⟩ := ih ok
    obtain ⟨nearHeight, _, rfl, nearOk, farOk, nearBound, farBound, recorded⟩ := nodeOk.of_mk
    refine ⟨nearHeight, nearOk, .under farOk nearBound farBound recorded place, ?_⟩
    rw [List.length_cons]
    push_cast
    omega

theorem AvlPlace.rename {first rest : List (Frame Int Item)} {other : Item}
    (place : AvlPlace height (first ++ ⟨side, mark, item, far⟩ :: rest)) :
    AvlPlace height (first ++ ⟨side, mark, other, far⟩ :: rest) := by
  induction first generalizing height with
  | nil =>
    cases place with
    | under farOk nearBound farBound recorded restOk =>
      exact .under farOk nearBound farBound recorded restOk
  | cons _ _ ih =>
    cases place with
    | under farOk nearBound farBound recorded restOk =>
      exact .under farOk nearBound farBound recorded (ih restOk)

end MyCode.Lib
