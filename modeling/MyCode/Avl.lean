import MyCode.Lib.AvlTree
import MyCode.Types

/-!
# AVL trees

The trees of `avllib_utl.c`.  The ancestors of a place are the nodes above it, the nearest
first.  The mirrored halves of a rotation are one function of a side.  No result means
that `NULL` was followed or that the array of the ancestors was overrun.
-/

namespace MyCode.Avl

open Lib BinTree

abbrev AvlTree (Node : Type) := BinTree Int Node

def AVL_MAX_HEIGHT : Nat := 42

variable {Node : Type}

/-- A turn of the loop of `avlRebalance` at a node whose subtree on `side` is too high. -/
def avlRotate (side : Side) (nodep : Node) (near far : AvlTree Node) : Option (AvlTree Node) :=
  match near with
  | .nil => none
  | .node _ nearp _ _ =>
    let outer := near.child side
    let inner := near.child side.other
    let innerh := inner.height
    if outer.link.isSome ∧ innerh ≤ outer.height then
      some (mk side (innerh + 2) nearp outer (mk side (innerh + 1) nodep inner far))
    else
      match inner with
      | .nil => none
      | .node _ innerp _ _ =>
        some (mk side (innerh + 1) innerp (mk side innerh nearp outer (inner.child side))
          (mk side innerh nodep (inner.child side.other) far))

/-- A turn of the loop of `avlRebalance`, and whether the loop goes on above. -/
def avlRebalanceNode : AvlTree Node → Option (AvlTree Node × Bool)
  | .nil => none
  | .node recorded nodep left right =>
    let lefth := left.height
    let righth := right.height
    if righth - lefth < -1 then
      (avlRotate .left nodep left right).map fun tree => (tree, true)
    else if righth - lefth > 1 then
      (avlRotate .right nodep right left).map fun tree => (tree, true)
    else
      let height := (if righth > lefth then righth else lefth) + 1
      if recorded = height then
        some (.node recorded nodep left right, false)
      else
        some (.node height nodep left right, true)

/-- `avlRebalance` with a tree at the place below the ancestors. -/
def avlRebalance : (ancestors : List (Frame Int Node)) → AvlTree Node → Option (AvlTree Node)
  | [], tree => some tree
  | ancestor :: ancestors, tree =>
    match avlRebalanceNode (plugFrame ancestor tree) with
    | none => none
    | some (tree, true) => avlRebalance ancestors tree
    | some (tree, false) => some (plug ancestors tree)

/-- The loops that look for the place of a key; `cmp_func` has the key. -/
def avlDescend (cmp_func : Node → Int) :
    (ancestors : List (Frame Int Node)) → AvlTree Node → List (Frame Int Node) × AvlTree Node
  | ancestors, .nil => (ancestors, .nil)
  | ancestors, .node height nodep left right =>
    let delta := cmp_func nodep
    if delta = 0 then
      (ancestors, .node height nodep left right)
    else if delta < 0 then
      avlDescend cmp_func (⟨.left, height, nodep, right⟩ :: ancestors) left
    else
      avlDescend cmp_func (⟨.right, height, nodep, left⟩ :: ancestors) right

def avlSearch (cmp_func : Node → Int) : AvlTree Node → Option Node
  | .nil => none
  | .node _ nodep left right =>
    let delta := cmp_func nodep
    if delta = 0 then
      some nodep
    else if delta < 0 then
      avlSearch cmp_func left
    else
      avlSearch cmp_func right

/-- The ancestors that the loop of `avlInsert` records. -/
def avlInsertCount (root : AvlTree Node) (cmp_func : Node → Int) : Nat :=
  match avlDescend cmp_func [] root with
  | (ancestors, .nil) => ancestors.length
  | (ancestors, .node ..) => ancestors.length + 1

def avlInsert (root : AvlTree Node) (newNode : Node) (cmp_func : Node → Int) :
    Option (AvlTree Node × BsStatus) :=
  if AVL_MAX_HEIGHT < avlInsertCount root cmp_func then
    none
  else
    match avlDescend cmp_func [] root with
    | (_, .node ..) => some (root, .alreadyExist)
    | (ancestors, .nil) =>
      (avlRebalance ancestors (.node 1 newNode .nil .nil)).map fun tree => (tree, .ok)

/-- The second loop of `avlDelete`: the last node of a tree, its ancestors and its left subtree. -/
def avlLast : (ancestors : List (Frame Int Node)) → AvlTree Node →
    Option (List (Frame Int Node) × Node × AvlTree Node)
  | _, .nil => none
  | ancestors, .node height nodep left right =>
    match right with
    | .nil => some (ancestors, nodep, left)
    | .node .. => avlLast (⟨.right, height, nodep, left⟩ :: ancestors) right

/-- The slots of the array of the ancestors that `avlDelete` writes. -/
def avlDeleteCount (root : AvlTree Node) (cmp_func : Node → Int) : Nat :=
  match avlDescend cmp_func [] root with
  | (ancestors, .nil) => ancestors.length
  | (ancestors, .node _ _ .nil _) => ancestors.length + 1
  | (ancestors, .node _ _ left _) =>
    match avlLast [] left with
    | none => ancestors.length + 1
    | some (inner, _, _) => max (ancestors.length + 1 + inner.length) (ancestors.length + 2)

def avlDelete (root : AvlTree Node) (cmp_func : Node → Int) : Option (AvlTree Node × Option Node) :=
  if AVL_MAX_HEIGHT < avlDeleteCount root cmp_func then
    none
  else
    match avlDescend cmp_func [] root with
    | (_, .nil) => some (root, none)
    | (ancestors, .node _ deletep .nil right) =>
      (avlRebalance ancestors right).map fun tree => (tree, some deletep)
    | (ancestors, .node height deletep left right) => do
        -- The last node of the left subtree takes the place of the deleted one.
        let (inner, nodep, below) ← avlLast [] left
        let tree ← avlRebalance (inner ++ ⟨.left, height, nodep, right⟩ :: ancestors) below
        some (tree, some deletep)

/-- The nodes in the order in which `avlTreeErase` passes them to `pfFree`. -/
def avlEraseOrder : AvlTree Node → List Node
  | .nil => []
  | .node _ nodep left right => avlEraseOrder left ++ avlEraseOrder right ++ [nodep]

/-- `avlTreeErase`: the nodes passed to `pfFree`. -/
def avlTreeErase (root : AvlTree Node) (pfFree : Bool) : Option (AvlTree Node × List Node) :=
  if root.link.isSome ∧ !pfFree then
    none
  else
    some (.nil, avlEraseOrder root)

end MyCode.Avl
