import MyCode.Lib.RedBlack
import MyCode.Types

/-!
# Red-black trees in memory

`rb_tree.c`.  Nodes are the caller's memory, at addresses.  The mirrored halves of the
code are one function of a side.  No result means that `NULL` was followed, or that the
turns given to the loops were used up.
-/

namespace MyCode.RbTree

open MyCode.Lib

/-- `RB_TREE_NODE_S`. -/
structure RbTreeNode where
  color : Color
  left : Option Nat
  right : Option Nat
  parent : Option Nat

def RbTreeNode.child (node : RbTreeNode) : Side → Option Nat
  | .left => node.left
  | .right => node.right

def RbTreeNode.setChild (node : RbTreeNode) (side : Side) (child : Option Nat) : RbTreeNode :=
  match side with
  | .left => { node with left := child }
  | .right => { node with right := child }

/-- `RB_TREE_CTRL_S` and the nodes. -/
structure RbTreeCtrl where
  node : Nat → RbTreeNode
  root : Option Nat

namespace RbTreeCtrl

variable (tree : RbTreeCtrl)

def write (address : Nat) (change : RbTreeNode → RbTreeNode) : RbTreeCtrl :=
  { tree with node := Function.update tree.node address (change (tree.node address)) }

def setChild (address : Nat) (side : Side) (child : Option Nat) : RbTreeCtrl :=
  tree.write address fun node => node.setChild side child

def setColor (address : Nat) (color : Color) : RbTreeCtrl :=
  tree.write address fun node => { node with color := color }

def setParent (address : Nat) (parent : Option Nat) : RbTreeCtrl :=
  tree.write address fun node => { node with parent := parent }

/-- `rb_set_parent` of a node that may be missing. -/
def setParentOf (link : Option Nat) (parent : Option Nat) : RbTreeCtrl :=
  match link with
  | none => tree
  | some address => tree.setParent address parent

def isRed (link : Option Nat) : Bool :=
  match link with
  | none => false
  | some address => (tree.node address).color = .red

/-- `new` takes the place of `old` below `parent`, on `side` if it was there. -/
def replaceChild (side : Side) (parent : Option Nat) (old : Nat) (new : Option Nat) : RbTreeCtrl :=
  match parent with
  | none => { tree with root := new }
  | some parent =>
    if (tree.node parent).child side = some old then
      tree.setChild parent side new
    else
      tree.setChild parent side.other new

end RbTreeCtrl

/-- `_rbtree_left_rotate` for the left side and `_rbtree_right_rotate` for the right one. -/
def rbtreeRotate (side : Side) (tree : RbTreeCtrl) (x : Nat) : Option RbTreeCtrl := do
  let y ← (tree.node x).child side.other
  let inner := (tree.node y).child side
  let tree := tree.setChild x side.other inner
  let tree := tree.setParentOf inner (some x)
  let tree := tree.setParent y (tree.node x).parent
  let tree := tree.replaceChild side (tree.node x).parent x (some y)
  let tree := tree.setChild y side (some x)
  some (tree.setParent x (some y))

/-- A turn of the loop of `_rbtree_insert_fixup` with a black uncle; the next node. -/
def rbtreeInsertFixupRotate (side : Side) (tree : RbTreeCtrl) (gparent parent node : Nat) :
    Option (RbTreeCtrl × Nat) := do
  let (tree, parent, node) ←
    if (tree.node parent).child side.other = some node then do
      let tree ← rbtreeRotate side tree parent
      some (tree, node, parent)
    else
      some (tree, parent, node)
  let tree := (tree.setColor parent .black).setColor gparent .red
  let tree ← rbtreeRotate side.other tree gparent
  some (tree, node)

/-- A turn of the loop below a red `parent`; the next node. -/
def rbtreeInsertFixupTurn (side : Side) (tree : RbTreeCtrl) (gparent parent node : Nat) :
    Option (RbTreeCtrl × Nat) :=
  match (tree.node gparent).child side.other with
  | some uncle =>
    if (tree.node uncle).color = .red then
      some (((tree.setColor uncle .black).setColor parent .black).setColor gparent .red, gparent)
    else
      rbtreeInsertFixupRotate side tree gparent parent node
  | none => rbtreeInsertFixupRotate side tree gparent parent node

def rbtreeInsertFixupLoop : (turns : Nat) → RbTreeCtrl → (node : Nat) → Option RbTreeCtrl
  | 0, _, _ => none
  | turns + 1, tree, node =>
    match (tree.node node).parent with
    | none => some tree
    | some parent =>
      if (tree.node parent).color = .red then do
        let gparent ← (tree.node parent).parent
        let side := if (tree.node gparent).left = some parent then Side.left else .right
        let (tree, node) ← rbtreeInsertFixupTurn side tree gparent parent node
        rbtreeInsertFixupLoop turns tree node
      else
        some tree

def rbtreeInsertFixup (turns : Nat) (tree : RbTreeCtrl) (node : Nat) : Option RbTreeCtrl := do
  let tree ← rbtreeInsertFixupLoop turns tree node
  let root ← tree.root
  some (tree.setColor root .black)

/-- The loop of `_rbtree_insert`: `y` and `cmp_ret_y`, or a conflict. -/
def rbtreeInsertWalk (tree : RbTreeCtrl) (cmp_func : Nat → Int) :
    (turns : Nat) → (x y : Option Nat) → (cmp_ret cmp_ret_y : Int) →
      Option (Except BsStatus (Option Nat × Int))
  | 0, _, _, _, _ => none
  | _ + 1, none, y, _, cmp_ret_y => some (.ok (y, cmp_ret_y))
  | turns + 1, some x, _, cmp_ret, _ =>
    let cmp_ret_y := cmp_ret
    let y := some x
    let cmp_ret := cmp_func x
    if cmp_ret < 0 then
      rbtreeInsertWalk tree cmp_func turns (tree.node x).left y cmp_ret cmp_ret_y
    else if 0 < cmp_ret then
      rbtreeInsertWalk tree cmp_func turns (tree.node x).right y cmp_ret cmp_ret_y
    else
      some (.error .conflict)

/-- `RBTree_Insert`; `cmp_func` has the key. -/
def rbtreeInsert (turns : Nat) (tree : RbTreeCtrl) (node : Nat) (cmp_func : Nat → Int) :
    Option (RbTreeCtrl × BsStatus) := do
  match ← rbtreeInsertWalk tree cmp_func turns tree.root none 0 0 with
  | .error status => some (tree, status)
  | .ok (y, cmp_ret_y) =>
    let tree := tree.write node fun _ => ⟨.red, none, none, y⟩
    let tree :=
      match y with
      | some y => tree.setChild y (if cmp_ret_y < 0 then .left else .right) (some node)
      | none => { tree with root := some node }
    let tree ← rbtreeInsertFixup turns tree node
    some (tree, .ok)

/-- The first case of a turn: below a red `other`; the new `other`. -/
def rbtreeDeleteFixupRed (side : Side) (tree : RbTreeCtrl) (parent other : Nat) : Option (RbTreeCtrl × Nat) :=
  if (tree.node other).color = .red then do
    let tree ← rbtreeRotate side ((tree.setColor other .black).setColor parent .red) parent
    let other ← (tree.node parent).child side.other
    some (tree, other)
  else
    some (tree, other)

/-- The third case of a turn: only the near child of `other` is red; the new `other`. -/
def rbtreeDeleteFixupNear (side : Side) (tree : RbTreeCtrl) (parent other : Nat) : Option (RbTreeCtrl × Nat) :=
  if tree.isRed ((tree.node other).child side.other) then
    some (tree, other)
  else do
    let near ← (tree.node other).child side
    let tree ← rbtreeRotate side.other ((tree.setColor near .black).setColor other .red) other
    let other ← (tree.node parent).child side.other
    some (tree, other)

/-- A turn of the loop of `_rbtree_delete_fixup`, and whether the loop goes on above. -/
def rbtreeDeleteFixupTurn (side : Side) (tree : RbTreeCtrl) (parent : Nat) : Option (RbTreeCtrl × Bool) := do
  let other ← (tree.node parent).child side.other
  let (tree, other) ← rbtreeDeleteFixupRed side tree parent other
  if !tree.isRed (tree.node other).left && !tree.isRed (tree.node other).right then
    some (tree.setColor other .red, true)
  else
    let (tree, other) ← rbtreeDeleteFixupNear side tree parent other
    let tree := tree.setColor other (tree.node parent).color
    let tree := tree.setColor parent .black
    let far ← (tree.node other).child side.other
    let tree ← rbtreeRotate side (tree.setColor far .black) parent
    some (tree, false)

/-- The loop of `_rbtree_delete_fixup`, and the `node` at its end. -/
def rbtreeDeleteFixupLoop :
    (turns : Nat) → RbTreeCtrl → (node parent : Option Nat) → Option (RbTreeCtrl × Option Nat)
  | 0, _, _, _ => none
  | turns + 1, tree, node, parent =>
    if !tree.isRed node && node ≠ tree.root then do
      let parent ← parent
      let side := if (tree.node parent).left = node then Side.left else .right
      let (tree, above) ← rbtreeDeleteFixupTurn side tree parent
      if above then
        rbtreeDeleteFixupLoop turns tree (some parent) (tree.node parent).parent
      else
        some (tree, tree.root)
    else
      some (tree, node)

def rbtreeDeleteFixup (turns : Nat) (tree : RbTreeCtrl) (node parent : Option Nat) : Option RbTreeCtrl := do
  match ← rbtreeDeleteFixupLoop turns tree node parent with
  | (tree, some node) => some (tree.setColor node .black)
  | (tree, none) => some tree

/-- `_rbtree_minimum`. -/
def rbtreeMinimum (tree : RbTreeCtrl) : (turns : Nat) → (node : Nat) → Option Nat
  | 0, _ => none
  | turns + 1, node =>
    match (tree.node node).left with
    | none => some node
    | some left => rbtreeMinimum tree turns left

/-- The node that `replace` was below gives up `replace`, which takes over the right subtree
of `node`; the parent of `child`. -/
def rbtreeUnlink (tree : RbTreeCtrl) (node replace : Nat) (child parent : Option Nat) :
    Option (RbTreeCtrl × Option Nat) :=
  if parent = some node then
    some (tree, some replace)
  else do
    let above ← parent
    let tree := tree.setParentOf child parent
    let tree := tree.setChild above .left child
    let tree := tree.setChild replace .right (tree.node node).right
    let right ← (tree.node node).right
    some (tree.setParent right (some replace), parent)

/-- `RBTree_DelNode` of a node with two children. -/
def rbtreeDelInner (turns : Nat) (tree : RbTreeCtrl) (node left right : Nat) : Option RbTreeCtrl := do
  let replace ← rbtreeMinimum tree turns right
  let tree := tree.replaceChild .left (tree.node node).parent node (some replace)
  let child := (tree.node replace).right
  let color := (tree.node replace).color
  let (tree, parent) ← rbtreeUnlink tree node replace child (tree.node replace).parent
  let tree := tree.setParent replace (tree.node node).parent
  let tree := tree.setColor replace (tree.node node).color
  let tree := tree.setChild replace .left (tree.node node).left
  let tree := tree.setParent left (some replace)
  if color = .black then rbtreeDeleteFixup turns tree child parent else some tree

/-- `RBTree_DelNode` of a node that lacks a child. -/
def rbtreeDelOuter (turns : Nat) (tree : RbTreeCtrl) (node : Nat) : Option RbTreeCtrl :=
  let child := if (tree.node node).left.isSome then (tree.node node).left else (tree.node node).right
  let parent := (tree.node node).parent
  let color := (tree.node node).color
  let tree := tree.setParentOf child parent
  let tree := tree.replaceChild .left parent node child
  if color = .black then rbtreeDeleteFixup turns tree child parent else some tree

/-- `RBTree_DelNode`. -/
def rbtreeDelNode (turns : Nat) (tree : RbTreeCtrl) (node : Nat) : Option RbTreeCtrl :=
  match (tree.node node).left, (tree.node node).right with
  | some left, some right => rbtreeDelInner turns tree node left right
  | _, _ => rbtreeDelOuter turns tree node

/-- `_rbtree_search`. -/
def rbtreeSearch (tree : RbTreeCtrl) (cmp_func : Nat → Int) : (turns : Nat) → (x : Option Nat) → Option (Option Nat)
  | 0, _ => none
  | _ + 1, none => some none
  | turns + 1, some x =>
    let cmp_ret := cmp_func x
    if cmp_ret = 0 then
      some (some x)
    else if cmp_ret < 0 then
      rbtreeSearch tree cmp_func turns (tree.node x).left
    else
      rbtreeSearch tree cmp_func turns (tree.node x).right

/-- The loop of `RBTree_Next` up to the first node that `x` is on the left of. -/
def rbtreeNextLoop (tree : RbTreeCtrl) : (turns : Nat) → (x : Nat) → (y : Option Nat) → Option (Option Nat)
  | 0, _, _ => none
  | _ + 1, _, none => some none
  | turns + 1, x, some y =>
    if (tree.node y).right = some x then
      rbtreeNextLoop tree turns y (tree.node y).parent
    else
      some (some y)

/-- `RBTree_Next`. -/
def rbtreeNext (turns : Nat) (tree : RbTreeCtrl) (x : Nat) : Option (Option Nat) :=
  match (tree.node x).right with
  | some right => (rbtreeMinimum tree turns right).map some
  | none => rbtreeNextLoop tree turns x (tree.node x).parent

/-- `RBTree_Min`. -/
def rbtreeMin (turns : Nat) (tree : RbTreeCtrl) : Option (Option Nat) :=
  match tree.root with
  | some root => (rbtreeMinimum tree turns root).map some
  | none => some none

/-- `RBTree_Del`. -/
def rbtreeDel (turns : Nat) (tree : RbTreeCtrl) (cmp_func : Nat → Int) : Option (RbTreeCtrl × Option Nat) := do
  match ← rbtreeSearch tree cmp_func turns tree.root with
  | none => some (tree, none)
  | some z =>
    let tree ← rbtreeDelNode turns tree z
    some (tree, some z)

end MyCode.RbTree
