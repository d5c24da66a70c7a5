import MyCode.Lib.BinTree

/-!
# Red-black trees

The colours of a tree and of a tree with a place in it.  What a place accepts is what
makes the whole tree balanced.
-/

namespace MyCode.Lib

universe u

inductive Color where
  | red
  | black
  deriving DecidableEq, Repr

variable {Item : Type u}

open BinTree

/-- No red node has a red child, and all paths have the same number of black nodes. -/
inductive IsRb : Color → Nat → BinTree Color Item → Prop where
  | nil : IsRb .black 0 .nil
  | red {height item left right} : IsRb .black height left → IsRb .black height right →
      IsRb .red height (.node .red item left right)
  | black {height item left right leftColor rightColor} : IsRb leftColor height left →
      IsRb rightColor height right → IsRb .black (height + 1) (.node .black item left right)

/-- A place for a tree of a black height.  At a red place the root of the tree may be red
or black, and at a black place it is black. -/
inductive Accepts : Color → Nat → List (Frame Color Item) → Prop where
  | root {height} : Accepts .black height []
  | red {height side item far rest} : IsRb .black height far → Accepts .red height rest →
      Accepts .black height (⟨side, .red, item, far⟩ :: rest)
  | black {color height side item far farColor rest} : IsRb farColor height far →
      Accepts .black (height + 1) rest → Accepts color height (⟨side, .black, item, far⟩ :: rest)

variable {height : Nat} {color mark : Color} {side : Side} {item : Item} {tree near far : BinTree Color Item}
  {frames rest first : List (Frame Color Item)}

theorem IsRb.red_mk (nearOk : IsRb .black height near) (farOk : IsRb .black height far) :
    IsRb .red height (mk side .red item near far) := by
  cases side with
  | left => exact .red nearOk farOk
  | right => exact .red farOk nearOk

theorem IsRb.black_mk {nearColor farColor : Color} (nearOk : IsRb nearColor height near)
    (farOk : IsRb farColor height far) : IsRb .black (height + 1) (mk side .black item near far) := by
  cases side with
  | left => exact .black nearOk farOk
  | right => exact .black farOk nearOk

theorem IsRb.of_red_mk (ok : IsRb color height (mk side .red item near far)) :
    color = .red ∧ IsRb .black height near ∧ IsRb .black height far := by
  cases side with
  | left =>
    obtain _ | ⟨nearOk, farOk⟩ | _ := ok
    exact ⟨rfl, nearOk, farOk⟩
  | right =>
    obtain _ | ⟨farOk, nearOk⟩ | _ := ok
    exact ⟨rfl, nearOk, farOk⟩

theorem IsRb.of_black_mk (ok : IsRb color height (mk side .black item near far)) :
    ∃ below nearColor farColor, height = below + 1 ∧ color = .black ∧ IsRb nearColor below near ∧
      IsRb farColor below far := by
  cases side with
  | left =>
    cases ok with
    | black nearOk farOk => exact ⟨_, _, _, rfl, rfl, nearOk, farOk⟩
  | right =>
    cases ok with
    | black farOk nearOk => exact ⟨_, _, _, rfl, rfl, nearOk, farOk⟩

theorem IsRb.le_log2 (ok : IsRb color height tree) :
    height ≤ Nat.log2 (tree.inorder.length + 1) := by
  rw [Nat.le_log2 (Nat.succ_ne_zero _)]
  induction ok with
  | nil => simp
  | red _ _ left right => simp [inorder]; omega
  | black _ _ left right => simp [inorder, Nat.pow_succ]; omega

theorem IsRb.exists_black {height : Nat} (ok : IsRb .black (height + 1) tree) (side : Side) :
    ∃ item near far nearColor farColor, tree = mk side .black item near far ∧
      IsRb nearColor height near ∧ IsRb farColor height far := by
  cases ok with
  | black leftOk rightOk =>
    cases side with
    | left => exact ⟨_, _, _, _, _, rfl, leftOk, rightOk⟩
    | right => exact ⟨_, _, _, _, _, rfl, rightOk, leftOk⟩

theorem IsRb.exists_red (ok : IsRb .red height tree) (side : Side) :
    ∃ item near far, tree = mk side .red item near far ∧ IsRb .black height near ∧
      IsRb .black height far := by
  cases ok with
  | red leftOk rightOk =>
    cases side with
    | left => exact ⟨_, _, _, rfl, leftOk, rightOk⟩
    | right => exact ⟨_, _, _, rfl, rightOk, leftOk⟩

theorem Accepts.of_red (accepts : Accepts .red height frames) :
    ∃ side item far farColor rest, frames = ⟨side, .black, item, far⟩ :: rest ∧
      IsRb farColor height far ∧ Accepts .black (height + 1) rest := by
  cases accepts with
  | black farOk restOk => exact ⟨_, _, _, _, _, rfl, farOk, restOk⟩

theorem Accepts.weaken (accepts : Accepts color height frames) : Accepts .black height frames := by
  cases accepts with
  | root => exact .root
  | red farOk restOk => exact .red farOk restOk
  | black farOk restOk => exact .black farOk restOk

theorem Accepts.plug (accepts : Accepts color height frames) (ok : IsRb color height tree) :
    ∃ whole, IsRb .black whole (plug frames tree) := by
  induction accepts generalizing tree with
  | root => exact ⟨_, ok⟩
  | red farOk _ ih => exact ih (ok.red_mk farOk)
  | black farOk _ ih => exact ih (ok.black_mk farOk)

theorem IsRb.unplug {whole : Nat} (ok : IsRb .black whole (plug frames tree)) :
    ∃ color height, IsRb color height tree ∧ Accepts color height frames := by
  induction frames generalizing tree with
  | nil => exact ⟨_, _, ok, .root⟩
  | cons frame _ ih =>
    obtain ⟨_, _, below, accepts⟩ := ih ok
    obtain ⟨_, mark, _, _⟩ := frame
    cases mark with
    | red =>
      obtain ⟨rfl, nearOk, farOk⟩ := below.of_red_mk
      exact ⟨_, _, nearOk, .red farOk accepts⟩
    | black =>
      obtain ⟨below, _, _, rfl, rfl, nearOk, farOk⟩ := below.of_black_mk
      exact ⟨_, _, nearOk, .black farOk accepts⟩

theorem Accepts.rename {other : Item}
    (accepts : Accepts color height (first ++ ⟨side, mark, item, far⟩ :: rest)) :
    Accepts color height (first ++ ⟨side, mark, other, far⟩ :: rest) := by
  induction first generalizing color height with
  | nil =>
    cases accepts with
    | red farOk restOk => exact .red farOk restOk
    | black farOk restOk => exact .black farOk restOk
  | cons _ _ ih =>
    cases accepts with
    | red farOk restOk => exact .red farOk (ih restOk)
    | black farOk restOk => exact .black farOk (ih restOk)

/-- The colour of the root, where nothing is black. -/
def rootColor : BinTree Color Item → Color
  | .nil => .black
  | .node color _ _ _ => color

@[simp]
theorem rootColor_mk : rootColor (mk side color item near far) = color := by
  cases side <;> rfl

theorem IsRb.rootColor (ok : IsRb color height tree) : rootColor tree = color := by
  cases ok <;> rfl

def blacken : BinTree Color Item → BinTree Color Item
  | .nil => .nil
  | .node _ item left right => .node .black item left right

@[simp]
theorem blacken_mk : blacken (mk side color item near far) = mk side .black item near far := by
  cases side <;> rfl

theorem IsRb.blacken (ok : IsRb .black height tree) : blacken tree = tree := by
  cases ok <;> rfl

/-- A tree that lacks one black node on all its paths, unless its root is painted black. -/
inductive Lacks (height : Nat) (tree : BinTree Color Item) : Prop where
  | black : IsRb .black height tree → Lacks height tree
  | red : rootColor tree = .red → IsRb .black (height + 1) (blacken tree) → Lacks height tree

theorem IsRb.lacks (ok : IsRb color height tree) : Lacks height tree := by
  cases ok with
  | nil => exact .black .nil
  | red leftOk rightOk => exact .red rfl (.black leftOk rightOk)
  | black leftOk rightOk => exact .black (.black leftOk rightOk)

end MyCode.Lib
