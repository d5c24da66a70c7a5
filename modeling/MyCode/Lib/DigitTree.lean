import Mathlib.Data.List.Induction

/-!
# Trees with digits on their edges

A graph is given by the node to which each digit leads from each node.  It is a tree when
no node has two incoming edges and none leads to the root.
-/

namespace MyCode.Lib

open List Option

universe u v

variable {Node : Type u} {Digit : Type v}

def walk (next : Node → Digit → Option Node) : Node → List Digit → Option Node
  | node, [] => some node
  | node, digit :: rest => (next node digit).bind fun child => walk next child rest

structure IsTree (next : Node → Digit → Option Node) (root : Node) : Prop where
  injective : ∀ parent digit other otherDigit child, next parent digit = some child →
    next other otherDigit = some child → parent = other ∧ digit = otherDigit
  root : ∀ parent digit, next parent digit ≠ some root

structure IsApart (next : Node → Digit → Option Node) (node : Node) : Prop where
  unreached : ∀ parent digit, next parent digit ≠ some node
  leaf : ∀ digit, next node digit = none

def grow [DecidableEq Node] [DecidableEq Digit] (next : Node → Digit → Option Node) (parent : Node)
    (digit : Digit) (child : Node) (node : Node) (other : Digit) : Option Node :=
  if node = parent ∧ other = digit then some child else next node other

variable {next : Node → Digit → Option Node} {root node parent child : Node} {digit : Digit}
  {path : List Digit}

theorem walk_append (next : Node → Digit → Option Node) (node : Node) (first second : List Digit) :
    walk next node (first ++ second) =
      (walk next node first).bind fun reached => walk next reached second := by
  induction first generalizing node with
  | nil => rfl
  | cons _ _ ih => simp only [cons_append, walk, bind_assoc, ih]

theorem walk_concat (next : Node → Digit → Option Node) (node : Node) (path : List Digit)
    (digit : Digit) :
    walk next node (path ++ [digit]) = (walk next node path).bind fun reached => next reached digit := by
  rw [walk_append]
  congr 1
  funext reached
  simp [walk]

theorem IsTree.walk_injective (tree : IsTree next root) {first second : List Digit}
    (isFirst : walk next root first = some node) (isSecond : walk next root second = some node) :
    first = second := by
  induction first using reverseRecOn generalizing node second with
  | nil =>
    cases isFirst
    rcases eq_nil_or_concat second with rfl | ⟨_, digit, rfl⟩
    · rfl
    rw [concat_eq_append, walk_concat] at isSecond
    obtain ⟨parent, -, edge⟩ := bind_eq_some_iff.mp isSecond
    exact absurd edge (tree.root parent digit)
  | append_singleton _ digit ih =>
    rw [walk_concat] at isFirst
    obtain ⟨parent, toParent, edge⟩ := bind_eq_some_iff.mp isFirst
    rcases eq_nil_or_concat second with rfl | ⟨_, _, rfl⟩
    · cases isSecond
      exact absurd edge (tree.root parent digit)
    rw [concat_eq_append, walk_concat] at isSecond
    obtain ⟨_, toOther, otherEdge⟩ := bind_eq_some_iff.mp isSecond
    obtain ⟨rfl, rfl⟩ := tree.injective _ _ _ _ _ edge otherEdge
    rw [concat_eq_append, ih toParent toOther]

theorem walk_ne_of_isApart (apart : IsApart next node) (notRoot : node ≠ root) (path : List Digit) :
    walk next root path ≠ some node := by
  rcases eq_nil_or_concat path with rfl | ⟨-, digit, rfl⟩
  · exact fun same => notRoot (some.inj same).symm
  rw [concat_eq_append, walk_concat]
  intro reached
  obtain ⟨parent, -, edge⟩ := bind_eq_some_iff.mp reached
  exact apart.unreached parent digit edge

section Grow

variable [DecidableEq Node] [DecidableEq Digit]

theorem IsTree.grow (tree : IsTree next root) (apart : IsApart next child)
    (notRoot : child ≠ root) :
    IsTree (grow next parent digit child) root where
  injective first firstDigit second secondDigit reached isFirst isSecond := by
    unfold Lib.grow at isFirst isSecond
    split at isFirst
    · next atFirst =>
      split at isSecond
      · next atSecond =>
        exact ⟨atFirst.1.trans atSecond.1.symm, atFirst.2.trans atSecond.2.symm⟩
      · cases isFirst
        exact absurd isSecond (apart.unreached second secondDigit)
    · split at isSecond
      · cases isSecond
        exact absurd isFirst (apart.unreached first firstDigit)
      · exact tree.injective _ _ _ _ _ isFirst isSecond
  root first firstDigit := by
    unfold Lib.grow
    split
    · exact fun same => notRoot (some.inj same)
    · exact tree.root first firstDigit

theorem IsTree.walk_grow (tree : IsTree next root) (apart : IsApart next child)
    (notRoot : child ≠ root) (toParent : walk next root path = some parent)
    (absent : next parent digit = none) (other : List Digit) :
    walk (Lib.grow next parent digit child) root other =
      if other = path ++ [digit] then some child else walk next root other := by
  induction other using reverseRecOn with
  | nil =>
    rw [if_neg (by simp)]
    rfl
  | append_singleton other last ih =>
    rw [walk_concat, ih, walk_concat]
    by_cases beyond : other = path ++ [digit]
    · -- Nothing is below the new node, nor was below the place that it takes.
      have longer : ¬ other ++ [last] = path ++ [digit] := by
        rw [beyond]
        intro same
        simpa using congrArg length same
      have childNe : child ≠ parent := fun same =>
        walk_ne_of_isApart apart notRoot path (same ▸ toParent)
      rw [if_pos beyond, if_neg longer, beyond, walk_concat, toParent, bind_some,
        bind_some, absent, bind_none, Lib.grow, if_neg (fun both => childNe both.1)]
      exact apart.leaf last
    rw [if_neg beyond]
    cases reached : walk next root other with
    | none =>
      have notPath : ¬ other ++ [last] = path ++ [digit] := by
        intro same
        obtain ⟨isPath, -⟩ := append_inj' same rfl
        rw [isPath, toParent] at reached
        cases reached
      rw [if_neg notPath]
      rfl
    | some node =>
      rw [bind_some, bind_some, Lib.grow]
      by_cases isParent : node = parent
      · have isPath := tree.walk_injective reached (isParent ▸ toParent)
        by_cases same : last = digit
        · rw [if_pos ⟨isParent, same⟩, if_pos (by rw [isPath, same])]
        rw [if_neg (fun both => same both.2), if_neg]
        intro equal
        exact same (singleton_inj.mp (append_inj' equal rfl).2)
      · rw [if_neg (fun both => isParent both.1), if_neg]
        intro equal
        obtain ⟨isPath, -⟩ := append_inj' equal rfl
        rw [isPath, toParent] at reached
        exact isParent (some.inj reached).symm

end Grow

end MyCode.Lib
