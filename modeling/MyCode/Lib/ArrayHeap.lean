import Mathlib.Data.List.Perm.Basic

/-!
# Heaps in arrays

The element `i` of an array stands above the elements `2 * i + 1` and `2 * i + 2`.  An
element that is out of order is moved by exchanging it with its parent or with a child.
-/

namespace MyCode.Lib.ArrayHeap

open Function

universe u

variable {α : Type u} {r : α → α → Prop} {v : Nat → α} {size hole i : Nat} {x : α}

def parent (i : Nat) : Nat :=
  (i - 1) / 2

theorem parent_lt (below : 0 < i) : parent i < i := by
  rw [parent]
  omega

/-- No element stands under one that it does not follow. -/
def Ordered (r : α → α → Prop) (v : Nat → α) (size : Nat) : Prop :=
  ∀ i, 0 < i → i < size → r (v (parent i)) (v i)

/-- In order but for the element in the hole; its children follow its parent. -/
structure Broken (r : α → α → Prop) (v : Nat → α) (size hole : Nat) : Prop where
  others : ∀ i, 0 < i → i < size → i ≠ hole → parent i ≠ hole → r (v (parent i)) (v i)
  across : ∀ i, 0 < i → i < size → parent i = hole → 0 < hole → r (v (parent hole)) (v i)

/-- The element in the hole may only be out of order with its parent. -/
structure BrokenUp (r : α → α → Prop) (v : Nat → α) (size hole : Nat) : Prop
    extends Broken r v size hole where
  below : ∀ i, 0 < i → i < size → parent i = hole → r (v hole) (v i)

/-- The element in the hole may only be out of order with its children. -/
structure BrokenDown (r : α → α → Prop) (v : Nat → α) (size hole : Nat) : Prop
    extends Broken r v size hole where
  above : 0 < hole → r (v (parent hole)) (v hole)

theorem Ordered.shorter {less : Nat} (ordered : Ordered r v size) (fewer : less ≤ size) :
    Ordered r v less := by
  intro i positive inside
  exact ordered i positive (by omega)

theorem Ordered.congr {w : Nat → α} (ordered : Ordered r v size)
    (same : ∀ i, i < size → w i = v i) : Ordered r w size := by
  intro i positive inside
  have lower := parent_lt positive
  rw [same i inside, same (parent i) (by omega)]
  exact ordered i positive inside

variable (trans : ∀ a b c, r a b → r b c → r a c)

include trans in
theorem Ordered.update (ordered : Ordered r v size)
    (inside : hole < size) : Broken r (update v hole x) size hole := by
  refine ⟨?_, ?_⟩
  · intro i positive inside notHole notUnder
    rw [update_of_ne notHole, update_of_ne notUnder]
    exact ordered i positive inside
  intro i positive inside under positiveHole
  have lower := parent_lt positive
  have lowerHole := parent_lt positiveHole
  rw [update_of_ne (by omega), update_of_ne (by omega)]
  refine trans _ (v hole) _ (ordered hole positiveHole (by omega)) ?_
  rw [← under]
  exact ordered i positive inside

theorem Ordered.append (ordered : Ordered r v size) : BrokenUp r v (size + 1) size := by
  have noChild : ∀ i, 0 < i → i < size + 1 → parent i ≠ size := by
    intro i positive inside
    have lower := parent_lt positive
    omega
  refine ⟨⟨?_, ?_⟩, ?_⟩
  · intro i positive inside notHole notUnder
    exact ordered i positive (by omega)
  · intro i positive inside under
    exact absurd under (noChild i positive inside)
  · intro i positive inside under
    exact absurd under (noChild i positive inside)

include trans in
theorem Ordered.brokenDown (ordered : Ordered r v size)
    (inside : hole < size) : BrokenDown r v size hole := by
  have broken := @Ordered.update _ r v size hole (v hole) trans ordered inside
  rw [update_eq_self] at broken
  exact ⟨broken, fun positive => ordered hole positive inside⟩

theorem BrokenUp.ordered (broken : BrokenUp r v size hole)
    (above : 0 < hole → r (v (parent hole)) (v hole)) : Ordered r v size := by
  intro i positive inside
  by_cases atHole : i = hole
  · subst atHole
    exact above positive
  by_cases under : parent i = hole
  · rw [under]
    exact broken.below i positive inside under
  · exact broken.others i positive inside atHole under

theorem BrokenDown.ordered (broken : BrokenDown r v size hole)
    (below : ∀ i, 0 < i → i < size → parent i = hole → r (v hole) (v i)) : Ordered r v size :=
  BrokenUp.ordered ⟨broken.toBroken, below⟩ broken.above

/-- The array after two elements are exchanged. -/
def exchange (v : Nat → α) (first second : Nat) : Nat → α :=
  update (update v first (v second)) second (v first)

theorem exchange_second (v : Nat → α) (first second : Nat) :
    exchange v first second second = v first := by
  simp [exchange]

theorem exchange_first {first second : Nat} (other : first ≠ second) :
    exchange v first second first = v second := by
  simp [exchange, other]

theorem exchange_other {first second : Nat} (notFirst : i ≠ first) (notSecond : i ≠ second) :
    exchange v first second i = v i := by
  simp [exchange, notFirst, notSecond]

include trans in
theorem Broken.swapUp (broken : Broken r v size hole)
    (positive : 0 < hole) (inside : hole < size) (before : r (v hole) (v (parent hole))) :
    BrokenUp r (exchange v hole (parent hole)) size (parent hole) := by
  have lower := parent_lt positive
  have atHole := @exchange_first _ v hole (parent hole) (by omega)
  have atParent := exchange_second v hole (parent hole)
  refine ⟨⟨?_, ?_⟩, ?_⟩
  · intro i positiveI insideI notParent notUnder
    have notHole : i ≠ hole := fun same => notUnder (congrArg parent same)
    by_cases under : parent i = hole
    · rw [under, atHole, exchange_other notHole notParent]
      exact broken.across i positiveI insideI under positive
    · rw [exchange_other under notUnder, exchange_other notHole notParent]
      exact broken.others i positiveI insideI notHole under
  · intro i positiveI insideI under positiveParent
    have lowerParent := parent_lt positiveParent
    have lowerI := parent_lt positiveI
    have above := broken.others (parent hole) positiveParent (by omega) (by omega) (by omega)
    rw [exchange_other (by omega) (by omega)]
    by_cases same : i = hole
    · rw [same, atHole]
      exact above
    rw [exchange_other same (by omega)]
    have beside := broken.others i positiveI insideI same (by omega)
    rw [under] at beside
    exact trans _ _ _ above beside
  intro i positiveI insideI under
  have lowerI := parent_lt positiveI
  rw [atParent]
  by_cases same : i = hole
  · rw [same, atHole]
    exact before
  rw [exchange_other same (by omega)]
  have beside := broken.others i positiveI insideI same (by omega)
  rw [under] at beside
  exact trans _ _ _ before beside

theorem BrokenDown.swapDown {child : Nat} (broken : BrokenDown r v size hole) (positive : 0 < child)
    (inside : child < size) (under : parent child = hole) (before : r (v child) (v hole))
    (least : ∀ i, 0 < i → i < size → parent i = hole → r (v child) (v i)) :
    BrokenDown r (exchange v hole child) size child := by
  have lower := parent_lt positive
  have atHole := @exchange_first _ v hole child (by omega)
  have atChild := exchange_second v hole child
  refine ⟨⟨?_, ?_⟩, ?_⟩
  · intro i positiveI insideI notChild notUnder
    have lowerI := parent_lt positiveI
    by_cases same : i = hole
    · have above := broken.across child positive inside under (by omega)
      rw [same, atHole, exchange_other (by rw [← same]; omega) (by rw [← same]; exact notUnder)]
      exact above
    rw [exchange_other same notChild]
    by_cases beside : parent i = hole
    · rw [beside, atHole]
      exact least i positiveI insideI beside
    · rw [exchange_other beside notUnder]
      exact broken.others i positiveI insideI same beside
  · intro i positiveI insideI underChild _
    have lowerI := parent_lt positiveI
    rw [under, atHole, exchange_other (by omega) (by omega)]
    have above := broken.others i positiveI insideI (by omega) (by omega)
    rw [underChild] at above
    exact above
  · intro _
    rw [under, atHole, atChild]
    exact before

include trans in
theorem Ordered.root (refl : ∀ a, r a a)
    (ordered : Ordered r v size) (inside : i < size) : r (v 0) (v i) := by
  induction i using Nat.strongRecOn with
  | ind i ih =>
    by_cases positive : 0 < i
    · have lower := parent_lt positive
      have above := ih (parent i) lower (by omega)
      exact trans _ _ _ above (ordered i positive inside)
    · have root : i = 0 := by omega
      rw [root]
      exact refl _

end MyCode.Lib.ArrayHeap
