import Mathlib.Data.List.Basic
import Mathlib.Data.Nat.ModEq

/-!
# Windows of a ring of cells

The cells from a base on, read around the ring.  Pushing writes the cell behind the
window, popping moves the base.
-/

namespace MyCode.Lib

open Function List Nat

universe u

/-- `count` cells from `base` on around a ring of `size` cells. -/
def cyclicWindow {α : Type u} (cells : Nat → α) (size base count : Nat) : List α :=
  (List.range count).map fun i => cells ((base + i) % size)

variable {α : Type u} {cells other : Nat → α} {size base count i j : Nat} {x : α}

@[simp]
theorem length_cyclicWindow : (cyclicWindow cells size base count).length = count := by
  simp [cyclicWindow]

theorem getElem?_cyclicWindow :
    (cyclicWindow cells size base count)[i]? =
      if i < count then some (cells ((base + i) % size)) else none := by
  by_cases inside : i < count <;> simp [cyclicWindow, inside]

theorem cyclicWindow_congr
    (same : ∀ i < count, cells ((base + i) % size) = other ((base + i) % size)) :
    cyclicWindow cells size base count = cyclicWindow other size base count := by
  apply map_congr_left
  intro i inside
  exact same i (mem_range.mp inside)

@[simp]
theorem cyclicWindow_mod :
    cyclicWindow cells size (base % size) count = cyclicWindow cells size base count := by
  simp [cyclicWindow]

theorem cyclicWindow_add (first second : Nat) :
    cyclicWindow cells size base (first + second) =
      cyclicWindow cells size base first ++ cyclicWindow cells size (base + first) second := by
  simp [cyclicWindow, range_add, add_assoc]

theorem cyclicWindow_succ :
    cyclicWindow cells size base (count + 1) =
      cyclicWindow cells size base count ++ [cells ((base + count) % size)] := by
  simp [cyclicWindow, range_succ]

theorem cyclicWindow_cons :
    cyclicWindow cells size base (count + 1) =
      cells (base % size) :: cyclicWindow cells size (base + 1) count := by
  rw [add_comm, cyclicWindow_add]
  simp [cyclicWindow]

theorem cyclicWindow_take (few : i ≤ count) :
    (cyclicWindow cells size base count).take i = cyclicWindow cells size base i := by
  obtain ⟨-, rfl⟩ := Nat.exists_eq_add_of_le few
  rw [cyclicWindow_add]
  exact take_left' length_cyclicWindow

theorem cyclicWindow_drop :
    (cyclicWindow cells size base count).drop i = cyclicWindow cells size (base + i) (count - i) := by
  by_cases few : i ≤ count
  · obtain ⟨-, rfl⟩ := Nat.exists_eq_add_of_le few
    rw [cyclicWindow_add, Nat.add_sub_cancel_left]
    exact drop_left' length_cyclicWindow
  · rw [drop_eq_nil_of_le (by simp; omega), Nat.sub_eq_zero_of_le (by omega)]
    rfl

theorem place_injective (first : i < size) (second : j < size)
    (same : (base + i) % size = (base + j) % size) : i = j := by
  have congruent := ModEq.add_left_cancel' base same
  exact ModEq.eq_of_lt_of_lt congruent first second

theorem cyclicWindow_push (room : count < size) :
    cyclicWindow (update cells ((base + count) % size) x) size base (count + 1) =
      cyclicWindow cells size base count ++ [x] := by
  rw [cyclicWindow_succ, update_self]
  congr 1
  apply cyclicWindow_congr
  intro i inside
  apply update_of_ne
  intro same
  have equal := place_injective (by omega) room same
  omega

theorem cyclicWindow_erase (inside : i < count)
    (kept : ∀ k < i, other ((base + k) % size) = cells ((base + k) % size))
    (moved : ∀ k, i ≤ k → k + 1 < count →
      other ((base + k) % size) = cells ((base + (k + 1)) % size)) :
    cyclicWindow other size base (count - 1) =
      (cyclicWindow cells size base count).eraseIdx i := by
  apply ext_getElem?
  intro k
  rw [getElem?_eraseIdx]
  simp only [getElem?_cyclicWindow]
  by_cases before : k < i
  · have bounded : k < count - 1 := by omega
    have there : k < count := by omega
    simp [before, bounded, there, kept k before]
  by_cases last : k + 1 < count
  · have bounded : k < count - 1 := by omega
    simp [before, bounded, last, moved k (by omega) last]
  · have bounded : ¬k < count - 1 := by omega
    simp [before, bounded, last]

end MyCode.Lib
