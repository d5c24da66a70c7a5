import Mathlib.Data.List.Basic

/-!
# Tables of slots

A table is a list whose entries are empty or hold an element, each element at
most once.
-/

namespace MyCode.Lib

open Option List

universe u

variable {α : Type u} {slots : List (Option α)} {i : Nat} {x y : α}

def DistinctSlots (slots : List (Option α)) : Prop :=
  ∀ (i j : Nat) (x : α), slots[i]? = some (some x) → slots[j]? = some (some x) → i = j

def usedSlots (slots : List (Option α)) : Nat :=
  slots.countP isSome

theorem mem_slots_iff : some x ∈ slots ↔ ∃ j : Nat, slots[j]? = some (some x) :=
  mem_iff_getElem?

theorem distinctSlots_replicate (count : Nat) :
    DistinctSlots (replicate count (none : Option α)) := by
  intro i j x atI
  rw [getElem?_replicate] at atI
  split at atI <;> cases atI

theorem not_mem_replicate_none (count : Nat) : some x ∉ replicate count none :=
  fun inside => (nomatch eq_of_mem_replicate inside)

theorem usedSlots_replicate (count : Nat) : usedSlots (replicate count (none : Option α)) = 0 := by
  simp [usedSlots, countP_replicate]

theorem usedSlots_le_length (slots : List (Option α)) : usedSlots slots ≤ slots.length :=
  countP_le_length

theorem getElem?_set_none_iff (slot : slots[i]? = some (some y)) (j : Nat) :
    (slots.set i none)[j]? = some (some x) ↔ i ≠ j ∧ slots[j]? = some (some x) := by
  rw [getElem?_set]
  split
  · next same =>
    simp [same]
  · next other => simp [other]

theorem DistinctSlots.set_none (distinct : DistinctSlots slots)
    (slot : slots[i]? = some (some y)) : DistinctSlots (slots.set i none) := by
  intro j k x atJ atK
  exact distinct j k x ((getElem?_set_none_iff slot j).mp atJ).2
    ((getElem?_set_none_iff slot k).mp atK).2

theorem DistinctSlots.mem_set_none (distinct : DistinctSlots slots)
    (slot : slots[i]? = some (some y)) : some x ∈ slots.set i none ↔ some x ∈ slots ∧ x ≠ y := by
  simp only [mem_slots_iff, getElem?_set_none_iff slot]
  constructor
  · rintro ⟨j, other, atJ⟩
    refine ⟨⟨j, atJ⟩, ?_⟩
    rintro rfl
    exact other (distinct i j x slot atJ)
  rintro ⟨⟨j, atJ⟩, differs⟩
  refine ⟨j, ?_, atJ⟩
  rintro rfl
  rw [slot] at atJ
  cases atJ
  exact differs rfl

theorem usedSlots_set_none (slot : slots[i]? = some (some y)) :
    usedSlots slots = usedSlots (slots.set i none) + 1 := by
  obtain ⟨inside, stored⟩ := List.getElem?_eq_some_iff.mp slot
  have used : 0 < slots.countP isSome := countP_pos_iff.mpr ⟨some y, mem_of_getElem? slot, rfl⟩
  simp only [usedSlots, countP_set inside, stored, isSome_some, isSome_none,
    if_true, Bool.false_eq_true, if_false]
  omega

theorem getElem?_set_some_iff (empty : slots[i]? = some none) (j : Nat) :
    (slots.set i (some y))[j]? = some (some x) ↔
      i = j ∧ y = x ∨ slots[j]? = some (some x) := by
  rw [getElem?_set]
  split
  · next same =>
    rw [if_pos (List.getElem?_eq_some_iff.mp empty).1]
    simp [← same, empty]
  · next other => simp [other]

theorem mem_set_some (empty : slots[i]? = some none) :
    some x ∈ slots.set i (some y) ↔ y = x ∨ some x ∈ slots := by
  simp only [mem_slots_iff, getElem?_set_some_iff empty]
  constructor
  · rintro ⟨j, ⟨-, same⟩ | atJ⟩
    · exact .inl same
    · exact .inr ⟨j, atJ⟩
  · rintro (same | ⟨j, atJ⟩)
    · exact ⟨i, .inl ⟨rfl, same⟩⟩
    · exact ⟨j, .inr atJ⟩

theorem DistinctSlots.set_some (distinct : DistinctSlots slots) (empty : slots[i]? = some none)
    (absent : some y ∉ slots) : DistinctSlots (slots.set i (some y)) := by
  intro j k x atJ atK
  rw [getElem?_set_some_iff empty] at atJ atK
  rcases atJ with ⟨isJ, same⟩ | atJ <;> rcases atK with ⟨isK, same'⟩ | atK
  · exact isJ.symm.trans isK
  · exact absurd (mem_slots_iff.mpr ⟨k, same ▸ atK⟩) absent
  · exact absurd (mem_slots_iff.mpr ⟨j, same' ▸ atJ⟩) absent
  · exact distinct j k x atJ atK

theorem usedSlots_set_some (empty : slots[i]? = some none) (y : α) :
    usedSlots (slots.set i (some y)) = usedSlots slots + 1 := by
  obtain ⟨inside, stored⟩ := List.getElem?_eq_some_iff.mp empty
  simp [usedSlots, countP_set inside, stored]

end MyCode.Lib
