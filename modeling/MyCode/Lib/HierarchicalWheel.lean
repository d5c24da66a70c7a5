import Mathlib.Data.Nat.ModEq
import Mathlib.Tactic.Ring

/-!
# Arithmetic of hierarchical timing wheels

A wheel of base `base` keeps, at every level, `base` slots that each stand for
`base ^ level` ticks.  `Placed` relates a deadline to the slot it waits in;
the two facts a wheel needs are that a slot chosen from the distance is such a
place, and that one tick either keeps the place or visits it in time.
-/

namespace MyCode.Lib.HierarchicalWheel

open Nat

/-- The position of the level's hand at time `now`. -/
def digit (base now level : Nat) : Nat :=
  now / base ^ level % base

/-- An entry due at `deadline` waits in `slot` of `level`: the hand gets there
within one revolution, no later than the deadline, and at level zero exactly
at the deadline. -/
def Placed (base now deadline level slot : Nat) : Prop :=
  ∃ turns, 1 ≤ turns ∧ turns < base ∧
    slot = (now / base ^ level + turns) % base ∧
    (now / base ^ level + turns) * base ^ level ≤ deadline ∧
    (level = 0 → now + turns = deadline)

/-- The hand of `level` moves onto `slot` at time `now`. -/
def Visits (base now level slot : Nat) : Prop :=
  base ^ level ∣ now ∧ digit base now level = slot

variable {base now deadline level slot : Nat}

theorem digit_lt (positive : 0 < base) : digit base now level < base :=
  mod_lt _ positive

theorem placed_of_distance {distance : Nat}
    (lower : base ^ level ≤ distance) (upper : distance < base ^ (level + 1)) :
    Placed base now (now + distance) level
      ((distance / base ^ level + digit base now level) % base) := by
  have positive : 0 < base ^ level := by
    rcases Nat.eq_zero_or_pos (base ^ level) with zero | positive
    · rw [pow_succ, zero, zero_mul] at upper
      exact absurd upper (not_lt_zero _)
    · exact positive
  refine ⟨distance / base ^ level, ?_, ?_, ?_, ?_, ?_⟩
  · exact (one_le_div_iff positive).mpr lower
  · exact (div_lt_iff_lt_mul positive).mpr (by rwa [mul_comm, ← pow_succ])
  · rw [digit, add_mod_mod, add_comm]
  · rw [add_mul]
    exact Nat.add_le_add (div_mul_le_self _ _) (div_mul_le_self _ _)
  · intro bottom
    simp [bottom]

section

variable (placed : Placed base now deadline level slot)

include placed

theorem Placed.tick (unvisited : ¬ Visits base (now + 1) level slot) :
    Placed base (now + 1) deadline level slot := by
  obtain ⟨turns, nonzero, bounded, slotEq, inTime, bottom⟩ := placed
  by_cases carried : base ^ level ∣ now + 1
  · have quotient : (now + 1) / base ^ level = now / base ^ level + 1 := by
      rw [Nat.succ_div, if_pos carried]
    have more : turns ≠ 1 := by
      rintro rfl
      exact unvisited ⟨carried, by rw [digit, quotient, slotEq]⟩
    have shift : now / base ^ level + 1 + (turns - 1) = now / base ^ level + turns := by
      omega
    exact ⟨turns - 1, by omega, by omega, by rw [quotient, shift, slotEq],
      by rw [quotient, shift]; exact inTime, fun zero => by have := bottom zero; omega⟩
  have quotient : (now + 1) / base ^ level = now / base ^ level := by
    rw [Nat.succ_div, if_neg carried, add_zero]
  have positive : level ≠ 0 := by
    rintro rfl
    exact carried (by simp)
  exact ⟨turns, nonzero, bounded, by rw [quotient, slotEq], by rw [quotient]; exact inTime,
    fun zero => absurd zero positive⟩

theorem Placed.visited (visits : Visits base (now + 1) level slot) :
    now + 1 ≤ deadline ∧ (level = 0 → now + 1 = deadline) := by
  obtain ⟨turns, _, bounded, slotEq, _, bottom⟩ := placed
  obtain ⟨carried, hand⟩ := visits
  have quotient : (now + 1) / base ^ level = now / base ^ level + 1 := by
    rw [Nat.succ_div, if_pos carried]
  have once : turns = 1 := by
    rw [digit, quotient, slotEq] at hand
    have congruent := ModEq.add_left_cancel' _ hand
    have := ModEq.eq_of_lt_of_lt congruent (by omega) bounded
    omega
  subst once
  have exactly : (now / base ^ level + 1) * base ^ level = now + 1 := by
    rw [← quotient]
    exact Nat.div_mul_cancel carried
  exact ⟨by omega, bottom⟩

theorem Placed.slot_ne_digit : slot ≠ digit base now level := by
  obtain ⟨turns, _, bounded, slotEq, -, -⟩ := placed
  intro same
  rw [slotEq, digit] at same
  have congruent : turns ≡ 0 [MOD base] := ModEq.add_left_cancel' (now / base ^ level) same
  have := ModEq.eq_of_lt_of_lt congruent bounded (by omega)
  omega

theorem Placed.now_lt : now < deadline := by
  obtain ⟨turns, _, _, -, inTime, bottom⟩ := placed
  rcases Nat.eq_zero_or_pos level with zero | _
  · omega
  have unit : 0 < base ^ level := Nat.pow_pos (by omega)
  calc now < (now / base ^ level + 1) * base ^ level := lt_mul_of_div_lt (by omega) unit
    _ ≤ (now / base ^ level + turns) * base ^ level := mul_le_mul_right _ (by omega)
    _ ≤ deadline := inTime

end

theorem digit_eq_zero_of_dvd (carried : base ^ (level + 1) ∣ now) : digit base now level = 0 := by
  obtain ⟨-, rfl⟩ := carried
  rcases Nat.eq_zero_or_pos (base ^ level) with zero | positive
  · rw [digit, zero, Nat.div_zero, zero_mod]
  · rw [digit, pow_succ, mul_assoc, Nat.mul_div_cancel_left _ positive, mul_mod_right]

theorem digit_succ_of_dvd (carried : base ^ level ∣ now + 1) :
    digit base (now + 1) level = (digit base now level + 1) % base := by
  rw [digit, digit, Nat.succ_div, if_pos carried, mod_add_mod]

theorem digit_succ_of_not_dvd (still : ¬ base ^ level ∣ now + 1) :
    digit base (now + 1) level = digit base now level := by
  rw [digit, digit, Nat.succ_div, if_neg still, add_zero]

theorem pow_succ_dvd_iff (positive : 0 < base) (carried : base ^ level ∣ now + 1) :
    base ^ (level + 1) ∣ now + 1 ↔ digit base now level + 1 = base := by
  have hand := digit_succ_of_dvd carried
  have bounded : digit base now level < base := digit_lt positive
  constructor
  · intro further
    rw [digit_eq_zero_of_dvd further] at hand
    have whole := dvd_of_mod_eq_zero hand.symm
    exact le_antisymm bounded (le_of_dvd (succ_pos _) whole)
  intro wraps
  rw [wraps, mod_self, digit] at hand
  obtain ⟨_, exactly⟩ := carried
  rw [exactly, Nat.mul_div_cancel_left _ (Nat.pow_pos positive)] at hand
  rw [exactly, pow_succ]
  exact mul_dvd_mul_left _ (dvd_of_mod_eq_zero hand)

end MyCode.Lib.HierarchicalWheel
