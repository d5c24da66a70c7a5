import Mathlib.Data.Nat.ModEq
import Mathlib.Algebra.BigOperators.Group.List.Basic

/-!
# One's complement sums

Words are added with the carry brought around, which is addition modulo the largest word
except that the largest word itself takes the place of zero.  Exchanging the bytes of all
words multiplies the sum, so a sum of all ones does not depend on the byte order.
-/

namespace MyCode.Lib

open List Nat

variable {top a b : Nat} {words : List Nat}

/-- Addition of words up to `top` with the carry brought around. -/
def onesAdd (top a b : Nat) : Nat :=
  if top < a + b then a + b - top else a + b

def onesSum (top : Nat) (words : List Nat) : Nat :=
  words.foldl (onesAdd top) 0

theorem onesAdd_le (first : a ≤ top) (second : b ≤ top) : onesAdd top a b ≤ top := by
  rw [onesAdd]
  split <;> omega

theorem onesAdd_modEq : onesAdd top a b ≡ a + b [MOD top] := by
  rw [onesAdd]
  split
  · next carries =>
    have whole : a + b - top + top = a + b := by omega
    exact (add_mod_right _ _).symm.trans (congrArg (· % top) whole)
  · rfl

theorem onesAdd_eq_zero_iff (first : a ≤ top) : onesAdd top a b = 0 ↔ a + b = 0 := by
  rw [onesAdd]
  split <;> omega

section

variable (few : ∀ word ∈ words, word ≤ top)

include few

theorem foldl_onesAdd (first : a ≤ top) :
    words.foldl (onesAdd top) a ≤ top ∧ words.foldl (onesAdd top) a ≡ a + words.sum [MOD top] ∧
      (words.foldl (onesAdd top) a = 0 ↔ a + words.sum = 0) := by
  induction words generalizing a with
  | nil => exact ⟨first, by rfl, by simp⟩
  | cons _ _ ih =>
    obtain ⟨word_le, rest_le⟩ := forall_mem_cons.mp few
    obtain ⟨le, congruent, zero⟩ := ih rest_le (onesAdd_le first word_le)
    refine ⟨le, ?_, ?_⟩
    · rw [foldl_cons, sum_cons, ← add_assoc]
      exact congruent.trans (ModEq.add_right _ onesAdd_modEq)
    · rw [foldl_cons, sum_cons, zero, Nat.add_eq_zero_iff, onesAdd_eq_zero_iff first]
      omega

theorem onesSum_le : onesSum top words ≤ top :=
  (foldl_onesAdd few (zero_le _)).1

theorem onesSum_modEq : onesSum top words ≡ words.sum [MOD top] := by
  have congruent := (foldl_onesAdd few (zero_le _)).2.1
  rwa [zero_add] at congruent

theorem onesSum_eq_top (positive : 0 < words.sum)
    (multiple : words.sum ≡ 0 [MOD top]) : onesSum top words = top := by
  obtain ⟨le, congruent, zero⟩ := foldl_onesAdd few (zero_le top)
  rw [zero_add] at congruent zero
  have divides := (modEq_zero_iff_dvd).mp (congruent.trans multiple)
  have someSum : onesSum top words ≠ 0 := by
    intro none_
    have empty := zero.mp none_
    omega
  exact le_antisymm le (le_of_dvd (Nat.pos_of_ne_zero someSum) divides)

end

/-- The words of some bytes, the more significant byte first. -/
def bigWords : List Nat → List Nat
  | first :: second :: rest => (256 * first + second) :: bigWords rest
  | [last] => [256 * last]
  | [] => []

/-- The words of some bytes, the less significant byte first. -/
def littleWords : List Nat → List Nat
  | first :: second :: rest => (first + 256 * second) :: littleWords rest
  | [last] => [last]
  | [] => []

variable {bytes : List Nat}

theorem words_le (few : ∀ byte ∈ bytes, byte < 256) :
    (∀ word ∈ bigWords bytes, word ≤ 0xffff) ∧ ∀ word ∈ littleWords bytes, word ≤ 0xffff := by
  induction bytes using bigWords.induct with
  | case1 _ _ _ ih =>
    simp only [mem_cons, forall_eq_or_imp] at few
    obtain ⟨_, _, rest_lt⟩ := few
    obtain ⟨big, little⟩ := ih rest_lt
    simp only [bigWords, littleWords, mem_cons, forall_eq_or_imp]
    exact ⟨⟨by omega, big⟩, by omega, little⟩
  | case2 last =>
    have last_lt := few last mem_cons_self
    simp only [bigWords, littleWords, mem_singleton, forall_eq]
    omega
  | case3 => simp [bigWords, littleWords]

theorem sum_bigWords : (bigWords bytes).sum ≡ 256 * (littleWords bytes).sum [MOD 0xffff] := by
  induction bytes using bigWords.induct with
  | case1 _ _ _ ih =>
    simp only [bigWords, littleWords, sum_cons, mul_add]
    apply ModEq.add _ ih
    rw [ModEq]
    omega
  | case2 => simp [bigWords, littleWords, ModEq]
  | case3 => rfl

theorem sum_bigWords_pos (some_ : ∃ byte ∈ bytes, 0 < byte) : 0 < (bigWords bytes).sum := by
  induction bytes using bigWords.induct with
  | case1 _ _ _ ih =>
    obtain ⟨byte, inside, positive⟩ := some_
    simp only [bigWords, sum_cons]
    simp only [mem_cons] at inside
    rcases inside with rfl | rfl | inRest
    · omega
    · omega
    · have more := ih ⟨byte, inRest, positive⟩
      omega
  | case2 =>
    obtain ⟨_, inside, _⟩ := some_
    rw [mem_singleton] at inside
    simp only [bigWords, sum_singleton]
    omega
  | case3 => simp at some_

end MyCode.Lib
