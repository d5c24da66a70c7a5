import Mathlib.Data.Nat.Notation

/-!
# Loops with a number of turns

A loop that has ended with some turns ends in the same way with more.
-/

namespace MyCode.Lib

open Option

universe u v

variable {Result : Type u} {Other : Type v}

def Grows (run : Nat → Option Result) : Prop :=
  ∀ turns result, run turns = some result → run (turns + 1) = some result

variable {run : Nat → Option Result}

theorem Grows.le (grows : Grows run) {turns more : Nat} {result : Result} (less : turns ≤ more)
    (ended : run turns = some result) : run more = some result := by
  induction less with
  | refl => exact ended
  | step _ ih => exact grows _ _ ih

theorem Grows.agree (grows : Grows run) {turns others : Nat} {result other : Result}
    (ended : run turns = some result) (endedOther : run others = some other) : result = other := by
  rcases Nat.le_total turns others with less | more
  · exact some.inj ((grows.le less ended).symm.trans endedOther)
  · exact some.inj (ended.symm.trans (grows.le more endedOther))

theorem Grows.const (result : Option Result) : Grows fun _ => result :=
  fun _ _ ended => ended

theorem Grows.bind {next : Nat → Result → Option Other} (grows : Grows run)
    (nextGrows : ∀ result, Grows fun turns => next turns result) :
    Grows fun turns => (run turns).bind (next turns) := by
  intro turns result ended
  obtain ⟨middle, first, second⟩ := bind_eq_some_iff.mp ended
  exact bind_eq_some_iff.mpr ⟨middle, grows _ _ first, nextGrows middle _ _ second⟩

theorem Grows.ite {other : Nat → Option Result} (condition : Prop) [Decidable condition]
    (grows : Grows run)
    (otherGrows : Grows other) : Grows fun turns => if condition then run turns else other turns := by
  by_cases holds : condition
  · simp only [if_pos holds]
    exact grows
  · simp only [if_neg holds]
    exact otherGrows

end MyCode.Lib
