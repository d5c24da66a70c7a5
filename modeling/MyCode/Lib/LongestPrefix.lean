import Mathlib.Data.Nat.Basic
import Mathlib.Tactic.Common

/-!
# Longest prefix match

A table maps prefixes, that is a depth and the leading part of an address at
that depth, to values.  Only that leading parts are nested is used of
addresses, and that only where a result compares two of them.
-/

namespace MyCode.Lib.LongestPrefix

open Nat

universe u v w

variable {Address : Type u} {Key : Type v} {Value : Type w}

abbrev Table (Key : Type v) (Value : Type w) := Nat → Key → Option Value

/-- The longest prefix of `address` of depth below the bound, with its value. -/
def longestBelow (top : Nat → Address → Key) (table : Table Key Value) (address : Address) :
    Nat → Option (Nat × Value)
  | 0 => none
  | bound + 1 =>
    match table bound (top bound address) with
    | some value => some (bound, value)
    | none => longestBelow top table address bound

/-- The depth of a match; a miss counts as depth zero. -/
def depthOf : Option (Nat × Value) → Nat
  | none => 0
  | some (depth, _) => depth

@[simp]
theorem depthOf_none : depthOf (none : Option (Nat × Value)) = 0 := rfl

@[simp]
theorem depthOf_some (depth : Nat) (value : Value) : depthOf (some (depth, value)) = depth := rfl

def insertPrefix [DecidableEq Key] (table : Table Key Value) (depth : Nat) (key : Key) (value : Value) :
    Table Key Value :=
  fun d k => if d = depth ∧ k = key then some value else table d k

def erasePrefix [DecidableEq Key] (table : Table Key Value) (depth : Nat) (key : Key) :
    Table Key Value :=
  fun d k => if d = depth ∧ k = key then none else table d k

variable {top : Nat → Address → Key} {table other : Table Key Value} {address target : Address}
  {bound lower depth : Nat} {value : Value}

theorem longestBelow_eq_none :
    longestBelow top table address bound = none ↔
      ∀ d, d < bound → table d (top d address) = none := by
  induction bound with
  | zero => simp [longestBelow]
  | succ bound ih =>
    rw [longestBelow]
    cases found : table bound (top bound address) with
    | none =>
      simp only [ih]
      constructor
      · intro below d bounded
        rcases Nat.lt_succ_iff_lt_or_eq.mp bounded with smaller | rfl
        · exact below d smaller
        · exact found
      · exact fun all d bounded => all d (lt_succ_of_lt bounded)
    | some =>
      refine iff_of_false (Option.some_ne_none _) fun all => ?_
      rw [all bound (lt_succ_self _)] at found
      cases found

theorem longestBelow_eq_some :
    longestBelow top table address bound = some (depth, value) ↔
      depth < bound ∧ table depth (top depth address) = some value ∧
        ∀ d, depth < d → d < bound → table d (top d address) = none := by
  induction bound with
  | zero => simp [longestBelow]
  | succ bound ih =>
    rw [longestBelow]
    cases found : table bound (top bound address) with
    | none =>
      simp only [ih]
      constructor
      · rintro ⟨smaller, stored, above⟩
        refine ⟨lt_succ_of_lt smaller, stored, fun d larger bounded => ?_⟩
        rcases Nat.lt_succ_iff_lt_or_eq.mp bounded with bounded | rfl
        · exact above d larger bounded
        · exact found
      rintro ⟨bounded, stored, above⟩
      rcases Nat.lt_succ_iff_lt_or_eq.mp bounded with smaller | rfl
      · exact ⟨smaller, stored, fun d larger below =>
          above d larger (lt_succ_of_lt below)⟩
      · rw [stored] at found
        cases found
    | some =>
      constructor
      · intro same
        obtain ⟨rfl, rfl⟩ := Prod.mk.inj (Option.some.inj same)
        exact ⟨lt_succ_self _, found, fun d larger bounded => by omega⟩
      rintro ⟨bounded, stored, above⟩
      rcases Nat.lt_succ_iff_lt_or_eq.mp bounded with smaller | rfl
      · rw [above bound smaller (lt_succ_self _)] at found
        cases found
      rw [stored] at found
      cases found
      rfl

theorem longestBelow_congr
    (agree : ∀ d, d < bound → table d (top d address) = other d (top d target)) :
    longestBelow top table address bound = longestBelow top other target bound := by
  induction bound with
  | zero => rfl
  | succ bound ih =>
    rw [longestBelow, longestBelow, agree bound (lt_succ_self _),
      ih fun d bounded => agree d (lt_succ_of_lt bounded)]

theorem depthOf_longestBelow_lt (positive : 0 < bound) :
    depthOf (longestBelow top table address bound) < bound := by
  cases found : longestBelow top table address bound with
  | none => exact positive
  | some => exact (longestBelow_eq_some.mp found).1

theorem depthOf_longestBelow_le_iff :
    depthOf (longestBelow top table address bound) ≤ lower ↔
      ∀ d, lower < d → d < bound → table d (top d address) = none := by
  cases found : longestBelow top table address bound with
  | none => exact iff_of_true (zero_le _) fun d _ bounded => longestBelow_eq_none.mp found d bounded
  | some longest =>
    obtain ⟨depth, _⟩ := longest
    obtain ⟨inside, stored, above⟩ := longestBelow_eq_some.mp found
    constructor
    · exact fun shallow d larger => above d (lt_of_le_of_lt shallow larger)
    intro absent
    by_contra deeper
    rw [absent depth (Nat.lt_of_not_le deeper) inside] at stored
    cases stored

theorem longestBelow_truncate {between : Nat} (least : lower < between) (most : between ≤ bound)
    (shallow : depthOf (longestBelow top table address bound) ≤ lower) :
    longestBelow top table address bound = longestBelow top table address between := by
  have absent := depthOf_longestBelow_le_iff.mp shallow
  clear shallow
  induction bound with
  | zero => omega
  | succ bound ih =>
    rcases lt_or_ge bound between with reached | further
    · rw [le_antisymm most reached]
    rw [longestBelow, absent bound (by omega) (lt_succ_self _)]
    exact ih further fun d larger bounded =>
      absent d larger (lt_succ_of_lt bounded)

/-- Addresses that agree to a depth agree to every smaller one. -/
def Nested (top : Nat → Address → Key) : Prop :=
  ∀ deep shallow y z, shallow ≤ deep → top deep y = top deep z → top shallow y = top shallow z

theorem longestBelow_eq_of_top (nested : Nested top) {limit : Nat}
    (same : top limit address = top limit target) (bounded : bound ≤ limit + 1) :
    longestBelow top table address bound = longestBelow top table target bound :=
  longestBelow_congr fun d below => by rw [nested limit d address target (by omega) same]

/-- Where all addresses of a block match no deeper than the block itself, they
match what shorter prefixes of any of them give. -/
theorem longestBelow_collapse (nested : Nested top) (most : bound < depth)
    (last : depth ≤ lower)
    (shallow : ∀ y, top bound y = top bound target →
      depthOf (longestBelow top table y lower) ≤ bound)
    (inside : top bound address = top bound target) :
    longestBelow top table address lower = longestBelow top table target depth := by
  have short := longestBelow_truncate (lt_succ_self bound) (by omega : bound + 1 ≤ lower)
    (shallow address inside)
  have shortTarget := longestBelow_truncate (lt_succ_self bound)
    (by omega : bound + 1 ≤ lower) (shallow target rfl)
  have depthTarget := longestBelow_truncate most last (shallow target rfl)
  rw [short, longestBelow_eq_of_top nested inside le_rfl, ← shortTarget, depthTarget]

section Update

variable [DecidableEq Key]

/-- A table that differs from another one in one prefix only. -/
theorem longestBelow_change {changed : Nat → Key → Option Value}
    (others : ∀ d key, ¬ (d = depth ∧ key = top depth target) → changed d key = table d key) :
    longestBelow top changed address bound =
      if depth < bound ∧ top depth address = top depth target ∧
          depthOf (longestBelow top table address bound) ≤ depth then
        longestBelow top changed address (depth + 1)
      else
        longestBelow top table address bound := by
  induction bound with
  | zero => simp [longestBelow]
  | succ bound ih =>
    by_cases here : bound = depth
    · subst here
      have bounded : depthOf (longestBelow top table address (bound + 1)) ≤ bound :=
        le_of_lt_succ (depthOf_longestBelow_lt (succ_pos _))
      by_cases covered : top bound address = top bound target
      · rw [if_pos ⟨lt_succ_self _, covered, bounded⟩]
      rw [if_neg fun all => covered all.2.1]
      refine longestBelow_congr fun d _ => others d _ ?_
      rintro ⟨rfl, same⟩
      exact covered same
    have unchanged := others bound (top bound address) fun both => here both.1
    rw [longestBelow, longestBelow, unchanged]
    cases found : table bound (top bound address) with
    | some =>
      rw [if_neg]
      rintro ⟨_, -, shallow⟩
      simp only [depthOf_some] at shallow
      omega
    | none =>
      have below : depth < bound + 1 ↔ depth < bound := by omega
      simp [ih, below]

theorem longestBelow_insert :
    longestBelow top (insertPrefix table depth (top depth target) value) address bound =
      if depth < bound ∧ top depth address = top depth target ∧
          depthOf (longestBelow top table address bound) ≤ depth then
        some (depth, value)
      else
        longestBelow top table address bound := by
  have others (d : Nat) (key : Key) (other : ¬ (d = depth ∧ key = top depth target)) :
      insertPrefix table depth (top depth target) value d key = table d key := if_neg other
  rw [longestBelow_change others]
  refine ite_congr rfl (fun all => ?_) fun _ => rfl
  rw [longestBelow]
  simp [insertPrefix, all.2.1]

theorem longestBelow_erase :
    longestBelow top (erasePrefix table depth (top depth target)) address bound =
      if depth < bound ∧ top depth address = top depth target ∧
          depthOf (longestBelow top table address bound) ≤ depth then
        longestBelow top table address depth
      else
        longestBelow top table address bound := by
  have others (d : Nat) (key : Key) (other : ¬ (d = depth ∧ key = top depth target)) :
      erasePrefix table depth (top depth target) d key = table d key := if_neg other
  rw [longestBelow_change others]
  refine ite_congr rfl (fun all => ?_) fun _ => rfl
  have gone : erasePrefix table depth (top depth target) depth (top depth address) = none := by
    simp [erasePrefix, all.2.1]
  rw [longestBelow, gone]
  refine longestBelow_congr fun d below => ?_
  simp only [erasePrefix]
  rw [if_neg fun both => Nat.ne_of_lt below both.1]

end Update

end MyCode.Lib.LongestPrefix
