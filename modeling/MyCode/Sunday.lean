import MyCode.Types
import Mathlib.Logic.Function.Basic

/-!
# Sunday search

`sunday_utl.c`: a window moves over the data by what a table has for the byte behind it.
A read outside the buffers is `none`.
-/

namespace MyCode.Sunday

open List Function Option Bool Nat

/-- The second loop of `Sunday_ComplexPatt`. -/
def fillSkipTable : List UCHAR → (UCHAR → UINT) → UCHAR → UINT
  | [], aulSundaySkipTable => aulSundaySkipTable
  | byte :: rest, aulSundaySkipTable =>
    fillSkipTable rest (update aulSundaySkipTable byte (BitVec.ofNat 32 (rest.length + 1)))

def sundayComplexPatt (pucPatt : List UCHAR) : UCHAR → UINT :=
  fillSkipTable pucPatt fun _ => BitVec.ofNat 32 pucPatt.length + 1

/-- The loop over the pattern, and whether it comes to the end. -/
def sundayCompare (pucData : List UCHAR) : List UCHAR → Nat → Option Bool
  | [], _ => some true
  | p :: rest, t => do
    let byte ← pucData[t]?
    if p ≠ byte then some false else sundayCompare pucData rest (t + 1)

/-- The loop of `Sunday_SearchFast`, for at most `turns` turns. -/
def sundaySearchFast (pucData pucPatt : List UCHAR) (pstSkipTb : UCHAR → UINT) :
    (turns tx : Nat) → Option (Option Nat)
  | 0, _ => none
  | turns + 1, tx =>
    if tx + pucPatt.length ≤ pucData.length then do
      if ← sundayCompare pucData pucPatt tx then
        some (some tx)
      else if tx + pucPatt.length = pucData.length then
        some none
      else
        let byte ← pucData[tx + pucPatt.length]?
        sundaySearchFast pucData pucPatt pstSkipTb turns (tx + (pstSkipTb byte).toNat)
    else
      some none

/-- The offset of the pattern in the data. -/
def sundaySearch (pucData pucPatt : List UCHAR) : Option (Option Nat) :=
  if pucData.length < pucPatt.length then
    some none
  else
    sundaySearchFast pucData pucPatt (sundayComplexPatt pucPatt) (pucData.length + 1) 0

/-- What the search is to find: the first offset where the pattern occurs. -/
def naiveSearch (data pattern : List UCHAR) : Option Nat :=
  (range (data.length + 1)).find? fun offset => pattern.isPrefixOf (data.drop offset)

variable {data pattern : List UCHAR} {table : UCHAR → UINT} {byte : UCHAR} {bound i tx turns : Nat}

theorem fillSkipTable_bounds (short : bound < 2 ^ 32) (inside : pattern.length ≤ bound)
    (bounds : 1 ≤ (table byte).toNat ∧ (table byte).toNat ≤ bound) :
    1 ≤ (fillSkipTable pattern table byte).toNat ∧
      (fillSkipTable pattern table byte).toNat ≤ bound := by
  induction pattern generalizing table with
  | nil => exact bounds
  | cons head rest ih =>
    rw [length_cons] at inside
    refine ih (by omega) ?_
    by_cases same : byte = head
    · rw [same, update_self, BitVec.toNat_ofNat, mod_eq_of_lt (by omega)]
      omega
    · rwa [update_of_ne same]

/-- The last place of a byte bounds its skip. -/
theorem fillSkipTable_le (short : pattern.length < 2 ^ 32) (isByte : pattern[i]? = some byte) :
    (fillSkipTable pattern table byte).toNat ≤ pattern.length - i := by
  induction pattern generalizing table i with
  | nil => cases isByte
  | cons head rest ih =>
    rw [length_cons] at short
    cases i with
    | zero =>
      obtain rfl : head = byte := by simpa using isByte
      have size : (BitVec.ofNat 32 (rest.length + 1)).toNat = rest.length + 1 := by
        rw [BitVec.toNat_ofNat, mod_eq_of_lt short]
      refine (fillSkipTable_bounds short (le_succ _) ?_).2
      rw [update_self, size]
      omega
    | succ i =>
      rw [length_cons, Nat.add_sub_add_right]
      exact ih (lt_of_succ_lt short) (by simpa using isByte)

theorem sundayCompare_eq (inside : tx + pattern.length ≤ data.length) :
    sundayCompare data pattern tx = some (pattern.isPrefixOf (data.drop tx)) := by
  induction pattern generalizing tx with
  | nil => rfl
  | cons p rest ih =>
    rw [length_cons] at inside
    have here : tx < data.length := by omega
    rw [sundayCompare, getElem?_eq_getElem here, drop_eq_getElem_cons here, isPrefixOf]
    by_cases same : p = data[tx]
    · simp [same, ih (show tx + 1 + rest.length ≤ data.length by omega)]
    · simp [same]

/-- No occurrence is passed over: it would have the byte behind the window. -/
theorem sundayComplexPatt_skips (short : pattern.length + 1 < 2 ^ 32)
    (isByte : data[tx + pattern.length]? = some byte) :
    1 ≤ (sundayComplexPatt pattern byte).toNat ∧
      (sundayComplexPatt pattern byte).toNat ≤ pattern.length + 1 ∧
      ∀ offset, tx < offset → offset < tx + (sundayComplexPatt pattern byte).toNat →
        pattern.isPrefixOf (data.drop offset) = false := by
  have size : (BitVec.ofNat 32 pattern.length + 1).toNat = pattern.length + 1 := by
    rw [BitVec.toNat_add, BitVec.toNat_ofNat, mod_eq_of_lt (lt_of_succ_lt short)]
    exact mod_eq_of_lt short
  obtain ⟨positive, bounded⟩ := @fillSkipTable_bounds pattern
    (fun _ => BitVec.ofNat 32 pattern.length + 1) byte _ short (le_succ _) (by omega)
  refine ⟨positive, bounded, fun offset later before => ?_⟩
  rw [eq_false_iff]
  intro occurs
  rw [sundayComplexPatt] at before
  obtain ⟨tail, whole⟩ := isPrefixOf_iff_prefix.mp occurs
  have place : pattern[tx + pattern.length - offset]? = some byte := by
    rw [← getElem?_append_left (by omega), whole, getElem?_drop, ← isByte]
    congr 1
    omega
  have skip := @fillSkipTable_le pattern (fun _ => BitVec.ofNat 32 pattern.length + 1) byte _
    (lt_of_succ_lt short) place
  omega

theorem naiveSearch_eq_none (nowhere : ∀ offset, pattern.isPrefixOf (data.drop offset) = false) :
    naiveSearch data pattern = none := by
  rw [naiveSearch, find?_eq_none]
  intro offset _
  rw [nowhere offset]
  exact false_ne_true

theorem isPrefixOf_late (nonempty : pattern ≠ []) {offset : Nat}
    (late : data.length < offset + pattern.length) :
    pattern.isPrefixOf (data.drop offset) = false := by
  rw [eq_false_iff]
  intro occurs
  have length := List.IsPrefix.length_le <| isPrefixOf_iff_prefix.mp occurs
  have positive := length_pos_iff.mpr nonempty
  rw [length_drop] at length
  omega

theorem sundaySearchFast_eq (nonempty : pattern ≠ []) (short : data.length < 2 ^ 32)
    (inside : tx ≤ data.length) (enough : data.length < tx + turns)
    (before : ∀ offset < tx, pattern.isPrefixOf (data.drop offset) = false) :
    sundaySearchFast data pattern (sundayComplexPatt pattern) turns tx =
      some (naiveSearch data pattern) := by
  induction turns generalizing tx with
  | zero => omega
  | succ turns ih =>
    rw [sundaySearchFast]
    split
    · next fits =>
      rw [sundayCompare_eq fits]
      cases occurs : pattern.isPrefixOf (data.drop tx) with
      | true =>
        have first : naiveSearch data pattern = some tx := by
          rw [naiveSearch, find?_range_eq_some]
          refine ⟨occurs, mem_range.mpr (by omega), fun offset earlier => ?_⟩
          rw [before offset earlier]
          rfl
        rw [first]
        rfl
      | false =>
        simp only [bind_eq_bind, bind_some, false_eq_true, if_false]
        have passed : ∀ offset ≤ tx, pattern.isPrefixOf (data.drop offset) = false := by
          intro offset reached
          rcases Nat.lt_or_eq_of_le reached with earlier | rfl
          · exact before offset earlier
          · exact occurs
        split
        · next last =>
          rw [naiveSearch_eq_none fun offset => ?_]
          by_cases reached : offset ≤ tx
          · exact passed offset reached
          · exact isPrefixOf_late nonempty (by omega)
        next further =>
        have behind : tx + pattern.length < data.length := by omega
        have isByte := getElem?_eq_getElem behind
        obtain ⟨positive, bounded, skips⟩ := sundayComplexPatt_skips (by omega) isByte
        rw [isByte, bind_some]
        refine ih (by omega) (by omega) fun offset earlier => ?_
        by_cases reached : offset ≤ tx
        · exact passed offset reached
        · exact skips offset (Nat.lt_of_not_le reached) earlier
    · next beyond =>
      rw [naiveSearch_eq_none fun offset => ?_]
      by_cases reached : offset < tx
      · exact before offset reached
      · exact isPrefixOf_late nonempty (by omega)

/-- The search finds what the naive one finds, and reads inside the buffers. -/
theorem sundaySearch_eq (nonempty : pattern ≠ []) (short : data.length < 2 ^ 32) :
    sundaySearch data pattern = some (naiveSearch data pattern) := by
  rw [sundaySearch]
  split
  · next longer =>
    rw [naiveSearch_eq_none fun offset => isPrefixOf_late nonempty (by omega)]
  · exact sundaySearchFast_eq nonempty short (zero_le _) (by omega) nofun

theorem sundaySearch_eq_repeated :
    sundaySearch [1, 2, 1, 1, 2, 1, 2] [1, 2, 1, 2] =
      some (naiveSearch [1, 2, 1, 1, 2, 1, 2] [1, 2, 1, 2]) :=
  sundaySearch_eq (by decide) (by decide)

end MyCode.Sunday
