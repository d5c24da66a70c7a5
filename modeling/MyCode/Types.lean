import Mathlib.Algebra.Group.Int.Defs
import Mathlib.Algebra.GroupWithZero.Nat

/-!
# Machine types

`UINT` and `UINT64` are the fixed-width unsigned words of the code; the signed
`INT` shares the 32-bit representation and is read with `BitVec.toInt` where
the code compares signed differences.
-/

namespace MyCode

open BitVec List

abbrev UINT := BitVec 32

abbrev UINT64 := BitVec 64

abbrev USHORT := BitVec 16

abbrev UCHAR := BitVec 8

/-- Whether a flag is set in `uiFlag`. -/
def hasFlag (uiFlag flag : UINT) : Bool :=
  uiFlag &&& flag != 0

theorem hasFlag_or (uiFlag set flag : UINT) :
    hasFlag (uiFlag ||| set) flag = (hasFlag uiFlag flag || hasFlag set flag) := by
  simp only [hasFlag, and_or_distrib_right, ofNat_eq_ofNat]
  rw [Bool.eq_iff_iff]
  simp only [bne_iff_ne, Bool.or_eq_true, ne_eq, or_eq_zero_iff, Decidable.not_and_iff_or_not]

theorem hasFlag_clear (uiFlag flag : UINT) : hasFlag (uiFlag &&& ~~~flag) flag = false := by
  rw [hasFlag, BitVec.and_assoc, BitVec.not_and_self]
  simp

theorem hasFlag_and (uiFlag mask flag : UINT) (kept : mask &&& flag = flag) :
    hasFlag (uiFlag &&& mask) flag = hasFlag uiFlag flag := by
  rw [hasFlag, BitVec.and_assoc, kept, hasFlag]

/-- The `BS_STATUS` results that the modelled functions return. -/
inductive BsStatus where
  | ok
  | err
  | noSuch
  | badPara
  | alreadyExist
  | outOfRange
  | noMemory
  | noResource
  | notSupport
  | notReady
  | notFound
  | again
  | full
  | conflict
  | noPermit
  | nullPara
  | empty
  | tooLong
  | stop
  | processed
  deriving DecidableEq, Repr

def BsStatus.toInt : BsStatus → Int
  | ok => 0
  | err => -1
  | noSuch => -2
  | alreadyExist => -3
  | notSupport => -7
  | outOfRange => -8
  | noMemory => -10
  | nullPara => -11
  | noResource => -12
  | badPara => -13
  | full => -15
  | empty => -16
  | notFound => -20
  | conflict => -23
  | tooLong => -24
  | noPermit => -14
  | stop => -18
  | again => -27
  | processed => -30
  | notReady => -29

/-- The bytes of a word, the least significant one first. -/
def uintBytes (word : UINT) (i : Nat) : UCHAR :=
  BitVec.ofNat 8 (word.toNat / 256 ^ i)

def bytesNat : List UCHAR → Nat
  | [] => 0
  | byte :: rest => byte.toNat + 256 * bytesNat rest

def bytesUint (bytes : List UCHAR) : UINT :=
  BitVec.ofNat 32 (bytesNat bytes)

theorem bytesUint_uintBytes (word : UINT) :
    bytesUint ((range 4).map (uintBytes word)) = word := by
  apply eq_of_toNat_eq
  have bytes : (range 4).map (uintBytes word) =
      [uintBytes word 0, uintBytes word 1, uintBytes word 2, uintBytes word 3] := rfl
  rw [bytes]
  simp only [bytesUint, bytesNat, uintBytes, toNat_ofNat]
  omega

theorem serial_sub_toInt (base : UINT) {first second : Nat} (ahead : first < second + 2 ^ 31)
    (behind : second ≤ first + 2 ^ 31) :
    ((base + BitVec.ofNat 32 first) - (base + BitVec.ofNat 32 second)).toInt =
      (first : Int) - second := by
  simp only [toInt_eq_toNat_cond, toNat_sub, toNat_add, toNat_ofNat]
  omega

/-- `memcmp` of two buffers of the same length. -/
def memCmp : List UCHAR → List UCHAR → UINT
  | first :: firsts, second :: seconds =>
    if first = second then memCmp firsts seconds else first.setWidth 32 - second.setWidth 32
  | _, _ => 0

theorem memCmp_eq_zero {first second : List UCHAR} (same : first.length = second.length) :
    memCmp first second = 0 ↔ first = second := by
  induction first generalizing second with
  | nil =>
    cases second with
    | nil => simp [memCmp]
    | cons => simp at same
  | cons byte _ ih =>
    cases second with
    | nil => simp at same
    | cons other =>
      rw [memCmp, cons.injEq]
      by_cases equal : byte = other
      · rw [if_pos equal, ih (Nat.succ.inj same)]
        simp [equal]
      have apart : byte.setWidth 32 - other.setWidth 32 ≠ 0 := by
        intro zero
        apply equal
        bv_omega
      rw [if_neg equal]
      simp only [apart, equal, false_and]

end MyCode
