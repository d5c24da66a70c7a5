import MyCode.Types
import Mathlib.Algebra.Order.Ring.Int
import Mathlib.Tactic.Ring

/-!
# LEB128 decoding

`leb_utl.c`.  A shift of an `int` by 32 bits or more shifts by its lowest five bits; `none` is
a read behind the bytes.
-/

namespace MyCode.Leb

open BitVec List

def lebGroup (byte : UCHAR) : UINT64 :=
  byte.setWidth 64 &&& 0x7f

/-- The loop of `_leb_read`: the result, the last byte and the shift behind it. -/
def lebReadLoop : List UCHAR → UINT64 → Nat → Option (UINT64 × UCHAR × Nat)
  | [], _, _ => none
  | byte :: rest, result, shift =>
    let result := result ||| (lebGroup byte <<< shift)
    if byte &&& 0x80 = 0 then some (result, byte, shift + 7)
    else lebReadLoop rest result (shift + 7)

/-- `-(1 << shift)` as an unsigned number of 64 bits. -/
def lebSign (shift : Nat) : UINT64 :=
  (-((1 : UINT) <<< (shift % 32))).signExtend 64

def lebReadBytes (bytes : List UCHAR) (pos : UINT) (sign : Bool) : Option (UINT64 × UINT) := do
  let (result, byte, shift) ← lebReadLoop (bytes.drop pos.toNat) 0 0
  let result := if sign && byte &&& 0x40 ≠ 0 then result ||| lebSign shift else result
  some (result, pos + BitVec.ofNat 32 (shift / 7))

def lebRead (bytes : List UCHAR) (pos : UINT) : Option (UINT64 × UINT) :=
  lebReadBytes bytes pos false

def lebReadSigned (bytes : List UCHAR) (pos : UINT) : Option (UINT64 × UINT) :=
  lebReadBytes bytes pos true

/-- Groups of seven bits, lowest first, each but the last with a mark. -/
inductive Terminated : List UCHAR → UCHAR → Prop where
  | last {byte : UCHAR} : byte.toNat < 128 → Terminated [byte] byte
  | more {byte last : UCHAR} {rest : List UCHAR} :
      128 ≤ byte.toNat → Terminated rest last → Terminated (byte :: rest) last

def lebNat : List UCHAR → Nat
  | [] => 0
  | byte :: rest => byte.toNat % 128 + 128 * lebNat rest

/-- The number in two's complement: the last group's highest bit is the sign. -/
def lebInt (code : List UCHAR) (last : UCHAR) : Int :=
  if 64 ≤ last.toNat then lebNat code - 128 ^ code.length else lebNat code

variable {code rest bytes : List UCHAR} {byte last : UCHAR} {result : UINT64} {pos : UINT}
  {shift : Nat}

theorem toNat_lebGroup (byte : UCHAR) : (lebGroup byte).toNat = byte.toNat % 128 := by
  have mask : (0x7f : UINT64).toNat = 2 ^ 7 - 1 := rfl
  rw [lebGroup, toNat_and, mask, Nat.and_two_pow_sub_one_eq_mod, toNat_setWidth_of_le (by decide)]

theorem marked_iff (byte : UCHAR) : byte &&& 0x80 = 0 ↔ byte.toNat < 128 := by
  revert byte
  decide +kernel

theorem signed_iff (short : byte.toNat < 128) : byte &&& 0x40 ≠ 0 ↔ 64 ≤ byte.toNat := by
  revert byte
  decide +kernel

theorem ofNat_group (byte : UCHAR) (number : Nat) :
    BitVec.ofNat 64 (byte.toNat % 128 + 128 * number) =
      lebGroup byte ||| (BitVec.ofNat 64 number <<< 7) := by
  apply eq_of_toNat_eq
  have low : byte.toNat % 128 < 2 ^ 7 := Nat.mod_lt _ (by decide)
  have joined := Nat.two_pow_add_eq_or_of_lt low (number % 2 ^ 57)
  rw [toNat_or, toNat_lebGroup, toNat_shiftLeft, toNat_ofNat, toNat_ofNat, Nat.or_comm,
    Nat.shiftLeft_eq]
  have high : number % 2 ^ 64 * 2 ^ 7 % 2 ^ 64 = 2 ^ 7 * (number % 2 ^ 57) := by omega
  rw [high, ← joined]
  omega

theorem lebReadLoop_eq (terminated : Terminated code last) :
    lebReadLoop (code ++ rest) result shift =
      some (result ||| (BitVec.ofNat 64 (lebNat code) <<< shift), last, shift + 7 * code.length) := by
  induction terminated generalizing result shift with
  | @last byte short =>
    have value : BitVec.ofNat 64 (byte.toNat % 128 + 128 * 0) = lebGroup byte := by
      apply eq_of_toNat_eq
      rw [toNat_ofNat, toNat_lebGroup]
      omega
    rw [singleton_append, lebReadLoop, if_pos ((marked_iff byte).mpr short), lebNat, lebNat, value]
    rfl
  | @more byte last code marked _ ih =>
    rw [List.cons_append, lebReadLoop, if_neg (by rw [marked_iff]; omega), ih, lebNat, ofNat_group,
      shiftLeft_or_distrib, ← shiftLeft_add, BitVec.or_assoc, length_cons,
      Nat.add_comm 7, Nat.add_assoc, Nat.mul_succ, Nat.add_comm 7]

theorem or_high {r : Nat} (inside : r ≤ 64) (number : UINT64) {high : UINT64}
    (isHigh : high.toNat = 2 ^ 64 - 2 ^ r) :
    (number ||| high).toNat = number.toNat % 2 ^ r + (2 ^ 64 - 2 ^ r) := by
  have size : 2 ^ 64 - 2 ^ r = 2 ^ r * (2 ^ (64 - r) - 1) := by
    rw [Nat.mul_sub, Nat.mul_one, ← Nat.pow_add, Nat.add_sub_cancel' inside]
  have low : number.toNat % 2 ^ r < 2 ^ r := Nat.mod_lt _ (Nat.two_pow_pos r)
  rw [toNat_or, isHigh, size, Nat.add_comm]
  apply Nat.eq_of_testBit_eq
  intro i
  rw [Nat.testBit_or, Nat.testBit_two_pow_mul_add _ low, Nat.testBit_two_pow_mul,
    Nat.testBit_two_pow_sub_one, Nat.testBit_mod_two_pow]
  by_cases below : i < r
  · simp [below]
  have above := Nat.not_lt.mp below
  by_cases top : i < 64
  · have width : i - r < 64 - r := by omega
    simp [above, width]
  have beyond : ¬ i - r < 64 - r := by omega
  have unset := Nat.testBit_lt_two_pow
    (number.isLt.trans_le (Nat.pow_le_pow_right (by decide) (Nat.not_lt.mp top)))
  simp [beyond, unset]

theorem lebSign_toNat (shift : Nat) : (lebSign shift).toNat = 2 ^ 64 - 2 ^ (shift % 32) := by
  have all : ∀ r < 32, (lebSign r).toNat = 2 ^ 64 - 2 ^ r := by decide +kernel
  have result := all (shift % 32) (Nat.mod_lt _ (by decide))
  rwa [lebSign, Nat.mod_mod] at result

theorem lebNat_lt (code : List UCHAR) : lebNat code < 128 ^ code.length := by
  induction code with
  | nil => exact Nat.one_pos
  | cons byte rest ih =>
    rw [lebNat, length_cons, Nat.pow_succ]
    omega

theorem Terminated.short (terminated : Terminated code last) : last.toNat < 128 := by
  induction terminated with
  | last short => exact short
  | more _ _ ih => exact ih

theorem lebReadBytes_eq (terminated : Terminated code last)
    (place : bytes.drop pos.toNat = code ++ rest) (sign : Bool) :
    lebReadBytes bytes pos sign =
      some (if sign = true ∧ 64 ≤ last.toNat then
          BitVec.ofNat 64 (lebNat code) ||| lebSign (7 * code.length)
        else BitVec.ofNat 64 (lebNat code), pos + BitVec.ofNat 32 code.length) := by
  have signed := signed_iff terminated.short
  rw [lebReadBytes, place, lebReadLoop_eq terminated]
  simp only [← signed]
  simp

/-- Bits from the width of the shift on are set: the others are those of the number. -/
theorem lebInt_reads_iff (negative : 64 ≤ last.toNat) (least : -2 ^ 63 ≤ lebInt code last) :
    BitVec.ofNat 64 (lebNat code) ||| lebSign (7 * code.length) =
        BitVec.ofInt 64 (lebInt code last) ↔
      -2 ^ (7 * code.length % 32) ≤ lebInt code last := by
  have bounded : (lebNat code : Int) < 128 ^ code.length := by exact_mod_cast lebNat_lt code
  have isHigh := or_high (by omega) (BitVec.ofNat 64 (lebNat code)) (lebSign_toNat (7 * code.length))
  have divides : (2 : Int) ^ (7 * code.length % 32) ∣ 128 ^ code.length := by
    rw [show (128 : Int) = 2 ^ 7 from rfl, ← pow_mul]
    exact pow_dvd_pow _ (Nat.mod_le _ _)
  rw [← toNat_inj, isHigh, toNat_ofNat, Nat.mod_mod_of_dvd _ (Nat.pow_dvd_pow 2 (by omega))]
  rw [lebInt, if_pos negative] at least ⊢
  have low : ((lebNat code % 2 ^ (7 * code.length % 32) : Nat) : Int) =
      (lebNat code - 128 ^ code.length) % 2 ^ (7 * code.length % 32) := by
    rw [Int.sub_emod, Int.emod_eq_zero_of_dvd divides, Int.sub_zero, Int.emod_emod]
    push_cast
    rfl
  have below : (lebNat code : Int) - 128 ^ code.length < 0 := by omega
  generalize (lebNat code : Int) - 128 ^ code.length = value at *
  have whole : ((BitVec.ofInt 64 value).toNat : Int) = value + 2 ^ 64 := by
    rw [toNat_ofInt, Int.toNat_of_nonneg (Int.emod_nonneg _ (by decide))]
    omega
  have cast : (2 : Int) ^ (7 * code.length % 32) = (2 ^ (7 * code.length % 32) : Nat) := by
    push_cast
    rfl
  have small : 2 ^ (7 * code.length % 32) ≤ 2 ^ 31 := Nat.pow_le_pow_right (by decide) (by omega)
  rw [cast] at low ⊢
  generalize 2 ^ (7 * code.length % 32) = high at *
  constructor
  · intro same
    omega
  intro reached
  have wrapped : value % high = value + high := by
    rw [← Int.add_emod_right, Int.emod_eq_of_lt (by omega) (by omega)]
  omega

/-- An unsigned number is read, and a signed one exactly where the shift of the sign, taken
modulo 32, is above its bits. -/
theorem leb_reads_iff (terminated : Terminated code last)
    (place : bytes.drop pos.toNat = code ++ rest) :
    (lebNat code < 2 ^ 64 → lebRead bytes pos =
        some (BitVec.ofNat 64 (lebNat code), pos + BitVec.ofNat 32 code.length)) ∧
      (-2 ^ 63 ≤ lebInt code last → lebInt code last < 2 ^ 63 → (lebReadSigned bytes pos =
            some (BitVec.ofInt 64 (lebInt code last), pos + BitVec.ofNat 32 code.length) ↔
          -2 ^ (7 * code.length % 32) ≤ lebInt code last)) := by
  refine ⟨fun _ => ?_, fun least _ => ?_⟩
  · rw [lebRead, lebReadBytes_eq terminated place, if_neg (by simp)]
  rw [lebReadSigned, lebReadBytes_eq terminated place]
  simp only [true_and, Option.some.injEq, Prod.mk.injEq, and_true]
  by_cases negative : 64 ≤ last.toNat
  · rw [if_pos negative]
    exact lebInt_reads_iff negative least
  rw [if_neg negative, lebInt, if_neg negative]
  refine iff_of_true (ofInt_natCast ..).symm ?_
  have positive : (0 : Int) < 2 ^ (7 * code.length % 32) := Int.pow_pos (by decide)
  omega

theorem leb_reads_iff_minus : lebReadSigned [7, 0x80, 0x7f] 1 = some (BitVec.ofInt 64 (-128), 3) :=
  ((@leb_reads_iff [0x80, 0x7f] [] [7, 0x80, 0x7f] 0x7f 1
    (.more (by decide) (.last (by decide))) rfl).2 (by decide) (by decide)).mpr (by decide)

/-- The number is `-2 ^ 31`, and `-8` is read. -/
theorem lebReadSigned_wrong :
    Terminated [0x80, 0x80, 0x80, 0x80, 0x78] 0x78 ∧
      lebInt [0x80, 0x80, 0x80, 0x80, 0x78] 0x78 = -2 ^ 31 ∧
      lebReadSigned [0x80, 0x80, 0x80, 0x80, 0x78] 0 = some (BitVec.ofInt 64 (-8), 5) ∧
      ¬ ∀ code last, Terminated code last → code.length ≤ 10 → -2 ^ 63 ≤ lebInt code last →
        lebInt code last < 2 ^ 63 → lebReadSigned code 0 =
          some (BitVec.ofInt 64 (lebInt code last), BitVec.ofNat 32 code.length) := by
  have terminated : Terminated [0x80, 0x80, 0x80, 0x80, 0x78] 0x78 :=
    .more (by decide) (.more (by decide) (.more (by decide) (.more (by decide) (.last (by decide)))))
  refine ⟨terminated, by decide, by decide +kernel, fun reads => ?_⟩
  have wrong := reads _ _ terminated (by decide) (by decide) (by decide)
  revert wrong
  decide +kernel

end MyCode.Leb
