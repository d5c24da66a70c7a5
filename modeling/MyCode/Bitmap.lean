import MyCode.Types
import Mathlib.Data.List.Basic

/-!
# Bitmaps

`bitmap_utl.c`, `bitmap1_utl.c` and the searches of `array_bit.c` that they use.  A write
behind the words of a bitmap has no result.
-/

namespace MyCode.Bitmap

open Function BitVec List Nat

structure BitmapS where
  pulBitMap : Nat → UINT
  ulBitNum : UINT
  uiUintNum : UINT
  uiScanIndex : UINT

def bitmapCreate (ulBitNum : UINT) : BitmapS :=
  ⟨fun _ => 0, ulBitNum, (ulBitNum + 31) / 32, 0⟩

def arrayBitTest (data : Nat → UINT) (index : Nat) : Bool :=
  (data (index / 32)).getLsbD (index % 32)

def arrayBitSet (data : Nat → UINT) (index : Nat) : Nat → UINT :=
  update data (index / 32) (data (index / 32) ||| twoPow 32 (index % 32))

def arrayBitClr (data : Nat → UINT) (index : Nat) : Nat → UINT :=
  update data (index / 32) (data (index / 32) &&& ~~~twoPow 32 (index % 32))

section Operations

variable (pstBitMap : BitmapS)

def bitmapIsSet (uiIndex : Nat) : Bool :=
  arrayBitTest pstBitMap.pulBitMap uiIndex

def bitmapWrite (uiIndex : Nat) (change : UINT → UINT) : Option BitmapS :=
  if uiIndex / 32 < pstBitMap.uiUintNum.toNat then
    some { pstBitMap with
      pulBitMap := update pstBitMap.pulBitMap (uiIndex / 32)
        (change (pstBitMap.pulBitMap (uiIndex / 32))) }
  else
    none

def bitmapSet (uiIndex : UINT) : Option BitmapS :=
  bitmapWrite pstBitMap uiIndex.toNat fun word => word ||| twoPow 32 (uiIndex.toNat % 32)

def bitmapClr (uiIndex : UINT) : Option BitmapS :=
  bitmapWrite pstBitMap uiIndex.toNat fun word => word &&& ~~~twoPow 32 (uiIndex.toNat % 32)

def bitmap1Clr (uiIndexFrom1 : UINT) : Option BitmapS :=
  bitmapClr pstBitMap (uiIndexFrom1 - 1)

def bitmapClrAll : BitmapS :=
  { pstBitMap with
    pulBitMap := fun i => if i < pstBitMap.uiUintNum.toNat then 0 else pstBitMap.pulBitMap i }

end Operations

/-- `NUM_UP_ALIGN(bit_size, 32)/32`. -/
def arrayBitUintNum (bit_size : Nat) : Nat :=
  (bit_size + 31) / 32

/-- The first position from `start` on that is free in a word. -/
def freeInUint (word : UINT) (start : Nat) : Option Nat :=
  (range' start (32 - start)).find? fun j => !word.getLsbD j

def arrayBitGetFree (data : Nat → UINT) (bit_size : Nat) : Option Nat :=
  (range (arrayBitUintNum bit_size)).findSome? fun i =>
    match freeInUint (data i) 0 with
    | none => none
    | some j => if i * 32 + j ≥ bit_size then none else some (i * 32 + j)

/-- The loop over the words.  After a word that is full from the start bit on, the
start bit stays. -/
def arrayBitScanFree (data : Nat → UINT) (bit_size : Nat) :
    (left i uiStartBit : Nat) → Option Nat
  | 0, _, _ => none
  | left + 1, i, uiStartBit =>
    if data i = 0xffffffff then
      arrayBitScanFree data bit_size left (i + 1) 0
    else
      match freeInUint (data i) uiStartBit with
      | none => arrayBitScanFree data bit_size left (i + 1) uiStartBit
      | some j => if i * 32 + j ≥ bit_size then none else some (i * 32 + j)

def arrayBitGetFreeFrom (data : Nat → UINT) (bit_size index : Nat) : Option Nat :=
  if index ≥ bit_size then
    none
  else
    arrayBitScanFree data bit_size (arrayBitUintNum bit_size - index / 32) (index / 32) (index % 32)

/-- The index that `BITMAP_GetFreeCycle` finds. -/
def bitmapFreeCycle (pstBitMap : BitmapS) : Option Nat :=
  match arrayBitGetFreeFrom pstBitMap.pulBitMap pstBitMap.ulBitNum.toNat
      pstBitMap.uiScanIndex.toNat with
  | some index => some index
  | none => arrayBitGetFree pstBitMap.pulBitMap pstBitMap.uiScanIndex.toNat

def bitmapGetFreeCycle (pstBitMap : BitmapS) : BitmapS × Option Nat :=
  match bitmapFreeCycle pstBitMap with
  | none => (pstBitMap, none)
  | some index =>
    let uiScanIndex := BitVec.ofNat 32 (index + 1)
    ({ pstBitMap with
      uiScanIndex := if uiScanIndex ≥ pstBitMap.ulBitNum then 0 else uiScanIndex }, some index)

def bitmap1GetFreeCycle (pstBitMap : BitmapS) : BitmapS × UINT :=
  match bitmapGetFreeCycle pstBitMap with
  | (pstBitMap, none) => (pstBitMap, 0)
  | (pstBitMap, some index) => (pstBitMap, BitVec.ofNat 32 (index + 1))

variable {pstBitMap after : BitmapS} {uiIndex : UINT} {data : Nat → UINT} {word : UINT}
  {bit_size i j : Nat}

theorem getLsbD_twoPow_of_word (inWord : j / 32 = i / 32) :
    (twoPow 32 (i % 32)).getLsbD (j % 32) = decide (j = i) := by
  have position := mod_lt i (show 0 < 32 by decide)
  rw [getLsbD_twoPow, decide_eq_true position, Bool.true_and, decide_eq_decide]
  omega

theorem bitmapCreate_isSet (ulBitNum : UINT) (j : Nat) : bitmapIsSet
    (bitmapCreate ulBitNum) j = false := by
  simp [bitmapIsSet, arrayBitTest, bitmapCreate]

theorem bitmapClrAll_isSet (inside : j / 32 < pstBitMap.uiUintNum.toNat) :
    bitmapIsSet (bitmapClrAll pstBitMap) j = false := by
  simp [bitmapIsSet, arrayBitTest, bitmapClrAll, inside]

theorem bitmapClrAll_behind (behind : pstBitMap.uiUintNum.toNat ≤ j / 32) :
    bitmapIsSet (bitmapClrAll pstBitMap) j = bitmapIsSet pstBitMap j := by
  have outside := Nat.not_lt.mpr behind
  simp [bitmapIsSet, arrayBitTest, bitmapClrAll, outside]

theorem bitmapWrite_sizes {index : Nat} {change : UINT → UINT}
    (written : bitmapWrite pstBitMap index change = some after) :
    after.ulBitNum = pstBitMap.ulBitNum ∧ after.uiUintNum = pstBitMap.uiUintNum ∧
      after.uiScanIndex = pstBitMap.uiScanIndex := by
  rw [bitmapWrite] at written
  split at written
  · cases written
    exact ⟨rfl, rfl, rfl⟩
  · cases written

theorem arrayBitTest_set (data : Nat → UINT) (index j : Nat) :
    arrayBitTest (arrayBitSet data index) j = (decide (j = index) || arrayBitTest data j) := by
  simp only [arrayBitTest, arrayBitSet]
  by_cases inWord : j / 32 = index / 32
  · rw [inWord, update_self, getLsbD_or, getLsbD_twoPow_of_word inWord, Bool.or_comm]
  · have differs : j ≠ index := fun equal => inWord (by rw [equal])
    rw [update_of_ne inWord, decide_eq_false differs, Bool.false_or]

theorem arrayBitTest_clr (data : Nat → UINT) (index j : Nat) :
    arrayBitTest (arrayBitClr data index) j = (!decide (j = index) && arrayBitTest data j) := by
  have position := mod_lt j (show 0 < 32 by decide)
  simp only [arrayBitTest, arrayBitClr]
  by_cases inWord : j / 32 = index / 32
  · rw [inWord, update_self, getLsbD_and, getLsbD_not,
      getLsbD_twoPow_of_word inWord, Bool.and_comm, decide_eq_true position, Bool.true_and]
  · have differs : j ≠ index := fun equal => inWord (by rw [equal])
    rw [update_of_ne inWord, decide_eq_false differs, Bool.not_false, Bool.true_and]

theorem bitmapSet_isSet (isSet : bitmapSet pstBitMap uiIndex = some after) (j : Nat) :
    bitmapIsSet after j = (decide (j = uiIndex.toNat) || bitmapIsSet pstBitMap j) := by
  rw [bitmapSet, bitmapWrite] at isSet
  split at isSet
  · cases isSet
    exact arrayBitTest_set pstBitMap.pulBitMap uiIndex.toNat j
  · cases isSet

theorem bitmapClr_isSet (isClr : bitmapClr pstBitMap uiIndex = some after) (j : Nat) :
    bitmapIsSet after j = (!decide (j = uiIndex.toNat) && bitmapIsSet pstBitMap j) := by
  rw [bitmapClr, bitmapWrite] at isClr
  split at isClr
  · cases isClr
    exact arrayBitTest_clr pstBitMap.pulBitMap uiIndex.toNat j
  · cases isClr

theorem freeInUint_free {start : Nat} (found : freeInUint word start = some j) :
    j < 32 ∧ word.getLsbD j = false := by
  have inside := mem_range'_1.mp (mem_of_find?_eq_some found)
  have free := find?_some found
  exact ⟨by omega, by simpa using free⟩

theorem arrayBitTest_of_word (inWord : j < 32) : arrayBitTest data (i * 32 + j) =
    (data i).getLsbD j := by
  have word : (i * 32 + j) / 32 = i := by omega
  have bit : (i * 32 + j) % 32 = j := by omega
  rw [arrayBitTest, word, bit]

theorem arrayBitScanFree_free {left uiStartBit found : Nat}
    (isFound : arrayBitScanFree data bit_size left i uiStartBit = some found) :
    found < bit_size ∧ arrayBitTest data found = false := by
  induction left generalizing i uiStartBit with
  | zero => cases isFound
  | succ _ ih =>
    rw [arrayBitScanFree] at isFound
    split at isFound
    · exact ih isFound
    split at isFound
    · exact ih isFound
    next j inWord =>
    obtain ⟨position, free⟩ := freeInUint_free inWord
    split at isFound
    · cases isFound
    · cases isFound
      exact ⟨by omega, (arrayBitTest_of_word position).trans free⟩

theorem arrayBitGetFree_free {found : Nat} (isFound : arrayBitGetFree data bit_size = some found) :
    found < bit_size ∧ arrayBitTest data found = false := by
  obtain ⟨_, -, inWord⟩ := exists_of_findSome?_eq_some isFound
  split at inWord
  · cases inWord
  next j free =>
  obtain ⟨position, free⟩ := freeInUint_free free
  split at inWord
  · cases inWord
  · cases inWord
    exact ⟨by omega, (arrayBitTest_of_word position).trans free⟩

theorem bitmapFreeCycle_free {found : Nat}
    (scan : pstBitMap.uiScanIndex.toNat ≤ pstBitMap.ulBitNum.toNat)
    (isFound : bitmapFreeCycle pstBitMap = some found) :
    found < pstBitMap.ulBitNum.toNat ∧ bitmapIsSet pstBitMap found = false := by
  rw [bitmapFreeCycle] at isFound
  split at isFound
  · next found fromScan =>
    cases isFound
    rw [arrayBitGetFreeFrom] at fromScan
    split at fromScan
    · cases fromScan
    · exact arrayBitScanFree_free fromScan
  · obtain ⟨_, free⟩ := arrayBitGetFree_free isFound
    exact ⟨by omega, free⟩

theorem bitmap1GetFreeCycle_none (missed : bitmapFreeCycle pstBitMap = none) :
    bitmap1GetFreeCycle pstBitMap = (pstBitMap, 0) := by
  rw [bitmap1GetFreeCycle, bitmapGetFreeCycle, missed]

theorem bitmap1GetFreeCycle_some {found : Nat} (isFound : bitmapFreeCycle pstBitMap = some found) :
    bitmap1GetFreeCycle pstBitMap =
      ({ pstBitMap with
        uiScanIndex :=
          if BitVec.ofNat 32 (found + 1) ≥ pstBitMap.ulBitNum then 0 else BitVec.ofNat 32 (found + 1) },
        BitVec.ofNat 32 (found + 1)) := by
  rw [bitmap1GetFreeCycle, bitmapGetFreeCycle, isFound]

theorem bitmapFreeCycle_create {ulBitNum : UINT} (some : ulBitNum ≠ 0) :
    bitmapFreeCycle (bitmapCreate ulBitNum) = Option.some 0 := by
  have positive : 0 < ulBitNum.toNat := by
    rw [Nat.pos_iff_ne_zero]
    exact fun zero => some (eq_of_toNat_eq zero)
  have words : arrayBitUintNum ulBitNum.toNat = (ulBitNum.toNat - 1) / 32 + 1 := by
    rw [arrayBitUintNum]
    omega
  have inside : ¬ 0 * 32 + 0 ≥ ulBitNum.toNat := by omega
  have notFull : ¬ (bitmapCreate ulBitNum).pulBitMap 0 = 0xffffffff := by
    change ¬ (0 : UINT) = 0xffffffff
    decide
  have first : freeInUint ((bitmapCreate ulBitNum).pulBitMap 0) 0 = Option.some 0 := by
    change freeInUint 0 0 = Option.some 0
    decide
  have scan : arrayBitGetFreeFrom (bitmapCreate ulBitNum).pulBitMap
      (bitmapCreate ulBitNum).ulBitNum.toNat (bitmapCreate ulBitNum).uiScanIndex.toNat =
        Option.some 0 := by
    change arrayBitGetFreeFrom _ ulBitNum.toNat 0 = _
    rw [arrayBitGetFreeFrom, if_neg (by omega), words]
    change arrayBitScanFree _ _ ((ulBitNum.toNat - 1) / 32 + 1) 0 0 = _
    rw [arrayBitScanFree, if_neg notFull, first]
    exact if_neg inside
  rw [bitmapFreeCycle, scan]

end MyCode.Bitmap
