import MyCode.Bitmap

/-!
# Ranges of bits

`bitmap_SetBitsTo` of `bitmap_utl.c` writes single bits up to a word boundary,
then whole words, then single bits again.  `NUM_UP_ALIGN` is in a header that
the repository does not have and is a parameter.
-/

namespace MyCode.Bitmap

open List Nat

/-- `NUM_UP_ALIGN(num, 32)` is the next multiple of 32. -/
structure AlignsUp (numUpAlign : Nat → Nat) : Prop where
  multiple : ∀ num, numUpAlign num % 32 = 0
  above : ∀ num, num ≤ numUpAlign num
  next : ∀ num, numUpAlign num < num + 32

section Operations

variable (numUpAlign : Nat → Nat) (pstBitMap : BitmapS)

def bitmapSetTo (index : Nat) (value : UINT) : Option BitmapS :=
  bitmapWrite pstBitMap index fun word =>
    if value ≠ 0 then word ||| BitVec.twoPow 32 (index % 32)
    else word &&& ~~~BitVec.twoPow 32 (index % 32)

/-- `for (i = start; i < stop; i++) BITMAP_SetTo(pstBitMap, i, to);` -/
def bitmapSetEach (start stop : Nat) (value : UINT) : Option BitmapS :=
  (range' start (stop - start)).foldlM (fun pstBitMap i => bitmapSetTo pstBitMap i value) pstBitMap

def bitmapSetUintTo (uiStartUint uiCount : Nat) (value : UINT) : BitmapS × BsStatus :=
  if uiStartUint ≥ pstBitMap.uiUintNum.toNat then
    (pstBitMap, .outOfRange)
  else
    let count := min (pstBitMap.uiUintNum.toNat - uiStartUint) uiCount
    ({ pstBitMap with
      pulBitMap := fun i =>
        if uiStartUint ≤ i ∧ i < uiStartUint + count then value else pstBitMap.pulBitMap i }, .ok)

def bitmapSetBitsTo (start_bit : Nat) (uiCount : UINT) (value : UINT) : Option (BitmapS × BsStatus) := do
  let uiEndBit := (start_bit + uiCount.toNat) % 2 ^ 32
  if start_bit ≥ pstBitMap.ulBitNum.toNat then
    some (pstBitMap, .outOfRange)
  else
    let uiEndBit := if uiEndBit > pstBitMap.ulBitNum.toNat then pstBitMap.ulBitNum.toNat else uiEndBit
    let uiTmpBitEnd := min (numUpAlign start_bit % 2 ^ 32) uiEndBit
    let head ← bitmapSetEach pstBitMap start_bit uiTmpBitEnd value
    let uiStartUint := uiTmpBitEnd / 32
    let uiEndUint := uiEndBit / 32
    let body := if uiEndUint - uiStartUint ≠ 0 then
        (bitmapSetUintTo head uiStartUint (uiEndUint - uiStartUint) value).1
      else
        head
    let tail ← bitmapSetEach body (uiEndUint * 32) uiEndBit value
    some (tail, .ok)

def bitmapSetBits (start_bit : Nat) (uiCount : UINT) : Option (BitmapS × BsStatus) :=
  bitmapSetBitsTo numUpAlign pstBitMap start_bit uiCount 0xffffffff

def bitmapClrBits (start_bit : Nat) (uiCount : UINT) : Option (BitmapS × BsStatus) :=
  bitmapSetBitsTo numUpAlign pstBitMap start_bit uiCount 0

def bitmapTestUint (uiStartUint uiCount : Nat) : Bool :=
  if uiStartUint ≥ pstBitMap.uiUintNum.toNat then
    false
  else
    (range (min (pstBitMap.uiUintNum.toNat - uiStartUint) uiCount)).all fun i =>
      pstBitMap.pulBitMap (uiStartUint + i) == 0xffffffff

/-- `for (i = start; i < stop; i++) if (! BITMAP_ISSET(pstBitMap, i)) return FALSE;` -/
def bitmapTestEach (start stop : Nat) : Bool :=
  (range' start (stop - start)).all fun i => bitmapIsSet pstBitMap i

def bitmapTestBits (start_bit : Nat) (uiCount : UINT) : Bool :=
  let uiEndBit := (start_bit + uiCount.toNat) % 2 ^ 32
  if start_bit ≥ pstBitMap.ulBitNum.toNat then
    false
  else
    let uiEndBit := if uiEndBit > pstBitMap.ulBitNum.toNat then pstBitMap.ulBitNum.toNat else uiEndBit
    let uiTmpBitEnd := min (numUpAlign start_bit % 2 ^ 32) uiEndBit
    if !bitmapTestEach pstBitMap start_bit uiTmpBitEnd then
      false
    else if uiEndBit ≥ 32 then
      let uiStartUint := uiTmpBitEnd / 32
      let uiEndUint := uiEndBit / 32
      if uiEndUint - uiStartUint ≠ 0 ∧
          bitmapTestUint pstBitMap uiStartUint (uiEndUint - uiStartUint) = false then
        false
      else
        bitmapTestEach pstBitMap (uiEndUint * 32) uiEndBit
    else
      true

def bitmapIsSetBits (start_bit : Nat) (uiCount : UINT) : Bool :=
  bitmapTestBits numUpAlign pstBitMap start_bit uiCount

/-- The index that `BITMAP_GetFree` finds. -/
def bitmapGetFree : Option Nat :=
  arrayBitGetFree pstBitMap.pulBitMap pstBitMap.ulBitNum.toNat

end Operations

variable {pstBitMap after : BitmapS} {data : Nat → UINT} {word : UINT} {bit_size i j found : Nat}

theorem freeInUint_none (full : freeInUint word 0 = none) (inWord : j < 32) :
    word.getLsbD j = true := by
  have taken := find?_eq_none.mp full j (mem_range'_1.mpr ⟨zero_le j, by omega⟩)
  simpa using taken

theorem freeInUint_least (isFree : freeInUint word 0 = some found) (below : j < found) :
    word.getLsbD j = true := by
  rw [freeInUint, find?_range'_eq_some] at isFree
  have taken := isFree.2.2 j (zero_le j) below
  simpa using taken

def freeInWord (data : Nat → UINT) (bit_size i : Nat) : Option Nat :=
  match freeInUint (data i) 0 with
  | none => none
  | some j => if i * 32 + j ≥ bit_size then none else some (i * 32 + j)

theorem freeInWord_none (passed : freeInWord data bit_size i = none) (inside : j < bit_size)
    (inWord : j / 32 = i) : arrayBitTest data j = true := by
  rw [arrayBitTest, inWord]
  rw [freeInWord] at passed
  split at passed
  · next full => exact freeInUint_none full (mod_lt j (by decide))
  next found isFree =>
  split at passed
  · next beyond => exact freeInUint_least isFree (by omega)
  · cases passed

theorem freeInWord_least (isFree : freeInWord data bit_size i = some found) (below : j < found)
    (inWord : j / 32 = i) : arrayBitTest data j = true := by
  rw [arrayBitTest, inWord]
  rw [freeInWord] at isFree
  split at isFree
  · cases isFree
  next bit isBit =>
  split at isFree
  · cases isFree
  · cases isFree
    exact freeInUint_least isBit (by omega)

theorem arrayBitGetFree_none (full : arrayBitGetFree data bit_size = none) (inside : j < bit_size) :
    arrayBitTest data j = true := by
  have passed := findSome?_eq_none_iff.mp full (j / 32)
    (mem_range.mpr (by rw [arrayBitUintNum]; omega))
  exact freeInWord_none passed inside rfl

theorem arrayBitGetFree_least (isFree : arrayBitGetFree data bit_size = some found)
    (below : j < found) : arrayBitTest data j = true := by
  have inside := (arrayBitGetFree_free isFree).1
  obtain ⟨earlier, i, _, words, isWord, passed⟩ := findSome?_eq_some_iff.mp isFree
  have lengths : earlier.length < arrayBitUintNum bit_size := by
    have counted := congrArg length words
    rw [length_range, length_append, length_cons] at counted
    omega
  have position : i = earlier.length := by
    have entry := congrArg (fun list => list[earlier.length]?) words
    simp only [getElem?_append_right (Nat.le_refl _), Nat.sub_self, getElem?_cons_zero,
      getElem?_range lengths, Option.some.injEq] at entry
    exact entry.symm
  have foundWord : found / 32 = i := by
    change freeInWord data bit_size i = some found at isWord
    rw [freeInWord] at isWord
    split at isWord
    · cases isWord
    next bit isBit =>
    have bounded := (freeInUint_free isBit).1
    split at isWord
    · cases isWord
    · cases isWord
      omega
  by_cases inWord : j / 32 = i
  · exact freeInWord_least isWord below inWord
  have before : j / 32 < earlier.length := by
    omega
  have isEarlier : j / 32 ∈ earlier := by
    have entry := congrArg (fun list => list[j / 32]?) words
    simp only [getElem?_append_left before, getElem?_range (Nat.lt_trans before lengths)] at entry
    exact mem_of_getElem? entry.symm
  exact freeInWord_none (passed _ isEarlier) (Nat.lt_trans below inside) rfl

/-- What the range functions write in whole words. -/
def onWord (on : Bool) : UINT :=
  if on then 0xffffffff else 0

/-- The bits of a range have a value, and the others are as before. -/
structure Turned (on : Bool) (range : Nat → Prop) (before after : BitmapS) : Prop where
  bits : after.ulBitNum = before.ulBitNum
  words : after.uiUintNum = before.uiUintNum
  within : ∀ j, range j → bitmapIsSet after j = on
  outside : ∀ j, ¬ range j → bitmapIsSet after j = bitmapIsSet before j

variable {on : Bool} {range others : Nat → Prop} {between : BitmapS} {start stop : Nat}

theorem Turned.none (empty : ∀ j, ¬ range j) : Turned on range pstBitMap pstBitMap :=
  ⟨rfl, rfl, fun j inside => absurd inside (empty j), fun _ _ => rfl⟩

theorem Turned.trans (first : Turned on range pstBitMap between)
    (second : Turned on others between after) :
    Turned on (fun j => range j ∨ others j) pstBitMap after where
  bits := second.bits.trans first.bits
  words := second.words.trans first.words
  within j inside := by
    by_cases inOthers : others j
    · exact second.within j inOthers
    · rw [second.outside j inOthers]
      exact first.within j (inside.resolve_right inOthers)
  outside j outside := by
    rw [not_or] at outside
    rw [second.outside j outside.2, first.outside j outside.1]

theorem Turned.congr (turned : Turned on range pstBitMap after) (same : ∀ j, range j ↔ others j) :
    Turned on others pstBitMap after :=
  ⟨turned.bits, turned.words, fun j inside => turned.within j ((same j).mpr inside),
    fun j outside => turned.outside j (mt (same j).mp outside)⟩

theorem bitmapSetTo_turned (pstBitMap : BitmapS) (on : Bool)
    (inside : i / 32 < pstBitMap.uiUintNum.toNat) :
    ∃ after, bitmapSetTo pstBitMap i (onWord on) = some after ∧
      Turned on (· = i) pstBitMap after := by
  refine ⟨_, if_pos inside, rfl, rfl, ?_, ?_⟩
  · rintro j rfl
    cases on with
    | false => exact (arrayBitTest_clr pstBitMap.pulBitMap j j).trans (by simp)
    | true => exact (arrayBitTest_set pstBitMap.pulBitMap j j).trans (by simp)
  intro j other
  cases on with
  | false => exact (arrayBitTest_clr pstBitMap.pulBitMap i j).trans (by simp [other, bitmapIsSet])
  | true => exact (arrayBitTest_set pstBitMap.pulBitMap i j).trans (by simp [other, bitmapIsSet])

theorem bitmapSetEach_turned (pstBitMap : BitmapS) (on : Bool) (start stop : Nat) :
    ((∀ j, start ≤ j → j < stop → j / 32 < pstBitMap.uiUintNum.toNat) ∧
      ∃ after, bitmapSetEach pstBitMap start stop (onWord on) = some after ∧
        Turned on (fun j => start ≤ j ∧ j < stop) pstBitMap after) ∨
    ((∃ j, start ≤ j ∧ j < stop ∧ pstBitMap.uiUintNum.toNat ≤ j / 32) ∧
      bitmapSetEach pstBitMap start stop (onWord on) = none) := by
  generalize bits : stop - start = left
  induction left generalizing start pstBitMap with
  | zero =>
    refine .inl ⟨fun j lower upper => by omega, pstBitMap, by simp [bitmapSetEach, bits], ?_⟩
    exact .none fun j inside => by omega
  | succ left ih =>
    have rest : stop - (start + 1) = left := by omega
    have split : bitmapSetEach pstBitMap start stop (onWord on) =
        (bitmapSetTo pstBitMap start (onWord on)).bind fun first =>
          bitmapSetEach first (start + 1) stop (onWord on) := by
      rw [bitmapSetEach, bits, range'_succ, foldlM_cons]
      simp only [bitmapSetEach, rest]
      rfl
    rw [split]
    by_cases inside : start / 32 < pstBitMap.uiUintNum.toNat
    · obtain ⟨first, wrote, turned⟩ := bitmapSetTo_turned pstBitMap on inside
      rw [wrote, Option.bind_some, ← turned.words]
      rcases ih first (start + 1) rest with ⟨inMemory, after, ran, isRest⟩ | ⟨⟨j, _⟩, failed⟩
      · refine .inl ⟨fun j lower upper => ?_, after, ran, (turned.trans isRest).congr ?_⟩
        · rcases Nat.eq_or_lt_of_le lower with rfl | later
          · rw [turned.words]
            exact inside
          · exact inMemory j later upper
        · intro j
          omega
      · exact .inr ⟨⟨j, by omega⟩, failed⟩
    · refine .inr ⟨⟨start, by omega⟩, ?_⟩
      rw [bitmapSetTo, bitmapWrite, if_neg inside]
      rfl

theorem bitmapSetUintTo_turned (pstBitMap : BitmapS) (on : Bool) (uiStartUint uiCount : Nat) :
    Turned on (fun j => uiStartUint ≤ j / 32 ∧ j / 32 < uiStartUint + uiCount ∧
        j / 32 < pstBitMap.uiUintNum.toNat) pstBitMap
      (bitmapSetUintTo pstBitMap uiStartUint uiCount (onWord on)).1 := by
  rw [bitmapSetUintTo]
  by_cases beyond : uiStartUint ≥ pstBitMap.uiUintNum.toNat
  · rw [if_pos beyond]
    exact .none fun j inside => by omega
  rw [if_neg beyond]
  refine ⟨rfl, rfl, fun j inside => ?_, fun j outside => ?_⟩
  · have position := mod_lt j (show 0 < 32 by decide)
    simp only [bitmapIsSet, arrayBitTest]
    rw [if_pos (by omega)]
    cases on with
    | false => exact BitVec.getLsbD_zero
    | true =>
      change (BitVec.allOnes 32).getLsbD (j % 32) = true
      rw [BitVec.getLsbD_allOnes, decide_eq_true position]
  · simp only [bitmapIsSet, arrayBitTest]
    rw [if_neg (by omega)]

def rangeEnd (ulBitNum : UINT) (start_bit : Nat) (uiCount : UINT) : Nat :=
  min ((start_bit + uiCount.toNat) % 2 ^ 32) ulBitNum.toNat

theorem clipped (ulBitNum : UINT) (start_bit : Nat) (uiCount : UINT) :
    (if (start_bit + uiCount.toNat) % 2 ^ 32 > ulBitNum.toNat then ulBitNum.toNat
      else (start_bit + uiCount.toNat) % 2 ^ 32) = rangeEnd ulBitNum start_bit uiCount := by
  rw [rangeEnd]
  split <;> omega

/-- Where the single bits at the begin of a range end. -/
def headEnd (numUpAlign : Nat → Nat) (start_bit uiEndBit : Nat) : Nat :=
  min (numUpAlign start_bit % 2 ^ 32) uiEndBit

def Single (start headStop stop j : Nat) : Prop :=
  start ≤ j ∧ j < headStop ∨ stop / 32 * 32 ≤ j ∧ j < stop

theorem bitmapSetBitsTo_turned (numUpAlign : Nat → Nat) (pstBitMap : BitmapS) (on : Bool)
    {start_bit : Nat} (uiCount : UINT) (inside : start_bit < pstBitMap.ulBitNum.toNat)
    (isStop : rangeEnd pstBitMap.ulBitNum start_bit uiCount = stop)
    (isHead : headEnd numUpAlign start_bit stop = start) :
    ((∀ j, Single start_bit start stop j → j / 32 < pstBitMap.uiUintNum.toNat) ∧
      ∃ after, bitmapSetBitsTo numUpAlign pstBitMap start_bit uiCount (onWord on) =
          some (after, .ok) ∧
        Turned on (fun j => Single start_bit start stop j ∨
          start / 32 ≤ j / 32 ∧ j / 32 < stop / 32 ∧ j / 32 < pstBitMap.uiUintNum.toNat)
          pstBitMap after) ∨
    ((∃ j, Single start_bit start stop j ∧ pstBitMap.uiUintNum.toNat ≤ j / 32) ∧
      bitmapSetBitsTo numUpAlign pstBitMap start_bit uiCount (onWord on) = none) := by
  simp only [bitmapSetBitsTo, if_neg (Nat.not_le.mpr inside), clipped, isStop]
  rw [← headEnd, isHead]
  rcases bitmapSetEach_turned pstBitMap on start_bit start with
    ⟨headMemory, head, ranHead, turnedHead⟩ | ⟨⟨j, lower, upper, beyond⟩, failed⟩
  · rw [ranHead, Option.bind_eq_bind, Option.bind_some]
    generalize isBody : (if stop / 32 - start / 32 ≠ 0 then
      (bitmapSetUintTo head (start / 32) (stop / 32 - start / 32) (onWord on)).1 else head) = body
    have turnedBody : Turned on (fun j => start / 32 ≤ j / 32 ∧ j / 32 < stop / 32 ∧
        j / 32 < pstBitMap.uiUintNum.toNat) head body := by
      rw [← isBody]
      by_cases whole : stop / 32 - start / 32 ≠ 0
      · rw [if_pos whole]
        apply (bitmapSetUintTo_turned head on _ _).congr
        intro j
        rw [turnedHead.words]
        omega
      · rw [if_neg whole]
        exact .none fun j inBody => by omega
    have words := turnedBody.words.trans turnedHead.words
    rcases bitmapSetEach_turned body on (stop / 32 * 32) stop with
      ⟨tailMemory, after, ranTail, turnedTail⟩ | ⟨⟨j, lower, upper, beyond⟩, failed⟩
    · refine .inl ⟨?_, after, by simp [ranTail], ?_⟩
      · rintro j (⟨lower, upper⟩ | ⟨lower, upper⟩)
        · exact headMemory j lower upper
        · exact words ▸ tailMemory j lower upper
      apply ((turnedHead.trans turnedBody).trans turnedTail).congr
      intro j
      rw [Single]
      omega
    · exact .inr ⟨⟨j, .inr ⟨lower, upper⟩, words ▸ beyond⟩, by simp [failed]⟩
  · refine .inr ⟨⟨j, .inl ⟨lower, upper⟩, beyond⟩, ?_⟩
    rw [failed]
    rfl

/-- The range begins within a word and ends within the same. -/
def WithinWord (start stop : Nat) : Prop :=
  start % 32 ≠ 0 ∧ start / 32 = stop / 32

instance (start stop : Nat) : Decidable (WithinWord start stop) :=
  inferInstanceAs (Decidable (_ ∧ _))

/-- The bits that `bitmap_SetBitsTo` writes: the range, and the whole beginning of
its last word when the range lies within that word. -/
def Written (start stop j : Nat) : Prop :=
  (start ≤ j ∧ j < stop) ∨ (WithinWord start stop ∧ stop / 32 * 32 ≤ j ∧ j < stop)

instance (start stop j : Nat) : Decidable (Written start stop j) :=
  inferInstanceAs (Decidable (_ ∨ _))

variable {numUpAlign : Nat → Nat}

theorem AlignsUp.eq (aligns : AlignsUp numUpAlign) (num : Nat) :
    numUpAlign num = (num + 31) / 32 * 32 := by
  have multiple := aligns.multiple num
  have above := aligns.above num
  have next := aligns.next num
  omega

theorem bitmapSetBits_holds (aligns : AlignsUp numUpAlign) {start_bit : Nat} {uiCount : UINT}
    (words : pstBitMap.uiUintNum.toNat = (pstBitMap.ulBitNum.toNat + 31) / 32)
    (small : pstBitMap.ulBitNum.toNat < 2 ^ 31) (any : 0 < uiCount.toNat)
    (inside : start_bit + uiCount.toNat ≤ pstBitMap.ulBitNum.toNat) :
    ∃ after, bitmapSetBits numUpAlign pstBitMap start_bit uiCount = some (after, .ok) ∧
      after.ulBitNum = pstBitMap.ulBitNum ∧ after.uiUintNum = pstBitMap.uiUintNum ∧
      ∀ j, bitmapIsSet after j =
        (decide (Written start_bit (start_bit + uiCount.toNat) j) || bitmapIsSet pstBitMap j) := by
  have isStop : rangeEnd pstBitMap.ulBitNum start_bit uiCount = start_bit + uiCount.toNat := by
    rw [rangeEnd]
    omega
  have isHead : headEnd numUpAlign start_bit (start_bit + uiCount.toNat) =
      min ((start_bit + 31) / 32 * 32) (start_bit + uiCount.toNat) := by
    rw [headEnd, aligns.eq, mod_eq_of_lt (by omega)]
  rcases bitmapSetBitsTo_turned numUpAlign pstBitMap true uiCount (by omega) isStop isHead with
    ⟨_, after, ran, turned⟩ | ⟨⟨j, single, _⟩, _⟩
  · refine ⟨after, ran, turned.bits, turned.words, fun j => ?_⟩
    have same := @Turned.congr _ _ _ _ (Written start_bit (start_bit + uiCount.toNat)) turned fun j => by
      rw [Single, Written, WithinWord]
      omega
    by_cases written : Written start_bit (start_bit + uiCount.toNat) j
    · rw [same.within j written, decide_eq_true written, Bool.true_or]
    · rw [same.outside j written, decide_eq_false written, Bool.false_or]
  · rw [Single] at single
    omega

theorem bitmapTestEach_iff : bitmapTestEach pstBitMap start stop = true ↔
    ∀ j, start ≤ j → j < stop → bitmapIsSet pstBitMap j = true := by
  simp only [bitmapTestEach, all_eq_true, mem_range'_1]
  constructor
  · exact fun each j lower upper => each j ⟨lower, by omega⟩
  · exact fun each j inside => each j inside.1 (by omega)

theorem bitmapTestUint_iff {uiStartUint uiCount : Nat}
    (inside : uiStartUint + uiCount ≤ pstBitMap.uiUintNum.toNat) (any : 0 < uiCount) :
    bitmapTestUint pstBitMap uiStartUint uiCount = true ↔
      ∀ j, uiStartUint ≤ j / 32 → j / 32 < uiStartUint + uiCount → bitmapIsSet pstBitMap j = true := by
  rw [bitmapTestUint, if_neg (by omega), show min _ uiCount = uiCount by omega]
  simp only [all_eq_true, mem_range, beq_iff_eq]
  constructor
  · intro full j lower upper
    have word := full (j / 32 - uiStartUint) (by omega)
    rw [Nat.add_sub_cancel' lower] at word
    rw [bitmapIsSet, arrayBitTest, word]
    change (BitVec.allOnes 32).getLsbD (j % 32) = true
    rw [BitVec.getLsbD_allOnes, decide_eq_true (mod_lt j (by decide))]
  intro each i below
  apply BitVec.eq_of_getLsbD_eq
  intro bit bounded
  have isSet := each ((uiStartUint + i) * 32 + bit) (by omega) (by omega)
  rw [bitmapIsSet, arrayBitTest_of_word bounded] at isSet
  rw [isSet]
  change true = (BitVec.allOnes 32).getLsbD bit
  rw [BitVec.getLsbD_allOnes, decide_eq_true bounded]

theorem bitmapIsSetBits_iff {start_bit : Nat} {uiCount : UINT}
    (inside : start_bit < pstBitMap.ulBitNum.toNat)
    (isStop : rangeEnd pstBitMap.ulBitNum start_bit uiCount = stop)
    (isHead : headEnd numUpAlign start_bit stop = start)
    (words : start / 32 < stop / 32 → stop / 32 ≤ pstBitMap.uiUintNum.toNat) :
    bitmapIsSetBits numUpAlign pstBitMap start_bit uiCount = true ↔
      (∀ j, start_bit ≤ j → j < start → bitmapIsSet pstBitMap j = true) ∧
        (32 ≤ stop → ∀ j, start / 32 ≤ j / 32 ∧ j / 32 < stop / 32 ∨
          stop / 32 * 32 ≤ j ∧ j < stop → bitmapIsSet pstBitMap j = true) := by
  have body : (stop / 32 - start / 32 ≠ 0 ∧
      bitmapTestUint pstBitMap (start / 32) (stop / 32 - start / 32) = false) ↔
        ¬ ∀ j, start / 32 ≤ j / 32 → j / 32 < stop / 32 → bitmapIsSet pstBitMap j = true := by
    by_cases whole : start / 32 < stop / 32
    · have total := @bitmapTestUint_iff pstBitMap _ _
        (show start / 32 + (stop / 32 - start / 32) ≤ _ by have := words whole; omega) (by omega)
      rw [Nat.add_sub_cancel' (Nat.le_of_lt whole)] at total
      rw [← total, Bool.not_eq_true]
      exact and_iff_right (by omega)
    · exact iff_of_false (fun both => by omega) (not_not.mpr fun j lower upper => by omega)
  simp only [bitmapIsSetBits, bitmapTestBits, if_neg (Nat.not_le.mpr inside), clipped, isStop]
  rw [← headEnd, isHead]
  by_cases head : bitmapTestEach pstBitMap start_bit start = true
  · rw [head, Bool.not_true, if_neg Bool.false_ne_true, and_iff_right (bitmapTestEach_iff.mp head)]
    by_cases long : stop ≥ 32
    · rw [if_pos long, imp_iff_right long]
      by_cases full : ∀ j, start / 32 ≤ j / 32 → j / 32 < stop / 32 → bitmapIsSet pstBitMap j = true
      · rw [if_neg (mt body.mp (not_not.mpr full)), bitmapTestEach_iff]
        constructor
        · rintro tail j (⟨lower, upper⟩ | ⟨lower, upper⟩)
          · exact full j lower upper
          · exact tail j lower upper
        · exact fun each j lower upper => each j (.inr ⟨lower, upper⟩)
      · rw [if_pos (body.mpr full)]
        exact iff_of_false Bool.false_ne_true fun each =>
          full fun j lower upper => each j (.inl ⟨lower, upper⟩)
    · rw [if_neg long]
      exact iff_of_true rfl fun isLong => absurd isLong long
  · rw [Bool.not_eq_true] at head
    rw [head, Bool.not_false, if_pos rfl]
    refine iff_of_false Bool.false_ne_true fun both => ?_
    rw [bitmapTestEach_iff.mpr both.1] at head
    cases head

/-- A bitmap as `BITMAP_Create` makes it for a number of bits. -/
def OfSize (ulBitNum : UINT) (pstBitMap : BitmapS) : Prop :=
  pstBitMap.ulBitNum = ulBitNum ∧ pstBitMap.uiUintNum = (ulBitNum + 31) / 32

/-- The bits of a range that lie in the bitmap. -/
def InRange (ulBitNum : UINT) (start_bit : Nat) (uiCount : UINT) (j : Nat) : Prop :=
  start_bit ≤ j ∧ j < start_bit + uiCount.toNat ∧ j < ulBitNum.toNat

/-- The three functions work on a range, with every bitmap of the size. -/
structure RangeRight (numUpAlign : Nat → Nat) (ulBitNum : UINT) (start_bit : Nat) (uiCount : UINT) :
    Prop where
  set : ∀ pstBitMap, OfSize ulBitNum pstBitMap → ∃ after ret,
    bitmapSetBits numUpAlign pstBitMap start_bit uiCount = some (after, ret) ∧
      Turned true (InRange ulBitNum start_bit uiCount) pstBitMap after
  clr : ∀ pstBitMap, OfSize ulBitNum pstBitMap → ∃ after ret,
    bitmapClrBits numUpAlign pstBitMap start_bit uiCount = some (after, ret) ∧
      Turned false (InRange ulBitNum start_bit uiCount) pstBitMap after
  test : ∀ pstBitMap, OfSize ulBitNum pstBitMap →
    (bitmapIsSetBits numUpAlign pstBitMap start_bit uiCount = true ↔
      ∀ j, InRange ulBitNum start_bit uiCount j → bitmapIsSet pstBitMap j = true)

/-- The range begins in the bitmap.  It has no bits and begins with a word, or its end is a number
of 32 bits, lies behind the first word, and is not in the word that the range begins within. -/
def RangeFits (ulBitNum : UINT) (start_bit : Nat) (uiCount : UINT) : Prop :=
  start_bit < ulBitNum.toNat ∧
    (uiCount.toNat = 0 ∧ start_bit % 32 = 0 ∨
      ulBitNum.toNat ≤ 2 ^ 32 - 32 ∧ start_bit + uiCount.toNat < 2 ^ 32 ∧
        32 ≤ min (start_bit + uiCount.toNat) ulBitNum.toNat ∧
        ¬ WithinWord start_bit (min (start_bit + uiCount.toNat) ulBitNum.toNat))

theorem RangeFits.parts (aligns : AlignsUp numUpAlign) {ulBitNum uiCount : UINT} {start_bit : Nat}
    (fits : RangeFits ulBitNum start_bit uiCount) :
    ∃ start stop, rangeEnd ulBitNum start_bit uiCount = stop ∧
      headEnd numUpAlign start_bit stop = start ∧
      (start / 32 < stop / 32 → stop / 32 ≤ ((ulBitNum + 31) / 32).toNat) ∧
      (∀ j, Single start_bit start stop j → j / 32 < ((ulBitNum + 31) / 32).toNat) ∧
      (∀ j, Single start_bit start stop j ∨ start / 32 ≤ j / 32 ∧ j / 32 < stop / 32 ∧
        j / 32 < ((ulBitNum + 31) / 32).toNat ↔ InRange ulBitNum start_bit uiCount j) ∧
      (32 ≤ stop ∨ stop = 0) := by
  obtain ⟨_, few⟩ := fits
  have words : ((ulBitNum + 31) / 32).toNat = (ulBitNum.toNat + 31) % 2 ^ 32 / 32 := by
    rfl
  have up := aligns.eq start_bit
  simp only [rangeEnd, headEnd, Single, InRange, words, up, WithinWord] at few ⊢
  rcases few with ⟨_, _⟩ | ⟨_, _, _, _⟩
  · refine ⟨_, _, rfl, rfl, ?_, fun j => ?_, fun j => ?_, ?_⟩ <;> omega
  · refine ⟨_, _, rfl, rfl, ?_, fun j => ?_, fun j => ?_, ?_⟩ <;> omega

theorem RangeFits.right (aligns : AlignsUp numUpAlign) {ulBitNum uiCount : UINT} {start_bit : Nat}
    (fits : RangeFits ulBitNum start_bit uiCount) :
    RangeRight numUpAlign ulBitNum start_bit uiCount := by
  obtain ⟨_, _, isStop, isHead, whole, memory, parts, _⟩ := fits.parts aligns
  have turns : ∀ on pstBitMap, OfSize ulBitNum pstBitMap → ∃ after ret,
      bitmapSetBitsTo numUpAlign pstBitMap start_bit uiCount (onWord on) = some (after, ret) ∧
        Turned on (InRange ulBitNum start_bit uiCount) pstBitMap after := by
    rintro on pstBitMap ⟨rfl, words⟩
    rw [← words] at memory parts
    rcases bitmapSetBitsTo_turned numUpAlign pstBitMap on uiCount fits.1 isStop isHead with
      ⟨_, after, ran, turned⟩ | ⟨⟨j, single, beyond⟩, _⟩
    · exact ⟨after, .ok, ran, turned.congr parts⟩
    · exact absurd (memory j single) (Nat.not_lt.mpr beyond)
  refine ⟨turns true, turns false, ?_⟩
  rintro _ ⟨rfl, words⟩
  rw [← words] at whole parts
  rw [bitmapIsSetBits_iff fits.1 isStop isHead whole]
  constructor
  · rintro ⟨head, rest⟩ j inRange
    rcases (parts j).mpr inRange with (⟨lower, upper⟩ | tail) | ⟨lower, upper, _⟩
    · exact head j lower upper
    · exact rest (by omega) j (.inr tail)
    · exact rest (by omega) j (.inl ⟨lower, upper⟩)
  intro each
  refine ⟨fun j lower upper => each j ((parts j).mp (.inl (.inl ⟨lower, upper⟩))), fun _ j => ?_⟩
  rintro (⟨lower, upper⟩ | tail)
  · exact each j ((parts j).mp (.inr ⟨lower, upper, by have := whole (by omega); omega⟩))
  · exact each j ((parts j).mp (.inl (.inr tail)))

/-- The functions are right about a range exactly where it fits. -/
theorem bitmap_ranges (aligns : AlignsUp numUpAlign) (ulBitNum : UINT) (start_bit : Nat)
    (uiCount : UINT) :
    RangeRight numUpAlign ulBitNum start_bit uiCount ↔ RangeFits ulBitNum start_bit uiCount := by
  refine ⟨fun right => ?_, fun fits => fits.right aligns⟩
  have ofSize : OfSize ulBitNum (bitmapCreate ulBitNum) := ⟨rfl, rfl⟩
  have clear := bitmapCreate_isSet ulBitNum
  have words : (bitmapCreate ulBitNum).uiUintNum.toNat = (ulBitNum.toNat + 31) % 2 ^ 32 / 32 := by
    change ((ulBitNum + 31) / 32).toNat = _
    rfl
  have inside : start_bit < ulBitNum.toNat := by
    by_contra beyond
    have tested := (right.test _ ofSize).mpr fun j inRange => by
      have := inRange.2.2
      have := inRange.1
      omega
    have behind : start_bit ≥ (bitmapCreate ulBitNum).ulBitNum.toNat := Nat.not_lt.mp beyond
    rw [bitmapIsSetBits, bitmapTestBits, if_pos behind] at tested
    cases tested
  -- Setting bits of a clear bitmap shows which ones the code writes.
  obtain ⟨after, _, ran, isRange⟩ := right.set _ ofSize
  generalize isStop : rangeEnd ulBitNum start_bit uiCount = stop
  generalize isHead : headEnd numUpAlign start_bit stop = start
  obtain ⟨memory, parts⟩ :
      (∀ j, Single start_bit start stop j → j / 32 < (bitmapCreate ulBitNum).uiUintNum.toNat) ∧
        ∀ j, (Single start_bit start stop j ∨ start / 32 ≤ j / 32 ∧ j / 32 < stop / 32 ∧
          j / 32 < (bitmapCreate ulBitNum).uiUintNum.toNat) ↔
            InRange ulBitNum start_bit uiCount j := by
    rcases bitmapSetBitsTo_turned numUpAlign (bitmapCreate ulBitNum) true uiCount inside isStop
      isHead with
      ⟨memory, other, ranOther, turned⟩ | ⟨_, failed⟩
    · have same : other = after := congrArg Prod.fst (Option.some.inj (ranOther.symm.trans ran))
      rw [same] at turned
      refine ⟨memory, fun j => ⟨fun written => ?_, fun inRange => ?_⟩⟩
      · by_contra outside
        have isSet := (turned.within j written).symm.trans (isRange.outside j outside)
        rw [clear] at isSet
        cases isSet
      · by_contra unwritten
        have isSet := (isRange.within j inRange).symm.trans (turned.outside j unwritten)
        rw [clear] at isSet
        cases isSet
    · rw [bitmapSetBits] at ran
      cases failed.symm.trans ran
  have tested := right.test _ ofSize
  have first := parts start_bit
  have last := parts (stop / 32 * 32)
  have firstMemory := memory start_bit
  have up := aligns.eq start_bit
  have within : start ≤ stop := by
    rw [← isHead]
    exact Nat.min_le_right _ _
  simp only [rangeEnd] at isStop
  simp only [Single, InRange, words] at first last firstMemory
  rcases Nat.eq_zero_or_pos uiCount.toNat with empty | _
  · exact ⟨inside, .inl ⟨empty, by omega⟩⟩
  have sum : start_bit + uiCount.toNat < 2 ^ 32 := by omega
  have apart : ¬ WithinWord start_bit stop := by
    rw [WithinWord]
    omega
  have sameStop : min (start_bit + uiCount.toNat) ulBitNum.toNat = stop := by omega
  refine ⟨inside, .inr ⟨by omega, sum, ?_, sameStop ▸ apart⟩⟩
  -- With an end in the first word nothing is tested.
  rw [sameStop]
  by_contra short
  have begins : start_bit = 0 := by
    omega
  have untested : start = 0 := by
    rw [← isHead, headEnd, up, begins]
    rfl
  have untestedBits : bitmapIsSetBits numUpAlign (bitmapCreate ulBitNum) start_bit uiCount = true ↔ _ :=
    bitmapIsSetBits_iff inside isStop isHead (by omega)
  have isSet := (untestedBits.symm.trans tested).mp ⟨fun j _ upper => by omega, fun long => absurd long short⟩ start_bit
    ⟨Nat.le_refl _, by omega, inside⟩
  rw [clear] at isSet
  cases isSet

/-- `NUM_UP_ALIGN` rounded up to words, and a range of 40 bits. -/
theorem bitmap_ranges_forty :
    RangeRight (fun num => (num + 31) / 32 * 32) 64 5 40 ↔ RangeFits 64 5 40 :=
  bitmap_ranges ⟨fun num => by omega, fun num => by omega, fun num => by omega⟩ 64 5 40

/-- Setting bits 5 and 6 sets the bits below them too, and the first bits are never tested. -/
theorem bitmap_range_within :
    (∃ after, bitmapSetBits (fun num => (num + 31) / 32 * 32) (bitmapCreate 64) 5 2 =
        some (after, .ok) ∧ bitmapIsSet after 0 = true) ∧
      bitmapIsSetBits (fun num => (num + 31) / 32 * 32) (bitmapCreate 64) 0 5 = true ∧
      ¬ ∀ ulBitNum start_bit uiCount,
        RangeRight (fun num => (num + 31) / 32 * 32) ulBitNum start_bit uiCount := by
  have tested : bitmapIsSetBits (fun num => (num + 31) / 32 * 32) (bitmapCreate 64) 0 5 = true := by
    decide
  refine ⟨⟨_, rfl, by decide⟩, tested, fun right => ?_⟩
  have isSet := ((right 64 0 5).test _ ⟨rfl, rfl⟩).mp tested 0 ⟨Nat.le_refl _, by decide, by decide⟩
  cases isSet

end MyCode.Bitmap
