import MyCode.Bitmap.Ranges
import Mathlib.Data.List.Find

/-!
# Scans for bits

`ArrayBit_GetFreeFrom` and `ArrayBit_GetBusyFrom` keep the bit that they start at
when the first word has what they look for before it only.
-/

namespace MyCode.Bitmap

open BitVec List Nat Bool

/-- The first position from `start` on that is set in a word. -/
def busyInUint (word : UINT) (start : Nat) : Option Nat :=
  (range' start (32 - start)).find? fun j => word.getLsbD j

def arrayBitScanBusy (data : Nat → UINT) (bit_size : Nat) :
    (left i uiStartBit : Nat) → Option Nat
  | 0, _, _ => none
  | left + 1, i, uiStartBit =>
    if data i = 0 then
      arrayBitScanBusy data bit_size left (i + 1) 0
    else
      match busyInUint (data i) uiStartBit with
      | none => arrayBitScanBusy data bit_size left (i + 1) uiStartBit
      | some j => if i * 32 + j ≥ bit_size then none else some (i * 32 + j)

def arrayBitGetBusyFrom (data : Nat → UINT) (bit_size index : Nat) : Option Nat :=
  if index ≥ bit_size then
    none
  else
    arrayBitScanBusy data bit_size (arrayBitUintNum bit_size - index / 32) (index / 32) (index % 32)

/-- The least place from one on that has a property below a size, if there is one. -/
def LeastFrom (holds : Nat → Prop) (bit_size index : Nat) : Option Nat → Prop
  | none => ∀ j, index ≤ j → j < bit_size → ¬ holds j
  | some found => index ≤ found ∧ found < bit_size ∧ holds found ∧
      ∀ j, index ≤ j → j < found → ¬ holds j

/-- Its own word has the property before the place only, and the next word has it before the same
bit. -/
def Skips (holds : Nat → Prop) (bit_size index : Nat) : Prop :=
  (∃ j, j / 32 = index / 32 ∧ holds j) ∧ (∀ j, index ≤ j → j / 32 = index / 32 → ¬ holds j) ∧
    ∃ j, j < bit_size ∧ j / 32 = index / 32 + 1 ∧ j % 32 < index % 32 ∧ holds j

def IsFree (data : Nat → UINT) (j : Nat) : Prop :=
  arrayBitTest data j = false

def IsBusy (data : Nat → UINT) (j : Nat) : Prop :=
  arrayBitTest data j = true

variable {data : Nat → UINT} {bit_size i start left found index : Nat} {holds : Nat → Prop}
  {result : Option Nat}

theorem freeInUint_cases (data : Nat → UINT) (i start : Nat) :
    (freeInUint (data i) start = none ∧ ∀ j, i * 32 + start ≤ j → j / 32 = i → ¬ IsFree data j) ∨
    ∃ j, freeInUint (data i) start = some j ∧ start ≤ j ∧ j < 32 ∧
      IsFree data (i * 32 + j) ∧ ∀ k, i * 32 + start ≤ k → k < i * 32 + j → ¬ IsFree data k := by
  have inWord : ∀ k, k / 32 = i → (IsFree data k ↔ (data i).getLsbD (k % 32) = false) := by
    rintro - rfl
    rfl
  cases outcome : freeInUint (data i) start with
  | none =>
    refine .inl ⟨rfl, fun j lower same free => ?_⟩
    have taken := find?_eq_none.mp outcome (j % 32) (mem_range'_1.mpr (by omega))
    rw [(inWord j same).mp free] at taken
    exact taken rfl
  | some j =>
    obtain ⟨bounded, free⟩ := freeInUint_free outcome
    rw [freeInUint, find?_range'_eq_some] at outcome
    refine .inr ⟨j, rfl, (mem_range'_1.mp outcome.2.1).1, bounded,
      (arrayBitTest_of_word bounded).trans free, fun k lower upper isFree => ?_⟩
    have taken := outcome.2.2 (k % 32) (by omega) (by omega)
    rw [(inWord k (by omega)).mp isFree] at taken
    cases taken

theorem isFree_of_full (full : data i = 0xffffffff) {j : Nat} (inWord : j / 32 = i) :
    ¬ IsFree data j := by
  have ones : (allOnes 32).getLsbD (j % 32) = true := by
    rw [getLsbD_allOnes, decide_eq_true (mod_lt j (by decide))]
  intro free
  rw [IsFree, arrayBitTest, inWord, full] at free
  cases free.symm.trans ones

theorem exists_free (notFull : data i ≠ 0xffffffff) : ∃ j, j / 32 = i ∧ IsFree data j := by
  by_contra none
  apply notFull
  apply eq_of_getLsbD_eq
  intro bit bounded
  have taken : ¬ IsFree data (i * 32 + bit) := fun free => none ⟨i * 32 + bit, by omega, free⟩
  rw [IsFree, not_eq_false, arrayBitTest_of_word bounded] at taken
  rw [taken]
  change true = (allOnes 32).getLsbD bit
  rw [getLsbD_allOnes, decide_eq_true bounded]

theorem LeastFrom.extend {later : Nat} (least : LeastFrom holds bit_size later result)
    (before : index ≤ later) (none : ∀ j, index ≤ j → j < later → ¬ holds j) :
    LeastFrom holds bit_size index result := by
  cases result with
  | none =>
    intro j lower upper
    by_cases early : j < later
    · exact none j lower early
    · exact least j (not_lt.mp early) upper
  | some =>
    obtain ⟨lower, upper, isFound, isLeast⟩ := least
    refine ⟨le_trans before lower, upper, isFound, fun j fromIndex below => ?_⟩
    by_cases early : j < later
    · exact none j fromIndex early
    · exact isLeast j (not_lt.mp early) below

theorem LeastFrom.clip (fromIndex : index ≤ found) (isFound : holds found)
    (isLeast : ∀ j, index ≤ j → j < found → ¬ holds j) :
    LeastFrom holds bit_size index (if found ≥ bit_size then none else some found) := by
  by_cases beyond : found ≥ bit_size
  · rw [if_pos beyond]
    exact fun j lower upper => isLeast j lower (by omega)
  · rw [if_neg beyond]
    exact ⟨fromIndex, not_le.mp beyond, isFound, isLeast⟩

theorem arrayBitScanFree_lower
    (isFound : arrayBitScanFree data bit_size left i start = some found) : i * 32 ≤ found := by
  induction left generalizing i start with
  | zero => cases isFound
  | succ _ ih =>
    rw [arrayBitScanFree] at isFound
    split at isFound
    · have := ih isFound
      omega
    split at isFound
    · have := ih isFound
      omega
    split at isFound
    · cases isFound
    · cases isFound
      omega

theorem arrayBitScanFree_least (words : bit_size ≤ (i + left) * 32) :
    LeastFrom (IsFree data) bit_size (i * 32) (arrayBitScanFree data bit_size left i 0) := by
  induction left generalizing i with
  | zero => exact fun j lower upper => by omega
  | succ _ ih =>
    have rest := @ih (i + 1) (by omega)
    rw [arrayBitScanFree]
    by_cases full : data i = 0xffffffff
    · rw [if_pos full]
      exact rest.extend (by omega) fun j lower upper => isFree_of_full full (by omega)
    rw [if_neg full]
    rcases freeInUint_cases data i 0 with ⟨passed, taken⟩ | ⟨j, isFree, _, _, free, least⟩
    · simp only [passed]
      exact rest.extend (by omega) fun j lower upper => taken j (by omega) (by omega)
    · simp only [isFree]
      exact .clip (by omega) free fun k lower upper => least k (by omega) upper

theorem arrayBitGetFreeFrom_iff (data : Nat → UINT) (bit_size index : Nat) :
    LeastFrom (IsFree data) bit_size index (arrayBitGetFreeFrom data bit_size index) ↔
      ¬ Skips (IsFree data) bit_size index := by
  rw [arrayBitGetFreeFrom]
  by_cases behind : index ≥ bit_size
  · rw [if_pos behind]
    exact iff_of_true (fun j lower upper => by omega) (by rintro ⟨_, _, j, upper, next, _⟩; omega)
  rw [if_neg behind]
  obtain ⟨left, words⟩ : ∃ left, arrayBitUintNum bit_size - index / 32 = left + 1 :=
    ⟨arrayBitUintNum bit_size - index / 32 - 1, by rw [arrayBitUintNum]; omega⟩
  have enough : bit_size ≤ (index / 32 + 1 + left) * 32 := by
    rw [arrayBitUintNum] at words
    omega
  rw [words, arrayBitScanFree]
  by_cases full : data (index / 32) = 0xffffffff
  · rw [if_pos full]
    have least := @arrayBitScanFree_least data _ _ _ enough
    refine iff_of_true (least.extend (by omega) fun j lower upper => isFree_of_full full (by omega)) ?_
    rintro ⟨⟨_, inWord, free⟩, _⟩
    exact isFree_of_full full inWord free
  rw [if_neg full]
  rcases freeInUint_cases data (index / 32) (index % 32) with
    ⟨passed, taken⟩ | ⟨j, isFree, _, _, free, least⟩
  · have none_here : ∀ j, index ≤ j → j / 32 = index / 32 → ¬ IsFree data j :=
      fun j lower inWord => taken j (by omega) inWord
    simp only [passed]
    cases left with
    | zero =>
      refine iff_of_true (fun j lower upper => none_here j lower (by omega)) ?_
      rintro ⟨_, _, _, _, _, _⟩
      omega
    | succ left =>
      have restEnough : bit_size ≤ (index / 32 + 1 + 1 + left) * 32 := by omega
      rw [arrayBitScanFree]
      by_cases fullNext : data (index / 32 + 1) = 0xffffffff
      · rw [if_pos fullNext]
        have least := @arrayBitScanFree_least data _ _ _ restEnough
        constructor
        · rintro - ⟨_, _, _, _, next, _, free⟩
          exact isFree_of_full fullNext next free
        intro _
        apply least.extend (by omega)
        intro j lower upper
        by_cases inWord : j / 32 = index / 32
        · exact none_here j lower inWord
        · exact isFree_of_full fullNext (by omega)
      rw [if_neg fullNext]
      -- The bit kept from the first word decides about the second one.
      have skips : Skips (IsFree data) bit_size index ↔ ∃ j, j < bit_size ∧
          j / 32 = index / 32 + 1 ∧ j % 32 < index % 32 ∧ IsFree data j :=
        ⟨fun skipped => skipped.2.2, fun skipped => ⟨exists_free full, none_here, skipped⟩⟩
      rw [skips]
      rcases freeInUint_cases data (index / 32 + 1) (index % 32) with
        ⟨passedNext, takenNext⟩ | ⟨j, isFree, _, _, free, least⟩
      · simp only [passedNext]
        obtain ⟨other, inNext, otherFree⟩ := exists_free fullNext
        have position : other % 32 < index % 32 := by
          by_contra atLeast
          exact takenNext other (by omega) inNext otherFree
        cases outcome : arrayBitScanFree data bit_size left (index / 32 + 1 + 1) (index % 32) with
        | none =>
          constructor
          · rintro none ⟨j, upper, _, _, free⟩
            exact none j (by omega) upper free
          intro kept j lower upper free
          have beyond : ¬ other < bit_size := fun inside =>
            kept ⟨other, inside, inNext, position, otherFree⟩
          by_cases inWord : j / 32 = index / 32
          · exact none_here j lower inWord free
          refine kept ⟨j, upper, by omega, ?_, free⟩
          by_contra atLeast
          exact takenNext j (by omega) (by omega) free
        | some _ =>
          have lower := arrayBitScanFree_lower outcome
          have upper := (arrayBitScanFree_free outcome).1
          refine iff_of_false ?_ (not_not.mpr ⟨other, by omega, inNext, position, otherFree⟩)
          rintro ⟨_, _, _, isLeast⟩
          exact isLeast other (by omega) (by omega) otherFree
      simp only [isFree]
      constructor
      · rintro isLeast ⟨k, upper, _, _, kFree⟩
        by_cases beyond : (index / 32 + 1) * 32 + j ≥ bit_size
        · rw [if_pos beyond] at isLeast
          exact isLeast k (by omega) upper kFree
        · rw [if_neg beyond] at isLeast
          exact isLeast.2.2.2 k (by omega) (by omega) kFree
      intro kept
      by_cases beyond : (index / 32 + 1) * 32 + j ≥ bit_size
      · rw [if_pos beyond]
        intro k lower upper kFree
        by_cases inWord : k / 32 = index / 32
        · exact none_here k lower inWord kFree
        by_cases position : k % 32 < index % 32
        · exact kept ⟨k, upper, by omega, position, kFree⟩
        · exact least k (by omega) (by omega) kFree
      rw [if_neg beyond]
      refine ⟨by omega, by omega, free, fun k lower upper kFree => ?_⟩
      by_cases inWord : k / 32 = index / 32
      · exact none_here k lower inWord kFree
      by_cases position : k % 32 < index % 32
      · exact kept ⟨k, by omega, by omega, position, kFree⟩
      · exact least k (by omega) upper kFree
  · simp only [isFree]
    refine iff_of_true (.clip (by omega) free fun k lower upper => least k (by omega) upper) ?_
    rintro ⟨_, none, _⟩
    exact none _ (by omega) (by omega) free

theorem arrayBitGetBusyFrom_eq (data : Nat → UINT) (bit_size index : Nat) :
    arrayBitGetBusyFrom data bit_size index =
      arrayBitGetFreeFrom (fun i => ~~~data i) bit_size index := by
  have inWord : ∀ (word : UINT) start, busyInUint word start = freeInUint (~~~word) start := by
    intro word start
    apply find?_congr
    intro j inside
    have bounded : j < 32 := by
      have := mem_range'_1.mp inside
      omega
    rw [BitVec.getLsbD_not, decide_eq_true bounded, Bool.true_and, Bool.not_not]
  have scan : ∀ left i start, arrayBitScanBusy data bit_size left i start =
      arrayBitScanFree (fun i => ~~~data i) bit_size left i start := by
    intro left
    induction left with
    | zero => exact fun _ _ => rfl
    | succ _ ih =>
      intro i start
      have zero : ~~~data i = 0xffffffff ↔ data i = 0 := by
        constructor
        · exact fun full => by bv_omega
        · exact fun empty => by bv_omega
      rw [arrayBitScanBusy, arrayBitScanFree, inWord]
      cases freeInUint (~~~data i) start with
      | none => simp only [zero, ih]
      | some => simp only [zero, ih]
  rw [arrayBitGetBusyFrom, arrayBitGetFreeFrom, scan]

theorem isFree_not : IsFree (fun i => ~~~data i) = IsBusy data := by
  funext j
  rw [IsFree, IsBusy, arrayBitTest, arrayBitTest, BitVec.getLsbD_not,
    decide_eq_true (mod_lt j (by decide)), Bool.true_and, not_eq_false']

theorem bitmapGetFreeCycle_finds (pstBitMap : BitmapS) {j : Nat}
    (inside : j < pstBitMap.ulBitNum.toNat) (free : bitmapIsSet pstBitMap j = false) :
    ∃ found, (bitmapGetFreeCycle pstBitMap).2 = some found ∧ found < pstBitMap.ulBitNum.toNat ∧
      bitmapIsSet pstBitMap found = false := by
  have isFinding : ∃ found, bitmapFreeCycle pstBitMap = some found ∧
      found < pstBitMap.ulBitNum.toNat ∧ bitmapIsSet pstBitMap found = false := by
    have right := arrayBitGetFreeFrom_iff pstBitMap.pulBitMap pstBitMap.ulBitNum.toNat
      pstBitMap.uiScanIndex.toNat
    rw [bitmapFreeCycle]
    cases outcome : arrayBitGetFreeFrom pstBitMap.pulBitMap pstBitMap.ulBitNum.toNat
        pstBitMap.uiScanIndex.toNat with
    | some found =>
      rw [arrayBitGetFreeFrom] at outcome
      split at outcome
      · cases outcome
      · exact ⟨found, rfl, arrayBitScanFree_free outcome⟩
    | none =>
      obtain ⟨k, before, _, kFree⟩ : ∃ k, k < pstBitMap.uiScanIndex.toNat ∧
          k < pstBitMap.ulBitNum.toNat ∧ bitmapIsSet pstBitMap k = false := by
        by_cases skips : Skips (IsFree pstBitMap.pulBitMap) pstBitMap.ulBitNum.toNat
            pstBitMap.uiScanIndex.toNat
        · obtain ⟨⟨k, inWord, kFree⟩, none, _, _, _, _⟩ := skips
          have before : k < pstBitMap.uiScanIndex.toNat := by
            by_contra atLeast
            exact none k (not_lt.mp atLeast) inWord kFree
          exact ⟨k, before, by omega, kFree⟩
        · have none := outcome ▸ right.mpr skips
          refine ⟨j, ?_, inside, free⟩
          by_contra atLeast
          exact none j (not_lt.mp atLeast) inside free
      cases again : arrayBitGetFree pstBitMap.pulBitMap pstBitMap.uiScanIndex.toNat with
      | none =>
        have taken := arrayBitGetFree_none again before
        exact absurd (kFree.symm.trans taken) false_ne_true
      | some found =>
        refine ⟨found, rfl, ?_, (arrayBitGetFree_free again).2⟩
        by_contra beyond
        have taken := @arrayBitGetFree_least _ _ k _ again (by omega)
        exact absurd (kFree.symm.trans taken) false_ne_true
  obtain ⟨found, isFound, bounded, isFree⟩ := isFinding
  refine ⟨found, ?_, bounded, isFree⟩
  rw [bitmapGetFreeCycle, isFound]

structure ScansRight (data : Nat → UINT) (bit_size index : Nat) : Prop where
  free : LeastFrom (IsFree data) bit_size index (arrayBitGetFreeFrom data bit_size index)
  busy : LeastFrom (IsBusy data) bit_size index (arrayBitGetBusyFrom data bit_size index)

/-- The scans are right exactly where they skip no bit, and going round in the bitmap always finds a
free bit. -/
theorem bit_scans (data : Nat → UINT) (bit_size index : Nat) :
    (ScansRight data bit_size index ↔
      ¬ Skips (IsFree data) bit_size index ∧ ¬ Skips (IsBusy data) bit_size index) ∧
    ∀ pstBitMap : BitmapS,
      (∃ j, j < pstBitMap.ulBitNum.toNat ∧ bitmapIsSet pstBitMap j = false) →
        ∃ found, (bitmapGetFreeCycle pstBitMap).2 = some found ∧
          found < pstBitMap.ulBitNum.toNat ∧ bitmapIsSet pstBitMap found = false := by
  have free := arrayBitGetFreeFrom_iff data bit_size index
  have busy := arrayBitGetFreeFrom_iff (fun i => ~~~data i) bit_size index
  rw [← arrayBitGetBusyFrom_eq, isFree_not] at busy
  refine ⟨⟨fun right => ⟨free.mp right.free, busy.mp right.busy⟩,
    fun kept => ⟨free.mpr kept.1, busy.mpr kept.2⟩⟩, ?_⟩
  rintro pstBitMap ⟨_, inside, isFree⟩
  exact bitmapGetFreeCycle_finds pstBitMap inside isFree

/-- Behind bit 5 the scan sees bit 0 free, and then does not look at bit 32. -/
theorem arrayBitGetFreeFrom_skips :
    arrayBitGetFreeFrom (fun _ => 0xfffffffe) 64 5 = none ∧
      arrayBitTest (fun _ => 0xfffffffe) 32 = false ∧
      ¬ ∀ data bit_size index, ScansRight data bit_size index := by
  have missed : arrayBitGetFreeFrom (fun _ => 0xfffffffe) 64 5 = none := by decide
  refine ⟨missed, by decide, fun right => ?_⟩
  have least := (right (fun _ => 0xfffffffe) 64 5).free
  exact least 32 (by decide) (by decide) rfl

end MyCode.Bitmap
