import MyCode.Lib.CyclicWindow
import MyCode.Lib.Transition
import MyCode.RArray

/-!
# Ring arrays as the last rows written

An array whose size fits 32 bits holds the last rows, and both directions of reading
find them at the same places.  Otherwise filling it leaves the memory.
-/

namespace MyCode.RArray

open Lib BitVec List Nat Option

def rowAnswer : Option (List UCHAR) → RArrayAnswer
  | none => .status .empty
  | some row => .row row

/-- The last `count` rows. -/
def lastRows (count : Nat) (rows : List (List UCHAR)) : List (List UCHAR) :=
  rows.drop (rows.length - count)

/-- What the calls mean for the retained rows, the oldest first. -/
def retainedStep (rowsCount colCount : Nat) (retained : List (List UCHAR)) :
    RArrayCall → List (List UCHAR) × RArrayAnswer
  | .writeForce none _ | .write none _ => (retained, .status .nullPara)
  | .writeForce (some pucData) ulDataLen =>
    if colCount < ulDataLen.toNat then (retained, .status .tooLong)
    else
      (lastRows rowsCount (retained ++ [(range ulDataLen.toNat).map pucData]), .status .ok)
  | .write (some pucData) ulDataLen =>
    if colCount < ulDataLen.toNat then (retained, .status .tooLong)
    else if rowsCount ≤ retained.length then (retained, .status .full)
    else (retained ++ [(range ulDataLen.toNat).map pucData], .status .ok)
  | .readNoDel => (retained, rowAnswer retained.head?)
  | .read => (retained.tail, rowAnswer retained.head?)
  | .readIndex ulIndex => (retained, rowAnswer retained[ulIndex.toNat]?)
  | .readReversedIndex ulIndex => (retained, rowAnswer retained.reverse[ulIndex.toNat]?)
  | .reset => ([], .done)

def rowLength (data : Block UCHAR) (width j : Nat) : UINT :=
  bytesUint (data.slice (j * width) 4)

def rowBytes (data : Block UCHAR) (width j : Nat) : List UCHAR :=
  data.slice (j * width + 4) (rowLength data width j).toNat

/-- A row with its length and its bytes replaced. -/
def rowPut (data : Block UCHAR) (width j : Nat) (pucData : Nat → UCHAR) (ulDataLen : UINT) :
    Block UCHAR :=
  (data.paste (j * width + 4) pucData ulDataLen.toNat).paste (j * width) (uintBytes ulDataLen) 4

variable {data : Block UCHAR} {width i j : Nat} {pucData : Nat → UCHAR} {ulDataLen ulIndex : UINT}

theorem rowLength_rowPut_self :
    rowLength (rowPut data width j pucData ulDataLen) width j = ulDataLen := by
  rw [rowLength, rowPut, Block.slice_paste_self, bytesUint_uintBytes]

theorem rowBytes_rowPut_self :
    rowBytes (rowPut data width j pucData ulDataLen) width j =
      (range ulDataLen.toNat).map pucData := by
  rw [rowBytes, rowLength_rowPut_self, rowPut, Block.slice_paste_other (by omega),
    Block.slice_paste_self]

theorem rows_apart (other : i ≠ j) :
    i * width + width ≤ j * width ∨ j * width + width ≤ i * width := by
  rcases lt_or_gt_of_ne other with less | more
  · left
    rw [← Nat.succ_mul]
    exact mul_le_mul_right width less
  · right
    rw [← Nat.succ_mul]
    exact mul_le_mul_right width more

theorem rowLength_rowPut_other (other : i ≠ j) (short : ulDataLen.toNat + 4 ≤ width) :
    rowLength (rowPut data width j pucData ulDataLen) width i = rowLength data width i := by
  have apart := @rows_apart width i j other
  rw [rowLength, rowPut, Block.slice_paste_other (by omega), Block.slice_paste_other (by omega)]
  rfl

theorem rowBytes_rowPut_other (other : i ≠ j) (short : ulDataLen.toNat + 4 ≤ width)
    (shortOther : (rowLength data width i).toNat + 4 ≤ width) :
    rowBytes (rowPut data width j pucData ulDataLen) width i = rowBytes data width i := by
  have apart := @rows_apart width i j other
  rw [rowBytes, rowLength_rowPut_other other short, rowPut, Block.slice_paste_other (by omega),
    Block.slice_paste_other (by omega)]
  rfl

structure RArraySized (rows cols : UINT) : Prop where
  someRows : 0 < rows.toNat
  someCols : 0 < cols.toNat
  small : rows.toNat * (cols.toNat + 4) + 32 < 2 ^ 32

/-- The array was created with these sizes and holds these rows, the oldest first. -/
structure RArrayHolds (rows cols : UINT) (ctrl : RArrayCtrl) (retained : List (List UCHAR)) :
    Prop where
  rowsCount : ctrl.ulRowsCount = rows
  colCount : ctrl.ulColCount.toNat = cols.toNat + 4
  size : ctrl.pucData.size = rows.toNat * (cols.toNat + 4)
  read : ctrl.ulReadIndex.toNat < rows.toNat
  write : ctrl.ulWriteIndex.toNat = (ctrl.ulReadIndex.toNat + ctrl.ulCount.toNat) % rows.toNat
  fits : ctrl.ulCount.toNat ≤ rows.toNat
  short : ∀ i < ctrl.ulCount.toNat, (rowLength ctrl.pucData (cols.toNat + 4)
    ((ctrl.ulReadIndex.toNat + i) % rows.toNat)).toNat + 4 ≤ cols.toNat + 4
  rows : cyclicWindow (rowBytes ctrl.pucData (cols.toNat + 4)) rows.toNat
    ctrl.ulReadIndex.toNat ctrl.ulCount.toNat = retained

variable {rows cols : UINT} {ctrl : RArrayCtrl} {retained : List (List UCHAR)}

theorem RArraySized.rows_lt (sized : RArraySized rows cols) : rows.toNat < 2 ^ 30 := by
  have small := sized.small
  have wide : rows.toNat * 4 ≤ rows.toNat * (cols.toNat + 4) := mul_le_mul_left _ (by omega)
  omega

section

variable (holds : RArrayHolds rows cols ctrl retained)

include holds

theorem RArrayHolds.count : ctrl.ulCount.toNat = retained.length := by
  simp [← holds.rows]

variable (sized : RArraySized rows cols) (inside : ulIndex.toNat < rows.toNat)

include sized inside in
theorem RArrayHolds.place :
    rarrayPlace ctrl ulIndex = ulIndex.toNat * (cols.toNat + 4) ∧
      ulIndex.toNat * (cols.toNat + 4) + (cols.toNat + 4) ≤ ctrl.pucData.size := by
  have small := sized.small
  have last : ulIndex.toNat * (cols.toNat + 4) + (cols.toNat + 4) ≤
      rows.toNat * (cols.toNat + 4) := by
    rw [← Nat.succ_mul]
    exact mul_le_mul_right _ inside
  refine ⟨?_, by rw [holds.size]; exact last⟩
  rw [rarrayPlace, toNat_mul, holds.colCount]
  exact mod_eq_of_lt (by omega)

theorem RArrayHolds.tooLong :
    rarrayTooLong ctrl ulDataLen = decide (cols.toNat < ulDataLen.toNat) := by
  have colCount := holds.colCount
  have wide : (ctrl.ulColCount.setWidth 64 - 4).toNat = cols.toNat := by
    simp
    omega
  have same : (ulDataLen.setWidth 64).toNat = ulDataLen.toNat := by
    simp
    omega
  rw [rarrayTooLong]
  simp only [gt_iff_lt, lt_def, wide, same]

theorem RArrayHolds.full_iff : rarrayIsFull ctrl ↔ rows.toNat ≤ retained.length := by
  have fits := holds.fits
  rw [rarrayIsFull, holds.rowsCount, ← holds.count, ← toNat_inj]
  omega

include sized in
/-- What `RArray_WriteForce` writes. -/
theorem RArrayHolds.written (fits : ulDataLen.toNat ≤ cols.toNat) :
    rarrayWriteForce ctrl (some pucData) ulDataLen =
      (let data := rowPut ctrl.pucData (cols.toNat + 4) ctrl.ulWriteIndex.toNat pucData ulDataLen
       let ulWriteIndex := (ctrl.ulWriteIndex + 1) % ctrl.ulRowsCount
       if rarrayIsFull ctrl then
          some ({ ctrl with
            pucData := data, ulWriteIndex := ulWriteIndex, ulReadIndex := ulWriteIndex }, .ok)
        else
          some ({ ctrl with
            pucData := data, ulWriteIndex := ulWriteIndex, ulCount := ctrl.ulCount + 1 }, .ok)) := by
  have writeInside : ctrl.ulWriteIndex.toNat < rows.toNat := by
    rw [holds.write]
    exact mod_lt _ sized.someRows
  obtain ⟨place, _⟩ := holds.place sized writeInside
  have notLong : ¬cols.toNat < ulDataLen.toNat := by omega
  have copied : rarrayCopyData ctrl pucData ulDataLen =
      some (ctrl.pucData.paste (ctrl.ulWriteIndex.toNat * (cols.toNat + 4) + 4) pucData
        ulDataLen.toNat) := by
    rw [rarrayCopyData, place]
    split
    · exact Block.copyIn_eq (by omega)
    next none_ =>
    have zero : ulDataLen.toNat = 0 := by
      simpa [lt_def] using none_
    rw [zero, Block.paste_zero]
  have lengthIn := @Block.copyIn_eq _ (ctrl.pucData.paste
    (ctrl.ulWriteIndex.toNat * (cols.toNat + 4) + 4) pucData ulDataLen.toNat)
    (ctrl.ulWriteIndex.toNat * (cols.toNat + 4)) 4 (uintBytes ulDataLen)
    (by rw [Block.size_paste]; omega)
  simp [rarrayWriteForce, holds.tooLong, place, copied, if_neg notLong, lengthIn, rowPut]

include inside in
theorem RArrayHolds.nextIndex :
    ((ulIndex + 1) % ctrl.ulRowsCount).toNat = (ulIndex.toNat + 1) % rows.toNat := by
  have next : (ulIndex + 1).toNat = ulIndex.toNat + 1 := by
    simp
    omega
  rw [toNat_umod, next, holds.rowsCount]

theorem RArrayHolds.put (fits : ulDataLen.toNat ≤ cols.toNat)
    (room : ctrl.ulCount.toNat < rows.toNat) :
    cyclicWindow
      (rowBytes (rowPut ctrl.pucData (cols.toNat + 4) ctrl.ulWriteIndex.toNat pucData ulDataLen)
        (cols.toNat + 4)) rows.toNat ctrl.ulReadIndex.toNat (ctrl.ulCount.toNat + 1) =
      retained ++ [(range ulDataLen.toNat).map pucData] := by
  rw [cyclicWindow_succ, ← holds.write, rowBytes_rowPut_self]
  congr 1
  rw [← holds.rows]
  apply cyclicWindow_congr
  intro i inside
  apply rowBytes_rowPut_other _ (by omega) (holds.short i inside)
  rw [holds.write]
  intro same
  have equal := place_injective (by omega) room same
  omega

section

variable (sized : RArraySized rows cols)

include sized

theorem RArrayHolds.append (fits : ulDataLen.toNat ≤ cols.toNat)
    (room : retained.length < rows.toNat) :
    ∃ after, rarrayWriteForce ctrl (some pucData) ulDataLen = some (after, .ok) ∧
      RArrayHolds rows cols after (retained ++ [(range ulDataLen.toNat).map pucData]) := by
  have count := holds.count
  have notFull : ¬rarrayIsFull ctrl := by
    rw [holds.full_iff]
    omega
  have more : (ctrl.ulCount + 1).toNat = ctrl.ulCount.toNat + 1 := by
    simp
    omega
  have writeInside : ctrl.ulWriteIndex.toNat < rows.toNat := by
    rw [holds.write]
    exact mod_lt _ sized.someRows
  refine ⟨_, (holds.written sized fits).trans (if_neg notFull), holds.rowsCount, holds.colCount,
    holds.size, holds.read, ?_, ?_, ?_, ?_⟩
  · simp only [holds.nextIndex writeInside, more, holds.write]
    rw [mod_add_mod, add_assoc]
  · simp only [more]
    omega
  · intro i inside
    simp only [more] at inside
    by_cases last : i = ctrl.ulCount.toNat
    · rw [last, ← holds.write, rowLength_rowPut_self]
      omega
    rw [rowLength_rowPut_other _ (by omega)]
    · exact holds.short i (by omega)
    rw [holds.write]
    intro same
    exact last (place_injective (by omega) (by omega) same)
  · simp only [more]
    exact holds.put fits (by omega)

theorem RArrayHolds.overwrite (fits : ulDataLen.toNat ≤ cols.toNat)
    (full : rows.toNat ≤ retained.length) :
    ∃ after, rarrayWriteForce ctrl (some pucData) ulDataLen = some (after, .ok) ∧
      RArrayHolds rows cols after
        (retained.tail ++ [(range ulDataLen.toNat).map pucData]) := by
  have count := holds.count
  have few := holds.fits
  obtain ⟨before, rowsCount⟩ := exists_eq_succ_of_ne_zero (ne_of_gt sized.someRows)
  have whole : ctrl.ulCount.toNat = before + 1 := by omega
  have writesOldest : ctrl.ulWriteIndex.toNat = ctrl.ulReadIndex.toNat := by
    rw [holds.write, show ctrl.ulCount.toNat = rows.toNat by omega, add_mod_right,
      mod_eq_of_lt holds.read]
  have next := holds.nextIndex holds.read
  have inside : (ctrl.ulReadIndex.toNat + 1) % rows.toNat < rows.toNat := mod_lt _ sized.someRows
  -- Seen from the row behind the oldest one, that row comes last.
  have around : (ctrl.ulReadIndex.toNat + 1 + before) % rows.toNat = ctrl.ulReadIndex.toNat := by
    rw [show ctrl.ulReadIndex.toNat + 1 + before = ctrl.ulReadIndex.toNat + rows.toNat by omega,
      add_mod_right, mod_eq_of_lt holds.read]
  have apart : ∀ i < before,
      (ctrl.ulReadIndex.toNat + 1 + i) % rows.toNat ≠ ctrl.ulReadIndex.toNat := by
    intro i less same
    have equal := place_injective (show i < rows.toNat by omega) (show before < rows.toNat by omega)
      (same.trans around.symm)
    omega
  have short : ∀ i < before, (rowLength ctrl.pucData (cols.toNat + 4)
      ((ctrl.ulReadIndex.toNat + 1 + i) % rows.toNat)).toNat + 4 ≤ cols.toNat + 4 := by
    intro i less
    have kept := holds.short (i + 1) (by omega)
    rwa [show ctrl.ulReadIndex.toNat + (i + 1) = ctrl.ulReadIndex.toNat + 1 + i by omega] at kept
  refine ⟨_, (holds.written sized fits).trans (if_pos (holds.full_iff.mpr full)), holds.rowsCount,
    holds.colCount, holds.size, ?_, ?_, holds.fits, ?_, ?_⟩
  all_goals
    have readNext : ((ctrl.ulWriteIndex + 1) % ctrl.ulRowsCount).toNat =
        (ctrl.ulReadIndex.toNat + 1) % rows.toNat := by
      rw [eq_of_toNat_eq writesOldest, next]
    simp only [readNext]
  · exact inside
  · rw [show ctrl.ulCount.toNat = rows.toNat by omega, add_mod_right, mod_mod]
  · intro i less
    rw [mod_add_mod, writesOldest]
    by_cases last : i = before
    · rw [last, around, rowLength_rowPut_self]
      omega
    · rw [rowLength_rowPut_other (apart i (by omega)) (by omega)]
      exact short i (by omega)
  · rw [cyclicWindow_mod, whole, cyclicWindow_succ, around, writesOldest, rowBytes_rowPut_self,
      ← holds.rows, whole, cyclicWindow_cons, tail_cons]
    congr 1
    apply cyclicWindow_congr
    intro i less
    exact rowBytes_rowPut_other (apart i less) (by omega) (short i less)

theorem RArrayHolds.row (place : ulIndex.toNat = (ctrl.ulReadIndex.toNat + i) % rows.toNat)
    {row : List UCHAR} (there : retained[i]? = some row) :
    ∃ found, rarrayRow ctrl ulIndex = some found ∧ rarrayBytes ctrl found = some row := by
  have inside : ulIndex.toNat < rows.toNat := by
    rw [place]
    exact mod_lt _ sized.someRows
  have less : i < ctrl.ulCount.toNat := by
    rw [holds.count]
    exact (List.getElem?_eq_some_iff.mp there).1
  have short := holds.short i less
  obtain ⟨rowPlace, _⟩ := holds.place sized inside
  have lengthOut := @Block.copyOut_eq _ ctrl.pucData (ulIndex.toNat * (cols.toNat + 4)) 4 (by omega)
  refine ⟨(ulIndex.toNat * (cols.toNat + 4) + 4, rowLength ctrl.pucData (cols.toNat + 4)
    ulIndex.toNat), ?_, ?_⟩
  · rw [rarrayRow, rowPlace, lengthOut]
    rfl
  rw [← holds.rows, getElem?_cyclicWindow, if_pos less, ← place] at there
  rw [← place] at short
  have rowOut := @Block.copyOut_eq _ ctrl.pucData (ulIndex.toNat * (cols.toNat + 4) + 4)
    (rowLength ctrl.pucData (cols.toNat + 4) ulIndex.toNat).toNat (by omega)
  exact rowOut.trans there

theorem RArrayHolds.index (less : ulIndex.toNat < ctrl.ulCount.toNat) :
    ((ctrl.ulReadIndex + ulIndex) % ctrl.ulRowsCount).toNat =
      (ctrl.ulReadIndex.toNat + ulIndex.toNat) % rows.toNat := by
  have bound := sized.rows_lt
  have fits := holds.fits
  have read := holds.read
  have sum : (ctrl.ulReadIndex + ulIndex).toNat = ctrl.ulReadIndex.toNat + ulIndex.toNat := by
    exact mod_eq_of_lt (by omega)
  rw [toNat_umod, sum, holds.rowsCount]

theorem RArrayHolds.reversedIndex (less : ulIndex.toNat < ctrl.ulCount.toNat) :
    ((ctrl.ulWriteIndex + ctrl.ulRowsCount - 1 - ulIndex) % ctrl.ulRowsCount).toNat =
      (ctrl.ulReadIndex.toNat + (ctrl.ulCount.toNat - 1 - ulIndex.toNat)) % rows.toNat := by
  have bound := sized.rows_lt
  have fits := holds.fits
  have rowsCount := congrArg BitVec.toNat holds.rowsCount
  have write : ctrl.ulWriteIndex.toNat < rows.toNat := by
    rw [holds.write]
    exact mod_lt _ sized.someRows
  have back : (ctrl.ulWriteIndex + ctrl.ulRowsCount - 1 - ulIndex).toNat =
      ctrl.ulWriteIndex.toNat + (rows.toNat - 1 - ulIndex.toNat) := by
    bv_omega
  rw [toNat_umod, back, holds.rowsCount, holds.write, mod_add_mod]
  have turn : ctrl.ulReadIndex.toNat + ctrl.ulCount.toNat + (rows.toNat - 1 - ulIndex.toNat) =
      ctrl.ulReadIndex.toNat + (ctrl.ulCount.toNat - 1 - ulIndex.toNat) + rows.toNat := by
    omega
  rw [turn, add_mod_right]

end

theorem RArrayHolds.beyond_iff : ulIndex ≥ ctrl.ulCount ↔ retained.length ≤ ulIndex.toNat := by
  rw [← holds.count]
  exact le_def

section

include sized

theorem RArrayHolds.readIndex :
    ∃ result, rarrayReadIndex ctrl ulIndex = some result ∧
      rarrayAnswer ctrl result = some (rowAnswer retained[ulIndex.toNat]?) := by
  cases there : retained[ulIndex.toNat]? with
  | none =>
    have beyond := holds.beyond_iff.mpr (getElem?_eq_none_iff.mp there)
    exact ⟨.error .empty, by simp [rarrayReadIndex, beyond], rfl⟩
  | some row =>
    have inside := (List.getElem?_eq_some_iff.mp there).1
    have notBeyond : ¬ulIndex ≥ ctrl.ulCount := by
      rw [holds.beyond_iff]
      omega
    have less : ulIndex.toNat < ctrl.ulCount.toNat := by
      rw [holds.count]
      exact inside
    have place := holds.index sized less
    obtain ⟨found, readRow, bytes⟩ := holds.row sized place there
    exact ⟨.ok found, by simp [rarrayReadIndex, notBeyond, readRow],
      by simp [rarrayAnswer, bytes, rowAnswer]⟩

theorem RArrayHolds.readReversedIndex :
    ∃ result, rarrayReadReversedIndex ctrl ulIndex = some result ∧
      rarrayAnswer ctrl result = some (rowAnswer retained.reverse[ulIndex.toNat]?) := by
  have count := holds.count
  by_cases inside : ulIndex.toNat < retained.length
  · have notBeyond : ¬ulIndex ≥ ctrl.ulCount := by
      rw [holds.beyond_iff]
      omega
    rw [getElem?_reverse inside]
    have there := List.getElem?_eq_getElem
      (show retained.length - 1 - ulIndex.toNat < retained.length by omega)
    have less : ulIndex.toNat < ctrl.ulCount.toNat := by
      rw [count]
      exact inside
    have place := holds.reversedIndex sized less
    rw [count] at place
    obtain ⟨found, readRow, bytes⟩ := holds.row sized place there
    refine ⟨.ok found, ?_, by simp [rarrayAnswer, bytes, rowAnswer, there]⟩
    rw [rarrayReadReversedIndex, if_neg notBeyond, readRow]
    rfl
  · have beyond := holds.beyond_iff.mpr (not_lt.mp inside)
    have nothing : retained.reverse[ulIndex.toNat]? = none := by
      rw [List.getElem?_eq_none_iff, length_reverse]
      omega
    exact ⟨.error .empty, by simp [rarrayReadReversedIndex, beyond], by rw [nothing]; rfl⟩

theorem RArrayHolds.readNoDel :
    ∃ result, rarrayReadNoDel ctrl = some result ∧
      rarrayAnswer ctrl result = some (rowAnswer retained.head?) := by
  have count := holds.count
  cases retained with
  | nil =>
    have empty : ctrl.ulCount = 0 := eq_of_toNat_eq count
    exact ⟨.error .empty, by simp [rarrayReadNoDel, empty], rfl⟩
  | cons row rest =>
    have someThere : ctrl.ulCount ≠ 0 := by
      intro empty
      simp [empty] at count
    obtain ⟨found, readRow, bytes⟩ := @RArrayHolds.row 0 ctrl.ulReadIndex rows cols ctrl
      (row :: rest) holds sized (mod_eq_of_lt holds.read).symm row rfl
    refine ⟨.ok found, ?_, by simp [rarrayAnswer, bytes, rowAnswer]⟩
    rw [rarrayReadNoDel, if_neg someThere, readRow]
    rfl

end

end

theorem RArrayHolds.tail {row : List UCHAR} {rest : List (List UCHAR)}
    (holds : RArrayHolds rows cols ctrl (row :: rest)) (sized : RArraySized rows cols) :
    RArrayHolds rows cols
      { ctrl with
        ulReadIndex := (ctrl.ulReadIndex + 1) % ctrl.ulRowsCount
        ulCount := ctrl.ulCount - 1 } rest := by
  have count := holds.count
  have fits := holds.fits
  have next := holds.nextIndex holds.read
  have less : (ctrl.ulCount - 1).toNat = rest.length := by
    rw [toNat_sub_of_le (by rw [le_def]; simp [count]), count]
    simp
  have more : ctrl.ulCount.toNat = rest.length + 1 := count
  refine ⟨holds.rowsCount, holds.colCount, holds.size, ?_, ?_, ?_, ?_, ?_⟩
  · simp only [next]
    exact mod_lt _ sized.someRows
  · simp only [next, less, holds.write, more]
    rw [mod_add_mod, add_right_comm, add_assoc]
  · simp only [less]
    omega
  · intro i inside
    simp only [less] at inside
    simp only [next, mod_add_mod]
    have kept := holds.short (i + 1) (by omega)
    rwa [show ctrl.ulReadIndex.toNat + (i + 1) = ctrl.ulReadIndex.toNat + 1 + i by omega] at kept
  · have contents := holds.rows
    rw [more, cyclicWindow_cons, cons.injEq] at contents
    simp only [next, less, cyclicWindow_mod]
    exact contents.2

theorem lastRows_append_room {row : List UCHAR} (room : retained.length < rows.toNat) :
    lastRows rows.toNat (retained ++ [row]) = retained ++ [row] := by
  rw [lastRows, length_append, length_singleton, Nat.sub_eq_zero_of_le (by omega)]
  rfl

theorem lastRows_append_full {row : List UCHAR} (some_ : 0 < retained.length)
    (full : retained.length = rows.toNat) :
    lastRows rows.toNat (retained ++ [row]) = retained.tail ++ [row] := by
  rw [lastRows, length_append, length_singleton, full, Nat.add_sub_cancel_left, drop_one]
  cases retained with
  | nil => simp at some_
  | cons => rfl

section

variable (holds : RArrayHolds rows cols ctrl retained) (sized : RArraySized rows cols)

include holds sized

theorem RArrayHolds.writes (fits : ¬cols.toNat < ulDataLen.toNat) :
    ∃ after, rarrayWriteForce ctrl (some pucData) ulDataLen = some (after, .ok) ∧
      RArrayHolds rows cols after
        (lastRows rows.toNat (retained ++ [(range ulDataLen.toNat).map pucData])) := by
  have few := holds.fits
  rw [holds.count] at few
  by_cases room : retained.length < rows.toNat
  · rw [lastRows_append_room room]
    exact holds.append sized (not_lt.mp fits) room
  have someRows := sized.someRows
  rw [lastRows_append_full (by omega) (by omega)]
  exact holds.overwrite sized (not_lt.mp fits) (by omega)

theorem RArrayHolds.writeForce (pucData : Option (Nat → UCHAR)) :
    Follows (RArrayHolds rows cols) rarrayStep (retainedStep rows.toNat cols.toNat) ctrl retained
      (.writeForce pucData ulDataLen) := by
  cases pucData with
  | none => exact ⟨ctrl, rfl, holds⟩
  | some pucData =>
    by_cases long : cols.toNat < ulDataLen.toNat
    · refine ⟨ctrl, ?_, ?_⟩
      · simp [rarrayStep, rarrayWriteForce, holds.tooLong, retainedStep, long]
      · simpa [retainedStep, long] using holds
    obtain ⟨after, written, next⟩ := @RArrayHolds.writes pucData _ _ _ _ _ holds sized long
    refine ⟨after, ?_, ?_⟩
    · simp [rarrayStep, written, retainedStep, long]
    · simpa [retainedStep, long] using next

theorem RArrayHolds.writeCall (pucData : Option (Nat → UCHAR)) :
    Follows (RArrayHolds rows cols) rarrayStep (retainedStep rows.toNat cols.toNat) ctrl retained
      (.write pucData ulDataLen) := by
  cases pucData with
  | none => exact ⟨ctrl, rfl, holds⟩
  | some pucData =>
    by_cases long : cols.toNat < ulDataLen.toNat
    · refine ⟨ctrl, ?_, ?_⟩
      · simp [rarrayStep, rarrayWrite, holds.tooLong, retainedStep, long]
      · simpa [retainedStep, long] using holds
    by_cases full : rows.toNat ≤ retained.length
    · refine ⟨ctrl, ?_, ?_⟩
      · simp [rarrayStep, rarrayWrite, holds.tooLong, retainedStep, long, holds.full_iff, full]
      · simpa [retainedStep, long, full] using holds
    obtain ⟨after, written, next⟩ := @RArrayHolds.append pucData _ _ _ _ _ holds sized
      (not_lt.mp long) (not_le.mp full)
    refine ⟨after, ?_, ?_⟩
    · simp [rarrayStep, rarrayWrite, holds.tooLong, retainedStep, long, holds.full_iff, full,
        written]
    · simpa [retainedStep, long, full] using next

theorem RArrayHolds.readCall :
    Follows (RArrayHolds rows cols) rarrayStep (retainedStep rows.toNat cols.toNat) ctrl retained
      .read := by
  obtain ⟨result, found, answer⟩ := holds.readNoDel sized
  cases retained with
  | nil =>
    have empty : ctrl.ulCount = 0 := eq_of_toNat_eq holds.count
    refine ⟨ctrl, ?_, holds⟩
    simp [rarrayStep, rarrayRead, rarrayReadNoDel, empty, rarrayAnswer, retainedStep, rowAnswer]
  | cons row =>
    cases result with
    | error => simp [rarrayAnswer, rowAnswer] at answer
    | ok place =>
      refine ⟨_, ?_, holds.tail sized⟩
      have bytes : rarrayAnswer { ctrl with
          ulReadIndex := (ctrl.ulReadIndex + 1) % ctrl.ulRowsCount
          ulCount := ctrl.ulCount - 1 } (.ok place) = some (rowAnswer (some row)) := answer
      simp only [rarrayStep, rarrayRead, found, bind_eq_bind, bind_some, bytes]
      rfl

end

theorem RArrayHolds.follows (sized : RArraySized rows cols) (call : RArrayCall)
    (holds : RArrayHolds rows cols ctrl retained) :
    Follows (RArrayHolds rows cols) rarrayStep (retainedStep rows.toNat cols.toNat) ctrl retained
      call := by
  cases call with
  | writeForce pucData _ => exact holds.writeForce sized pucData
  | write pucData _ => exact holds.writeCall sized pucData
  | readNoDel =>
    obtain ⟨_, found, answer⟩ := holds.readNoDel sized
    exact ⟨ctrl, by simp [rarrayStep, found, answer, retainedStep], holds⟩
  | read => exact holds.readCall sized
  | readIndex ulIndex =>
    obtain ⟨_, found, answer⟩ := @RArrayHolds.readIndex ulIndex _ _ _ _ holds sized
    exact ⟨ctrl, by simp [rarrayStep, found, answer, retainedStep], holds⟩
  | readReversedIndex ulIndex =>
    obtain ⟨_, found, answer⟩ := @RArrayHolds.readReversedIndex ulIndex _ _ _ _ holds sized
    exact ⟨ctrl, by simp [rarrayStep, found, answer, retainedStep], holds⟩
  | reset =>
    refine ⟨rarrayReset ctrl, rfl, holds.rowsCount, holds.colCount, holds.size, sized.someRows, ?_,
      zero_le _, ?_, rfl⟩
    · simp [rarrayReset]
    · intro i inside
      simp [rarrayReset] at inside

theorem RArrayHolds.bothWays (holds : RArrayHolds rows cols ctrl retained)
    (sized : RArraySized rows cols) {row : List UCHAR}
    (there : retained[ulIndex.toNat]? = some row) :
    ∃ place, rarrayReadIndex ctrl ulIndex = some (.ok place) ∧
      rarrayReadReversedIndex ctrl (ctrl.ulCount - 1 - ulIndex) = some (.ok place) ∧
      rarrayBytes ctrl place = some row := by
  have inside : ulIndex.toNat < ctrl.ulCount.toNat := by
    rw [holds.count]
    exact (List.getElem?_eq_some_iff.mp there).1
  have back : (ctrl.ulCount - 1 - ulIndex).toNat = ctrl.ulCount.toNat - 1 - ulIndex.toNat := by
    bv_omega
  have place := holds.index sized inside
  obtain ⟨found, readRow, bytes⟩ := holds.row sized place there
  have samePlace : (ctrl.ulWriteIndex + ctrl.ulRowsCount - 1 - (ctrl.ulCount - 1 - ulIndex)) %
      ctrl.ulRowsCount = (ctrl.ulReadIndex + ulIndex) % ctrl.ulRowsCount := by
    apply eq_of_toNat_eq
    rw [holds.reversedIndex sized (by omega), place, back]
    congr 2
    omega
  have notBeyond : ¬ulIndex ≥ ctrl.ulCount := by
    rw [ge_iff_le, le_def]
    omega
  have notBeyondBack : ¬ctrl.ulCount - 1 - ulIndex ≥ ctrl.ulCount := by
    rw [ge_iff_le, le_def]
    omega
  refine ⟨found, ?_, ?_, bytes⟩
  · rw [rarrayReadIndex, if_neg notBeyond, readRow]
    rfl
  · rw [rarrayReadReversedIndex, if_neg notBeyondBack, samePlace, readRow]
    rfl

theorem rarrayCreate_eq {memory : Nat → UCHAR} (sized : RArraySized rows cols) :
    ∃ ctrl, rarrayCreate rows cols memory = some (some ctrl) ∧ RArrayHolds rows cols ctrl [] := by
  have small := sized.small
  have someRows := sized.someRows
  have someCols := sized.someCols
  have wide : 1 * (cols.toNat + 4) ≤ rows.toNat * (cols.toNat + 4) := mul_le_mul_right _ someRows
  have colCount : (cols + 4).toNat = cols.toNat + 4 := by
    exact mod_eq_of_lt (by simp; omega)
  have data : (rows * (cols + 4)).toNat = rows.toNat * (cols.toNat + 4) := by
    rw [toNat_mul, colCount]
    exact mod_eq_of_lt (by omega)
  have size : (rows * (cols + 4) + 32).toNat = rows.toNat * (cols.toNat + 4) + 32 := by
    rw [toNat_add, data]
    exact mod_eq_of_lt small
  have notNull : ¬(rows = 0 ∨ cols = 0) := by
    rintro (rfl | rfl)
    · simp at someRows
    · simp at someCols
  have whole : ¬rows * (cols + 4) + 32 < 32 := by
    rw [lt_def, size]
    simp
  refine ⟨⟨rows, cols + 4, 0, 0, 0, ⟨(rows * (cols + 4) + 32).toNat - 32, memory⟩⟩, ?_, rfl,
    colCount, ?_, someRows, ?_, zero_le _, ?_, rfl⟩
  · rw [rarrayCreate, if_neg notNull]
    exact if_neg whole
  · simp only [size, Nat.add_sub_cancel]
  · simp
  · intro i inside
    simp at inside

/-- From its creation on an array gives the answers of the list of the last rows, call by
call; a row is found at one place from both ends, and its bytes are there. -/
def RArrayRefines (rows cols : UINT) : Prop :=
  ∀ (memory : Nat → UCHAR) (calls : List RArrayCall),
    let last := replies (retainedStep rows.toNat cols.toNat) [] calls
    ∃ created ctrl, rarrayCreate rows cols memory = some (some created) ∧
      runs rarrayStep created calls = some (ctrl, last.2) ∧
      ctrl.ulCount.toNat = last.1.length ∧ last.1.length ≤ rows.toNat ∧
      ∀ (ulIndex : UINT) (row : List UCHAR), last.1[ulIndex.toNat]? = some row →
        ∃ place, rarrayReadIndex ctrl ulIndex = some (.ok place) ∧
          rarrayReadReversedIndex ctrl (ctrl.ulCount - 1 - ulIndex) = some (.ok place) ∧
          rarrayBytes ctrl place = some row

theorem rarrayTooLong_cols (colCount : ctrl.ulColCount = cols + 4) :
    rarrayTooLong ctrl cols = false := by
  have wide : (cols.setWidth 64).toNat = cols.toNat := by
    simp
    omega
  have limit : ((cols + 4).setWidth 64 - 4).toNat =
      (2 ^ 64 - 4 + (cols.toNat + 4) % 2 ^ 32) % 2 ^ 64 := by
    rfl
  rw [rarrayTooLong, colCount, decide_eq_false_iff_not, gt_iff_lt, lt_def, wide, limit]
  omega

theorem rarrayWriteForce_inside {after : RArrayCtrl} {status : BsStatus}
    (colCount : ctrl.ulColCount = cols + 4) (someCols : 0 < cols.toNat)
    (written : rarrayWriteForce ctrl (some pucData) cols = some (after, status)) :
    rarrayPlace ctrl ctrl.ulWriteIndex + 4 + cols.toNat ≤ ctrl.pucData.size ∧
      after.pucData.size = ctrl.pucData.size ∧ after.ulColCount = ctrl.ulColCount ∧
      after.ulRowsCount = ctrl.ulRowsCount ∧
      after.ulWriteIndex = (ctrl.ulWriteIndex + 1) % ctrl.ulRowsCount := by
  have someLength : cols > 0 := someCols
  simp only [rarrayWriteForce, rarrayTooLong_cols colCount, rarrayCopyData, if_pos someLength,
    Bool.false_eq_true, if_false, bind_eq_bind, bind_eq_some_iff] at written
  obtain ⟨_, copied, _, lengthIn, result⟩ := written
  have sizes : ∀ {block next : Block UCHAR} {offset count : Nat} {source : Nat → UCHAR},
      block.copyIn offset source count = some next →
        offset + count ≤ block.size ∧ next.size = block.size := by
    intro block next offset count source done
    rw [Block.copyIn] at done
    split at done
    · next inside =>
      cases done
      exact ⟨inside, rfl⟩
    · cases done
  obtain ⟨inside, dataSize⟩ := sizes copied
  have lengthSize := (sizes lengthIn).2
  refine ⟨inside, ?_⟩
  split at result <;> cases result <;> exact ⟨lengthSize.trans dataSize, rfl, rfl, rfl⟩

theorem rarray_fills {count : Nat} {last : RArrayCtrl × List RArrayAnswer}
    (someCols : 0 < cols.toNat) (narrow : cols.toNat + 4 < 2 ^ 32)
    (rowsCount : ctrl.ulRowsCount = rows) (colCount : ctrl.ulColCount = cols + 4)
    (bounded : ctrl.pucData.size < 2 ^ 32) (more : j + count ≤ rows.toNat)
    (turn : 0 < count → ctrl.ulWriteIndex.toNat = j)
    (before : j * (cols.toNat + 4) ≤ ctrl.pucData.size)
    (ran : runs rarrayStep ctrl (replicate count (.writeForce (some pucData) cols)) = some last) :
    (j + count) * (cols.toNat + 4) ≤ ctrl.pucData.size := by
  induction count generalizing j ctrl last with
  | zero => exact before
  | succ count ih =>
    simp only [List.replicate_succ, runs, bind_eq_bind, bind_eq_some_iff] at ran
    obtain ⟨⟨_, _⟩, stepped, ⟨final, answers⟩, rest, -⟩ := ran
    simp only [rarrayStep, map_eq_some_iff] at stepped
    obtain ⟨⟨after, _⟩, written, result⟩ := stepped
    cases result
    obtain ⟨inside, size, columns, rowsSame, writeNext⟩ :=
      rarrayWriteForce_inside colCount someCols written
    have writeIndex := turn (succ_pos _)
    have width : (cols + 4).toNat = cols.toNat + 4 := by
      exact mod_eq_of_lt narrow
    have place : rarrayPlace ctrl ctrl.ulWriteIndex = j * (cols.toNat + 4) := by
      rw [rarrayPlace, toNat_mul, colCount, width, writeIndex]
      exact mod_eq_of_lt (by omega)
    have filled := @ih (j + 1) after (final, answers) (rowsSame.trans rowsCount)
      (columns.trans colCount) (by omega) (by omega) ?_ ?_ rest
    · rw [size, add_right_comm, add_assoc] at filled
      exact filled
    · intro others
      have step : (ctrl.ulWriteIndex + 1).toNat = j + 1 := by
        rw [toNat_add, writeIndex]
        exact mod_eq_of_lt (by simp; omega)
      rw [writeNext, toNat_umod, step, rowsCount]
      exact mod_eq_of_lt (by omega)
    · rw [size, Nat.succ_mul]
      omega

theorem RArrayRefines.small (refines : RArrayRefines rows cols) (someRows : 0 < rows.toNat)
    (someCols : 0 < cols.toNat) : rows.toNat * (cols.toNat + 4) + 32 < 2 ^ 32 := by
  obtain ⟨_, _, exists_, ran, _⟩ :=
    refines (fun _ => 0) (replicate rows.toNat (.writeForce (some fun _ => 0) cols))
  have notNull : ¬(rows = 0 ∨ cols = 0) := by
    rintro (rfl | rfl)
    · simp at someRows
    · simp at someCols
  simp only [rarrayCreate, if_neg notNull] at exists_
  split at exists_
  · cases exists_
  next whole =>
  cases exists_
  -- The first row alone shows that a row is shorter than the memory.
  have narrow : cols.toNat + 4 < 2 ^ 32 := by
    obtain ⟨_, rowsCount⟩ := exists_eq_succ_of_ne_zero (ne_of_gt someRows)
    rw [rowsCount] at ran
    simp only [List.replicate_succ, runs, bind_eq_bind, bind_eq_some_iff,
      rarrayStep, map_eq_some_iff] at ran
    obtain ⟨_, ⟨⟨_, _⟩, written, -⟩, -⟩ := ran
    have inside := (rarrayWriteForce_inside rfl someCols written).1
    simp only at inside
    omega
  have filled := @rarray_fills 0 _ rows cols _ rows.toNat _ someCols narrow rfl rfl
    (by simp only; omega) (by omega) (fun _ => rfl) (by omega) ran
  simp only [zero_add] at filled
  omega

theorem rarray_refines (someRows : 0 < rows.toNat) (someCols : 0 < cols.toNat) :
    RArrayRefines rows cols ↔ rows.toNat * (cols.toNat + 4) + 32 < 2 ^ 32 := by
  constructor
  · intro refines
    exact refines.small someRows someCols
  intro small memory calls
  have sized : RArraySized rows cols := ⟨someRows, someCols, small⟩
  obtain ⟨created, exists_, initially⟩ := @rarrayCreate_eq rows cols memory sized
  obtain ⟨ctrl, ran, holds⟩ :=
    runs_follow (fun _ _ call holds => RArrayHolds.follows sized call holds) calls initially
  refine ⟨created, ctrl, exists_, ran, holds.count, ?_, ?_⟩
  · rw [← holds.count]
    exact holds.fits
  · intro ulIndex row there
    exact holds.bothWays sized there

theorem rarray_refines_three :
    RArrayRefines 3 8 ↔ (3 : UINT).toNat * ((8 : UINT).toNat + 4) + 32 < 2 ^ 32 :=
  rarray_refines (by decide) (by decide)

/-- Two rows of `2 ^ 31 - 4` columns come to no memory at all. -/
theorem rarray_size_wraps : ¬RArrayRefines 2 0x7FFFFFFC := by
  intro refines
  have small := refines.small (by decide) (by decide)
  revert small
  decide

end MyCode.RArray
