import MyCode.Mbuf.Find
import Mathlib.Data.List.DropRight

/-!
# Blanks beside a byte

`MBUF_DelBlankSideByIndex` removes the blanks on both sides of the byte at an index.  Its
first loop is bounded by an offset; with the offset zero and blanks only, its index wraps.
-/

namespace MyCode.Mbuf

open Lib List Option

variable {mbuf : MbufS} {blocks : List MbufMblkS} {data : List UCHAR}
  {ulStartOffset ulOffset : Nat}

/-- `TXT_IS_BLANK_OR_RN`. -/
def isBlankOrRN (x : UCHAR) : Bool :=
  x = 32 || x = 9 || x = 13 || x = 10

/-- The loop down from the byte before an offset.  An index that wraps is above
`ulStartOffset`, and NULL is read there. -/
def blanksBefore (blocks : List MbufMblkS) (ulStartOffset : Nat) : Nat → Option Nat
  | 0 => none
  | ulOffsetTmp + 1 =>
    if ulStartOffset ≤ ulOffsetTmp then do
      let pucChar ← (mbufGetChar blocks ulOffsetTmp).char
      if isBlankOrRN pucChar then
        let ulCount ← blanksBefore blocks ulStartOffset ulOffsetTmp
        some (ulCount + 1)
      else some 0
    else some 0

/-- The loop up to the end of the data. -/
def blanksBehind (blocks : List MbufMblkS) : (left ulOffsetTmp : Nat) → Option Nat
  | 0, _ => some 0
  | left + 1, ulOffsetTmp => do
    let pucChar ← (mbufGetChar blocks ulOffsetTmp).char
    if isBlankOrRN pucChar then
      let ulCount ← blanksBehind blocks left (ulOffsetTmp + 1)
      some (ulCount + 1)
    else some 0

def cutRun (memory : Memory) (mbuf : MbufS) (ulOffset ulCount : Nat) : Option MbufS :=
  if 0 < ulCount then (mbufCutPart memory mbuf ulOffset ulCount).map Prod.fst else some mbuf

/-- The buffer, the index and the number of bytes cut. -/
def mbufDelBlankSideByIndex (memory : Memory) (mbuf : MbufS) (ulStartOffset pulOffset : Nat) :
    Option (MbufS × Nat × Nat) := do
  let ulCutLen ←
    (if 0 < pulOffset then blanksBefore mbuf.stMblkHead ulStartOffset pulOffset else some 0)
  let mbuf ← cutRun memory mbuf (pulOffset - ulCutLen) ulCutLen
  let pulOffset := pulOffset - ulCutLen
  let ulOffsetTmp := (pulOffset + 1) % 2 ^ 32
  let ulCount ← blanksBehind mbuf.stMblkHead (mbuf.ulTotalDataLen - ulOffsetTmp) ulOffsetTmp
  let mbuf ← cutRun memory mbuf ulOffsetTmp ulCount
  some (mbuf, pulOffset, ulCutLen + ulCount)

theorem Holds.char (holds : Holds blocks data) (ulOffset : Nat) :
    (mbufGetChar blocks ulOffset).char = data[ulOffset]? := by
  rw [(holds.getChar ulOffset).char, head?_drop]

/-- The scan ends above zero, or at a byte that is no blank. -/
theorem blanksBefore_eq (holds : Holds blocks data) (positive : 0 < ulOffset)
    (inside : ulOffset ≤ data.length)
    (stops : ulStartOffset ≠ 0 ∨ ∃ byte ∈ data.take ulOffset, isBlankOrRN byte = false) :
    blanksBefore blocks ulStartOffset ulOffset =
      some (((data.take ulOffset).drop ulStartOffset).rtakeWhile isBlankOrRN).length := by
  induction ulOffset with
  | zero => cases positive
  | succ ulOffset ih =>
    have here := getElem?_eq_getElem inside
    have grown := take_succ_eq_append_getElem inside
    rw [blanksBefore]
    split
    · next below =>
      have length : ulStartOffset ≤ (data.take ulOffset).length := by
        rw [length_take]
        omega
      rw [holds.char, here, grown, drop_append_of_le_length length]
      simp only [bind_eq_bind, bind_some]
      split
      · next blank =>
        have stopsBelow : ulStartOffset ≠ 0 ∨
            ∃ byte ∈ data.take ulOffset, isBlankOrRN byte = false := by
          refine stops.imp_right fun ⟨byte, among, other⟩ => ⟨byte, ?_, other⟩
          rw [grown, mem_append, mem_singleton] at among
          refine among.resolve_right ?_
          rintro rfl
          rw [blank] at other
          cases other
        have positive : 0 < ulOffset := by
          rcases stopsBelow with _ | ⟨_, among, -⟩
          · omega
          · exact Nat.pos_of_ne_zero fun zero => by simp [zero] at among
        rw [rtakeWhile_concat_pos _ _ _ blank, ih positive (by omega) stopsBelow]
        simp
      · next other => rw [rtakeWhile_concat_neg _ _ _ other, length_nil]
    · next above =>
      rw [drop_eq_nil_of_le (by rw [length_take]; omega), rtakeWhile_nil, length_nil]

theorem blanksBehind_eq (holds : Holds blocks data) {left : Nat}
    (isLeft : left = data.length - ulOffset) :
    blanksBehind blocks left ulOffset =
      some ((data.drop ulOffset).takeWhile isBlankOrRN).length := by
  induction left generalizing ulOffset with
  | zero =>
    rw [drop_eq_nil_of_le (by omega)]
    rfl
  | succ _ ih =>
    have inside : ulOffset < data.length := by omega
    rw [blanksBehind, holds.char, getElem?_eq_getElem inside, drop_eq_getElem_cons inside]
    simp only [bind_eq_bind, bind_some]
    split
    · next blank =>
      rw [ih (by omega), takeWhile_cons_of_pos blank]
      rfl
    · next other =>
      rw [takeWhile_cons_of_neg other]
      rfl

theorem cutRun_carries (memory : Memory) {front run back : List UCHAR} {ulCount : Nat}
    (carries : Carries mbuf (front ++ run ++ back)) (isOffset : ulOffset = front.length)
    (isCount : ulCount = run.length) :
    ∃ after, cutRun memory mbuf ulOffset ulCount = some after ∧ Carries after (front ++ back) := by
  subst isOffset isCount
  rw [cutRun]
  split
  · obtain ⟨after, _, cut, rest⟩ := @Carries.cutPart _ front.length run.length _ memory carries
      (by simp)
    refine ⟨after, by rw [cut, map_some], ?_⟩
    have isFront : (front ++ run ++ back).take front.length = front := by simp
    have isBack : (front ++ run ++ back).drop (front.length + run.length) = back := by
      rw [← length_append]
      exact drop_left
    rw [isFront, isBack] at rest
    exact rest
  · next none =>
    obtain rfl : run = [] := eq_nil_of_length_eq_zero (by omega)
    exact ⟨mbuf, rfl, by rwa [append_nil] at carries⟩

/-- The longest runs of blanks on both sides of a byte are cut, the first down to
`ulStartOffset` at most, and the index follows the byte. -/
theorem mbufDelBlankSideByIndex_beside (memory : Memory) (carries : Carries mbuf data)
    {ulStartOffset pulOffset : Nat} {byte : UCHAR} (isByte : data[pulOffset]? = some byte)
    (stops : pulOffset = 0 ∨ ulStartOffset ≠ 0 ∨
      ∃ byte ∈ data.take pulOffset, isBlankOrRN byte = false) :
    ∃ front back after,
      front = (data.take pulOffset).take ulStartOffset ++
        ((data.take pulOffset).drop ulStartOffset).rdropWhile isBlankOrRN ∧
      back = (data.drop (pulOffset + 1)).dropWhile isBlankOrRN ∧
      mbufDelBlankSideByIndex memory mbuf ulStartOffset pulOffset =
        some (after, front.length, data.length - (front ++ byte :: back).length) ∧
      Carries after (front ++ byte :: back) := by
  obtain ⟨inside, isHere⟩ := List.getElem?_eq_some_iff.mp isByte
  obtain ⟨first, isFirst⟩ : ∃ first,
    first = ((data.take pulOffset).drop ulStartOffset).rtakeWhile isBlankOrRN := ⟨_, rfl⟩
  obtain ⟨second, isSecond⟩ : ∃ second,
    second = (data.drop (pulOffset + 1)).takeWhile isBlankOrRN := ⟨_, rfl⟩
  obtain ⟨front, isFront⟩ : ∃ front, front = (data.take pulOffset).take ulStartOffset ++
    ((data.take pulOffset).drop ulStartOffset).rdropWhile isBlankOrRN := ⟨_, rfl⟩
  obtain ⟨back, isBack⟩ : ∃ back,
    back = (data.drop (pulOffset + 1)).dropWhile isBlankOrRN := ⟨_, rfl⟩
  have before : front ++ first = data.take pulOffset := by
    rw [isFront, isFirst, append_assoc, rdropWhile_append_rtakeWhile, take_append_drop]
  have behind : second ++ back = data.drop (pulOffset + 1) := by
    rw [isSecond, isBack, takeWhile_append_dropWhile]
  have whole : data = front ++ first ++ byte :: (second ++ back) := by
    rw [before, behind, ← isHere, ← drop_eq_getElem_cons inside, take_append_drop]
  have index : pulOffset = front.length + first.length := by
    rw [← length_append, before, length_take]
    omega
  have counted : (if 0 < pulOffset then blanksBefore mbuf.stMblkHead ulStartOffset pulOffset
      else some 0) = some first.length := by
    split
    · next positive =>
      rw [blanksBefore_eq carries.holds positive (by omega) (stops.resolve_left (by omega)), isFirst]
    · rw [show first.length = 0 by omega]
  have carriesWhole := whole ▸ carries
  obtain ⟨middle, cut, carriesMiddle⟩ := cutRun_carries memory carriesWhole
    (show pulOffset - first.length = front.length by omega) rfl
  have word := carries.word
  have wrap : (front.length + 1) % 2 ^ 32 = front.length + 1 := Nat.mod_eq_of_lt (by omega)
  have ahead : (front ++ byte :: (second ++ back)).drop (front.length + 1) = second ++ back := by
    simp
  have left : middle.ulTotalDataLen - (front.length + 1) =
      (front ++ byte :: (second ++ back)).length - (front.length + 1) := by
    rw [carriesMiddle.total]
  have countedBehind := blanksBehind_eq carriesMiddle.holds left
  rw [ahead, behind, ← isSecond] at countedBehind
  have carriesMiddle : Carries middle ((front ++ [byte]) ++ second ++ back) := by
    simpa using carriesMiddle
  obtain ⟨after, cutBehind, carriesAfter⟩ := cutRun_carries memory carriesMiddle
    (show front.length + 1 = (front ++ [byte]).length by simp) rfl
  refine ⟨front, back, after, isFront, isBack, ?_, by simpa using carriesAfter⟩
  have removed : data.length - (front ++ byte :: back).length = first.length + second.length := by
    rw [whole]
    simp
    omega
  rw [mbufDelBlankSideByIndex, counted]
  simp only [bind_eq_bind, bind_some, cut]
  rw [show pulOffset - first.length = front.length by omega, wrap, countedBehind, removed]
  simp only [bind_some, cutBehind]

theorem mbufDelBlankSideByIndex_counting :
    ∃ after, mbufDelBlankSideByIndex (fun _ => 0) ⟨[countingMblk 13], 13⟩ 0 11 = some (after, 9, 2) ∧
      Carries after [0, 1, 2, 3, 4, 5, 6, 7, 8, 11, 12] := by
  have sums : Sums ⟨[countingMblk 13], 13⟩ [0, 1, 2, 3, 4, 5, 6, 7, 8, 9, 10, 11, 12] 13 :=
    ⟨.single ⟨rfl, rfl, by decide⟩ rfl, rfl⟩
  obtain ⟨_, _, after, rfl, rfl, run, carries⟩ := @mbufDelBlankSideByIndex_beside _ _ (fun _ => 0)
    (sums.carries rfl (by decide)) 0 11 11 rfl (.inr (.inr ⟨0, by decide, rfl⟩))
  exact ⟨after, run, carries⟩

/-- The blanks at the start of a range, here 9 and 10, stay. -/
theorem mbufDelBlankSideByIndex_not_ends :
    ¬ ∀ memory mbuf data ulStartOffset pulOffset, Carries mbuf data →
      ulStartOffset ≤ pulOffset → pulOffset ≤ data.length →
      ∃ after index ulCutLen, mbufDelBlankSideByIndex memory mbuf ulStartOffset pulOffset =
          some (after, index, ulCutLen) ∧
        Carries after (data.take ulStartOffset ++
          (((data.drop ulStartOffset).take (pulOffset - ulStartOffset)).dropWhile
            isBlankOrRN).rdropWhile isBlankOrRN ++ data.drop pulOffset) := by
  intro ends
  have sums : Sums ⟨[countingMblk 13], 13⟩ [0, 1, 2, 3, 4, 5, 6, 7, 8, 9, 10, 11, 12] 13 :=
    ⟨.single ⟨rfl, rfl, by decide⟩ rfl, rfl⟩
  obtain ⟨_, _, _, run, carries⟩ := ends (fun _ => 0) _ _ 9 12 (sums.carries rfl (by decide))
    (by decide) (by decide)
  cases run
  exact absurd carries.total (by decide)

end MyCode.Mbuf
