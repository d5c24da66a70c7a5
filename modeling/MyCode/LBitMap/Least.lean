import MyCode.LBitMap.Tree

/-!
# Allocating the least clear bit

Allocation finds the least clear bit of its range as long as flags lead to full
nodes.  All calls but one keep them sound: a reset drops the nodes below level 1
and keeps its flags.
-/

namespace MyCode.LBitMap

open Lib BitVec Nat Bool

variable {pstCtrl : LBitMapCtrl} {alloc : NodeAlloc} {call : LBitMapCall}
  {uiRangeMin uiRangeMax : UINT}

theorem FlagsSound.run (sound : FlagsSound 3 pstCtrl)
    (reset : call = .reset → LevelUnflagged pstCtrl) : FlagsSound 3 (call.run alloc pstCtrl) := by
  cases call with
  | setBit => exact sound.setIndexBit (toNat_lt_unit _)
  | clrBit => exact sound.clearBit _
  | allocByRange => exact sound.get (toNat_lt_unit _) (toNat_lt_unit _)
  | tryByRange uiRangeMin uiRangeMax =>
    have soundAfter := @FlagsSound.get 3 alloc pstCtrl _ _ sound (toNat_lt_unit uiRangeMin)
      (toNat_lt_unit uiRangeMax)
    rw [LBitMapCall.run, lBitMapTryByRange]
    split
    · next after uiIndex same =>
      rw [same] at soundAfter
      exact soundAfter.clearBit _
    · next after eRet same =>
      rw [same] at soundAfter
      exact soundAfter
  | reset => exact flagsSound_reset (reset rfl)

structure AllocatesLeast (before : LBitMapCtrl) (uiRangeMin uiRangeMax : UINT)
    (result : LBitMapCtrl × Except BsStatus Nat) : Prop where
  succeeds : (∃ uiBitIndex, result.2 = .ok uiBitIndex) ↔
    ∃ b, (uiRangeMin ≤ b ∧ b ≤ uiRangeMax) ∧ ¬ LBitMapHas before b
  least : ∀ uiBitIndex, result.2 = .ok uiBitIndex → ∃ b : UINT, b.toNat = uiBitIndex ∧
    ((uiRangeMin ≤ b ∧ b ≤ uiRangeMax) ∧ ¬ LBitMapHas before b) ∧
    (∀ c, uiRangeMin ≤ c → c < b → LBitMapHas before c) ∧
    ∀ c, LBitMapHas result.1 c ↔ c = b ∨ LBitMapHas before c
  unchanged : ∀ eRet, result.2 = .error eRet → ∀ c, LBitMapHas result.1 c ↔ LBitMapHas before c

theorem allocatesLeast_of_sound (sound : FlagsSound 3 pstCtrl) (room : ∀ path, alloc path = true)
    (ordered : uiRangeMin ≤ uiRangeMax) :
    AllocatesLeast pstCtrl uiRangeMin uiRangeMax
      (lBitMapAllocByRange alloc pstCtrl uiRangeMin.toNat uiRangeMax.toNat) := by
  have attempted := @attempted_get 3 alloc pstCtrl _ _ (toNat_lt_unit uiRangeMin)
    (toNat_lt_unit uiRangeMax)
  have exhausted := exhausts_get sound room (toNat_lt_unit uiRangeMin) (toNat_lt_unit uiRangeMax)
    ordered
  rw [lBitMapAllocByRange]
  generalize lbitmapGet 3 alloc pstCtrl uiRangeMin.toNat uiRangeMax.toNat = result
    at attempted exhausted
  obtain ⟨_, result⟩ := result
  cases result with
  | error =>
    refine ⟨⟨nofun, ?_⟩, nofun, fun _ _ c => by rw [LBitMapHas, LBitMapHas, attempted]⟩
    rintro ⟨b, ⟨lower, upper⟩, clear⟩
    exact absurd (exhausted b.toNat lower upper) clear
  | ok uiBitIndex =>
    have bound := lt_of_le_of_lt attempted.upper (toNat_lt_unit uiRangeMax)
    have value : (BitVec.ofNat 32 uiBitIndex).toNat = uiBitIndex := mod_eq_of_lt bound
    have within : uiRangeMin ≤ BitVec.ofNat 32 uiBitIndex ∧
        BitVec.ofNat 32 uiBitIndex ≤ uiRangeMax := by
      rw [le_def, le_def, value]
      exact ⟨attempted.lower, attempted.upper⟩
    have clear : ¬ LBitMapHas pstCtrl (BitVec.ofNat 32 uiBitIndex) := by
      rw [LBitMapHas, value, attempted.clear]
      exact false_ne_true
    refine ⟨⟨fun _ => ⟨_, within, clear⟩, fun _ => ⟨_, rfl⟩⟩, ?_, nofun⟩
    rintro _ ⟨⟩
    refine ⟨_, value, ⟨within, clear⟩, fun c lower less => ?_, fun c => ?_⟩
    · rw [lt_def, value] at less
      exact exhausted c.toNat lower less
    have same : c.toNat = uiBitIndex ↔ c = BitVec.ofNat 32 uiBitIndex := by
      rw [← toNat_inj, value]
    rw [LBitMapHas, attempted.set _ (toNat_lt_unit c), or_eq_true, decide_eq_true_iff, same]
    rfl

/-- Where resets find no flag in level 1 and nodes can be allocated, the least
clear bit of the range is allocated. -/
theorem lBitMapAllocByRange_least
    (reached : lbitmap.ReachableWhen
      (fun pstCtrl label => label.2 = .reset → LevelUnflagged pstCtrl) pstCtrl)
    (room : ∀ path, alloc path = true) (ordered : uiRangeMin ≤ uiRangeMax) :
    AllocatesLeast pstCtrl uiRangeMin uiRangeMax
      (lBitMapAllocByRange alloc pstCtrl uiRangeMin.toNat uiRangeMax.toNat) := by
  refine allocatesLeast_of_sound ?_ room ordered
  apply reached.invariant
  · rintro _ rfl
    exact flagsSound_newNode 3
  · rintro _ _ _ sound reset rfl
    exact sound.run reset

theorem lBitMapAllocByRange_least_set :
    AllocatesLeast ((LBitMapCall.setBit 5).run (fun _ => true) lBitMapCreate) 5 9
      (lBitMapAllocByRange (fun _ => true)
        ((LBitMapCall.setBit 5).run (fun _ => true) lBitMapCreate) 5 9) := by
  have stepped : lbitmap.step lBitMapCreate (fun _ => true, .setBit 5)
      ((LBitMapCall.setBit 5).run (fun _ => true) lBitMapCreate) := rfl
  have other : LBitMapCall.setBit 5 = .reset → LevelUnflagged lBitMapCreate := nofun
  exact lBitMapAllocByRange_least (.step (.start rfl) other stepped) (fun _ => rfl)
    (show (5 : UINT) ≤ 9 by decide)

theorem exists_firstAllocated {num : Nat} (low : num ≤ 2 ^ 24) :
    ∃ pstCtrl, lbitmap.Reachable pstCtrl ∧ TreeExact 3 pstCtrl ∧
      ∀ b, LBitMapHas pstCtrl b ↔ b.toNat < num := by
  induction num with
  | zero =>
    refine ⟨lBitMapCreate, .start rfl, treeExact_newNode 3, fun b => ?_⟩
    exact ⟨nofun, fun less => absurd less (not_lt_zero _)⟩
  | succ num ih =>
    obtain ⟨pstCtrl, reached, exact, bits⟩ := ih (by omega)
    have ordered : (0 : UINT) ≤ 0xffffff := by decide
    have room (path : List Nat) : (fun _ => true : NodeAlloc) path = true := rfl
    have stepped : lbitmap.step pstCtrl (fun _ => true, .allocByRange 0 0xffffff)
        ((LBitMapCall.allocByRange 0 0xffffff).run (fun _ => true) pstCtrl) := rfl
    have exactAfter := exact.get room (toNat_lt_unit 0) (toNat_lt_unit 0xffffff) ordered
    refine ⟨_, reached.next stepped, exactAfter, fun c => ?_⟩
    have allocates := allocatesLeast_of_sound exact.flagsSound room ordered
    have value : (BitVec.ofNat 32 num).toNat = num := mod_eq_of_lt (by omega)
    have lastValue : (0xffffff : UINT).toNat = 2 ^ 24 - 1 := rfl
    have clear : ¬ LBitMapHas pstCtrl (BitVec.ofNat 32 num) := by
      rw [bits, value]
      exact lt_irrefl num
    have within : (0 : UINT) ≤ BitVec.ofNat 32 num ∧ BitVec.ofNat 32 num ≤ 0xffffff := by
      rw [le_def, le_def, value, lastValue]
      exact ⟨zero_le _, by omega⟩
    obtain ⟨uiBitIndex, isOk⟩ := allocates.succeeds.mpr ⟨_, within, clear⟩
    obtain ⟨b, -, ⟨-, isClear⟩, before, set⟩ := allocates.least uiBitIndex isOk
    -- The least clear index is the number of the indices that are set.
    have isNum : b = BitVec.ofNat 32 num := by
      have notBelow := Nat.le_of_not_lt fun less => isClear ((bits b).mpr less)
      have notAbove : ¬ num < b.toNat := fun less =>
        clear (before _ within.1 (by rw [lt_def, value]; exact less))
      apply eq_of_toNat_eq
      omega
    have sameIndex : c = BitVec.ofNat 32 num ↔ c.toNat = num := by
      rw [← toNat_inj, value]
    refine (set c).trans ?_
    rw [isNum, sameIndex, bits c]
    omega

theorem flagged_of_firstSet {pstCtrl : LBitMapCtrl} (exact : TreeExact 3 pstCtrl)
    (bits : ∀ b, LBitMapHas pstCtrl b ↔ b.toNat < 2 ^ 24) :
    lbitmapIsBitSetted (LBitMapLevel.stBits pstCtrl) 0 = true := by
  refine (exact 0 (by decide)).1.mpr fun j low => ?_
  have unit : lbitmapUnit 2 = 2 ^ 24 := rfl
  rw [unit] at low ⊢
  have value : (BitVec.ofNat 32 j).toNat = 0 * 2 ^ 24 + j := by
    rw [Nat.zero_mul, zero_add]
    exact mod_eq_of_lt (by omega)
  have has := (bits (BitVec.ofNat 32 j)).mpr (by omega)
  rw [LBitMapHas, value] at has
  exact has

theorem lBitMapAllocByRange_reset {pstCtrl : LBitMapCtrl}
    (flagged : lbitmapIsBitSetted (LBitMapLevel.stBits pstCtrl) 0 = true) :
    (lBitMapAllocByRange alloc (lBitMapReset pstCtrl) 0 0xffffff).2 = .error .err := by
  have hidden : ∃ after eRet, getPosition 2 alloc 0 0xffffff 0 (lBitMapReset pstCtrl) =
      (after, .error eRet) := by
    unfold getPosition lbitmapGetSpec
    split
    · exact ⟨_, _, rfl⟩
    next next _ =>
    have kept := flagged
    exact ⟨_, _, if_pos kept⟩
  obtain ⟨_, _, isError⟩ := hidden
  have start : 0 / lbitmapUnit 2 = 0 := Nat.zero_div _
  have stop : 0xffffff / lbitmapUnit 2 = 0 := by decide
  rw [lBitMapAllocByRange, lbitmapGet_level (by decide) (by decide), start, stop, forPositions,
    isError]
  rfl

/-- After a reset, no index of a range is allocated although all are clear. -/
theorem lBitMapAllocByRange_nothing :
    ¬ ∀ pstCtrl, lbitmap.Reachable pstCtrl → ∀ alloc uiRangeMin uiRangeMax,
      (∀ path, alloc path = true) → uiRangeMin ≤ uiRangeMax →
        AllocatesLeast pstCtrl uiRangeMin uiRangeMax
          (lBitMapAllocByRange alloc pstCtrl uiRangeMin.toNat uiRangeMax.toNat) := by
  intro holds
  obtain ⟨pstCtrl, reached, exact, bits⟩ := exists_firstAllocated (le_refl _)
  have stepped : lbitmap.step pstCtrl (fun _ => true, .reset) (lBitMapReset pstCtrl) := rfl
  have allocates := holds _ (reached.next stepped) (fun _ => true) 0 0xffffff (fun _ => rfl)
    (by decide)
  have clear : ¬ LBitMapHas (lBitMapReset pstCtrl) 0 := by
    exact false_ne_true
  have within : (0 : UINT) ≤ 0 ∧ (0 : UINT) ≤ 0xffffff := by decide
  obtain ⟨_, isOk⟩ := allocates.succeeds.mpr ⟨0, within, clear⟩
  have failed := @lBitMapAllocByRange_reset (fun _ => true) _ (flagged_of_firstSet exact bits)
  cases isOk.symm.trans failed

end MyCode.LBitMap
