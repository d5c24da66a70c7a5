import Mathlib.Data.Nat.Bitwise
import MyCode.Types

/-!
# Large bitmaps

The tree of `large_bitmap.c`: three levels of 256 pointers each over leaves of
256 bits.  In a level, the bit of a position marks the subtree below it as full.
-/

namespace MyCode.LBitMap

/-- `auiBits`: eight words. -/
abbrev LBitMapBits := Nat → UINT

structure LBitMapLeaf where
  stBits : LBitMapBits

structure LBitMapLevel (Next : Type) where
  stBits : LBitMapBits
  apstNextLevel : Nat → Option Next

/-- The nodes with a number of levels below them, so that `ucLevel` is
`4 - below`. -/
@[reducible]
def LBitMapNode : Nat → Type
  | 0 => LBitMapLeaf
  | below + 1 => LBitMapLevel (LBitMapNode below)

abbrev LBitMapCtrl := LBitMapNode 3

/-- Which nodes can be allocated below a node, by the positions that lead to
them. -/
abbrev NodeAlloc := List Nat → Bool

def NodeAlloc.below (alloc : NodeAlloc) (uiPos : Nat) : NodeAlloc :=
  fun path => alloc (uiPos :: path)

def lbitmapIsBitSetted (pstBits : LBitMapBits) (ucBitIndex : Nat) : Bool :=
  pstBits ((ucBitIndex >>> 5) &&& 0x7) &&& ((1 : UINT) <<< (ucBitIndex &&& 0x1f)) != 0

def lbitmapIsAllSetted (pstBits : LBitMapBits) : Bool :=
  (List.range 8).all fun uiPos => pstBits uiPos == 0xffffffff

def lbitmapIsAllCleared (pstBits : LBitMapBits) : Bool :=
  (List.range 8).all fun uiPos => pstBits uiPos == 0

def lbitmapSetBit (pstBits : LBitMapBits) (ucBitIndex : Nat) : LBitMapBits :=
  Function.update pstBits ((ucBitIndex >>> 5) &&& 0x7)
    (pstBits ((ucBitIndex >>> 5) &&& 0x7) ||| ((1 : UINT) <<< (ucBitIndex &&& 0x1f)))

def lbitmapClrBit (pstBits : LBitMapBits) (ucBitIndex : Nat) : LBitMapBits :=
  Function.update pstBits ((ucBitIndex >>> 5) &&& 0x7)
    (pstBits ((ucBitIndex >>> 5) &&& 0x7) &&& ~~~((1 : UINT) <<< (ucBitIndex &&& 0x1f)))

/-- What `lbitmap_GetLevelDesc` says of a node over `below` levels. -/
def lbitmapOffset (below : Nat) : Nat := 8 * below

def lbitmapMask (below : Nat) : Nat := 2 ^ (8 * below) - 1

/-- The zeroed node of `lbitmap_AllocNode`. -/
def lbitmapNewNode : (below : Nat) → LBitMapNode below
  | 0 => (⟨fun _ => 0⟩ : LBitMapLeaf)
  | below + 1 => (⟨fun _ => 0, fun _ => none⟩ : LBitMapLevel (LBitMapNode below))

def lbitmapNodeBits : (below : Nat) → LBitMapNode below → LBitMapBits
  | 0, (leaf : LBitMapLeaf) => leaf.stBits
  | _ + 1, (pstLevel : LBitMapLevel _) => pstLevel.stBits

section Level

variable {below : Nat} (pstLevel : LBitMapLevel (LBitMapNode below))

def lbitmapIsLevelEmpty : Bool :=
  (List.range 256).all fun uiPos => (pstLevel.apstNextLevel uiPos).isNone

def setNextLevel (uiPos : Nat) (next : Option (LBitMapNode below)) :
    LBitMapLevel (LBitMapNode below) :=
  { pstLevel with apstNextLevel := Function.update pstLevel.apstNextLevel uiPos next }

/-- The node below a position, allocated where there is none. -/
def lbitmapAllocNext (alloc : NodeAlloc) (uiPos : Nat) : Option (LBitMapNode below) :=
  match pstLevel.apstNextLevel uiPos with
  | some next => some next
  | none => if alloc [uiPos] then some (lbitmapNewNode below) else none

end Level

/-- The first clear bit of a word between two positions. -/
def lbitmapGetInUint (uiBits : UINT) (ucStartBit ucStopBit : Nat) : Option Nat :=
  (List.range' ucStartBit (ucStopBit + 1 - ucStartBit)).find? fun uiBitPos =>
    uiBits &&& ((1 : UINT) <<< uiBitPos) == 0

def lbitmapGetInLeaf (pstLeaf : LBitMapLeaf) (uiRangeMin uiRangeMax : Nat) :
    LBitMapLeaf × Except BsStatus Nat :=
  let ucStartUint := (uiRangeMin >>> 5) &&& 0x7
  let ucStopUint := (uiRangeMax >>> 5) &&& 0x7
  let found := (List.range' ucStartUint (ucStopUint + 1 - ucStartUint)).findSome? fun uiUintPos =>
    if pstLeaf.stBits uiUintPos = 0xffffffff then
      none
    else
      let ucStartBit := if uiUintPos = ucStartUint then uiRangeMin &&& 0x1f else 0
      let ucStopBit := if uiUintPos = ucStopUint then uiRangeMax &&& 0x1f else 31
      (lbitmapGetInUint (pstLeaf.stBits uiUintPos) ucStartBit ucStopBit).map fun uiBitPos =>
        (uiUintPos, uiBitPos)
  match found with
  | some (uiUintPos, uiBitPos) =>
    (⟨Function.update pstLeaf.stBits uiUintPos
      (pstLeaf.stBits uiUintPos ||| ((1 : UINT) <<< uiBitPos))⟩, .ok (uiUintPos * 32 + uiBitPos))
  | none => (pstLeaf, .error .notFound)

/-- What `lbitmap_GetSpec` does, given `lbitmap_Get` of the level below. -/
def lbitmapGetSpec {below : Nat}
    (get : NodeAlloc → LBitMapNode below → Nat → Nat → LBitMapNode below × Except BsStatus Nat)
    (alloc : NodeAlloc) (pstLevel : LBitMapLevel (LBitMapNode below))
    (uiPos uiRangeMin uiRangeMax : Nat) :
    LBitMapLevel (LBitMapNode below) × Except BsStatus Nat :=
  match lbitmapAllocNext pstLevel alloc uiPos with
  | none => (pstLevel, .error .noResource)
  | some next =>
    if lbitmapIsBitSetted pstLevel.stBits uiPos then
      (setNextLevel pstLevel uiPos (some next), .error .notFound)
    else
      match get (alloc.below uiPos) next uiRangeMin uiRangeMax with
      | (next, .error eRet) => (setNextLevel pstLevel uiPos (some next), .error eRet)
      | (next, .ok uiBitIndex) =>
        let pstLevel := setNextLevel pstLevel uiPos (some next)
        let uiBitIndex := uiBitIndex ||| (uiPos <<< lbitmapOffset (below + 1))
        if lbitmapIsAllSetted (lbitmapNodeBits below next) then
          ({ pstLevel with stBits := lbitmapSetBit pstLevel.stBits uiPos }, .ok uiBitIndex)
        else
          (pstLevel, .ok uiBitIndex)

/-- A loop over `num` positions from `uiPos` that stops at the first success. -/
def forPositions {Node : Type} (spec : Nat → Node → Node × Except BsStatus Nat) :
    Nat → Nat → Node → Node × Except BsStatus Nat
  | _, 0, node => (node, .error .err)
  | uiPos, num + 1, node =>
    match spec uiPos node with
    | (node, .ok uiBitIndex) => (node, .ok uiBitIndex)
    | (node, .error _) => forPositions spec (uiPos + 1) num node

def lbitmapGet : (below : Nat) → NodeAlloc → LBitMapNode below → Nat → Nat →
    LBitMapNode below × Except BsStatus Nat
  | 0, _, (pstLeaf : LBitMapLeaf), uiRangeMin, uiRangeMax =>
    lbitmapGetInLeaf pstLeaf uiRangeMin uiRangeMax
  | below + 1, alloc, (pstLevel : LBitMapLevel (LBitMapNode below)), uiRangeMin, uiRangeMax =>
    let uiOffset := lbitmapOffset (below + 1)
    let uiMask := lbitmapMask (below + 1)
    let uiIndexStart := (uiRangeMin >>> uiOffset) &&& 0xff
    let uiIndexStop := (uiRangeMax >>> uiOffset) &&& 0xff
    forPositions
      (fun uiPos pstLevel =>
        let uiNextRangMin := if uiPos = uiIndexStart then uiRangeMin &&& uiMask else 0
        let uiNextRangMax := if uiPos = uiIndexStop then uiRangeMax &&& uiMask else uiMask
        lbitmapGetSpec (lbitmapGet below) alloc pstLevel uiPos uiNextRangMin uiNextRangMax)
      uiIndexStart (uiIndexStop + 1 - uiIndexStart) pstLevel

def lbitmapGetIndexLeaf : (below : Nat) → LBitMapNode below → Nat → Option LBitMapLeaf
  | 0, (pstLeaf : LBitMapLeaf), _ => some pstLeaf
  | below + 1, (pstLevel : LBitMapLevel (LBitMapNode below)), uiIndex =>
    let uiIndexTmp := (uiIndex >>> lbitmapOffset (below + 1)) &&& 0xff
    match pstLevel.apstNextLevel uiIndexTmp with
    | none => none
    | some next => lbitmapGetIndexLeaf below next (uiIndex &&& lbitmapMask (below + 1))

/-- The second component is whether the node is left empty. -/
def lbitmapClearBit : (below : Nat) → LBitMapNode below → Nat → LBitMapNode below × Bool
  | 0, (pstLeaf : LBitMapLeaf), uiIndex =>
    let stBits := lbitmapClrBit pstLeaf.stBits (uiIndex &&& 0xff)
    ((⟨stBits⟩ : LBitMapLeaf), lbitmapIsAllCleared stBits)
  | below + 1, (pstLevel : LBitMapLevel (LBitMapNode below)), uiIndex =>
    let uiIndexTmp := (uiIndex >>> lbitmapOffset (below + 1)) &&& 0xff
    let pstLevel := { pstLevel with stBits := lbitmapClrBit pstLevel.stBits uiIndexTmp }
    match pstLevel.apstNextLevel uiIndexTmp with
    | none => (pstLevel, false)
    | some next =>
      match lbitmapClearBit below next (uiIndex &&& lbitmapMask (below + 1)) with
      | (_, true) =>
        let pstLevel := setNextLevel pstLevel uiIndexTmp none
        (pstLevel, lbitmapIsLevelEmpty pstLevel)
      | (next, false) => (setNextLevel pstLevel uiIndexTmp (some next), false)

def lbitmapSetIndexBit : (below : Nat) → NodeAlloc → LBitMapNode below → Nat →
    LBitMapNode below × BsStatus
  | 0, _, (pstLeaf : LBitMapLeaf), uiIndex =>
    ((⟨lbitmapSetBit pstLeaf.stBits (uiIndex &&& 0xff)⟩ : LBitMapLeaf), .ok)
  | below + 1, alloc, (pstLevel : LBitMapLevel (LBitMapNode below)), uiIndex =>
    let uiIndexTmp := (uiIndex >>> lbitmapOffset (below + 1)) &&& 0xff
    match lbitmapAllocNext pstLevel alloc uiIndexTmp with
    | none => (pstLevel, .noMemory)
    | some next =>
      let (next, eRet) := lbitmapSetIndexBit below (alloc.below uiIndexTmp) next
        (uiIndex &&& lbitmapMask (below + 1))
      (setNextLevel pstLevel uiIndexTmp (some next), eRet)

/-- `LBitMap_IsBitSetted`, for a bitmap of any height. -/
def lBitMapIsBitSetted (below : Nat) (pstCommon : LBitMapNode below) (uiBitIndex : Nat) : Bool :=
  match lbitmapGetIndexLeaf below pstCommon uiBitIndex with
  | none => false
  | some pstLeaf => lbitmapIsBitSetted pstLeaf.stBits (uiBitIndex &&& 0xff)

def lBitMapCreate : LBitMapCtrl := lbitmapNewNode 3

def lBitMapAllocByRange (alloc : NodeAlloc) (pstCtrl : LBitMapCtrl) (uiRangeMin uiRangeMax : Nat) :
    LBitMapCtrl × Except BsStatus Nat :=
  lbitmapGet 3 alloc pstCtrl uiRangeMin uiRangeMax

def lBitMapSetBit (alloc : NodeAlloc) (pstCtrl : LBitMapCtrl) (uiBitIndex : Nat) :
    LBitMapCtrl × BsStatus :=
  lbitmapSetIndexBit 3 alloc pstCtrl uiBitIndex

def lBitMapClrBit (pstCtrl : LBitMapCtrl) (uiBitIndex : Nat) : LBitMapCtrl :=
  (lbitmapClearBit 3 pstCtrl uiBitIndex).1

end MyCode.LBitMap

/-!
## The bits of a node

Indices below 256 select distinct bits of the eight words, so setting and
clearing a bit changes the answer for that index only.
-/

namespace MyCode.LBitMap

variable {pstBits : LBitMapBits} {i j : Nat} {pstLeaf after : LBitMapLeaf}
  {uiRangeMin uiRangeMax : Nat}

theorem and_bit_ne_zero {uiBits : UINT} {uiBitPos : Nat} (inside : uiBitPos < 32) :
    (uiBits &&& ((1 : UINT) <<< uiBitPos) != 0) = uiBits.getLsbD uiBitPos := by
  have bit : (1 : UINT) <<< uiBitPos = BitVec.twoPow 32 uiBitPos := rfl
  have nonzero : BitVec.twoPow 32 uiBitPos ≠ 0 := by
    intro zero
    have set := congrArg (fun bits => bits.getLsbD uiBitPos) zero
    simp [inside] at set
  rw [bit, BitVec.and_twoPow]
  cases uiBits.getLsbD uiBitPos with
  | false => rfl
  | true => exact bne_iff_ne.mpr nonzero

theorem uintIndex_eq (i : Nat) : (i >>> 5) &&& 0x7 = i / 32 % 8 := by
  rw [Nat.shiftRight_eq_div_pow]
  exact Nat.and_two_pow_sub_one_eq_mod _ 3

theorem bitIndex_eq (i : Nat) : i &&& 0x1f = i % 32 :=
  Nat.and_two_pow_sub_one_eq_mod _ 5

theorem lbitmapIsBitSetted_eq (pstBits : LBitMapBits) (i : Nat) :
    lbitmapIsBitSetted pstBits i = (pstBits (i / 32 % 8)).getLsbD (i % 32) := by
  rw [lbitmapIsBitSetted, uintIndex_eq, bitIndex_eq, and_bit_ne_zero (Nat.mod_lt _ (by decide))]

theorem lbitmapSetBit_eq (pstBits : LBitMapBits) (i : Nat) :
    lbitmapSetBit pstBits i = Function.update pstBits (i / 32 % 8)
      (pstBits (i / 32 % 8) ||| BitVec.twoPow 32 (i % 32)) := by
  rw [lbitmapSetBit, uintIndex_eq, bitIndex_eq]
  rfl

theorem lbitmapClrBit_eq (pstBits : LBitMapBits) (i : Nat) :
    lbitmapClrBit pstBits i = Function.update pstBits (i / 32 % 8)
      (pstBits (i / 32 % 8) &&& ~~~BitVec.twoPow 32 (i % 32)) := by
  rw [lbitmapClrBit, uintIndex_eq, bitIndex_eq]
  rfl

theorem bit_eq_iff (low : i < 256) (otherLow : j < 256) (word : j / 32 % 8 = i / 32 % 8) :
    j % 32 = i % 32 ↔ j = i := by
  omega

theorem lbitmapIsBitSetted_setBit (low : i < 256) (otherLow : j < 256) :
    lbitmapIsBitSetted (lbitmapSetBit pstBits i) j =
      (decide (j = i) || lbitmapIsBitSetted pstBits j) := by
  rw [lbitmapIsBitSetted_eq, lbitmapIsBitSetted_eq, lbitmapSetBit_eq]
  by_cases word : j / 32 % 8 = i / 32 % 8
  · have position := Nat.mod_lt i (show 0 < 32 by decide)
    rw [word, Function.update_self, BitVec.getLsbD_or, BitVec.getLsbD_twoPow, Bool.or_comm]
    simp [← bit_eq_iff low otherLow word, eq_comm, position]
  · have different : j ≠ i := fun same => word (by rw [same])
    rw [Function.update_of_ne word, decide_eq_false different, Bool.false_or]

theorem lbitmapIsBitSetted_clrBit (low : i < 256) (otherLow : j < 256) :
    lbitmapIsBitSetted (lbitmapClrBit pstBits i) j =
      (!decide (j = i) && lbitmapIsBitSetted pstBits j) := by
  rw [lbitmapIsBitSetted_eq, lbitmapIsBitSetted_eq, lbitmapClrBit_eq]
  by_cases word : j / 32 % 8 = i / 32 % 8
  · have position := Nat.mod_lt i (show 0 < 32 by decide)
    have otherPosition := Nat.mod_lt j (show 0 < 32 by decide)
    rw [word, Function.update_self, BitVec.getLsbD_and, BitVec.getLsbD_not, BitVec.getLsbD_twoPow,
      Bool.and_comm]
    simp [← bit_eq_iff low otherLow word, eq_comm, position, otherPosition]
  · have different : j ≠ i := fun same => word (by rw [same])
    rw [Function.update_of_ne word, decide_eq_false different, Bool.not_false, Bool.true_and]

theorem lbitmapIsBitSetted_zero (i : Nat) : lbitmapIsBitSetted (fun _ => 0) i = false := by
  rw [lbitmapIsBitSetted_eq]
  exact BitVec.getLsbD_zero

theorem lbitmapIsBitSetted_of_allCleared (cleared : lbitmapIsAllCleared pstBits = true) (i : Nat) :
    lbitmapIsBitSetted pstBits i = false := by
  rw [lbitmapIsAllCleared, List.all_eq_true] at cleared
  have word := cleared (i / 32 % 8) (List.mem_range.mpr (Nat.mod_lt _ (by decide)))
  rw [lbitmapIsBitSetted_eq, eq_of_beq word]
  exact BitVec.getLsbD_zero

theorem uint_allOnes_iff (uiBits : UINT) :
    uiBits = 0xffffffff ↔ ∀ bit < 32, uiBits.getLsbD bit = true := by
  have ones : (0xffffffff : UINT) = BitVec.allOnes 32 := rfl
  rw [ones]
  constructor
  · rintro rfl _ low
    rw [BitVec.getLsbD_allOnes]
    exact decide_eq_true low
  intro set
  apply BitVec.eq_of_getLsbD_eq
  intro bit low
  rw [set bit low, BitVec.getLsbD_allOnes]
  exact (decide_eq_true low).symm

theorem lbitmapIsAllSetted_iff (pstBits : LBitMapBits) :
    lbitmapIsAllSetted pstBits = true ↔ ∀ i < 256, lbitmapIsBitSetted pstBits i = true := by
  rw [lbitmapIsAllSetted, List.all_eq_true]
  constructor
  · intro words i _
    have word := words (i / 32 % 8) (List.mem_range.mpr (Nat.mod_lt _ (by decide)))
    rw [lbitmapIsBitSetted_eq]
    exact (uint_allOnes_iff _).mp (beq_iff_eq.mp word) _ (Nat.mod_lt _ (by decide))
  intro set uiPos inside
  have low := List.mem_range.mp inside
  rw [beq_iff_eq, uint_allOnes_iff]
  intro bit bitLow
  have wordOf : (uiPos * 32 + bit) / 32 % 8 = uiPos := by omega
  have bitOf : (uiPos * 32 + bit) % 32 = bit := by omega
  have isSet := set (uiPos * 32 + bit) (by omega)
  rw [lbitmapIsBitSetted_eq, wordOf, bitOf] at isSet
  exact isSet

theorem exists_of_not_allCleared (some' : lbitmapIsAllCleared pstBits = false) :
    ∃ i < 256, lbitmapIsBitSetted pstBits i = true := by
  by_contra absent
  have cleared : lbitmapIsAllCleared pstBits = true := by
    rw [lbitmapIsAllCleared, List.all_eq_true]
    intro uiPos inside
    have low := List.mem_range.mp inside
    rw [beq_iff_eq]
    apply BitVec.eq_of_getLsbD_eq
    intro bit bitLow
    have wordOf : (uiPos * 32 + bit) / 32 % 8 = uiPos := by omega
    have bitOf : (uiPos * 32 + bit) % 32 = bit := by omega
    have clear : lbitmapIsBitSetted pstBits (uiPos * 32 + bit) ≠ true :=
      fun set => absent ⟨_, by omega, set⟩
    rw [lbitmapIsBitSetted_eq, wordOf, bitOf] at clear
    exact (Bool.eq_false_iff.mpr clear).trans BitVec.getLsbD_zero.symm
  rw [some'] at cleared
  cases cleared

theorem lbitmapGetInUint_some {uiBits : UINT} {ucStartBit ucStopBit uiBitPos : Nat}
    (low : ucStopBit < 32) (found : lbitmapGetInUint uiBits ucStartBit ucStopBit = some uiBitPos) :
    ucStartBit ≤ uiBitPos ∧ uiBitPos ≤ ucStopBit ∧ uiBits.getLsbD uiBitPos = false := by
  have clear := List.find?_some found
  have range := List.mem_of_find?_eq_some found
  rw [List.mem_range'_1] at range
  have inside : uiBitPos ≤ ucStopBit := by omega
  refine ⟨range.1, inside, ?_⟩
  have bit := @and_bit_ne_zero uiBits _ (Nat.lt_of_le_of_lt inside low)
  rw [← bit, bne_eq_false_iff_eq]
  exact eq_of_beq clear

theorem lbitmapGetInLeaf_ok {uiBitIndex : Nat} (low : uiRangeMin < 256) (high : uiRangeMax < 256)
    (got : lbitmapGetInLeaf pstLeaf uiRangeMin uiRangeMax = (after, .ok uiBitIndex)) :
    (uiRangeMin ≤ uiBitIndex ∧ uiBitIndex ≤ uiRangeMax) ∧
      lbitmapIsBitSetted pstLeaf.stBits uiBitIndex = false ∧
      after.stBits = lbitmapSetBit pstLeaf.stBits uiBitIndex := by
  unfold lbitmapGetInLeaf at got
  simp only [uintIndex_eq, bitIndex_eq] at got
  split at got
  · next uiUintPos uiBitPos found =>
    obtain ⟨rfl, rfl⟩ := Prod.mk.inj got |>.imp_right Except.ok.inj
    obtain ⟨word, range, inWord⟩ := List.exists_of_findSome?_eq_some found
    rw [List.mem_range'_1] at range
    split at inWord
    · cases inWord
    obtain ⟨bit, first, same⟩ := Option.map_eq_some_iff.mp inWord
    obtain ⟨rfl, rfl⟩ := Prod.mk.inj same
    have stopLow : (if word = uiRangeMax / 32 % 8 then uiRangeMax % 32 else 31) < 32 := by
      split <;> omega
    obtain ⟨start, stop, clear⟩ := lbitmapGetInUint_some stopLow first
    have wordOf : (word * 32 + bit) / 32 % 8 = word := by omega
    have bitOf : (word * 32 + bit) % 32 = bit := by omega
    refine ⟨⟨?_, ?_⟩, ?_, ?_⟩
    · split at start <;> omega
    · split at stop <;> omega
    · rw [lbitmapIsBitSetted_eq, wordOf, bitOf]
      exact clear
    · rw [lbitmapSetBit_eq, wordOf, bitOf]
      rfl
  · cases got

theorem lbitmapGetInLeaf_error {eRet : BsStatus}
    (got : lbitmapGetInLeaf pstLeaf uiRangeMin uiRangeMax = (after, .error eRet)) :
    after = pstLeaf := by
  unfold lbitmapGetInLeaf at got
  simp only at got
  split at got
  · cases got
  · cases got
    rfl

end MyCode.LBitMap
