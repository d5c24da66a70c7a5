import MyCode.LBitMap.Access
import MyCode.Lib.Enumeration

/-!
# Enumerating the set bits

The search clips the last child of a level on the wrong side: of its indices it
only sees the greatest.  All others are found in ascending order.
-/

namespace MyCode.LBitMap

open Lib List Nat

variable {below i j : Nat} {pstLeaf : LBitMapLeaf} {word : Nat}
  {pstLevel : LBitMapLevel (LBitMapNode below)}

/-- In the last position of a level only the greatest index is seen. -/
def Seen : Nat → Nat → Prop
  | 0, _ => True
  | below + 1, i =>
    (i / lbitmapUnit below % 256 = 255 → i % lbitmapUnit below = lbitmapUnit below - 1) ∧
      Seen below (i % lbitmapUnit below)

instance Seen.decidable : ∀ below i, Decidable (Seen below i)
  | 0, _ => isTrue trivial
  | below + 1, i => @instDecidableAnd _ _ _ (Seen.decidable below (i % lbitmapUnit below))

/-- The least set index from a lower bound on that is seen. -/
def PicksSeen (below : Nat) (node : LBitMapNode below) (uiRangeMin : Nat) : Option Nat → Prop
  | some i => (uiRangeMin ≤ i ∧ i < lbitmapUnit below) ∧
      (lBitMapIsBitSetted below node i = true ∧ Seen below i) ∧
      ∀ j, uiRangeMin ≤ j → j < i → lBitMapIsBitSetted below node j = true → ¬ Seen below j
  | none => ∀ j, uiRangeMin ≤ j → j < lbitmapUnit below →
      lBitMapIsBitSetted below node j = true → ¬ Seen below j

def getBusyInWord (pstLeaf : LBitMapLeaf) (uiRangeMin word : Nat) : Option Nat :=
  if pstLeaf.stBits word = 0 then
    none
  else
    (lbitmapGetBusyInUint (pstLeaf.stBits word)
      (if word = uiRangeMin / 32 % 8 then uiRangeMin % 32 else 0) 31).map fun uiBitPos =>
        word * 32 + uiBitPos

theorem lbitmapGetBusyInLeaf_eq (pstLeaf : LBitMapLeaf) (uiRangeMin : Nat) :
    lbitmapGetBusyInLeaf pstLeaf uiRangeMin 255 =
      (range' (uiRangeMin / 32 % 8) (7 + 1 - uiRangeMin / 32 % 8)).findSome?
        (getBusyInWord pstLeaf uiRangeMin) := by
  unfold lbitmapGetBusyInLeaf getBusyInWord
  simp [uintIndex_eq, bitIndex_eq]

theorem getBusyInWord_none {uiRangeMin bit : Nat} (wordLow : word < 8) (bitLow : bit < 32)
    (within : uiRangeMin ≤ word * 32 + bit) (low : uiRangeMin < 256)
    (absent : getBusyInWord pstLeaf uiRangeMin word = none) :
    lBitMapIsBitSetted 0 pstLeaf (word * 32 + bit) = false := by
  rw [lBitMapIsBitSetted_word pstLeaf bitLow wordLow]
  unfold getBusyInWord at absent
  split at absent
  · next zero =>
    rw [zero]
    exact BitVec.getLsbD_zero
  rw [Option.map_eq_none_iff, lbitmapGetBusyInUint, find?_eq_none] at absent
  have start : (if word = uiRangeMin / 32 % 8 then uiRangeMin % 32 else 0) ≤ bit := by
    split <;> omega
  have clear := absent bit (mem_range'_1.mpr ⟨start, by omega⟩)
  rw [and_bit_ne_zero bitLow] at clear
  exact Bool.not_eq_true _ ▸ clear

theorem getBusyInWord_some {uiRangeMin : Nat} (wordLow : word < 8) (low : uiRangeMin < 256)
    (start : uiRangeMin / 32 % 8 ≤ word)
    (isFound : getBusyInWord pstLeaf uiRangeMin word = some i) :
    uiRangeMin ≤ i ∧ i / 32 = word ∧ lBitMapIsBitSetted 0 pstLeaf i = true ∧
      ∀ j, uiRangeMin ≤ j → j / 32 = word → j < i → lBitMapIsBitSetted 0 pstLeaf j = false := by
  unfold getBusyInWord at isFound
  split at isFound
  · cases isFound
  obtain ⟨bit, first, rfl⟩ := Option.map_eq_some_iff.mp isFound
  obtain ⟨set, range, before⟩ := find?_range'_eq_some.mp first
  rw [mem_range'_1] at range
  have lower := range.1
  have bitLow : bit < 32 := by omega
  rw [and_bit_ne_zero bitLow] at set
  refine ⟨?_, by omega, (lBitMapIsBitSetted_word pstLeaf bitLow wordLow).trans set, ?_⟩
  · split at lower <;> omega
  intro j within inWord less
  have whole : word * 32 + j % 32 = j := by omega
  have clear := before (j % 32) (by split <;> omega) (by omega)
  rw [and_bit_ne_zero (mod_lt _ (by decide)), Bool.not_eq_true'] at clear
  rw [← whole, lBitMapIsBitSetted_word pstLeaf (mod_lt _ (by decide)) wordLow]
  exact clear

theorem lbitmapGetBusyInLeaf_picks {uiRangeMin : Nat} (low : uiRangeMin < 256) :
    PicksSeen 0 pstLeaf uiRangeMin (lbitmapGetBusyInLeaf pstLeaf uiRangeMin 255) := by
  have clear (j : Nat) (within : uiRangeMin ≤ j) (inside : j < 256)
      (absent : getBusyInWord pstLeaf uiRangeMin (j / 32) = none) :
      lBitMapIsBitSetted 0 pstLeaf j = false := by
    have whole : j / 32 * 32 + j % 32 = j := by omega
    rw [← whole]
    exact getBusyInWord_none (by omega) (by omega) (by omega) low absent
  rw [lbitmapGetBusyInLeaf_eq]
  cases result : (range' (uiRangeMin / 32 % 8) (7 + 1 - uiRangeMin / 32 % 8)).findSome?
      (getBusyInWord pstLeaf uiRangeMin) with
  | none =>
    intro j within inside set
    rw [lbitmapUnit_zero] at inside
    have absent := findSome?_range'_eq_none result (j / 32) (by omega) (by omega)
    exact absurd (clear j within inside absent) (by rw [set]; exact nofun)
  | some =>
    obtain ⟨word, lower, _, atWord, before⟩ := findSome?_range'_eq_some result
    obtain ⟨within, _, set, first⟩ := getBusyInWord_some (by omega) low lower atWord
    refine ⟨⟨within, by rw [lbitmapUnit_zero]; omega⟩, ⟨set, trivial⟩, ?_⟩
    intro j fromMin less isSet
    have unset : lBitMapIsBitSetted 0 pstLeaf j = false := by
      rcases lt_or_ge (j / 32) word with earlier | _
      · exact clear j fromMin (by omega) (before (j / 32) (by omega) earlier)
      · exact first j fromMin (by omega) less
    exact absurd unset (by rw [isSet]; exact nofun)

def childMin (below uiRangeMin uiPos : Nat) : Nat :=
  if uiPos = 255 then lbitmapUnit below - 1
  else if uiPos = uiRangeMin / lbitmapUnit below then uiRangeMin % lbitmapUnit below
  else 0

/-- What the search does in one position of a level. -/
def getBusyInPosition (below : Nat) (pstLevel : LBitMapLevel (LBitMapNode below))
    (uiRangeMin uiPos : Nat) : Option Nat :=
  match pstLevel.apstNextLevel uiPos with
  | none => none
  | some next =>
    (lbitmapGetBusyBit below next (childMin below uiRangeMin uiPos) (lbitmapUnit below - 1)).map
      fun uiBitIndex => uiBitIndex ||| (uiPos <<< lbitmapOffset (below + 1))

theorem lbitmapGetBusyBit_level {uiRangeMin : Nat} (low : uiRangeMin < lbitmapUnit (below + 1)) :
    lbitmapGetBusyBit (below + 1) pstLevel uiRangeMin (lbitmapUnit (below + 1) - 1) =
      (range' (uiRangeMin / lbitmapUnit below) (255 + 1 - uiRangeMin / lbitmapUnit below)).findSome?
          (getBusyInPosition below pstLevel uiRangeMin) := by
  have unit := lbitmapUnit_pos below
  have split : lbitmapUnit (below + 1) - 1 = lbitmapUnit below * 255 + (lbitmapUnit below - 1) := by
    rw [lbitmapUnit_succ]
    omega
  have stop : (lbitmapUnit (below + 1) - 1) / lbitmapUnit below = 255 := by
    rw [split, mul_add_div unit, div_eq_of_lt (sub_one_lt_of_lt unit)]
  have rest : (lbitmapUnit (below + 1) - 1) % lbitmapUnit below = lbitmapUnit below - 1 := by
    rw [split, mul_add_mod, mod_eq_of_lt (sub_one_lt_of_lt unit)]
  have start : uiRangeMin / lbitmapUnit below % 256 = uiRangeMin / lbitmapUnit below := by
    rw [lbitmapUnit_succ] at low
    exact mod_eq_of_lt (Nat.div_lt_of_lt_mul low)
  have shift (k : Nat) : k >>> lbitmapOffset (below + 1) = k / lbitmapUnit below :=
    shiftRight_eq_div_pow _ _
  rw [lbitmapGetBusyBit]
  simp only [shift, rest_eq, stop, rest, start, reduceMod]
  rfl

theorem childMin_lt (below uiRangeMin uiPos : Nat) :
    childMin below uiRangeMin uiPos < lbitmapUnit below := by
  have unit := lbitmapUnit_pos below
  unfold childMin
  split
  · exact sub_one_lt_of_lt unit
  split
  · exact mod_lt _ unit
  · exact unit

section Position

variable {uiRangeMin : Nat} (within : uiRangeMin ≤ j) (inside : j < lbitmapUnit (below + 1))

include inside

theorem position_mod : j / lbitmapUnit below % 256 = j / lbitmapUnit below := by
  rw [lbitmapUnit_succ] at inside
  exact mod_eq_of_lt (Nat.div_lt_of_lt_mul inside)

include within

theorem childMin_le (seen : Seen (below + 1) j) :
    childMin below uiRangeMin (j / lbitmapUnit below) ≤ j % lbitmapUnit below := by
  unfold childMin
  split
  · next last =>
    rw [seen.1 ((position_mod inside).trans last)]
  split
  · next first =>
    have whole := div_add_mod j (lbitmapUnit below)
    have wholeMin := div_add_mod uiRangeMin (lbitmapUnit below)
    rw [first] at whole
    omega
  · exact zero_le _

theorem getBusyInPosition_none
    (picks : ∀ next, PicksSeen below next (childMin below uiRangeMin (j / lbitmapUnit below)) (lbitmapGetBusyBit below next (childMin below uiRangeMin (j / lbitmapUnit below)) (lbitmapUnit below - 1)))
    (absent : getBusyInPosition below pstLevel uiRangeMin (j / lbitmapUnit below) = none)
    (set : lBitMapIsBitSetted (below + 1) pstLevel j = true) : ¬ Seen (below + 1) j := by
  intro seen
  rw [lBitMapIsBitSetted_level, position_mod inside] at set
  unfold getBusyInPosition at absent
  split at absent
  · next missing =>
    rw [missing] at set
    cases set
  next next present =>
  rw [present, Option.any_some] at set
  have searched := picks next
  rw [Option.map_eq_none_iff.mp absent] at searched
  exact searched _ (childMin_le within inside seen) (mod_lt _ (lbitmapUnit_pos below)) set seen.2

end Position

theorem getBusyInPosition_some {uiRangeMin uiPos : Nat} (high : uiPos < 256)
    (start : uiRangeMin / lbitmapUnit below ≤ uiPos)
    (picks : ∀ next, PicksSeen below next (childMin below uiRangeMin uiPos) (lbitmapGetBusyBit below next (childMin below uiRangeMin uiPos) (lbitmapUnit below - 1)))
    (isFound : getBusyInPosition below pstLevel uiRangeMin uiPos = some i) :
    (uiRangeMin ≤ i ∧ i < lbitmapUnit (below + 1)) ∧ i / lbitmapUnit below = uiPos ∧
      (lBitMapIsBitSetted (below + 1) pstLevel i = true ∧ Seen (below + 1) i) ∧
      ∀ j, uiRangeMin ≤ j → j / lbitmapUnit below = uiPos → j < i →
        lBitMapIsBitSetted (below + 1) pstLevel j = true → ¬ Seen (below + 1) j := by
  have unit := lbitmapUnit_pos below
  unfold getBusyInPosition at isFound
  split at isFound
  · cases isFound
  next next present =>
  obtain ⟨rest, found, whole⟩ := Option.map_eq_some_iff.mp isFound
  have searched := picks next
  rw [found] at searched
  obtain ⟨⟨lower, upper⟩, ⟨set, seen⟩, before⟩ := searched
  rw [or_position_eq upper] at whole
  have position : i / lbitmapUnit below = uiPos := by
    rw [← whole, mul_comm, mul_add_div unit, div_eq_of_lt upper, add_zero]
  have remainder : i % lbitmapUnit below = rest := by
    rw [← whole]
    exact mul_add_mod_of_lt upper
  have bounded : i < lbitmapUnit (below + 1) := by
    rw [lbitmapUnit_succ, mul_comm]
    exact (div_lt_iff_lt_mul unit).mp (position.symm ▸ high)
  have modPosition := position_mod bounded
  have last (isLast : uiPos = 255) : rest = lbitmapUnit below - 1 := by
    rw [childMin, if_pos isLast] at lower
    omega
  refine ⟨⟨?_, bounded⟩, position, ⟨?_, ?_, ?_⟩, ?_⟩
  · have wholeMin := div_add_mod uiRangeMin (lbitmapUnit below)
    have wholeFound := div_add_mod i (lbitmapUnit below)
    rcases lt_or_eq_of_le (position.symm ▸ start) with later | first
    · exact le_of_lt (lt_of_div_lt_div later)
    have lowerRest : uiRangeMin % lbitmapUnit below ≤ rest := by
      have restMin := mod_lt uiRangeMin unit
      rw [childMin, if_pos (first.trans position).symm] at lower
      split at lower
      · omega
      · exact lower
    rw [first.trans position] at wholeMin
    rw [position, remainder] at wholeFound
    omega
  · rw [lBitMapIsBitSetted_level, modPosition, position, present, Option.any_some, remainder]
    exact set
  · intro isLast
    rw [modPosition, position] at isLast
    rw [remainder]
    exact last isLast
  · rw [remainder]
    exact seen
  intro j within inPosition less isSet isSeen
  have inside := lt_trans less bounded
  have atLeast := childMin_le within inside isSeen
  rw [inPosition] at atLeast
  rw [lBitMapIsBitSetted_level, position_mod inside, inPosition, present, Option.any_some] at isSet
  refine before _ atLeast ?_ isSet isSeen.2
  have wholeFound := div_add_mod i (lbitmapUnit below)
  have wholeOther := div_add_mod j (lbitmapUnit below)
  rw [position, remainder] at wholeFound
  rw [inPosition] at wholeOther
  omega

theorem lbitmapGetBusyBit_picks {node : LBitMapNode below} {uiRangeMin : Nat}
    (low : uiRangeMin < lbitmapUnit below) :
    PicksSeen below node uiRangeMin
      (lbitmapGetBusyBit below node uiRangeMin (lbitmapUnit below - 1)) := by
  induction below generalizing uiRangeMin with
  | zero => exact lbitmapGetBusyInLeaf_picks low
  | succ below ih =>
    have picks (uiPos : Nat) (next : LBitMapNode below) :
        PicksSeen below next (childMin below uiRangeMin uiPos)
          (lbitmapGetBusyBit below next (childMin below uiRangeMin uiPos)
            (lbitmapUnit below - 1)) :=
      ih (childMin_lt below uiRangeMin uiPos)
    have position (j : Nat) (inside : j < lbitmapUnit (below + 1)) :
        j / lbitmapUnit below < 256 := by
      rw [lbitmapUnit_succ] at inside
      exact Nat.div_lt_of_lt_mul inside
    rw [lbitmapGetBusyBit_level low]
    cases result : (range' (uiRangeMin / lbitmapUnit below)
        (255 + 1 - uiRangeMin / lbitmapUnit below)).findSome?
          (getBusyInPosition below node uiRangeMin) with
    | none =>
      intro j within inside isSet
      have high := position j inside
      have absent := findSome?_range'_eq_none result (j / lbitmapUnit below)
        (Nat.div_le_div_right within) (by omega)
      exact getBusyInPosition_none within inside (picks _) absent isSet
    | some =>
      obtain ⟨uiPos, lower, _, atPos, before⟩ := findSome?_range'_eq_some result
      obtain ⟨bounds, atPosition, found, first⟩ :=
        getBusyInPosition_some (by omega) lower (picks uiPos) atPos
      refine ⟨bounds, found, fun j within less isSet => ?_⟩
      have inside := lt_trans less bounds.2
      rcases lt_or_eq_of_le (Nat.div_le_div_right (le_of_lt less)) with earlier | same
      · have absent := before (j / lbitmapUnit below) (Nat.div_le_div_right within)
          (atPosition ▸ earlier)
        exact getBusyInPosition_none within inside (picks _) absent isSet
      · exact first j within (same.trans atPosition) less isSet

variable {pstCtrl : LBitMapCtrl} {b c : UINT}

def lBitMapNextBusyBit (pstCtrl : LBitMapCtrl) : Option UINT → Option UINT
  | none => lBitMapGetFirstBusyBit pstCtrl
  | some uiCurrentBitIndex => lBitMapGetNextBusyBit pstCtrl uiCurrentBitIndex

def nextBit : Option UINT → UINT
  | none => 0
  | some uiCurrentBitIndex => uiCurrentBitIndex + 1

/-- An index that every search from below sees. -/
def SeenBit (b : UINT) : Prop :=
  Seen 3 b.toNat

theorem getBusyBit_from (pstCtrl : LBitMapCtrl) (start : UINT) :
    PicksSeen 3 pstCtrl start.toNat (lbitmapGetBusyBit 3 pstCtrl start.toNat 0xffffffff) :=
  lbitmapGetBusyBit_picks start.isLt

theorem lBitMapNextBusyBit_eq (pstCtrl : LBitMapCtrl) (current : Option UINT) :
    lBitMapNextBusyBit pstCtrl current =
      (lbitmapGetBusyBit 3 pstCtrl (nextBit current).toNat 0xffffffff).map (BitVec.ofNat 32) := by
  cases current <;> rfl

theorem lBitMapNextBusyBit_some {current : Option UINT}
    (isNext : lBitMapNextBusyBit pstCtrl current = some b) :
    nextBit current ≤ b ∧ LBitMapHas pstCtrl b ∧ SeenBit b ∧
      ∀ c, nextBit current ≤ c → c < b → LBitMapHas pstCtrl c → ¬ SeenBit c := by
  rw [lBitMapNextBusyBit_eq] at isNext
  obtain ⟨i, found, rfl⟩ := Option.map_eq_some_iff.mp isNext
  have picks := getBusyBit_from pstCtrl (nextBit current)
  rw [found] at picks
  obtain ⟨⟨lower, upper⟩, ⟨set, seen⟩, before⟩ := picks
  have value : (BitVec.ofNat 32 i).toNat = i := mod_eq_of_lt upper
  refine ⟨?_, ?_, ?_, fun c within less has => ?_⟩
  · rw [BitVec.le_def, value]
    exact lower
  · rw [LBitMapHas, value]
    exact set
  · rw [SeenBit, value]
    exact seen
  · rw [BitVec.lt_def, value] at less
    exact before c.toNat within less has

theorem lBitMapNextBusyBit_none {current : Option UINT}
    (isNext : lBitMapNextBusyBit pstCtrl current = none) (within : nextBit current ≤ c)
    (has : LBitMapHas pstCtrl c) : ¬ SeenBit c := by
  rw [lBitMapNextBusyBit_eq, Option.map_eq_none_iff] at isNext
  have picks := getBusyBit_from pstCtrl (nextBit current)
  rw [isNext] at picks
  exact picks c.toNat within c.isLt has

/-- The least index of the set above another one. -/
def IsNextBit (pstCtrl : LBitMapCtrl) (b c : UINT) : Prop :=
  (LBitMapHas pstCtrl c ∧ b < c) ∧ ∀ d, LBitMapHas pstCtrl d → b < d → c ≤ d

structure EnumeratesBits (pstCtrl : LBitMapCtrl) : Prop where
  all : ∃ found, Enumerates (lBitMapNextBusyBit pstCtrl) none found ∧
    found.Pairwise (fun b c => b < c) ∧ ∀ b, b ∈ found ↔ LBitMapHas pstCtrl b
  next : ∀ b, (∃ c, LBitMapHas pstCtrl c ∧ b < c) →
    ∃ c, lBitMapGetNextBusyBit pstCtrl b = some c ∧ IsNextBit pstCtrl b c

theorem nextBit_le_iff (other : b ≠ 0xffffffff) : nextBit (some b) ≤ c ↔ b < c := by
  have notLast : b.toNat ≠ 0xffffffff := fun same => other (BitVec.eq_of_toNat_eq same)
  have value : (b + 1).toNat = b.toNat + 1 := by
    have one : (1 : UINT).toNat = 1 := rfl
    exact mod_eq_of_lt (by omega)
  rw [nextBit, BitVec.le_def, BitVec.lt_def, value]
  rfl

/-- Greater indices have less rank, and all ranks are positive. -/
def bitRank (b : UINT) : Nat :=
  2 ^ 32 - b.toNat

theorem bitRank_lt_iff : bitRank b < bitRank c ↔ c < b := by
  rw [bitRank, bitRank, BitVec.lt_def]
  omega

theorem bitRank_pos (b : UINT) : 0 < bitRank b :=
  Nat.sub_pos_of_lt b.isLt

def bitsOf (pstCtrl : LBitMapCtrl) : List UINT :=
  ((List.range (2 ^ 32)).map (BitVec.ofNat 32)).filter fun b => LBitMapHas pstCtrl b

theorem mem_bitsOf : b ∈ bitsOf pstCtrl ↔ LBitMapHas pstCtrl b := by
  rw [bitsOf, mem_filter, decide_eq_true_iff, and_iff_right_iff_imp]
  intro _
  exact mem_map.mpr ⟨b.toNat, mem_range.mpr b.isLt, BitVec.ofNat_toNat ..⟩

section Scanned

variable (scanned : ∀ b, LBitMapHas pstCtrl b → SeenBit b ∧ b ≠ 0xffffffff)

include scanned

theorem nextBusyBit_picksBelow : PicksBelow bitRank (bitsOf pstCtrl)
    fun current => if current = some 0xffffffff then none
      else lBitMapNextBusyBit pstCtrl current := by
  have below_iff (current : Option UINT) (other : current ≠ some 0xffffffff) (d : UINT) :
      Below bitRank current d ↔ nextBit current ≤ d := by
    cases current with
    | none => exact ⟨fun _ => zero_le _, fun _ => below_none bitRank d⟩
    | some b =>
      have notLast : b ≠ 0xffffffff := fun same => other (by rw [same])
      rw [nextBit_le_iff notLast, ← bitRank_lt_iff]
      refine ⟨fun below => below b rfl, fun less upper same => ?_⟩
      cases same
      exact less
  constructor
  · intro current element picked
    split at picked
    · cases picked
    next other =>
    obtain ⟨lower, has, -, before⟩ := lBitMapNextBusyBit_some picked
    refine ⟨⟨mem_bitsOf.mpr has, (below_iff current other element).mpr lower, bitRank_pos _⟩,
      fun d stored below => ?_⟩
    have hasOther := mem_bitsOf.mp stored
    apply Nat.le_of_not_lt
    intro less
    exact before d ((below_iff current other d).mp below) (bitRank_lt_iff.mp less) hasOther
      (scanned d hasOther).1
  intro current picked d stored below
  split at picked
  · next last =>
    have less := below _ last
    have one : bitRank 0xffffffff = 1 := rfl
    omega
  next other =>
  have hasOther := mem_bitsOf.mp stored
  exact absurd (scanned d hasOther).1
    (lBitMapNextBusyBit_none picked ((below_iff current other d).mp below) hasOther)

theorem enumeratesBits_all : ∃ found, Enumerates (lBitMapNextBusyBit pstCtrl) none found ∧
    found.Pairwise (fun b c => b < c) ∧ ∀ b, b ∈ found ↔ LBitMapHas pstCtrl b := by
  have picks := nextBusyBit_picksBelow scanned
  obtain ⟨found, enumerated⟩ := picks.terminates none
  have mem_iff (b : UINT) : b ∈ found ↔ LBitMapHas pstCtrl b := by
    constructor
    · exact fun inside => mem_bitsOf.mp (enumerated.mem picks b inside).1
    intro has
    obtain ⟨d, inside, same⟩ := enumerated.complete picks b (mem_bitsOf.mpr has)
      (below_none bitRank b) (bitRank_pos b)
    have equal : d = b := BitVec.eq_of_toNat_eq (by rw [bitRank, bitRank] at same; omega)
    exact equal ▸ inside
  refine ⟨found, enumerated.congr fun reached either => ?_, ?_, mem_iff⟩
  · rw [if_neg]
    rcases either with rfl | inside
    · exact nofun
    obtain ⟨d, inFound, rfl⟩ := mem_map.mp inside
    intro last
    exact (scanned d ((mem_iff d).mp inFound)).2 (Option.some.inj last)
  · exact (enumerated.descending picks).imp fun less => bitRank_lt_iff.mp less

theorem enumeratesBits_next (above : ∃ c, LBitMapHas pstCtrl c ∧ b < c) :
    ∃ c, lBitMapGetNextBusyBit pstCtrl b = some c ∧ IsNextBit pstCtrl b c := by
  obtain ⟨c, has, less⟩ := above
  have notLast : b ≠ 0xffffffff := by
    rintro rfl
    exact absurd less (by change ¬ 0xffffffff < c.toNat; omega)
  cases isNext : lBitMapNextBusyBit pstCtrl (some b) with
  | none =>
    exact absurd (scanned c has).1
      (lBitMapNextBusyBit_none isNext ((nextBit_le_iff notLast).mpr less) has)
  | some d =>
    obtain ⟨lower, hasNext, -, before⟩ := lBitMapNextBusyBit_some isNext
    refine ⟨d, isNext, ⟨hasNext, (nextBit_le_iff notLast).mp lower⟩, fun e hasOther above => ?_⟩
    apply BitVec.not_lt.mp
    intro under
    exact before e ((nextBit_le_iff notLast).mpr above) under hasOther (scanned e hasOther).1

end Scanned

/-- The enumeration is right exactly where every index of the set is seen and the
last one is not in it. -/
theorem lBitMap_enumerates_iff (pstCtrl : LBitMapCtrl) :
    EnumeratesBits pstCtrl ↔ ∀ b, LBitMapHas pstCtrl b → SeenBit b ∧ b ≠ 0xffffffff := by
  constructor
  · rintro ⟨⟨_, enumerated, ascending, mem_iff⟩, -⟩ b has
    obtain ⟨⟨_, isNext⟩, _, _, whole, after⟩ := enumerated.after ((mem_iff b).mpr has)
    obtain ⟨-, -, seen, -⟩ := lBitMapNextBusyBit_some isNext
    refine ⟨seen, ?_⟩
    rintro rfl
    -- The successor of the last index is 0, so the search begins again.
    cases after with
    | done stop => exact lBitMapNextBusyBit_none stop (zero_le _) has seen
    | @more _ first _ _ _ =>
      rw [whole] at ascending
      have less := (pairwise_cons.mp (pairwise_append.mp ascending).2.1).1 first mem_cons_self
      exact absurd less (by change ¬ 0xffffffff < first.toNat; omega)
  · exact fun scanned => ⟨enumeratesBits_all scanned, fun _ => enumeratesBits_next scanned⟩

/-- The index 0xff00 is the first one of the last leaf of a level. -/
theorem lBitMap_enumerates_nothing :
    ¬ ∀ pstCtrl, lbitmap.Reachable pstCtrl → EnumeratesBits pstCtrl := by
  intro holds
  have stepped : lbitmap.step lBitMapCreate (fun _ => true, .setBit 0xff00)
      ((LBitMapCall.setBit 0xff00).run (fun _ => true) lBitMapCreate) := rfl
  have reached := System.Reachable.next (.start rfl) stepped
  obtain ⟨⟨found, enumerated, -, mem_iff⟩, -⟩ := holds _ reached
  have has : (0xff00 : UINT) ∈ found := (mem_iff _).mpr (by decide +kernel)
  cases enumerated with
  | done => exact not_mem_nil has
  | more step => cases step

end MyCode.LBitMap
