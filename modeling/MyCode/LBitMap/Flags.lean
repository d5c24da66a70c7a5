import MyCode.LBitMap.Access
import MyCode.Lib.Enumeration

/-!
# Flags of full nodes

While a flagged position leads to a full node, the search for a clear bit skips
nothing, so it finds the least one of the range.
-/

namespace MyCode.LBitMap

open Lib Function Option List Nat Bool

variable {below i j : Nat} {pstLeaf : LBitMapLeaf}

def Full (below : Nat) (node : LBitMapNode below) : Prop :=
  ∀ j < lbitmapUnit below, lBitMapIsBitSetted below node j = true

def FlagsSound : (below : Nat) → LBitMapNode below → Prop
  | 0, _ => True
  | below + 1, (pstLevel : LBitMapLevel (LBitMapNode below)) => ∀ uiPos < 256,
      (lbitmapIsBitSetted pstLevel.stBits uiPos = true →
        ∃ next, pstLevel.apstNextLevel uiPos = some next ∧ Full below next) ∧
      ∀ next, pstLevel.apstNextLevel uiPos = some next → FlagsSound below next

theorem flagsSound_newNode (below : Nat) : FlagsSound below (lbitmapNewNode below) := by
  cases below with
  | zero => trivial
  | succ =>
    intro uiPos _
    refine ⟨fun flagged => ?_, nofun⟩
    rw [lbitmapNewNode, lbitmapIsBitSetted_zero] at flagged
    cases flagged

theorem index_lt {uiPos : Nat} (high : uiPos < 256) (low : i < lbitmapUnit below) :
    uiPos * lbitmapUnit below + i < lbitmapUnit (below + 1) := by
  rw [lbitmapUnit_succ]
  calc uiPos * lbitmapUnit below + i
      < uiPos * lbitmapUnit below + lbitmapUnit below := Nat.add_lt_add_left low _
    _ = lbitmapUnit below * (uiPos + 1) := by rw [mul_succ, mul_comm]
    _ ≤ lbitmapUnit below * 256 := mul_le_mul_left _ high

theorem index_div {uiPos : Nat} (low : i < lbitmapUnit below) :
    (uiPos * lbitmapUnit below + i) / lbitmapUnit below = uiPos := by
  rw [mul_comm, mul_add_div (lbitmapUnit_pos below), div_eq_of_lt low, add_zero]

theorem index_mod {uiPos : Nat} (low : i < lbitmapUnit below) :
    (uiPos * lbitmapUnit below + i) % lbitmapUnit below = i :=
  mul_add_mod_of_lt low

theorem lBitMapIsBitSetted_index {pstLevel : LBitMapLevel (LBitMapNode below)} {uiPos : Nat}
    (high : uiPos < 256) (low : i < lbitmapUnit below) :
    lBitMapIsBitSetted (below + 1) pstLevel (uiPos * lbitmapUnit below + i) =
      (pstLevel.apstNextLevel uiPos).any fun next => lBitMapIsBitSetted below next i := by
  rw [lBitMapIsBitSetted_level, index_div low, index_mod low, mod_eq_of_lt high]

theorem full_of_allSetted {node : LBitMapNode below} (sound : FlagsSound below node)
    (all : lbitmapIsAllSetted (lbitmapNodeBits below node) = true) : Full below node := by
  rw [lbitmapIsAllSetted_iff] at all
  cases below with
  | zero =>
    intro j low
    rw [lbitmapUnit_zero] at low
    rw [lBitMapIsBitSetted_leaf, mod_eq_of_lt low]
    exact all j low
  | succ below =>
    intro j _
    have position : j / lbitmapUnit below % 256 < 256 := mod_lt _ (by decide)
    obtain ⟨_, present, full⟩ := (sound _ position).1 (all _ position)
    rw [lBitMapIsBitSetted_level, present, any_some]
    exact full _ (mod_lt _ (lbitmapUnit_pos below))

section Level

variable {pstLevel : LBitMapLevel (LBitMapNode below)} {alloc : NodeAlloc} {uiPos : Nat}
  {next after : LBitMapNode below}

section

variable (sound : FlagsSound (below + 1) pstLevel)

include sound

theorem FlagsSound.setNextLevel (soundAfter : FlagsSound below after)
    (full : lbitmapIsBitSetted pstLevel.stBits uiPos = true → Full below after) :
    FlagsSound (below + 1) (setNextLevel pstLevel uiPos (some after)) := by
  intro other low
  obtain ⟨flagged, soundBelow⟩ := sound other low
  simp only [MyCode.LBitMap.setNextLevel, update_apply]
  split
  · next same =>
    subst same
    refine ⟨fun isFlagged => ⟨after, rfl, full isFlagged⟩, fun next present => ?_⟩
    cases present
    exact soundAfter
  · exact ⟨flagged, soundBelow⟩

theorem FlagsSound.allocNext (low : uiPos < 256)
    (found : lbitmapAllocNext pstLevel alloc uiPos = some next) :
    FlagsSound below next ∧
      (lbitmapIsBitSetted pstLevel.stBits uiPos = true → Full below next) := by
  obtain ⟨flagged, soundBelow⟩ := sound uiPos low
  unfold lbitmapAllocNext at found
  split at found
  · next other present =>
    cases found
    refine ⟨soundBelow next present, fun isFlagged => ?_⟩
    obtain ⟨_, isKnown, full⟩ := flagged isFlagged
    cases present.symm.trans isKnown
    exact full
  next absent =>
  split at found
  · cases found
    refine ⟨flagsSound_newNode below, fun isFlagged => ?_⟩
    obtain ⟨_, isKnown, -⟩ := flagged isFlagged
    rw [absent] at isKnown
    cases isKnown
  · cases found

theorem FlagsSound.setFlag (low : uiPos < 256)
    (present : pstLevel.apstNextLevel uiPos = some next) (full : Full below next) :
    FlagsSound (below + 1)
      ({ pstLevel with stBits := lbitmapSetBit pstLevel.stBits uiPos } : LBitMapLevel _) := by
  intro other otherLow
  obtain ⟨flagged, soundBelow⟩ := sound other otherLow
  refine ⟨fun isFlagged => ?_, soundBelow⟩
  rw [lbitmapIsBitSetted_setBit low otherLow, or_eq_true, decide_eq_true_iff] at isFlagged
  rcases isFlagged with same | isFlagged
  · subst same
    exact ⟨next, present, full⟩
  · exact flagged isFlagged

theorem FlagsSound.clrFlag (low : uiPos < 256) :
    FlagsSound (below + 1)
      ({ pstLevel with stBits := lbitmapClrBit pstLevel.stBits uiPos } : LBitMapLevel _) := by
  intro other otherLow
  obtain ⟨flagged, soundBelow⟩ := sound other otherLow
  refine ⟨fun isFlagged => ?_, soundBelow⟩
  rw [lbitmapIsBitSetted_clrBit low otherLow, and_eq_true] at isFlagged
  exact flagged isFlagged.2

end

end Level

theorem lBitMapIsBitSetted_setIndexBit_of_set {alloc : NodeAlloc} {node : LBitMapNode below}
    (low : i < lbitmapUnit below) (otherLow : j < lbitmapUnit below)
    (set : lBitMapIsBitSetted below node j = true) :
    lBitMapIsBitSetted below (lbitmapSetIndexBit below alloc node i).1 j = true := by
  induction below generalizing alloc i j with
  | zero => rw [lBitMapIsBitSetted_setIndexBit low otherLow rfl, set, Bool.or_true]
  | succ below ih =>
    have unit := lbitmapUnit_pos below
    rw [lbitmapSetIndexBit]
    simp only [position_eq, rest_eq]
    split
    · exact set
    next next found =>
    rw [lBitMapIsBitSetted_setNextLevel]
    split
    · next same =>
      apply ih (mod_lt _ unit) (mod_lt _ unit)
      rw [lBitMapIsBitSetted_allocNext found same]
      exact set
    · exact set

theorem FlagsSound.setIndexBit {alloc : NodeAlloc} {node : LBitMapNode below}
    (sound : FlagsSound below node) (low : i < lbitmapUnit below) :
    FlagsSound below (lbitmapSetIndexBit below alloc node i).1 := by
  induction below generalizing alloc i with
  | zero => trivial
  | succ below ih =>
    have unit := lbitmapUnit_pos below
    have position : i / lbitmapUnit below % 256 < 256 := mod_lt _ (by decide)
    rw [lbitmapSetIndexBit]
    simp only [position_eq, rest_eq]
    split
    · exact sound
    next next found =>
    obtain ⟨soundNext, full⟩ := sound.allocNext position found
    refine sound.setNextLevel (ih soundNext (mod_lt _ unit)) fun flagged j otherLow => ?_
    exact lBitMapIsBitSetted_setIndexBit_of_set (mod_lt _ unit) otherLow (full flagged j otherLow)

theorem FlagsSound.clearBit {node : LBitMapNode below} (sound : FlagsSound below node) (i : Nat) :
    FlagsSound below (lbitmapClearBit below node i).1 := by
  induction below generalizing i with
  | zero => trivial
  | succ below ih =>
    have position : i / lbitmapUnit below % 256 < 256 := mod_lt _ (by decide)
    have cleared := sound.clrFlag position
    have unflagged : lbitmapIsBitSetted (lbitmapClrBit (LBitMapLevel.stBits node)
        (i / lbitmapUnit below % 256)) (i / lbitmapUnit below % 256) ≠ true := by
      rw [lbitmapIsBitSetted_clrBit position position]
      simp
    rw [lbitmapClearBit]
    simp only [position_eq, rest_eq]
    split
    · exact cleared
    next next present =>
    split
    · intro other otherLow
      obtain ⟨flagged, soundBelow⟩ := cleared other otherLow
      simp only [MyCode.LBitMap.setNextLevel, update_apply]
      split
      · next same =>
        refine ⟨fun isFlagged => ?_, by simp⟩
        exact absurd (same ▸ isFlagged) unflagged
      · exact ⟨flagged, soundBelow⟩
    · next after result =>
      have soundAfter := ih ((sound _ position).2 next present) (i % lbitmapUnit below)
      rw [result] at soundAfter
      exact cleared.setNextLevel soundAfter fun isFlagged => absurd isFlagged unflagged

theorem forPositions_invariant {Node : Type} {Holds : Node → Prop}
    {spec : Nat → Node → Node × Except BsStatus Nat} :
    ∀ {num start node}, Holds node →
      (∀ uiPos node, start ≤ uiPos → uiPos < start + num → Holds node → Holds (spec uiPos node).1) →
      Holds (forPositions spec start num node).1 := by
  intro num
  induction num with
  | zero => exact fun holds _ => holds
  | succ _ ih =>
    intro start node holds preserved
    have first := preserved start node (le_refl _) (by omega) holds
    rw [forPositions]
    split
    · next after uiBitIndex same =>
      rw [same] at first
      exact first
    next after eRet same =>
    rw [same] at first
    exact ih first fun uiPos node lower upper =>
      preserved uiPos node (by omega) (by omega)

theorem FlagsSound.getSpec {alloc : NodeAlloc} {pstLevel : LBitMapLevel (LBitMapNode below)}
    {get : NodeAlloc → LBitMapNode below → Nat → Nat → LBitMapNode below × Except BsStatus Nat}
    {uiPos uiRangeMin uiRangeMax : Nat} (sound : FlagsSound (below + 1) pstLevel)
    (low : uiPos < 256)
    (gets : ∀ next, FlagsSound below next →
      FlagsSound below (get (alloc.below uiPos) next uiRangeMin uiRangeMax).1) :
    FlagsSound (below + 1) (lbitmapGetSpec get alloc pstLevel uiPos uiRangeMin uiRangeMax).1 := by
  unfold lbitmapGetSpec
  split
  · exact sound
  next next found =>
  obtain ⟨soundNext, full⟩ := sound.allocNext low found
  split
  · exact sound.setNextLevel soundNext full
  next unflagged =>
  have soundAfter := gets next soundNext
  split
  · next after eRet same =>
    rw [same] at soundAfter
    exact sound.setNextLevel soundAfter fun flagged => absurd flagged unflagged
  next after uiBitIndex same =>
  rw [same] at soundAfter
  have kept := sound.setNextLevel soundAfter fun flagged => absurd flagged unflagged
  split
  · next all =>
    have present : (MyCode.LBitMap.setNextLevel pstLevel uiPos (some after)).apstNextLevel uiPos =
        some after := update_self ..
    exact kept.setFlag low present (full_of_allSetted soundAfter all)
  · exact kept

theorem FlagsSound.get {alloc : NodeAlloc} {node : LBitMapNode below} {uiRangeMin uiRangeMax : Nat}
    (sound : FlagsSound below node) (low : uiRangeMin < lbitmapUnit below)
    (high : uiRangeMax < lbitmapUnit below) :
    FlagsSound below (lbitmapGet below alloc node uiRangeMin uiRangeMax).1 := by
  induction below generalizing alloc uiRangeMin uiRangeMax with
  | zero => trivial
  | succ below ih =>
    rw [lbitmapGet_level low high]
    rw [lbitmapUnit_succ] at high
    have stopLow := Nat.div_lt_of_lt_mul high
    refine forPositions_invariant sound fun uiPos pstLevel lower upper soundLevel => ?_
    have stop : uiPos ≤ uiRangeMax / lbitmapUnit below := by omega
    exact soundLevel.getSpec (lt_of_le_of_lt stop stopLow)
      fun next soundNext => ih soundNext positionMin_lt positionMax_lt

theorem flagsSound_reset {pstCtrl : LBitMapCtrl}
    (unflagged : ∀ uiPos < 256, lbitmapIsBitSetted (LBitMapLevel.stBits pstCtrl) uiPos = false) :
    FlagsSound 3 (lBitMapReset pstCtrl) := by
  intro uiPos low
  refine ⟨fun flagged => ?_, nofun⟩
  have clear := unflagged uiPos low
  rw [lBitMapReset] at flagged
  rw [clear] at flagged
  cases flagged

def Exhausts (below : Nat) (before : LBitMapNode below) (uiRangeMin uiRangeMax : Nat) :
    LBitMapNode below × Except BsStatus Nat → Prop
  | (_, .ok uiBitIndex) =>
    ∀ j, uiRangeMin ≤ j → j < uiBitIndex → lBitMapIsBitSetted below before j = true
  | (_, .error _) => ∀ j, uiRangeMin ≤ j → j ≤ uiRangeMax → lBitMapIsBitSetted below before j = true

def getInWord (pstLeaf : LBitMapLeaf) (uiRangeMin uiRangeMax word : Nat) : Option (Nat × Nat) :=
  if pstLeaf.stBits word = 0xffffffff then
    none
  else
    (lbitmapGetInUint (pstLeaf.stBits word)
      (if word = uiRangeMin / 32 % 8 then uiRangeMin % 32 else 0)
      (if word = uiRangeMax / 32 % 8 then uiRangeMax % 32 else 31)).map fun uiBitPos =>
        (word, uiBitPos)

theorem getInWord_none {uiRangeMin uiRangeMax : Nat} (high : uiRangeMax < 256)
    (lower : uiRangeMin ≤ j) (upper : j ≤ uiRangeMax)
    (absent : getInWord pstLeaf uiRangeMin uiRangeMax (j / 32) = none) :
    lBitMapIsBitSetted 0 pstLeaf j = true := by
  have whole : j / 32 * 32 + j % 32 = j := by omega
  rw [← whole, lBitMapIsBitSetted_word pstLeaf (by omega) (by omega)]
  unfold getInWord at absent
  split at absent
  · next ones => exact (uint_allOnes_iff _).mp ones _ (mod_lt _ (by decide))
  rw [map_eq_none_iff, lbitmapGetInUint, find?_eq_none] at absent
  have start : (if j / 32 = uiRangeMin / 32 % 8 then uiRangeMin % 32 else 0) ≤ j % 32 := by
    split <;> omega
  have stop : j % 32 ≤ (if j / 32 = uiRangeMax / 32 % 8 then uiRangeMax % 32 else 31) := by
    split <;> omega
  have set := absent (j % 32) (mem_range'_1.mpr ⟨start, by omega⟩)
  have bit := @and_bit_ne_zero (pstLeaf.stBits (j / 32)) (j % 32) (mod_lt _ (by decide))
  rw [← bit]
  exact bne_iff_ne.mpr fun zero => set (beq_iff_eq.mpr zero)

theorem getInWord_some {uiRangeMin uiRangeMax word : Nat} {found : Nat × Nat} (wordLow : word < 8)
    (isFound : getInWord pstLeaf uiRangeMin uiRangeMax word = some found) :
    found.1 = word ∧ found.2 < 32 ∧ ∀ j, uiRangeMin ≤ j → j / 32 = word → j % 32 < found.2 →
      lBitMapIsBitSetted 0 pstLeaf j = true := by
  unfold getInWord at isFound
  split at isFound
  · cases isFound
  obtain ⟨bit, first, rfl⟩ := map_eq_some_iff.mp isFound
  obtain ⟨-, range, before⟩ := find?_range'_eq_some.mp first
  rw [mem_range'_1] at range
  have stop : (if word = uiRangeMax / 32 % 8 then uiRangeMax % 32 else 31) < 32 := by
    split <;> omega
  have bitLow : bit < 32 := by omega
  refine ⟨rfl, bitLow, fun j lower inWord less => ?_⟩
  have whole : word * 32 + j % 32 = j := by omega
  have start : (if word = uiRangeMin / 32 % 8 then uiRangeMin % 32 else 0) ≤ j % 32 := by
    split <;> omega
  have set := before (j % 32) start less
  rw [← whole, lBitMapIsBitSetted_word pstLeaf (by omega) wordLow,
    ← and_bit_ne_zero (lt_trans less bitLow)]
  exact set

theorem exhausts_getInLeaf {uiRangeMin uiRangeMax : Nat} (low : uiRangeMin < 256)
    (high : uiRangeMax < 256) :
    Exhausts 0 pstLeaf uiRangeMin uiRangeMax (lbitmapGetInLeaf pstLeaf uiRangeMin uiRangeMax) := by
  unfold lbitmapGetInLeaf
  simp only [uintIndex_eq, bitIndex_eq]
  split
  · next word bit isFound =>
    obtain ⟨p, _, _, atWord, before⟩ := findSome?_range'_eq_some isFound
    obtain ⟨_, _, inWord⟩ := getInWord_some (by omega) atWord
    intro j within less
    rcases lt_or_ge (j / 32) p with earlier | _
    · exact getInWord_none high within (by omega) (before _ (by omega) earlier)
    · exact inWord j within (by omega) (by omega)
  · next isFound =>
    intro j within atMost
    exact getInWord_none high within atMost (findSome?_range'_eq_none isFound _ (by omega) (by omega))

section Position

variable {uiPos uiRangeMin uiRangeMax : Nat}

theorem index_split {unit : Nat} (lower : uiPos * unit ≤ j) (upper : j < uiPos * unit + unit) :
    j / unit = uiPos ∧ uiPos * unit + j % unit = j := by
  have position : j / unit = uiPos := by
    apply Nat.div_eq_of_lt_le lower
    rw [succ_mul]
    exact upper
  have whole := div_add_mod j unit
  rw [position, mul_comm] at whole
  exact ⟨position, whole⟩

theorem exhausts_getSpec {alloc : NodeAlloc} {pstLevel : LBitMapLevel (LBitMapNode below)}
    {get : NodeAlloc → LBitMapNode below → Nat → Nat → LBitMapNode below × Except BsStatus Nat}
    (inside : uiPos < 256) (high : uiRangeMax < lbitmapUnit below)
    (sound : FlagsSound (below + 1) pstLevel) (room : alloc [uiPos] = true)
    (attempts : ∀ next, Attempted below next uiRangeMin uiRangeMax
      (get (alloc.below uiPos) next uiRangeMin uiRangeMax))
    (gets : ∀ next, FlagsSound below next → Exhausts below next uiRangeMin uiRangeMax
        (get (alloc.below uiPos) next uiRangeMin uiRangeMax)) :
    Exhausts (below + 1) pstLevel (uiPos * lbitmapUnit below + uiRangeMin)
      (uiPos * lbitmapUnit below + uiRangeMax)
      (lbitmapGetSpec get alloc pstLevel uiPos uiRangeMin uiRangeMax) := by
  unfold lbitmapGetSpec
  split
  · next missing =>
    unfold lbitmapAllocNext at missing
    rw [room] at missing
    split at missing <;> cases missing
  next next found =>
  obtain ⟨soundNext, full⟩ := sound.allocNext inside found
  -- An index of the position is set if its rest is set below.
  have setOf {j : Nat} (lower : uiPos * lbitmapUnit below ≤ j)
      (upper : j < uiPos * lbitmapUnit below + lbitmapUnit below)
      (set : lBitMapIsBitSetted below next (j % lbitmapUnit below) = true) :
      lBitMapIsBitSetted (below + 1) pstLevel j = true := by
    have position : j / lbitmapUnit below % 256 = uiPos := by
      rw [(index_split lower upper).1, mod_eq_of_lt inside]
    rw [← lBitMapIsBitSetted_allocNext found position]
    exact set
  split
  · next flagged =>
    intro j lower upper
    exact setOf (by omega) (by omega) (full flagged _ (mod_lt _ (lbitmapUnit_pos below)))
  have exhausted := gets next soundNext
  have attempted := attempts next
  split
  · next after eRet same =>
    rw [same] at exhausted
    intro j lower upper
    have whole := (@index_split j uiPos (lbitmapUnit below) (by omega) (by omega)).2
    exact setOf (by omega) (by omega) (exhausted _ (by omega) (by omega))
  next after uiBitIndex same =>
  rw [same] at exhausted attempted
  have bound := lt_of_le_of_lt attempted.upper high
  have passed : ∀ j, uiPos * lbitmapUnit below + uiRangeMin ≤ j →
      j < uiBitIndex ||| (uiPos <<< lbitmapOffset (below + 1)) →
        lBitMapIsBitSetted (below + 1) pstLevel j = true := by
    rw [or_position_eq bound]
    intro j lower upper
    have whole := (@index_split j uiPos (lbitmapUnit below) (by omega) (by omega)).2
    exact setOf (by omega) (by omega) (exhausted _ (by omega) (by omega))
  split <;> exact passed

end Position

theorem exhausts_forPositions {uiRangeMin uiRangeMax : Nat} {lowerOf upperOf : Nat → Nat}
    {Holds : LBitMapNode below → Prop}
    {spec : Nat → LBitMapNode below → LBitMapNode below × Except BsStatus Nat} :
    ∀ {num start node}, Holds node → uiRangeMax < lowerOf (start + num) →
      (∀ uiPos, start ≤ uiPos → uiPos < start + num → ∀ j ≤ uiRangeMax,
        j ≤ upperOf uiPos ∨ lowerOf (uiPos + 1) ≤ j) →
      (∀ uiPos node, start ≤ uiPos → uiPos < start + num →
        Attempted below node uiRangeMin uiRangeMax (spec uiPos node)) →
      (∀ uiPos node, start ≤ uiPos → uiPos < start + num → Holds node → Holds (spec uiPos node).1 ∧
          Exhausts below node (lowerOf uiPos) (upperOf uiPos) (spec uiPos node)) →
      Exhausts below node (lowerOf start) uiRangeMax (forPositions spec start num node) := by
  intro num
  induction num with
  | zero =>
    intro start node _ last _ _ _ j lower upper
    rw [add_zero] at last
    omega
  | succ num ih =>
    intro start node holds last follows attempts specs
    obtain ⟨holdsAfter, exhausted⟩ := specs start node (le_refl _) (by omega) holds
    have attempted := attempts start node (le_refl _) (by omega)
    rw [forPositions]
    split
    · next after uiBitIndex same =>
      rw [same] at exhausted
      exact exhausted
    next after eRet same =>
    rw [same] at holdsAfter attempted exhausted
    have restAttempts (uiPos node) (lower : start + 1 ≤ uiPos) (upper : uiPos < start + 1 + num) :=
      attempts uiPos node (by omega) (by omega)
    have restAttempted := attempted_forPositions num (start + 1) after restAttempts
    have rest := @ih (start + 1) after holdsAfter (by rw [add_assoc, add_comm 1]; exact last)
      (fun uiPos lower upper => follows uiPos (by omega) (by omega)) restAttempts
      (fun uiPos node lower upper => specs uiPos node (by omega) (by omega))
    have passed (j : Nat) (lower : lowerOf start ≤ j) (upper : j ≤ uiRangeMax)
        (later : lowerOf (start + 1) ≤ j → lBitMapIsBitSetted below after j = true) :
        lBitMapIsBitSetted below node j = true := by
      rcases follows start (le_refl _) (by omega) j upper with here | next
      · exact exhausted j lower here
      · rw [← attempted j]
        exact later next
    generalize forPositions spec (start + 1) num after = result at rest restAttempted
    obtain ⟨_, result⟩ := result
    cases result with
    | ok =>
      intro j lower less
      have upper := restAttempted.upper
      exact passed j lower (by omega) fun next => rest j next less
    | error =>
      intro j lower upper
      exact passed j lower upper fun next => rest j next upper

section Position

variable {uiPos uiRangeMin uiRangeMax : Nat}

theorem positionMin_start (uiRangeMin : Nat) : uiRangeMin / lbitmapUnit below * lbitmapUnit below +
    positionMin below uiRangeMin (uiRangeMin / lbitmapUnit below) = uiRangeMin := by
  rw [positionMin, if_pos rfl, mul_comm]
  exact div_add_mod _ _

theorem positionMin_le_positionMax (ordered : uiRangeMin ≤ uiRangeMax) :
    positionMin below uiRangeMin uiPos ≤ positionMax below uiRangeMax uiPos := by
  have unit := lbitmapUnit_pos below
  have restMin := mod_lt uiRangeMin unit
  unfold positionMin positionMax
  split
  · next first =>
    split
    · next last =>
      have wholeMin := div_add_mod uiRangeMin (lbitmapUnit below)
      have wholeMax := div_add_mod uiRangeMax (lbitmapUnit below)
      rw [← first] at wholeMin
      rw [← last] at wholeMax
      omega
    · exact le_sub_one_of_lt restMin
  · exact zero_le _

theorem positions_follow (start : uiRangeMin / lbitmapUnit below ≤ uiPos) (upper : j ≤ uiRangeMax) :
    j ≤ uiPos * lbitmapUnit below + positionMax below uiRangeMax uiPos ∨
      (uiPos + 1) * lbitmapUnit below + positionMin below uiRangeMin (uiPos + 1) ≤ j := by
  have later : uiPos + 1 ≠ uiRangeMin / lbitmapUnit below := by omega
  rw [positionMin, if_neg later, add_zero, succ_mul]
  unfold positionMax
  split
  · next last =>
    have whole := div_add_mod uiRangeMax (lbitmapUnit below)
    rw [← last, mul_comm] at whole
    exact Or.inl (by omega)
  · omega

end Position

theorem exhausts_get {alloc : NodeAlloc} {node : LBitMapNode below} {uiRangeMin uiRangeMax : Nat}
    (sound : FlagsSound below node) (room : ∀ path, alloc path = true)
    (low : uiRangeMin < lbitmapUnit below) (high : uiRangeMax < lbitmapUnit below)
    (ordered : uiRangeMin ≤ uiRangeMax) :
    Exhausts below node uiRangeMin uiRangeMax
      (lbitmapGet below alloc node uiRangeMin uiRangeMax) := by
  induction below generalizing alloc uiRangeMin uiRangeMax with
  | zero => exact exhausts_getInLeaf low high
  | succ below ih =>
    rw [lbitmapGet_level low high]
    rw [lbitmapUnit_succ] at high
    have unit := lbitmapUnit_pos below
    have stopLow := Nat.div_lt_of_lt_mul high
    have starts : uiRangeMin / lbitmapUnit below ≤ uiRangeMax / lbitmapUnit below :=
      Nat.div_le_div_right ordered
    have positions : uiRangeMin / lbitmapUnit below +
        (uiRangeMax / lbitmapUnit below + 1 - uiRangeMin / lbitmapUnit below) =
          uiRangeMax / lbitmapUnit below + 1 := by omega
    have exhausted := @exhausts_forPositions (below + 1) uiRangeMin uiRangeMax
      (fun uiPos => uiPos * lbitmapUnit below + positionMin below uiRangeMin uiPos)
      (fun uiPos => uiPos * lbitmapUnit below + positionMax below uiRangeMax uiPos)
      (FlagsSound (below + 1)) (getPosition below alloc uiRangeMin uiRangeMax)
      (uiRangeMax / lbitmapUnit below + 1 - uiRangeMin / lbitmapUnit below)
      (uiRangeMin / lbitmapUnit below) node sound
    rw [positions, positionMin_start] at exhausted
    apply exhausted
    · have beyond : uiRangeMax < (uiRangeMax / lbitmapUnit below + 1) * lbitmapUnit below :=
        lt_mul_of_div_lt (lt_succ_self _) unit
      omega
    · intro uiPos start _ j upper
      exact positions_follow start upper
    · intro uiPos pstLevel start stop
      have last := le_of_lt_succ stop
      refine Attempted.mono ?_ (positionMin_ge start) (positionMax_le last)
      exact attempted_getSpec (lt_of_le_of_lt last stopLow) positionMax_lt
        fun next => attempted_get positionMin_lt positionMax_lt
    intro uiPos pstLevel _ stop soundLevel
    have last := le_of_lt_succ stop
    have inside := lt_of_le_of_lt last stopLow
    refine ⟨soundLevel.getSpec inside fun next soundNext =>
      soundNext.get positionMin_lt positionMax_lt, ?_⟩
    exact exhausts_getSpec inside positionMax_lt soundLevel (room _)
      (fun next => attempted_get positionMin_lt positionMax_lt)
      fun next soundNext => ih soundNext (fun path => room _) positionMin_lt
        positionMax_lt (positionMin_le_positionMax ordered)

end MyCode.LBitMap
