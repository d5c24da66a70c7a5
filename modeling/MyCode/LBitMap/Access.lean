import MyCode.LBitMap.Node
import MyCode.Lib.Transition

/-!
# The set that a large bitmap stands for

An index is split into a position in the level and an index below it.  Setting,
clearing and allocating change the set as their names say; where a node cannot
be allocated, setting may change nothing.
-/

namespace MyCode.LBitMap

open Option Nat

variable {below i j : Nat} {node after before : LBitMapNode below}
  {result : LBitMapNode below × Except BsStatus Nat}

/-- How many indices a node over `below` levels stands for. -/
def lbitmapUnit (below : Nat) : Nat := 2 ^ (8 * (below + 1))

theorem lbitmapUnit_pos (below : Nat) : 0 < lbitmapUnit below :=
  Nat.pow_pos (by decide)

theorem lbitmapUnit_succ (below : Nat) : lbitmapUnit (below + 1) = lbitmapUnit below * 256 := by
  rw [lbitmapUnit, lbitmapUnit, mul_succ 8 (below + 1), Nat.pow_add]

theorem position_eq (below i : Nat) :
    (i >>> lbitmapOffset (below + 1)) &&& 0xff = i / lbitmapUnit below % 256 := by
  rw [shiftRight_eq_div_pow]
  exact and_two_pow_sub_one_eq_mod _ 8

theorem rest_eq (below i : Nat) : i &&& lbitmapMask (below + 1) = i % lbitmapUnit below :=
  and_two_pow_sub_one_eq_mod _ _

theorem or_position_eq (low : i < lbitmapUnit below) (uiPos : Nat) :
    i ||| (uiPos <<< lbitmapOffset (below + 1)) = uiPos * lbitmapUnit below + i := by
  rw [Nat.or_comm, shiftLeft_eq]
  exact (Nat.mul_comm _ _ ▸ two_pow_add_eq_or_of_lt low uiPos).symm

@[simp]
theorem lbitmapUnit_zero : lbitmapUnit 0 = 256 := rfl

theorem mod_unit_mod (below i : Nat) : i % lbitmapUnit below % 256 = i % 256 := by
  apply mod_mod_of_dvd
  exact pow_dvd_pow 2 (show 8 ≤ 8 * (below + 1) by omega)

theorem rest_eq_iff (low : i < lbitmapUnit (below + 1)) (otherLow : j < lbitmapUnit (below + 1))
    (same : j / lbitmapUnit below % 256 = i / lbitmapUnit below % 256) :
    j % lbitmapUnit below = i % lbitmapUnit below ↔ j = i := by
  rw [lbitmapUnit_succ] at low otherLow
  rw [mod_eq_of_lt (Nat.div_lt_of_lt_mul otherLow), mod_eq_of_lt (Nat.div_lt_of_lt_mul low)] at same
  constructor
  · intro rest
    rw [← div_add_mod j (lbitmapUnit below), same, rest, div_add_mod]
  · exact fun equal => by rw [equal]

theorem lBitMapIsBitSetted_leaf (pstLeaf : LBitMapLeaf) (i : Nat) :
    lBitMapIsBitSetted 0 pstLeaf i = lbitmapIsBitSetted pstLeaf.stBits (i % 256) := by
  have low : i &&& 0xff = i % 256 := and_two_pow_sub_one_eq_mod _ 8
  rw [← low]
  rfl

theorem lBitMapIsBitSetted_word (pstLeaf : LBitMapLeaf) {word bit : Nat} (bitLow : bit < 32)
    (wordLow : word < 8) : lBitMapIsBitSetted 0 pstLeaf (word * 32 + bit) =
      (pstLeaf.stBits word).getLsbD bit := by
  have inside : (word * 32 + bit) % 256 = word * 32 + bit := by omega
  have wordOf : (word * 32 + bit) / 32 % 8 = word := by omega
  have bitOf : (word * 32 + bit) % 32 = bit := by omega
  rw [lBitMapIsBitSetted_leaf, lbitmapIsBitSetted_eq, inside, wordOf, bitOf]

theorem lBitMapIsBitSetted_level (pstLevel : LBitMapLevel (LBitMapNode below)) (i : Nat) :
    lBitMapIsBitSetted (below + 1) pstLevel i =
      (pstLevel.apstNextLevel (i / lbitmapUnit below % 256)).any fun next =>
        lBitMapIsBitSetted below next (i % lbitmapUnit below) := by
  have low : ∀ k, k &&& 0xff = k % 256 := fun k => and_two_pow_sub_one_eq_mod k 8
  rw [lBitMapIsBitSetted, lbitmapGetIndexLeaf]
  simp only [position_eq, rest_eq]
  cases pstLevel.apstNextLevel (i / lbitmapUnit below % 256) with
  | none => rfl
  | some => simp only [any_some, lBitMapIsBitSetted, low, mod_unit_mod]

theorem lBitMapIsBitSetted_newNode (below i : Nat) :
    lBitMapIsBitSetted below (lbitmapNewNode below) i = false := by
  cases below with
  | zero => exact (lBitMapIsBitSetted_leaf _ _).trans (lbitmapIsBitSetted_zero _)
  | succ => exact lBitMapIsBitSetted_level _ _

section Level

variable {pstLevel : LBitMapLevel (LBitMapNode below)} {alloc : NodeAlloc} {uiPos : Nat}
  {next : LBitMapNode below}

theorem lBitMapIsBitSetted_setNextLevel (other : Option (LBitMapNode below)) :
    lBitMapIsBitSetted (below + 1) (setNextLevel pstLevel uiPos other) i =
      if i / lbitmapUnit below % 256 = uiPos then
        other.any fun next => lBitMapIsBitSetted below next (i % lbitmapUnit below)
      else
        lBitMapIsBitSetted (below + 1) pstLevel i := by
  rw [lBitMapIsBitSetted_level, lBitMapIsBitSetted_level, setNextLevel]
  split
  · next same => simp only [same, Function.update_self]
  · next different => simp only [Function.update_of_ne different]

theorem lBitMapIsBitSetted_flags (stBits : LBitMapBits) :
    lBitMapIsBitSetted (below + 1) ({ pstLevel with stBits := stBits } : LBitMapLevel _) i =
      lBitMapIsBitSetted (below + 1) pstLevel i := by
  rw [lBitMapIsBitSetted_level, lBitMapIsBitSetted_level]

theorem lBitMapIsBitSetted_allocNext (found : lbitmapAllocNext pstLevel alloc uiPos = some next)
    (same : i / lbitmapUnit below % 256 = uiPos) :
    lBitMapIsBitSetted below next (i % lbitmapUnit below) =
      lBitMapIsBitSetted (below + 1) pstLevel i := by
  rw [lBitMapIsBitSetted_level, same]
  unfold lbitmapAllocNext at found
  split at found
  · next present => rw [present, ← some.inj found, any_some]
  next absent =>
  split at found
  · rw [absent, ← some.inj found, lBitMapIsBitSetted_newNode, any_none]
  · cases found

end Level

/-- The nodes on the way to an index are there or can be allocated. -/
def HasRoom : (below : Nat) → NodeAlloc → LBitMapNode below → Nat → Bool
  | 0, _, _, _ => true
  | below + 1, alloc, (pstLevel : LBitMapLevel (LBitMapNode below)), uiIndex =>
    let uiPos := uiIndex / lbitmapUnit below % 256
    (lbitmapAllocNext pstLevel alloc uiPos).any fun next =>
      HasRoom below (alloc.below uiPos) next (uiIndex % lbitmapUnit below)

theorem lBitMapIsBitSetted_setIndexBit {alloc : NodeAlloc} (low : i < lbitmapUnit below)
    (otherLow : j < lbitmapUnit below) (room : HasRoom below alloc node i = true) :
    lBitMapIsBitSetted below (lbitmapSetIndexBit below alloc node i).1 j =
      (decide (j = i) || lBitMapIsBitSetted below node j) := by
  induction below generalizing alloc i j with
  | zero =>
    rw [lbitmapUnit_zero] at low otherLow
    have whole : i &&& 0xff = i := by
      rw [and_two_pow_sub_one_eq_mod i 8]
      exact mod_eq_of_lt low
    rw [lbitmapSetIndexBit, lBitMapIsBitSetted_leaf, lBitMapIsBitSetted_leaf, whole,
      mod_eq_of_lt otherLow]
    exact lbitmapIsBitSetted_setBit low otherLow
  | succ below ih =>
    obtain ⟨next, found, belowRoom⟩ := (any_eq_true _ _).mp room
    rw [lbitmapSetIndexBit]
    simp only [position_eq, rest_eq, found]
    rw [lBitMapIsBitSetted_setNextLevel]
    split
    · next same =>
      have unit := lbitmapUnit_pos below
      rw [any_some, ih (mod_lt _ unit) (mod_lt _ unit) belowRoom,
        lBitMapIsBitSetted_allocNext found same]
      simp [rest_eq_iff low otherLow same]
    · next different =>
      have other : j ≠ i := fun equal => different (by rw [equal])
      rw [decide_eq_false other, Bool.false_or]

theorem lbitmapSetIndexBit_ok_iff {alloc : NodeAlloc} :
    (lbitmapSetIndexBit below alloc node i).2 = .ok ↔ HasRoom below alloc node i = true := by
  induction below generalizing alloc i with
  | zero => exact ⟨fun _ => rfl, fun _ => rfl⟩
  | succ below ih =>
    rw [lbitmapSetIndexBit, HasRoom]
    simp only [position_eq, rest_eq]
    cases lbitmapAllocNext node alloc (i / lbitmapUnit below % 256) with
    | none => exact ⟨nofun, nofun⟩
    | some => exact ih

theorem lBitMapIsBitSetted_setIndexBit_of_failed {alloc : NodeAlloc}
    (failed : (lbitmapSetIndexBit below alloc node i).2 ≠ .ok) (j : Nat) :
    lBitMapIsBitSetted below (lbitmapSetIndexBit below alloc node i).1 j =
      lBitMapIsBitSetted below node j := by
  induction below generalizing alloc i j with
  | zero => exact absurd rfl failed
  | succ _ ih =>
    rw [lbitmapSetIndexBit] at failed ⊢
    split at failed
    · rfl
    next next found =>
    rw [lBitMapIsBitSetted_setNextLevel]
    split
    · next same =>
      rw [any_some, ih failed, lBitMapIsBitSetted_allocNext found same]
    · rfl

theorem lBitMapIsBitSetted_of_levelEmpty {pstLevel : LBitMapLevel (LBitMapNode below)}
    (empty : lbitmapIsLevelEmpty pstLevel = true) (j : Nat) :
    lBitMapIsBitSetted (below + 1) pstLevel j = false := by
  rw [lbitmapIsLevelEmpty, List.all_eq_true] at empty
  have absent := empty (j / lbitmapUnit below % 256) (List.mem_range.mpr (mod_lt _ (by decide)))
  rw [lBitMapIsBitSetted_level, isNone_iff_eq_none.mp absent, any_none]

theorem lBitMapIsBitSetted_of_empty (empty : (lbitmapClearBit below node i).2 = true) (j : Nat) :
    lBitMapIsBitSetted below (lbitmapClearBit below node i).1 j = false := by
  cases below with
  | zero => exact (lBitMapIsBitSetted_leaf _ _).trans (lbitmapIsBitSetted_of_allCleared empty _)
  | succ =>
    rw [lbitmapClearBit] at empty ⊢
    split at empty
    · cases empty
    split at empty
    · exact lBitMapIsBitSetted_of_levelEmpty empty j
    · cases empty

theorem lBitMapIsBitSetted_clearBit {node : LBitMapNode below}
    (low : i < lbitmapUnit below) (otherLow : j < lbitmapUnit below) :
    lBitMapIsBitSetted below (lbitmapClearBit below node i).1 j =
      (!decide (j = i) && lBitMapIsBitSetted below node j) := by
  induction below generalizing i j with
  | zero =>
    rw [lbitmapUnit_zero] at low otherLow
    have whole : i &&& 0xff = i := by
      rw [and_two_pow_sub_one_eq_mod i 8]
      exact mod_eq_of_lt low
    rw [lbitmapClearBit, lBitMapIsBitSetted_leaf, lBitMapIsBitSetted_leaf, whole,
      mod_eq_of_lt otherLow]
    exact lbitmapIsBitSetted_clrBit low otherLow
  | succ below ih =>
    have unit := lbitmapUnit_pos below
    rw [lbitmapClearBit]
    simp only [position_eq, rest_eq]
    split
    · next absent =>
      rw [lBitMapIsBitSetted_flags]
      by_cases equal : j = i
      · rw [equal, lBitMapIsBitSetted_level, absent, any_none, Bool.and_false]
      · rw [decide_eq_false equal, Bool.not_false, Bool.true_and]
    next next present =>
    -- The child that is left, also where it is freed because it is empty.
    have child : j / lbitmapUnit below % 256 = i / lbitmapUnit below % 256 →
        lBitMapIsBitSetted below (lbitmapClearBit below next (i % lbitmapUnit below)).1
            (j % lbitmapUnit below) =
          (!decide (j = i) && lBitMapIsBitSetted (below + 1) node j) := by
      intro same
      rw [ih (mod_lt _ unit) (mod_lt _ unit), lBitMapIsBitSetted_level, same, present, any_some]
      simp [rest_eq_iff low otherLow same]
    have other : j / lbitmapUnit below % 256 ≠ i / lbitmapUnit below % 256 →
        lBitMapIsBitSetted (below + 1) node j =
          (!decide (j = i) && lBitMapIsBitSetted (below + 1) node j) := by
      intro different
      rw [decide_eq_false fun equal => different (by rw [equal]), Bool.not_false,
        Bool.true_and]
    split
    · next after cleared =>
      rw [lBitMapIsBitSetted_setNextLevel, lBitMapIsBitSetted_flags]
      split
      · next same =>
        rw [← child same, any_none]
        exact (lBitMapIsBitSetted_of_empty (congrArg Prod.snd cleared) _).symm
      · next different => exact other different
    · next after kept =>
      rw [lBitMapIsBitSetted_setNextLevel, lBitMapIsBitSetted_flags]
      split
      · next same => rw [← child same, any_some, kept]
      · next different => exact other different

/-- An index of the range that was clear is set, and no other. -/
structure Allocated (below : Nat) (before after : LBitMapNode below) (uiRangeMin uiRangeMax : Nat)
    (uiBitIndex : Nat) : Prop where
  lower : uiRangeMin ≤ uiBitIndex
  upper : uiBitIndex ≤ uiRangeMax
  clear : lBitMapIsBitSetted below before uiBitIndex = false
  set : ∀ j, j < lbitmapUnit below →
    lBitMapIsBitSetted below after j = (decide (j = uiBitIndex) || lBitMapIsBitSetted below before j)

def Attempted (below : Nat) (before : LBitMapNode below) (uiRangeMin uiRangeMax : Nat) :
    LBitMapNode below × Except BsStatus Nat → Prop
  | (after, .ok uiBitIndex) => Allocated below before after uiRangeMin uiRangeMax uiBitIndex
  | (after, .error _) => ∀ j, lBitMapIsBitSetted below after j = lBitMapIsBitSetted below before j

theorem attempted_getInLeaf {pstLeaf : LBitMapLeaf} {uiRangeMin uiRangeMax : Nat}
    (low : uiRangeMin < 256) (high : uiRangeMax < 256) :
    Attempted 0 pstLeaf uiRangeMin uiRangeMax (lbitmapGetInLeaf pstLeaf uiRangeMin uiRangeMax) := by
  cases got : lbitmapGetInLeaf pstLeaf uiRangeMin uiRangeMax with
  | mk _ result =>
    cases result with
    | error =>
      rw [lbitmapGetInLeaf_error got]
      exact fun _ => rfl
    | ok uiBitIndex =>
      obtain ⟨⟨lower, upper⟩, clear, set⟩ := lbitmapGetInLeaf_ok low high got
      have inside := lt_of_le_of_lt upper high
      refine ⟨lower, upper, ?_, fun j otherLow => ?_⟩
      · rw [lBitMapIsBitSetted_leaf, mod_eq_of_lt inside]
        exact clear
      rw [lbitmapUnit_zero] at otherLow
      rw [lBitMapIsBitSetted_leaf, lBitMapIsBitSetted_leaf, mod_eq_of_lt otherLow, set]
      exact lbitmapIsBitSetted_setBit inside otherLow

section Level

variable {pstLevel : LBitMapLevel (LBitMapNode below)} {alloc : NodeAlloc} {uiPos : Nat}
  {get : NodeAlloc → LBitMapNode below → Nat → Nat → LBitMapNode below × Except BsStatus Nat}

theorem lBitMapIsBitSetted_setNextLevel_same {next : LBitMapNode below}
    (found : lbitmapAllocNext pstLevel alloc uiPos = some next)
    (kept : ∀ k, lBitMapIsBitSetted below after k = lBitMapIsBitSetted below next k) (j : Nat) :
    lBitMapIsBitSetted (below + 1) (setNextLevel pstLevel uiPos (some after)) j =
      lBitMapIsBitSetted (below + 1) pstLevel j := by
  rw [lBitMapIsBitSetted_setNextLevel]
  split
  · next same => rw [any_some, kept, lBitMapIsBitSetted_allocNext found same]
  · rfl

theorem Allocated.setNextLevel {next : LBitMapNode below} {uiRangeMin uiRangeMax uiBitIndex : Nat}
    (allocated : Allocated below next after uiRangeMin uiRangeMax uiBitIndex)
    (found : lbitmapAllocNext pstLevel alloc uiPos = some next) (inside : uiPos < 256)
    (high : uiRangeMax < lbitmapUnit below) :
    Allocated (below + 1) pstLevel (setNextLevel pstLevel uiPos (some after))
      (uiPos * lbitmapUnit below + uiRangeMin) (uiPos * lbitmapUnit below + uiRangeMax)
      (uiPos * lbitmapUnit below + uiBitIndex) := by
  obtain ⟨lower, upper, clear, set⟩ := allocated
  have low := lt_of_le_of_lt upper high
  have rest : (uiPos * lbitmapUnit below + uiBitIndex) % lbitmapUnit below = uiBitIndex :=
    mul_add_mod_of_lt low
  have position : (uiPos * lbitmapUnit below + uiBitIndex) / lbitmapUnit below % 256 = uiPos := by
    rw [mul_comm, mul_add_div (lbitmapUnit_pos below), div_eq_of_lt low, add_zero,
      mod_eq_of_lt inside]
  have whole : uiPos * lbitmapUnit below + uiBitIndex < lbitmapUnit (below + 1) := by
    rw [lbitmapUnit_succ]
    calc uiPos * lbitmapUnit below + uiBitIndex
        < uiPos * lbitmapUnit below + lbitmapUnit below := Nat.add_lt_add_left low _
      _ = lbitmapUnit below * (uiPos + 1) := by rw [mul_succ, mul_comm]
      _ ≤ lbitmapUnit below * 256 := mul_le_mul_left _ inside
  refine ⟨Nat.add_le_add_left lower _, Nat.add_le_add_left upper _, ?_, fun j otherLow => ?_⟩
  · rw [← lBitMapIsBitSetted_allocNext found position, rest]
    exact clear
  rw [lBitMapIsBitSetted_setNextLevel]
  split
  · next same =>
    rw [any_some, set _ (mod_lt _ (lbitmapUnit_pos below)), lBitMapIsBitSetted_allocNext found same]
    have equal := rest_eq_iff whole otherLow (same.trans position.symm)
    rw [rest] at equal
    simp [equal]
  next different =>
  have other : j ≠ uiPos * lbitmapUnit below + uiBitIndex := by
    intro equal
    exact different (by rw [equal, position])
  rw [decide_eq_false other, Bool.false_or]

theorem attempted_getSpec {uiRangeMin uiRangeMax : Nat} (inside : uiPos < 256)
    (high : uiRangeMax < lbitmapUnit below)
    (gets : ∀ next, Attempted below next uiRangeMin uiRangeMax
      (get (alloc.below uiPos) next uiRangeMin uiRangeMax)) :
    Attempted (below + 1) pstLevel (uiPos * lbitmapUnit below + uiRangeMin)
      (uiPos * lbitmapUnit below + uiRangeMax)
      (lbitmapGetSpec get alloc pstLevel uiPos uiRangeMin uiRangeMax) := by
  unfold lbitmapGetSpec
  split
  · exact fun _ => rfl
  next next found =>
  split
  · exact lBitMapIsBitSetted_setNextLevel_same found fun _ => rfl
  have got := gets next
  split
  · next after eRet same =>
    rw [same] at got
    exact lBitMapIsBitSetted_setNextLevel_same found got
  next after uiBitIndex same =>
  rw [same] at got
  have allocated := Allocated.setNextLevel got found inside high
  rw [or_position_eq (lt_of_le_of_lt got.upper high)]
  split
  · exact ⟨allocated.lower, allocated.upper, allocated.clear, fun j otherLow =>
      (lBitMapIsBitSetted_flags _).trans (allocated.set j otherLow)⟩
  · exact allocated

end Level

theorem Attempted.mono {narrowMin narrowMax uiRangeMin uiRangeMax : Nat}
    (attempted : Attempted below before narrowMin narrowMax result) (lower : uiRangeMin ≤ narrowMin)
    (upper : narrowMax ≤ uiRangeMax) : Attempted below before uiRangeMin uiRangeMax result := by
  obtain ⟨_, result⟩ := result
  cases result with
  | error => exact attempted
  | ok =>
    exact ⟨le_trans lower attempted.lower, le_trans attempted.upper upper,
      attempted.clear, attempted.set⟩

theorem Attempted.trans {failed : LBitMapNode below} {uiRangeMin uiRangeMax : Nat}
    (same : ∀ j, lBitMapIsBitSetted below failed j = lBitMapIsBitSetted below before j)
    (attempted : Attempted below failed uiRangeMin uiRangeMax result) :
    Attempted below before uiRangeMin uiRangeMax result := by
  obtain ⟨_, result⟩ := result
  cases result with
  | error => exact fun j => (attempted j).trans (same j)
  | ok =>
    refine ⟨attempted.lower, attempted.upper, ?_, fun j low => ?_⟩
    · rw [← same]
      exact attempted.clear
    · rw [← same]
      exact attempted.set j low

theorem attempted_forPositions {uiRangeMin uiRangeMax : Nat}
    {spec : Nat → LBitMapNode below → LBitMapNode below × Except BsStatus Nat} :
    ∀ num start node,
      (∀ uiPos node, start ≤ uiPos → uiPos < start + num →
        Attempted below node uiRangeMin uiRangeMax (spec uiPos node)) →
      Attempted below node uiRangeMin uiRangeMax (forPositions spec start num node) := by
  intro num
  induction num with
  | zero => exact fun _ _ _ _ => rfl
  | succ _ ih =>
    intro start node attempts
    have attempted := attempts start node (le_refl _) (by omega)
    rw [forPositions]
    split
    · next after uiBitIndex same => rwa [same] at attempted
    next after eRet same =>
    rw [same] at attempted
    refine (ih (start + 1) after fun uiPos node lower upper => ?_).trans
      attempted
    exact attempts uiPos node (by omega) (by omega)

def positionMin (below uiRangeMin uiPos : Nat) : Nat :=
  if uiPos = uiRangeMin / lbitmapUnit below then uiRangeMin % lbitmapUnit below else 0

def positionMax (below uiRangeMax uiPos : Nat) : Nat :=
  if uiPos = uiRangeMax / lbitmapUnit below then uiRangeMax % lbitmapUnit below
  else lbitmapUnit below - 1

section Position

variable {uiRangeMin uiRangeMax uiPos : Nat}

theorem positionMin_lt : positionMin below uiRangeMin uiPos < lbitmapUnit below := by
  have unit := lbitmapUnit_pos below
  unfold positionMin
  split
  · exact mod_lt _ unit
  · exact unit

theorem positionMax_lt : positionMax below uiRangeMax uiPos < lbitmapUnit below := by
  have unit := lbitmapUnit_pos below
  unfold positionMax
  split
  · exact mod_lt _ unit
  · exact sub_one_lt_of_lt unit

theorem positionMin_ge (start : uiRangeMin / lbitmapUnit below ≤ uiPos) :
    uiRangeMin ≤ uiPos * lbitmapUnit below + positionMin below uiRangeMin uiPos := by
  unfold positionMin
  split
  · next first => rw [first, mul_comm, div_add_mod]
  next later =>
  have behind : uiRangeMin / lbitmapUnit below < uiPos := by omega
  exact le_of_lt ((div_lt_iff_lt_mul (lbitmapUnit_pos below)).mp behind)

theorem positionMax_le (stop : uiPos ≤ uiRangeMax / lbitmapUnit below) :
    uiPos * lbitmapUnit below + positionMax below uiRangeMax uiPos ≤ uiRangeMax := by
  unfold positionMax
  split
  · next last => rw [last, mul_comm, div_add_mod]
  next earlier =>
  have before : uiPos + 1 ≤ uiRangeMax / lbitmapUnit below := by omega
  have whole := (le_div_iff_mul_le (lbitmapUnit_pos below)).mp before
  rw [succ_mul] at whole
  omega

/-- What the search does in one position of a level. -/
def getPosition (below : Nat) (alloc : NodeAlloc) (uiRangeMin uiRangeMax uiPos : Nat)
    (pstLevel : LBitMapLevel (LBitMapNode below)) :
    LBitMapLevel (LBitMapNode below) × Except BsStatus Nat :=
  lbitmapGetSpec (lbitmapGet below) alloc pstLevel uiPos (positionMin below uiRangeMin uiPos)
    (positionMax below uiRangeMax uiPos)

theorem lbitmapGet_level {alloc : NodeAlloc} {pstLevel : LBitMapLevel (LBitMapNode below)}
    (low : uiRangeMin < lbitmapUnit (below + 1)) (high : uiRangeMax < lbitmapUnit (below + 1)) :
    lbitmapGet (below + 1) alloc pstLevel uiRangeMin uiRangeMax =
      forPositions (getPosition below alloc uiRangeMin uiRangeMax) (uiRangeMin / lbitmapUnit below)
        (uiRangeMax / lbitmapUnit below + 1 - uiRangeMin / lbitmapUnit below) pstLevel := by
  rw [lbitmapUnit_succ] at low high
  have start := mod_eq_of_lt (Nat.div_lt_of_lt_mul low)
  have stop := mod_eq_of_lt (Nat.div_lt_of_lt_mul high)
  rw [lbitmapGet]
  simp only [position_eq, rest_eq, start, stop]
  rfl

end Position

theorem attempted_get {alloc : NodeAlloc} {node : LBitMapNode below} {uiRangeMin uiRangeMax : Nat}
    (low : uiRangeMin < lbitmapUnit below) (high : uiRangeMax < lbitmapUnit below) :
    Attempted below node uiRangeMin uiRangeMax (lbitmapGet below alloc node uiRangeMin uiRangeMax) := by
  induction below generalizing alloc uiRangeMin uiRangeMax with
  | zero => exact attempted_getInLeaf low high
  | succ below ih =>
    rw [lbitmapGet_level low high]
    rw [lbitmapUnit_succ] at high
    have stopLow := Nat.div_lt_of_lt_mul high
    refine attempted_forPositions _ _ _ fun uiPos pstLevel lower upper => ?_
    have stop : uiPos ≤ uiRangeMax / lbitmapUnit below := by omega
    refine Attempted.mono ?_ (positionMin_ge lower) (positionMax_le stop)
    exact attempted_getSpec (lt_of_le_of_lt stop stopLow) positionMax_lt
      fun next => ih positionMin_lt positionMax_lt

open List

/-- The first set bit of a word between two positions. -/
def lbitmapGetBusyInUint (uiBits : UINT) (ucStartBit ucStopBit : Nat) : Option Nat :=
  (range' ucStartBit (ucStopBit + 1 - ucStartBit)).find? fun uiBitPos =>
    uiBits &&& ((1 : UINT) <<< uiBitPos) != 0

def lbitmapGetBusyInLeaf (pstLeaf : LBitMapLeaf) (uiRangeMin uiRangeMax : Nat) : Option Nat :=
  let ucStartUint := (uiRangeMin >>> 5) &&& 0x7
  let ucStopUint := (uiRangeMax >>> 5) &&& 0x7
  (range' ucStartUint (ucStopUint + 1 - ucStartUint)).findSome? fun uiUintPos =>
    if pstLeaf.stBits uiUintPos = 0 then
      none
    else
      let ucStartBit := if uiUintPos = ucStartUint then uiRangeMin &&& 0x1f else 0
      let ucStopBit := if uiUintPos = ucStopUint then uiRangeMax &&& 0x1f else 31
      (lbitmapGetBusyInUint (pstLeaf.stBits uiUintPos) ucStartBit ucStopBit).map fun uiBitPos =>
        uiUintPos * 32 + uiBitPos

def lbitmapGetBusyBit : (below : Nat) → LBitMapNode below → Nat → Nat → Option Nat
  | 0, (pstLeaf : LBitMapLeaf), uiRangeMin, uiRangeMax =>
    lbitmapGetBusyInLeaf pstLeaf uiRangeMin uiRangeMax
  | below + 1, (pstLevel : LBitMapLevel (LBitMapNode below)), uiRangeMin, uiRangeMax =>
    let uiOffset := lbitmapOffset (below + 1)
    let uiMask := lbitmapMask (below + 1)
    let ucStartIndex := (uiRangeMin >>> uiOffset) % 256
    let ucStopIndex := (uiRangeMax >>> uiOffset) % 256
    (range' ucStartIndex (ucStopIndex + 1 - ucStartIndex)).findSome? fun uiIndex =>
      match pstLevel.apstNextLevel uiIndex with
      | none => none
      | some next =>
        let uiRangeMinChild := if uiIndex = ucStartIndex then uiRangeMin &&& uiMask else 0
        let uiRangeMaxChild := uiMask
        -- The bound of the last child is stored in the lower one.
        let uiRangeMinChild :=
          if uiIndex = ucStopIndex then uiRangeMax &&& uiMask else uiRangeMinChild
        (lbitmapGetBusyBit below next uiRangeMinChild uiRangeMaxChild).map fun uiBitIndex =>
          uiBitIndex ||| (uiIndex <<< uiOffset)

def lBitMapGetFirstBusyBit (pstCtrl : LBitMapCtrl) : Option UINT :=
  (lbitmapGetBusyBit 3 pstCtrl 0 0xffffffff).map (BitVec.ofNat 32)

def lBitMapGetNextBusyBit (pstCtrl : LBitMapCtrl) (uiCurrentBitIndex : UINT) : Option UINT :=
  (lbitmapGetBusyBit 3 pstCtrl (uiCurrentBitIndex + 1).toNat 0xffffffff).map (BitVec.ofNat 32)

/-- `LBitMap_Reset` frees the nodes below level 1 and leaves its flags. -/
def lBitMapReset (pstCtrl : LBitMapCtrl) : LBitMapCtrl :=
  ({ pstCtrl with apstNextLevel := fun _ => none } : LBitMapLevel (LBitMapNode 2))

/-- `LBitMap_TryByRange` returns the index in place of a status. -/
def lBitMapTryByRange (alloc : NodeAlloc) (pstCtrl : LBitMapCtrl) (uiRangeMin uiRangeMax : Nat) :
    LBitMapCtrl × Int :=
  match lbitmapGet 3 alloc pstCtrl uiRangeMin uiRangeMax with
  | (pstCtrl, .ok uiIndex) => (lBitMapClrBit pstCtrl uiIndex, (BitVec.ofNat 32 uiIndex).toInt)
  | (pstCtrl, .error _) => (pstCtrl, BsStatus.notFound.toInt)

inductive LBitMapCall where
  | setBit (uiBitIndex : UINT)
  | clrBit (uiBitIndex : UINT)
  | allocByRange (uiRangeMin uiRangeMax : UINT)
  | tryByRange (uiRangeMin uiRangeMax : UINT)
  | reset

def LBitMapCall.run (alloc : NodeAlloc) (pstCtrl : LBitMapCtrl) : LBitMapCall → LBitMapCtrl
  | setBit uiBitIndex => (lBitMapSetBit alloc pstCtrl uiBitIndex.toNat).1
  | clrBit uiBitIndex => lBitMapClrBit pstCtrl uiBitIndex.toNat
  | allocByRange uiRangeMin uiRangeMax =>
    (lBitMapAllocByRange alloc pstCtrl uiRangeMin.toNat uiRangeMax.toNat).1
  | tryByRange uiRangeMin uiRangeMax =>
    (lBitMapTryByRange alloc pstCtrl uiRangeMin.toNat uiRangeMax.toNat).1
  | reset => lBitMapReset pstCtrl

/-- The nodes that can be allocated are asked anew for each call. -/
def lbitmap : Lib.System LBitMapCtrl (NodeAlloc × LBitMapCall) where
  start pstCtrl := pstCtrl = lBitMapCreate
  step pstCtrl label after := after = label.2.run label.1 pstCtrl

/-- Whether an index is in the set that the bitmap stands for. -/
def LBitMapHas (pstCtrl : LBitMapCtrl) (uiBitIndex : UINT) : Prop :=
  lBitMapIsBitSetted 3 pstCtrl uiBitIndex.toNat = true

instance (pstCtrl : LBitMapCtrl) (uiBitIndex : UINT) : Decidable (LBitMapHas pstCtrl uiBitIndex) :=
  inferInstanceAs (Decidable (_ = _))

theorem toNat_lt_unit (uiBitIndex : UINT) : uiBitIndex.toNat < lbitmapUnit 3 :=
  uiBitIndex.isLt

end MyCode.LBitMap
