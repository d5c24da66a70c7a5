import MyCode.LBitMap.Flags

/-!
# Exact trees

A tree is exact if it flags the full nodes and holds the occupied ones, and no
others.  The searches keep it exact by setting flags on the way up; setting a
single bit does not flag the leaf that it fills, and a reset keeps the flags of
level 1.
-/

namespace MyCode.LBitMap

open Lib Function Option List Nat Bool

variable {below i j : Nat} {node : LBitMapNode below} {child : Option (LBitMapNode below)}
  {uiRangeMin uiRangeMax word : Nat} {pstBits : LBitMapBits}

def Occupied (below : Nat) (node : LBitMapNode below) : Prop :=
  ∃ j < lbitmapUnit below, lBitMapIsBitSetted below node j = true

/-- At every level, a position is flagged if and only if all of its indices are
set, and has a node if and only if one of them is. -/
def TreeExact : (below : Nat) → LBitMapNode below → Prop
  | 0, _ => True
  | below + 1, (pstLevel : LBitMapLevel (LBitMapNode below)) => ∀ uiPos < 256,
      (lbitmapIsBitSetted pstLevel.stBits uiPos = true ↔ ∀ j < lbitmapUnit below,
          lBitMapIsBitSetted (below + 1) pstLevel (uiPos * lbitmapUnit below + j) = true) ∧
      ((pstLevel.apstNextLevel uiPos).isSome = true ↔ ∃ j < lbitmapUnit below,
          lBitMapIsBitSetted (below + 1) pstLevel (uiPos * lbitmapUnit below + j) = true) ∧
      ∀ next, pstLevel.apstNextLevel uiPos = some next → TreeExact below next

structure ChildExact (below : Nat) (flagged : Bool) (child : Option (LBitMapNode below)) :
    Prop where
  flag : flagged = true ↔ ∃ next, child = some next ∧ Full below next
  exact : ∀ next, child = some next → TreeExact below next
  occupied : ∀ next, child = some next → Occupied below next

theorem treeExact_iff {pstLevel : LBitMapLevel (LBitMapNode below)} :
    TreeExact (below + 1) pstLevel ↔ ∀ uiPos < 256,
      ChildExact below (lbitmapIsBitSetted pstLevel.stBits uiPos)
        (pstLevel.apstNextLevel uiPos) := by
  have fullOf (uiPos : Nat) (inside : uiPos < 256) :
      (∀ j < lbitmapUnit below,
        lBitMapIsBitSetted (below + 1) pstLevel (uiPos * lbitmapUnit below + j) = true) ↔
      ∃ next, pstLevel.apstNextLevel uiPos = some next ∧ Full below next := by
    constructor
    · intro set
      have first := set 0 (lbitmapUnit_pos below)
      rw [lBitMapIsBitSetted_index inside (lbitmapUnit_pos below)] at first
      obtain ⟨next, present, -⟩ := (any_eq_true _ _).mp first
      refine ⟨next, present, fun j low => ?_⟩
      have isSet := set j low
      rw [lBitMapIsBitSetted_index inside low, present, any_some] at isSet
      exact isSet
    · rintro ⟨_, present, full⟩ j low
      rw [lBitMapIsBitSetted_index inside low, present, any_some]
      exact full j low
  have occupiedOf (uiPos : Nat) (inside : uiPos < 256) :
      (∃ j < lbitmapUnit below,
        lBitMapIsBitSetted (below + 1) pstLevel (uiPos * lbitmapUnit below + j) = true) ↔
      ∃ next, pstLevel.apstNextLevel uiPos = some next ∧ Occupied below next := by
    constructor
    · rintro ⟨j, low, set⟩
      rw [lBitMapIsBitSetted_index inside low] at set
      obtain ⟨next, present, isSet⟩ := (any_eq_true _ _).mp set
      exact ⟨next, present, j, low, isSet⟩
    rintro ⟨_, present, j, low, set⟩
    refine ⟨j, low, ?_⟩
    rw [lBitMapIsBitSetted_index inside low, present, any_some]
    exact set
  constructor
  · intro exact uiPos inside
    obtain ⟨flag, present, children⟩ := exact uiPos inside
    rw [fullOf uiPos inside] at flag
    rw [occupiedOf uiPos inside] at present
    refine ⟨flag, children, fun next isChild => ?_⟩
    obtain ⟨_, isOther, occupied⟩ := present.mp (by rw [isChild, isSome_some])
    cases isChild.symm.trans isOther
    exact occupied
  intro exact uiPos inside
  obtain ⟨flag, children, occupied⟩ := exact uiPos inside
  refine ⟨by rw [flag, fullOf uiPos inside], ?_, children⟩
  rw [occupiedOf uiPos inside, isSome_iff_exists]
  constructor
  · exact fun ⟨next, present⟩ => ⟨next, present, occupied next present⟩
  · exact fun ⟨next, present, _⟩ => ⟨next, present⟩

theorem treeExact_newNode (below : Nat) : TreeExact below (lbitmapNewNode below) := by
  cases below with
  | zero => trivial
  | succ =>
    rw [treeExact_iff]
    intro uiPos _
    refine ⟨?_, by rintro _ ⟨⟩, by rintro _ ⟨⟩⟩
    rw [lbitmapNewNode, lbitmapIsBitSetted_zero]
    exact ⟨by simp, by simp⟩

theorem TreeExact.flagsSound (exact : TreeExact below node) : FlagsSound below node := by
  induction below with
  | zero => trivial
  | succ _ ih =>
    rw [treeExact_iff] at exact
    intro uiPos inside
    obtain ⟨flag, children, -⟩ := exact uiPos inside
    exact ⟨flag.mp, fun next present => ih (children next present)⟩

theorem TreeExact.full_iff (exact : TreeExact below node) :
    Full below node ↔ lbitmapIsAllSetted (lbitmapNodeBits below node) = true := by
  constructor
  · intro full
    rw [lbitmapIsAllSetted_iff]
    cases below with
    | zero =>
      intro j low
      have set := full j low
      rw [lBitMapIsBitSetted_leaf, mod_eq_of_lt low] at set
      exact set
    | succ =>
      intro uiPos inside
      exact (exact uiPos inside).1.mpr fun j low => full _ (index_lt inside low)
  · exact full_of_allSetted exact.flagsSound

section Level

variable {pstLevel : LBitMapLevel (LBitMapNode below)} {alloc : NodeAlloc} {uiPos : Nat}
  {next after : LBitMapNode below}

theorem ChildExact.of_node {flagged : Bool} (flag : flagged = true ↔ Full below after)
    (exact : TreeExact below after) (occupied : Occupied below after) :
    ChildExact below flagged (some after) where
  flag := by
    rw [flag]
    exact ⟨fun full => ⟨after, rfl, full⟩, fun ⟨_, same, full⟩ => some.inj same ▸ full⟩
  exact := fun _ present => some.inj present ▸ exact
  occupied := fun _ present => some.inj present ▸ occupied

theorem ChildExact.none : ChildExact below false none where
  flag := ⟨nofun, nofun⟩
  exact := nofun
  occupied := nofun

section

variable (exact : TreeExact (below + 1) pstLevel)

include exact

theorem TreeExact.setNextLevel
    (here : ChildExact below (lbitmapIsBitSetted pstLevel.stBits uiPos) child) :
    TreeExact (below + 1) (setNextLevel pstLevel uiPos child) := by
  rw [treeExact_iff] at exact ⊢
  intro other inside
  simp only [MyCode.LBitMap.setNextLevel, update_apply]
  split
  · next same => exact same ▸ here
  · exact exact other inside

theorem TreeExact.setFlag (low : uiPos < 256)
    (exactAfter : TreeExact below after) (full : Full below after) :
    TreeExact (below + 1) { MyCode.LBitMap.setNextLevel pstLevel uiPos (some after) with
      stBits := lbitmapSetBit pstLevel.stBits uiPos } := by
  rw [treeExact_iff] at exact ⊢
  intro other inside
  simp only [MyCode.LBitMap.setNextLevel, update_apply, lbitmapIsBitSetted_setBit low inside]
  split
  · next same =>
    rw [decide_eq_true same, Bool.true_or]
    have first : Occupied below after := ⟨0, lbitmapUnit_pos below, full 0 (lbitmapUnit_pos below)⟩
    exact ChildExact.of_node ⟨fun _ => full, fun _ => rfl⟩ exactAfter first
  · next different =>
    rw [decide_eq_false different, Bool.false_or]
    exact exact other inside

theorem TreeExact.clrFlag (low : uiPos < 256) (here : ChildExact below false child) :
    TreeExact (below + 1) (MyCode.LBitMap.setNextLevel
      { pstLevel with stBits := lbitmapClrBit pstLevel.stBits uiPos } uiPos child) := by
  rw [treeExact_iff] at exact ⊢
  intro other inside
  simp only [MyCode.LBitMap.setNextLevel, update_apply, lbitmapIsBitSetted_clrBit low inside]
  split
  · next same =>
    rw [decide_eq_true same, Bool.not_true, Bool.false_and]
    exact here
  · next different =>
    rw [decide_eq_false different, Bool.not_false, Bool.true_and]
    exact exact other inside

theorem TreeExact.allocNext (low : uiPos < 256)
    (found : lbitmapAllocNext pstLevel alloc uiPos = some next) :
    TreeExact below next ∧
      (lbitmapIsBitSetted pstLevel.stBits uiPos = true ↔ Full below next) ∧
      (pstLevel.apstNextLevel uiPos = some next ∧ Occupied below next ∨
        next = lbitmapNewNode below) := by
  rw [treeExact_iff] at exact
  obtain ⟨flag, children, occupied⟩ := exact uiPos low
  unfold lbitmapAllocNext at found
  split at found
  · next other present =>
    cases found
    refine ⟨children next present, ?_, Or.inl ⟨present, occupied next present⟩⟩
    rw [flag, present]
    exact ⟨fun ⟨_, same, full⟩ => some.inj same ▸ full, fun full => ⟨next, rfl, full⟩⟩
  next absent =>
  split at found
  · cases found
    refine ⟨treeExact_newNode below, ?_, Or.inr rfl⟩
    rw [flag, absent]
    constructor
    · exact nofun
    intro full
    have set := full 0 (lbitmapUnit_pos below)
    rw [lBitMapIsBitSetted_newNode] at set
    cases set
  · cases found

end

end Level

theorem full_congr {after : LBitMapNode below}
    (same : ∀ j, lBitMapIsBitSetted below after j = lBitMapIsBitSetted below node j) :
    Full below after ↔ Full below node := by
  simp [Full, same]

theorem occupied_congr {after : LBitMapNode below}
    (same : ∀ j, lBitMapIsBitSetted below after j = lBitMapIsBitSetted below node j) :
    Occupied below after ↔ Occupied below node := by
  simp [Occupied, same]

theorem TreeExact.getSpec {alloc : NodeAlloc} {pstLevel : LBitMapLevel (LBitMapNode below)}
    {get : NodeAlloc → LBitMapNode below → Nat → Nat → LBitMapNode below × Except BsStatus Nat}
    {uiPos : Nat} (exact : TreeExact (below + 1) pstLevel) (low : uiPos < 256)
    (high : uiRangeMax < lbitmapUnit below) (ordered : uiRangeMin ≤ uiRangeMax)
    (attempts : ∀ next, Attempted below next uiRangeMin uiRangeMax (get (alloc.below uiPos) next uiRangeMin uiRangeMax))
    (exhausts : ∀ next, FlagsSound below next → Exhausts below next uiRangeMin uiRangeMax (get (alloc.below uiPos) next uiRangeMin uiRangeMax))
    (gets : ∀ next, TreeExact below next → TreeExact below (get (alloc.below uiPos) next uiRangeMin uiRangeMax).1) :
    TreeExact (below + 1) (lbitmapGetSpec get alloc pstLevel uiPos uiRangeMin uiRangeMax).1 := by
  unfold lbitmapGetSpec
  split
  · exact exact
  next next found =>
  obtain ⟨exactNext, flag, own⟩ := exact.allocNext low found
  split
  · next flagged =>
    have full := flag.mp flagged
    have first : Occupied below next := ⟨0, lbitmapUnit_pos below, full 0 (lbitmapUnit_pos below)⟩
    exact exact.setNextLevel (.of_node flag exactNext first)
  next unflagged =>
  have attempted := attempts next
  have exhausted := exhausts next exactNext.flagsSound
  have exactAfter := gets next exactNext
  split
  · next after eRet same =>
    rw [same] at attempted exhausted exactAfter
    have occupied : Occupied below next := by
      rcases own with ⟨-, occupied⟩ | new
      · exact occupied
      have set := exhausted uiRangeMin (le_refl _) ordered
      rw [new, lBitMapIsBitSetted_newNode] at set
      cases set
    refine exact.setNextLevel (.of_node ?_ exactAfter ((occupied_congr attempted).mpr occupied))
    rw [flag, full_congr attempted]
  next after uiBitIndex same =>
  rw [same] at attempted exactAfter
  have bound := lt_of_le_of_lt attempted.upper high
  have occupied : Occupied below after := by
    refine ⟨uiBitIndex, bound, ?_⟩
    rw [attempted.set _ bound, decide_eq_true rfl, Bool.true_or]
  split
  · next all => exact exact.setFlag low exactAfter (exactAfter.full_iff.mpr all)
  next notAll =>
  refine exact.setNextLevel (.of_node ?_ exactAfter occupied)
  exact ⟨fun flagged => absurd flagged unflagged,
    fun full => absurd (exactAfter.full_iff.mp full) notAll⟩

theorem TreeExact.get {alloc : NodeAlloc} {node : LBitMapNode below} {uiRangeMin uiRangeMax : Nat}
    (exact : TreeExact below node) (room : ∀ path, alloc path = true)
    (low : uiRangeMin < lbitmapUnit below) (high : uiRangeMax < lbitmapUnit below)
    (ordered : uiRangeMin ≤ uiRangeMax) :
    TreeExact below (lbitmapGet below alloc node uiRangeMin uiRangeMax).1 := by
  induction below generalizing alloc uiRangeMin uiRangeMax with
  | zero => trivial
  | succ below ih =>
    rw [lbitmapGet_level low high]
    rw [lbitmapUnit_succ] at high
    have stopLow := Nat.div_lt_of_lt_mul high
    refine forPositions_invariant exact fun uiPos pstLevel lower upper exactLevel => ?_
    have stop : uiPos ≤ uiRangeMax / lbitmapUnit below := by omega
    have orderedNext := @positionMin_le_positionMax below uiPos _ _ ordered
    exact exactLevel.getSpec (lt_of_le_of_lt stop stopLow) positionMax_lt orderedNext
      (fun next => attempted_get positionMin_lt positionMax_lt)
      (fun next sound => exhausts_get sound (fun path => room _) positionMin_lt positionMax_lt
        orderedNext)
      fun next exactNext => ih exactNext (fun path => room _) positionMin_lt
        positionMax_lt orderedNext

theorem exists_of_not_levelEmpty {pstLevel : LBitMapLevel (LBitMapNode below)}
    (some' : lbitmapIsLevelEmpty pstLevel = false) :
    ∃ uiPos < 256, ∃ next, pstLevel.apstNextLevel uiPos = some next := by
  rw [lbitmapIsLevelEmpty, List.all_eq_false] at some'
  obtain ⟨uiPos, inside, present⟩ := some'
  exact ⟨uiPos, mem_range.mp inside, ne_none_iff_exists'.mp (by simpa using present)⟩

theorem TreeExact.occupied {pstLevel : LBitMapLevel (LBitMapNode below)} {uiPos : Nat}
    {next : LBitMapNode below} (exact : TreeExact (below + 1) pstLevel) (low : uiPos < 256)
    (present : pstLevel.apstNextLevel uiPos = some next) : Occupied (below + 1) pstLevel := by
  obtain ⟨_, inside, set⟩ := (exact uiPos low).2.1.mp (by rw [present, isSome_some])
  exact ⟨_, index_lt low inside, set⟩

theorem TreeExact.clearBit (exact : TreeExact below node) (low : i < lbitmapUnit below) :
    TreeExact below (lbitmapClearBit below node i).1 ∧
      ((lbitmapClearBit below node i).2 = false → Occupied below node →
        Occupied below (lbitmapClearBit below node i).1) := by
  induction below generalizing i with
  | zero =>
    refine ⟨trivial, fun kept _ => ?_⟩
    obtain ⟨j, inside, set⟩ := exists_of_not_allCleared kept
    refine ⟨j, inside, ?_⟩
    rw [lBitMapIsBitSetted_leaf, mod_eq_of_lt inside]
    exact set
  | succ below ih =>
    have unit := lbitmapUnit_pos below
    have position : i / lbitmapUnit below % 256 < 256 := mod_lt _ (by decide)
    have here := treeExact_iff.mp exact _ position
    rw [lbitmapClearBit]
    simp only [position_eq, rest_eq]
    split
    · next absent =>
      have same : update (LBitMapLevel.apstNextLevel node)
          (i / lbitmapUnit below % 256) none = LBitMapLevel.apstNextLevel node := by
        rw [← absent]
        exact update_eq_self ..
      have cleared := exact.clrFlag position .none
      rw [MyCode.LBitMap.setNextLevel, same] at cleared
      refine ⟨cleared, fun _ occupied => ?_⟩
      obtain ⟨j, inside, set⟩ := occupied
      refine ⟨j, inside, ?_⟩
      exact set
    next next present =>
    have rest := mod_lt i unit
    obtain ⟨exactNext, stays⟩ := ih (here.exact next present) rest
    have isClear := @lBitMapIsBitSetted_clearBit below _ _ next rest rest
    rw [decide_eq_true rfl, Bool.not_true, Bool.false_and] at isClear
    split
    · next after _ =>
      have exactLevel := exact.clrFlag position .none
      refine ⟨exactLevel, fun kept _ => ?_⟩
      obtain ⟨_, inside, _, isChild⟩ := exists_of_not_levelEmpty kept
      exact exactLevel.occupied inside isChild
    next after kept =>
    rw [kept] at exactNext stays isClear
    have occupied := stays rfl (here.occupied next present)
    have exactLevel := exact.clrFlag position (.of_node
      ⟨by simp, fun full => absurd (full _ rest) (by rw [isClear]; decide)⟩
      exactNext occupied)
    exact ⟨exactLevel, fun _ _ => exactLevel.occupied position (update_self ..)⟩

theorem hasRoom_of_alloc {alloc : NodeAlloc} (room : ∀ path, alloc path = true) :
    HasRoom below alloc node i = true := by
  induction below generalizing alloc i with
  | zero => rfl
  | succ below ih =>
    rw [HasRoom, Option.any_eq_true]
    cases present : LBitMapLevel.apstNextLevel node (i / lbitmapUnit below % 256) with
    | none =>
      refine ⟨lbitmapNewNode below, ?_, ih fun path => room _⟩
      simp [lbitmapAllocNext, present, room]
    | some next =>
      refine ⟨next, ?_, ih fun path => room _⟩
      simp [lbitmapAllocNext, present]

/-- Another index of the leaf of an index is clear. -/
def LeafHasClear (below : Nat) (node : LBitMapNode below) (i : Nat) : Prop :=
  ∃ j < lbitmapUnit below, j / 256 = i / 256 ∧ j ≠ i ∧ lBitMapIsBitSetted below node j = false

theorem leaf_of_same (same : j / 256 = i / 256) :
    j / lbitmapUnit below = i / lbitmapUnit below ∧
      j % lbitmapUnit below / 256 = i % lbitmapUnit below / 256 := by
  have whole : lbitmapUnit below = 256 * 2 ^ (8 * below) := by
    rw [lbitmapUnit, mul_succ, Nat.pow_add, mul_comm]
  rw [whole, ← Nat.div_div_eq_div_mul, ← Nat.div_div_eq_div_mul, mod_mul_right_div_self,
    mod_mul_right_div_self, same]
  exact ⟨rfl, rfl⟩

theorem LeafHasClear.allocNext {pstLevel : LBitMapLevel (LBitMapNode below)} {alloc : NodeAlloc}
    {next : LBitMapNode below} (low : i < lbitmapUnit (below + 1))
    (found : lbitmapAllocNext pstLevel alloc (i / lbitmapUnit below % 256) = some next)
    (leaf : LeafHasClear (below + 1) pstLevel i) :
    LeafHasClear below next (i % lbitmapUnit below) := by
  obtain ⟨j, inside, sameLeaf, different, clear⟩ := leaf
  obtain ⟨samePosition, sameRest⟩ := @leaf_of_same below _ _ sameLeaf
  have position : j / lbitmapUnit below % 256 = i / lbitmapUnit below % 256 := by
    rw [samePosition]
  refine ⟨j % lbitmapUnit below, mod_lt _ (lbitmapUnit_pos below), sameRest, ?_, ?_⟩
  · exact fun same => different ((rest_eq_iff low inside position).mp same)
  · rw [lBitMapIsBitSetted_allocNext found position]
    exact clear

theorem full_setIndexBit {alloc : NodeAlloc} (low : i < lbitmapUnit below)
    (room : HasRoom below alloc node i = true)
    (leaf : lBitMapIsBitSetted below node i = true ∨ LeafHasClear below node i) :
    Full below (lbitmapSetIndexBit below alloc node i).1 ↔ Full below node := by
  constructor
  · intro full j inside
    have set := full j inside
    rw [lBitMapIsBitSetted_setIndexBit low inside room, or_eq_true, decide_eq_true_iff] at set
    rcases set with rfl | set
    · rcases leaf with set | ⟨k, otherLow, -, different, clear⟩
      · exact set
      have isSet := full k otherLow
      rw [lBitMapIsBitSetted_setIndexBit low otherLow room, decide_eq_false different,
        Bool.false_or, clear] at isSet
      cases isSet
    · exact set
  · intro full j inside
    rw [lBitMapIsBitSetted_setIndexBit low inside room, full j inside, Bool.or_true]

theorem TreeExact.setIndexBit {alloc : NodeAlloc} {node : LBitMapNode below}
    (exact : TreeExact below node) (low : i < lbitmapUnit below)
    (room : HasRoom below alloc node i = true)
    (leaf : lBitMapIsBitSetted below node i = true ∨ LeafHasClear below node i) :
    TreeExact below (lbitmapSetIndexBit below alloc node i).1 := by
  induction below generalizing alloc i with
  | zero => trivial
  | succ below ih =>
    have rest := mod_lt i (lbitmapUnit_pos below)
    have position : i / lbitmapUnit below % 256 < 256 := mod_lt _ (by decide)
    obtain ⟨next, found, belowRoom⟩ := (any_eq_true _ _).mp room
    obtain ⟨exactNext, flag, -⟩ := exact.allocNext position found
    have leafNext : lBitMapIsBitSetted below next (i % lbitmapUnit below) = true ∨
        LeafHasClear below next (i % lbitmapUnit below) := by
      rw [lBitMapIsBitSetted_allocNext found rfl]
      exact leaf.imp_right fun clear => clear.allocNext low found
    rw [lbitmapSetIndexBit]
    simp only [position_eq, rest_eq, found]
    refine exact.setNextLevel (.of_node ?_ (ih exactNext rest belowRoom leafNext) ?_)
    · rw [flag, full_setIndexBit rest belowRoom leafNext]
    · refine ⟨i % lbitmapUnit below, rest, ?_⟩
      rw [lBitMapIsBitSetted_setIndexBit rest rest belowRoom, decide_eq_true rfl, Bool.true_or]

def LevelUnflagged (pstCtrl : LBitMapCtrl) : Prop :=
  ∀ uiPos < 256, lbitmapIsBitSetted (LBitMapLevel.stBits pstCtrl) uiPos = false

/-- Only the eight words of the flags are used. -/
def WordsUsed (pstLevel : LBitMapLevel (LBitMapNode below)) : Prop :=
  ∀ word, 8 ≤ word → pstLevel.stBits word = 0

theorem lbitmapSetBit_word (unused : 8 ≤ word) (i : Nat) :
    lbitmapSetBit pstBits i word = pstBits word := by
  have other : word ≠ i / 32 % 8 := by omega
  rw [lbitmapSetBit_eq, update_of_ne other]

theorem lbitmapClrBit_word (unused : 8 ≤ word) (i : Nat) :
    lbitmapClrBit pstBits i word = pstBits word := by
  have other : word ≠ i / 32 % 8 := by omega
  rw [lbitmapClrBit_eq, update_of_ne other]

section Words

variable {pstLevel : LBitMapLevel (LBitMapNode below)} (used : WordsUsed pstLevel)

include used

theorem WordsUsed.setIndexBit (alloc : NodeAlloc) (i : Nat) :
    WordsUsed (lbitmapSetIndexBit (below + 1) alloc pstLevel i).1 := by
  rw [lbitmapSetIndexBit]
  split <;> exact used

theorem WordsUsed.clearBit (i : Nat) : WordsUsed (lbitmapClearBit (below + 1) pstLevel i).1 := by
  intro word unused
  rw [lbitmapClearBit]
  split
  · exact (lbitmapClrBit_word unused _).trans (used word unused)
  · split <;> exact (lbitmapClrBit_word unused _).trans (used word unused)

theorem WordsUsed.getSpec {alloc : NodeAlloc}
    {get : NodeAlloc → LBitMapNode below → Nat → Nat → LBitMapNode below × Except BsStatus Nat}
    {uiPos : Nat} :
    WordsUsed (lbitmapGetSpec get alloc pstLevel uiPos uiRangeMin uiRangeMax).1 := by
  unfold lbitmapGetSpec
  split
  · exact used
  split
  · exact used
  split
  · exact used
  split
  · exact fun word unused => (lbitmapSetBit_word unused _).trans (used word unused)
  · exact used

theorem WordsUsed.get {alloc : NodeAlloc} {uiRangeMin uiRangeMax : Nat} :
    WordsUsed (lbitmapGet (below + 1) alloc pstLevel uiRangeMin uiRangeMax).1 := by
  exact forPositions_invariant used fun _ _ _ _ usedNode => usedNode.getSpec

end Words

theorem lBitMapReset_eq_create_iff {pstCtrl : LBitMapCtrl} (used : WordsUsed pstCtrl) :
    lBitMapReset pstCtrl = lBitMapCreate ↔ LevelUnflagged pstCtrl := by
  constructor
  · intro same uiPos _
    have flags : LBitMapLevel.stBits pstCtrl = fun _ => 0 := congrArg LBitMapLevel.stBits same
    rw [flags, lbitmapIsBitSetted_zero]
  intro unflagged
  have flags : LBitMapLevel.stBits pstCtrl = fun _ => 0 := by
    funext word
    rcases lt_or_ge word 8 with _ | unused
    · apply BitVec.eq_of_getLsbD_eq
      intro bit bitLow
      have wordOf : (word * 32 + bit) / 32 % 8 = word := by omega
      have bitOf : (word * 32 + bit) % 32 = bit := by omega
      have clear := unflagged (word * 32 + bit) (by omega)
      rw [lbitmapIsBitSetted_eq, wordOf, bitOf] at clear
      rw [clear]
      exact BitVec.getLsbD_zero.symm
    · exact used word unused
  rw [lBitMapReset, flags]
  rfl

def LBitMapCall.KeepsExact (alloc : NodeAlloc) (pstCtrl : LBitMapCtrl) : LBitMapCall → Prop
  | setBit uiBitIndex => HasRoom 3 alloc pstCtrl uiBitIndex.toNat = true ∧
      (LBitMapHas pstCtrl uiBitIndex ∨ LeafHasClear 3 pstCtrl uiBitIndex.toNat)
  | clrBit _ => True
  | allocByRange uiRangeMin uiRangeMax => uiRangeMin ≤ uiRangeMax ∧ ∀ path, alloc path = true
  | tryByRange uiRangeMin uiRangeMax => uiRangeMin ≤ uiRangeMax ∧ ∀ path, alloc path = true
  | reset => LevelUnflagged pstCtrl

section Run

variable {pstCtrl : LBitMapCtrl} {alloc : NodeAlloc} {call : LBitMapCall}

theorem WordsUsed.run (used : WordsUsed pstCtrl) : WordsUsed (call.run alloc pstCtrl) := by
  cases call with
  | setBit => exact used.setIndexBit alloc _
  | clrBit => exact used.clearBit _
  | allocByRange => exact used.get
  | tryByRange uiRangeMin uiRangeMax =>
    have usedAfter := @WordsUsed.get _ _ used alloc uiRangeMin.toNat uiRangeMax.toNat
    rw [LBitMapCall.run, lBitMapTryByRange]
    split
    · next after uiIndex same =>
      rw [same] at usedAfter
      exact usedAfter.clearBit _
    · next after eRet same =>
      rw [same] at usedAfter
      exact usedAfter
  | reset => exact used

theorem TreeExact.run (exact : TreeExact 3 pstCtrl) (used : WordsUsed pstCtrl)
    (keeps : call.KeepsExact alloc pstCtrl) : TreeExact 3 (call.run alloc pstCtrl) := by
  cases call with
  | setBit => exact exact.setIndexBit (toNat_lt_unit _) keeps.1 keeps.2
  | clrBit => exact (exact.clearBit (toNat_lt_unit _)).1
  | allocByRange => exact exact.get keeps.2 (toNat_lt_unit _) (toNat_lt_unit _) keeps.1
  | tryByRange uiRangeMin uiRangeMax =>
    have exactAfter := exact.get keeps.2 (toNat_lt_unit uiRangeMin) (toNat_lt_unit uiRangeMax)
      keeps.1
    have attempted := @attempted_get 3 alloc pstCtrl _ _ (toNat_lt_unit uiRangeMin)
      (toNat_lt_unit uiRangeMax)
    rw [LBitMapCall.run, lBitMapTryByRange]
    split
    · next after uiIndex same =>
      rw [same] at exactAfter attempted
      exact (exactAfter.clearBit (lt_of_le_of_lt attempted.upper (toNat_lt_unit _))).1
    · next after eRet same =>
      rw [same] at exactAfter
      exact exactAfter
  | reset =>
    have new := (lBitMapReset_eq_create_iff used).mpr keeps
    rw [LBitMapCall.run, new]
    exact treeExact_newNode 3

end Run

/-- The tree stays exact, and a reset that is called where no position of level 1
is flagged leaves a new bitmap. -/
theorem lBitMap_treeExact {pstCtrl : LBitMapCtrl}
    (reached : lbitmap.ReachableWhen
      (fun pstCtrl label => label.2.KeepsExact label.1 pstCtrl) pstCtrl) :
    TreeExact 3 pstCtrl ∧ (lBitMapReset pstCtrl = lBitMapCreate ↔ LevelUnflagged pstCtrl) := by
  have holds : TreeExact 3 pstCtrl ∧ WordsUsed pstCtrl := by
    apply reached.invariant
    · rintro _ rfl
      exact ⟨treeExact_newNode 3, fun _ _ => rfl⟩
    · rintro _ _ _ ⟨exact, used⟩ keeps rfl
      exact ⟨exact.run used keeps, used.run⟩
  exact ⟨holds.1, lBitMapReset_eq_create_iff holds.2⟩

theorem lBitMap_treeExact_alloc :
    let pstCtrl := (LBitMapCall.allocByRange 5 9).run (fun _ => true)
      ((LBitMapCall.setBit 5).run (fun _ => true) lBitMapCreate)
    TreeExact 3 pstCtrl ∧ (lBitMapReset pstCtrl = lBitMapCreate ↔ LevelUnflagged pstCtrl) := by
  have leaf : LeafHasClear 3 lBitMapCreate 5 :=
    ⟨6, by decide, rfl, by decide, lBitMapIsBitSetted_newNode 3 6⟩
  have setBit : (LBitMapCall.setBit 5).KeepsExact (fun _ => true) lBitMapCreate :=
    ⟨by decide +kernel, Or.inr leaf⟩
  have alloc (pstCtrl : LBitMapCtrl) :
      (LBitMapCall.allocByRange 5 9).KeepsExact (fun _ => true) pstCtrl :=
    ⟨by decide, fun _ => rfl⟩
  apply lBitMap_treeExact
  apply @System.ReachableWhen.step _ _ lbitmap _ _ (fun _ => true, .allocByRange 5 9) _ _ (alloc _) rfl
  exact @System.ReachableWhen.step _ _ lbitmap _ _ (fun _ => true, .setBit 5) _ (.start rfl) setBit rfl

def Unflagged : (below : Nat) → LBitMapNode below → Prop
  | 0, _ => True
  | below + 1, (pstLevel : LBitMapLevel (LBitMapNode below)) => ∀ uiPos < 256,
      lbitmapIsBitSetted pstLevel.stBits uiPos = false ∧
        ∀ next, pstLevel.apstNextLevel uiPos = some next → Unflagged below next

theorem unflagged_newNode (below : Nat) : Unflagged below (lbitmapNewNode below) := by
  cases below with
  | zero => trivial
  | succ => exact fun uiPos _ => ⟨lbitmapIsBitSetted_zero uiPos, nofun⟩

theorem Unflagged.setIndexBit {alloc : NodeAlloc} {node : LBitMapNode below}
    (unflagged : Unflagged below node) (i : Nat) :
    Unflagged below (lbitmapSetIndexBit below alloc node i).1 := by
  induction below generalizing alloc i with
  | zero => trivial
  | succ below ih =>
    rw [lbitmapSetIndexBit]
    simp only [position_eq, rest_eq]
    split
    · exact unflagged
    next next found =>
    have unflaggedNext : Unflagged below next := by
      unfold lbitmapAllocNext at found
      split at found
      · next present =>
        cases found
        exact (unflagged _ (mod_lt _ (by decide))).2 next present
      split at found
      · cases found
        exact unflagged_newNode below
      · cases found
    intro other inside
    obtain ⟨flag, children⟩ := unflagged other inside
    refine ⟨flag, fun child present => ?_⟩
    simp only [setNextLevel, update_apply] at present
    split at present
    · cases present
      exact ih unflaggedNext _
    · exact children child present

theorem not_treeExact_of_unflagged {node : LBitMapNode (below + 1)}
    (unflagged : Unflagged (below + 1) node)
    (full : ∀ j < 256, lBitMapIsBitSetted (below + 1) node j = true) :
    ¬ TreeExact (below + 1) node := by
  induction below with
  | zero =>
    intro exact
    have flag : lbitmapIsBitSetted (LBitMapLevel.stBits node) 0 = true := by
      refine (exact 0 (by decide)).1.mpr fun j low => ?_
      have whole : 0 * lbitmapUnit 0 + j = j := by omega
      rw [whole]
      exact full j low
    rw [(unflagged 0 (by decide)).1] at flag
    cases flag
  | succ below ih =>
    intro exact
    have unit : 256 ≤ lbitmapUnit (below + 1) := by
      rw [lbitmapUnit_succ]
      exact Nat.le_mul_of_pos_left _ (lbitmapUnit_pos below)
    -- The bits of the first leaf are those of the first position.
    have index (j : Nat) (low : j < 256) :
        ((LBitMapLevel.apstNextLevel node) 0).any
          (fun next => lBitMapIsBitSetted (below + 1) next j) = true := by
      have set := full j low
      have whole := @lBitMapIsBitSetted_index _ _ node 0 (by decide) (lt_of_lt_of_le low unit)
      rw [zero_mul, zero_add] at whole
      rw [← whole]
      exact set
    obtain ⟨next, present, -⟩ := (any_eq_true _ _).mp (index 0 (by decide))
    refine ih ((unflagged 0 (by decide)).2 next present) (fun j low => ?_)
      ((exact 0 (by decide)).2.2 next present)
    have set := index j low
    rw [present, any_some] at set
    exact set

/-- The bitmap after setting the indices below `num`. -/
def setFirst (num : Nat) : LBitMapCtrl :=
  (range num).foldl
    (fun pstCtrl i => (LBitMapCall.setBit (BitVec.ofNat 32 i)).run (fun _ => true) pstCtrl)
    lBitMapCreate

theorem setFirst_spec {num : Nat} (low : num ≤ 256) :
    lbitmap.Reachable (setFirst num) ∧ Unflagged 3 (setFirst num) ∧
      ∀ j < 256, lBitMapIsBitSetted 3 (setFirst num) j = decide (j < num) := by
  induction num with
  | zero => exact ⟨.start rfl, unflagged_newNode 3, fun j _ => lBitMapIsBitSetted_newNode 3 j⟩
  | succ num ih =>
    obtain ⟨reached, unflagged, bits⟩ := ih (by omega)
    have value : (BitVec.ofNat 32 num).toNat = num := mod_eq_of_lt (by omega)
    have setsNext : setFirst (num + 1) =
        (LBitMapCall.setBit (BitVec.ofNat 32 num)).run (fun _ => true) (setFirst num) := by
      rw [setFirst, range_succ, foldl_append]
      rfl
    have stepped : lbitmap.step (setFirst num) (fun _ => true, .setBit (BitVec.ofNat 32 num))
        (setFirst (num + 1)) := setsNext
    refine ⟨.next reached stepped, ?_, fun j inside => ?_⟩
    · rw [setsNext]
      exact unflagged.setIndexBit _
    have room : HasRoom 3 (fun _ => true) (setFirst num) num = true := hasRoom_of_alloc fun _ => rfl
    have unit : 256 ≤ lbitmapUnit 3 := by decide
    rw [setsNext, LBitMapCall.run, value, lBitMapSetBit,
      lBitMapIsBitSetted_setIndexBit (by omega) (by omega) room, bits j inside,
      ← decide_or]
    exact decide_eq_decide.mpr (by omega)

/-- The index 255 fills the first leaf, whose flag stays clear. -/
theorem lBitMap_leafUnflagged :
    ¬ ∀ pstCtrl, lbitmap.Reachable pstCtrl →
      TreeExact 3 pstCtrl ∧ lBitMapReset pstCtrl = lBitMapCreate := by
  intro holds
  obtain ⟨reached, unflagged, bits⟩ := setFirst_spec (le_refl 256)
  refine not_treeExact_of_unflagged unflagged (fun j low => ?_) (holds _ reached).1
  rw [bits j low, decide_eq_true low]

end MyCode.LBitMap
