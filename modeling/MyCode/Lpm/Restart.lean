import MyCode.Lpm.Reset

/-!
# A table after its reset and a fresh one

Threading the free list through the array hides what was in the first two words
of every entry but the first.  The tables can be told apart by what is left
elsewhere, and by the records that only the fresh one keeps.
-/

namespace MyCode.Lpm

open Function List Nat Option

variable {kind : LpmKind} {mem other : Memory} {level firstBitNum : Nat}

section Blocks

variable {lpm otherLpm : LpmArray}

theorem foldl_putBlock_freeList_congr {n : Nat} (bounded : n < 2 ^ 31)
    (array : lpm.array = otherLpm.array) (freeList : lpm.freeList = otherLpm.freeList) :
    ((range n).foldl (putBlock kind) lpm).freeList =
      ((range n).foldl (putBlock kind) otherLpm).freeList := by
  cases n with
  | zero => exact freeList
  | succ => rw [foldl_putBlock_freeList bounded, foldl_putBlock_freeList bounded, array]

theorem foldl_putBlock_mem_congr {n a : Nat} (bounded : n < 2 ^ 31)
    (array : lpm.array = otherLpm.array) (freeList : lpm.freeList = otherLpm.freeList)
    (same : lpm.mem a = otherLpm.mem a ∨ ∃ i word, 1 ≤ i ∧ i ≤ n ∧ word < 2 ∧
      a = lpm.array + i * kind.entryWords + word) :
    ((range n).foldl (putBlock kind) lpm).mem a =
      ((range n).foldl (putBlock kind) otherLpm).mem a := by
  induction n with
  | zero =>
    obtain same | ⟨_, _, _, _, -⟩ := same
    · exact same
    · omega
  | succ n ih =>
    have lists := @foldl_putBlock_freeList_congr kind lpm otherLpm n (by omega) array freeList
    rw [foldl_putBlock_succ_mem bounded, foldl_putBlock_succ_mem bounded, ← array, ← lists]
    by_cases written : a = lpm.array + (n + 1) * kind.entryWords ∨
        a = lpm.array + (n + 1) * kind.entryWords + 1
    · obtain first | second := written
      · rw [first, store64_self, store64_self]
      · rw [second, store64, update_self, store64, update_self]
    rw [store64_of_outside (by omega), store64_of_outside (by omega)]
    apply ih (by omega)
    obtain same | ⟨i, word, positive, _, small, place⟩ := same
    · exact .inl same
    refine .inr ⟨i, word, positive, ?_, small, place⟩
    by_contra last
    rw [show i = n + 1 by omega] at place
    omega

theorem foldl_putBlock_mem_below {n a : Nat} (bounded : n < 2 ^ 31)
    (below : a < lpm.array + kind.entryWords) :
    ((range n).foldl (putBlock kind) lpm).mem a = lpm.mem a := by
  induction n with
  | zero => rfl
  | succ n ih =>
    have behind : kind.entryWords ≤ (n + 1) * kind.entryWords :=
      Nat.le_mul_of_pos_left _ (succ_pos n)
    rw [foldl_putBlock_succ_mem bounded, store64_of_outside (by omega)]
    exact ih (by omega)

end Blocks

def threaded (kind : LpmKind) (lpm : LpmArray) (mem : Memory) : LpmArray :=
  initFreelist kind (fun _ => 0) ⟨mem, lpm.array, lpm.arraySize, 0⟩

section Threaded

variable {lpm : LpmArray} {i : Nat}

theorem threaded_array : (threaded kind lpm mem).array = lpm.array := by
  exact (foldl_putBlock_array _).1

theorem threaded_arraySize : (threaded kind lpm mem).arraySize = lpm.arraySize := by
  exact (foldl_putBlock_array _).2

variable (positive : 0 < lpm.arraySize.toNat)

section

include positive

theorem threaded_count :
    ∃ n, n < 2 ^ 31 ∧ (∀ i, i < lpm.arraySize.toNat → ¬ LeftAlone lpm i → 1 ≤ i ∧ i ≤ n) ∧
      (2 ^ 31 < lpm.arraySize.toNat → n = 0) ∧
      ∀ mem, threaded kind lpm mem =
        (range n).foldl (putBlock kind) ⟨mem, lpm.array, lpm.arraySize, 0⟩ := by
  refine ⟨(lpm.arraySize - 1).toInt.toNat, ?_, ?_, toInt_sub_one_of_lt, fun mem => initFreelist_eq _ _⟩
  · by_cases wide : 2 ^ 31 < lpm.arraySize.toNat
    · rw [toInt_sub_one_of_lt wide]
      decide
    · rw [toInt_sub_one_of_le positive (by omega)]
      omega
  · intro i inside kept
    rw [LeftAlone, not_or] at kept
    rw [toInt_sub_one_of_le positive (by omega)]
    omega

theorem threaded_leftAlone (leftAlone : LeftAlone lpm i) :
    (threaded kind lpm mem).mem (lpm.array + i * kind.entryWords) =
      mem (lpm.array + i * kind.entryWords) := by
  obtain ⟨_, bounded, -, wide, shape⟩ := @threaded_count kind lpm positive
  rw [shape mem]
  obtain rfl | large := leftAlone
  · have words := entryWords_pos kind
    exact foldl_putBlock_mem_below bounded (by
      rw [zero_mul]
      exact Nat.add_lt_add_left words _)
  · rw [wide large]
    rfl

theorem threaded_mem_congr {a : Nat}
    (same : mem a = other a ∨ ∃ i word, i < lpm.arraySize.toNat ∧ ¬ LeftAlone lpm i ∧ word < 2 ∧
      a = lpm.array + i * kind.entryWords + word) :
    (threaded kind lpm mem).mem a = (threaded kind lpm other).mem a := by
  obtain ⟨_, bounded, listed, -, shape⟩ := @threaded_count kind lpm positive
  rw [shape mem, shape other]
  refine foldl_putBlock_mem_congr bounded rfl rfl ?_
  obtain same | ⟨i, word, inside, kept, small, place⟩ := same
  · exact .inl same
  · exact .inr ⟨i, word, (listed i inside kept).1, (listed i inside kept).2, small, place⟩

theorem threaded_freeList :
    (threaded kind lpm mem).freeList = (threaded kind lpm other).freeList := by
  obtain ⟨_, bounded, -, -, shape⟩ := @threaded_count kind lpm positive
  rw [shape mem, shape other]
  exact foldl_putBlock_freeList_congr bounded rfl rfl

end

theorem clearedMemory_entry (inside : i < lpm.arraySize.toNat) {word : Nat}
    (small : word < kind.entryWords) :
    clearedMemory kind lpm (lpm.array + i * kind.entryWords + word) = 0 := by
  have last : (i + 1) * kind.entryWords ≤ lpm.arraySize.toNat * kind.entryWords :=
    mul_le_mul_right _ inside
  rw [succ_mul] at last
  exact if_pos (by omega)

theorem threaded_cleared_free (inside : i < lpm.arraySize.toNat) :
    entryState (threaded kind lpm (clearedMemory kind lpm)).mem (lpm.array + i * kind.entryWords) =
      stateFree := by
  have positive : 0 < lpm.arraySize.toNat := by omega
  have word := entryWords_pos kind
  by_cases leftAlone : LeftAlone lpm i
  · rw [entryState, threaded_leftAlone positive leftAlone]
    have zeroed := clearedMemory_entry inside word
    rw [add_zero] at zeroed
    rw [zeroed]
    decide
  obtain ⟨_, bounded, listed, -, shape⟩ := @threaded_count kind lpm positive
  rw [shape]
  apply foldl_putBlock_free bounded _ rfl i (listed i inside leftAlone).2
  have zeroed := clearedMemory_entry positive word
  rw [Nat.zero_mul, Nat.add_zero] at zeroed
  simp only [entryState, zeroed]
  decide

include positive in
theorem threaded_eq_cleared (zero : LeftoverZero kind lpm) :
    threaded kind lpm lpm.mem = threaded kind lpm (clearedMemory kind lpm) := by
  have memory : (threaded kind lpm lpm.mem).mem =
      (threaded kind lpm (clearedMemory kind lpm)).mem := by
    funext a
    apply threaded_mem_congr positive
    by_cases within : lpm.array ≤ a ∧ a < lpm.array + lpm.arraySize.toNat * kind.entryWords
    · have word := entryWords_pos kind
      have inside : (a - lpm.array) / kind.entryWords < lpm.arraySize.toNat := by
        rw [div_lt_iff_lt_mul word]
        omega
      have small := mod_lt (a - lpm.array) word
      have place : a = lpm.array + (a - lpm.array) / kind.entryWords * kind.entryWords +
          (a - lpm.array) % kind.entryWords := by
        have parts := div_add_mod' (a - lpm.array) kind.entryWords
        omega
      by_cases kept : LeftAlone lpm ((a - lpm.array) / kind.entryWords) ∨
          2 ≤ (a - lpm.array) % kind.entryWords
      · left
        rw [place, zero _ _ inside small kept, clearedMemory_entry inside small]
      · rw [not_or, not_le] at kept
        exact .inr ⟨_, _, inside, kept.1, kept.2, place⟩
    · left
      rw [clearedMemory, memsetZero, if_neg within]
  have parts : ∀ one two : LpmArray, one.mem = two.mem → one.array = two.array →
      one.arraySize = two.arraySize → one.freeList = two.freeList → one = two := by
    rintro ⟨_, _, _, _⟩ ⟨_, _, _, _⟩ rfl rfl rfl rfl
    rfl
  apply parts _ _ memory
  · rw [threaded_array, threaded_array]
  · rw [threaded_arraySize, threaded_arraySize]
  · exact threaded_freeList positive

end Threaded

section Lookups

variable {lpm : LpmS LpmArray} {left : Nat}

theorem lpmLookup_eq (kind : LpmKind) (lpm : LpmS LpmArray) (ip : UINT) :
    lpmLookup kind.funcs lpm ip = arrayLookup kind lpm ip := by
  cases kind <;> rfl

theorem leading_address_zero (depth : Nat) : leading depth 0 = 0 := by
  rw [leading, BitVec.ofNat_eq_ofNat, BitVec.toNat_ofNat, zero_mod, Nat.zero_div]

theorem lookup_isSome_iff (first : lpm.bitNum 0 = firstBitNum) (upper : firstBitNum ≤ 24)
    (deep : lpm.level = left + 1) (singles : SingleEntries kind firstBitNum lpm.array) (ip : UINT) :
    (lpmLookup kind.funcs lpm ip).isSome ↔
      entryState lpm.array.mem (firstEntry kind firstBitNum lpm.array ip) = stateValid := by
  have inside : firstBitNum ≤ 32 := by omega
  have index : entryIndex ip 0 (0 + firstBitNum) = leading firstBitNum ip := by
    rw [zero_add, entryIndex_eq (zero_le _) inside, Nat.sub_zero,
      mod_eq_of_lt (leading_lt inside ip)]
  have single := singles ip
  rw [firstEntry] at single
  rw [lpmLookup_eq, arrayLookup, deep, arrayLookupInner, first, index, firstEntry]
  split
  · next valid => exact iff_of_true rfl valid
  · next invalid => exact iff_of_false (by simp) invalid

end Lookups

section Levels

variable {lpm : LpmS LpmArray} {i : Nat}

theorem arrayResetLevel_array :
    (arrayResetLevel kind lpm level firstBitNum).array = threaded kind lpm.array lpm.array.mem := by
  cases kind <;> rfl

theorem arrayFreshLevel_array :
    (arrayFreshLevel kind lpm level firstBitNum).array =
      threaded kind lpm.array (clearedMemory kind lpm.array) := by
  unfold arrayFreshLevel lpmFresh
  cases lpm.recordingMap <;> cases kind <;> rfl

theorem arrayResetLevel_place :
    (arrayResetLevel kind lpm level firstBitNum).array.array = lpm.array.array := by
  rw [arrayResetLevel_array, threaded_array]

theorem arrayFreshLevel_place :
    (arrayFreshLevel kind lpm level firstBitNum).array.array = lpm.array.array := by
  rw [arrayFreshLevel_array, threaded_array]

theorem arrayFreshLevel_bitNum :
    (arrayFreshLevel kind lpm level firstBitNum).bitNum =
      (arrayResetLevel kind lpm level firstBitNum).bitNum := by
  unfold arrayFreshLevel lpmFresh
  cases lpm.recordingMap <;> cases kind <;> rfl

theorem arrayResetLevel_recordingMap :
    (arrayResetLevel kind lpm level firstBitNum).recordingMap = none := by
  cases kind <;> rfl

theorem arrayFreshLevel_recordingMap :
    (arrayFreshLevel kind lpm level firstBitNum).recordingMap =
      lpm.recordingMap.map fun _ _ => none := by
  unfold arrayFreshLevel lpmFresh
  cases lpm.recordingMap <;> cases kind <;> rfl

section Entries

variable (large : 2 ^ firstBitNum < lpm.array.arraySize.toNat) (inside : i < 2 ^ firstBitNum)

include large inside

theorem freshEntry_free :
    entryState (arrayFreshLevel kind lpm level firstBitNum).array.mem
      (lpm.array.array + i * kind.entryWords) = stateFree := by
  rw [arrayFreshLevel_array]
  exact threaded_cleared_free (lt_trans inside large)

theorem resetEntry_leftAlone (leftAlone : LeftAlone lpm.array i) :
    (arrayResetLevel kind lpm level firstBitNum).array.mem (lpm.array.array + i * kind.entryWords) =
      lpm.array.mem (lpm.array.array + i * kind.entryWords) := by
  rw [arrayResetLevel_array]
  exact threaded_leftAlone (by omega) leftAlone

theorem freshEntry_leftAlone (leftAlone : LeftAlone lpm.array i) :
    entryDepth (arrayFreshLevel kind lpm level firstBitNum).array.mem
      (lpm.array.array + i * kind.entryWords) = 0 := by
  have zeroed := clearedMemory_entry (lt_trans inside large) (entryWords_pos kind)
  rw [add_zero] at zeroed
  rw [arrayFreshLevel_array, entryDepth, threaded_leftAlone (by omega) leftAlone, zeroed]
  decide

theorem resetEntry_threaded (kept : ¬ LeftAlone lpm.array i) :
    (arrayResetLevel kind lpm level firstBitNum).array.mem (lpm.array.array + i * kind.entryWords) =
      (arrayFreshLevel kind lpm level firstBitNum).array.mem
        (lpm.array.array + i * kind.entryWords) := by
  rw [arrayResetLevel_array, arrayFreshLevel_array]
  apply threaded_mem_congr (by omega)
  exact .inr ⟨i, 0, lt_trans inside large, kept, by decide, rfl⟩

end Entries

variable (large : 2 ^ firstBitNum < lpm.array.arraySize.toNat) (upper : firstBitNum ≤ 24)

include large upper

theorem freshLevel_single :
    SingleEntries kind firstBitNum (arrayFreshLevel kind lpm level firstBitNum).array := by
  intro y
  rw [firstEntry, arrayFreshLevel_place, freshEntry_free large (leading_lt (by omega) y)]
  decide

theorem resetLevel_single (single : LeftoverSingle kind firstBitNum lpm.array) :
    SingleEntries kind firstBitNum (arrayResetLevel kind lpm level firstBitNum).array := by
  intro y
  have index := leading_lt (show firstBitNum ≤ 32 by omega) y
  rw [firstEntry, arrayResetLevel_place, entryState]
  by_cases leftAlone : LeftAlone lpm.array (leading firstBitNum y)
  · rw [resetEntry_leftAlone large index leftAlone]
    exact single _ index leftAlone
  · rw [resetEntry_threaded large index leftAlone, ← entryState, freshEntry_free large index]
    decide

theorem resetLevel_lookup (two : 2 ≤ level) (single : LeftoverSingle kind firstBitNum lpm.array)
    {y : UINT} (leftAlone : LeftAlone lpm.array (leading firstBitNum y)) :
    (lpmLookup kind.funcs (arrayResetLevel kind lpm level firstBitNum) y).isSome ↔
      entryState lpm.array.mem (lpm.array.array + leading firstBitNum y * kind.entryWords) =
        stateValid := by
  have found := @lookup_isSome_iff kind firstBitNum (arrayResetLevel kind lpm level firstBitNum)
    (level - 1) rfl upper (show level = level - 1 + 1 by omega)
    (resetLevel_single large upper single) y
  rw [firstEntry, arrayResetLevel_place, entryState,
    resetEntry_leftAlone large (leading_lt (by omega) y) leftAlone] at found
  exact found

theorem resetLevel_agrees (single : LeftoverSingle kind firstBitNum lpm.array)
    (misses : LeftoverMisses kind firstBitNum lpm.array) (recording : lpm.recordingMap = none) :
    FirstLevelAgrees kind firstBitNum (arrayResetLevel kind lpm level firstBitNum)
      (arrayFreshLevel kind lpm level firstBitNum) := by
  refine ⟨rfl, upper, arrayFreshLevel_bitNum, rfl, arrayResetLevel_recordingMap, ?_, ?_⟩
  · rw [arrayFreshLevel_recordingMap, recording]
    rfl
  rw [arrayResetLevel_place]
  refine ⟨arrayResetLevel_place, arrayFreshLevel_place, fun i inside => ?_⟩
  have free := @freshEntry_free kind level firstBitNum lpm i large inside
  have notValid : stateFree ≠ stateValid := by decide
  by_cases leftAlone : LeftAlone lpm.array i
  · have left := @resetEntry_leftAlone kind level firstBitNum lpm i large inside leftAlone
    obtain ⟨invalid, shallow⟩ := misses i inside leftAlone
    refine ⟨?_, ?_, ?_, ?_, ?_⟩
    · rw [freshEntry_leftAlone large inside leftAlone, entryDepth, left]
      exact shallow
    · rw [entryState, left]
      exact single i inside leftAlone
    · rw [free]
      decide
    · rw [free, entryState, left]
      exact iff_of_false invalid notValid
    · rw [free]
      exact fun valid => absurd valid notValid
  have same := @resetEntry_threaded kind level firstBitNum lpm i large inside leftAlone
  refine ⟨?_, ?_, ?_, ?_, ?_⟩
  · rw [entryDepth, same, ← entryDepth]
  · rw [entryState, same, ← entryState, free]
    decide
  · rw [free]
    decide
  · rw [entryState, same, ← entryState]
  · rw [free]
    exact fun valid => absurd valid notValid

theorem freshLevel_misses (two : 2 ≤ level) (ip : UINT) :
    lpmLookup kind.funcs (arrayFreshLevel kind lpm level firstBitNum) ip = none := by
  have singles := @freshLevel_single kind level firstBitNum lpm large upper
  have found := @lookup_isSome_iff kind firstBitNum (arrayFreshLevel kind lpm level firstBitNum)
    (level - 1) rfl upper (show level = level - 1 + 1 by omega) singles ip
  rw [firstEntry, arrayFreshLevel_place, freshEntry_free large (leading_lt (by omega) ip)] at found
  cases same : lpmLookup kind.funcs (arrayFreshLevel kind lpm level firstBitNum) ip with
  | none => rfl
  | some =>
    rw [same] at found
    exact absurd (found.mp rfl) (by decide)

end Levels

theorem forIndices_arraySize {step : Nat → LpmArray → LpmArray × BsStatus}
    (steps : ∀ i lpm, (step i lpm).1.arraySize = lpm.arraySize) (i num : Nat) (lpm : LpmArray) :
    (forIndices step i num lpm).1.arraySize = lpm.arraySize := by
  induction num generalizing i lpm with
  | zero => rfl
  | succ _ ih =>
    have stepped := steps i lpm
    rw [forIndices]
    split
    · next same =>
      rw [same] at stepped
      rw [ih]
      exact stepped
    · next same =>
      rw [same] at stepped
      exact stepped

theorem allocEntry_arraySize (kind : LpmKind) (bitNum : Nat → Nat) (lpm : LpmArray) :
    (allocEntry kind bitNum lpm).2.arraySize = lpm.arraySize := by
  unfold allocEntry freeListGet
  split
  · next same =>
    split at same <;> cases same
    rfl
  next same =>
  split at same <;> cases same
  cases kind with
  | lpm64b => rfl
  | lpm => simp only; split <;> rfl
  | lpm32b => simp only; split <;> rfl

theorem arrayAddInner_arraySize (kind : LpmKind) (bitNum : Nat → Nat) (ip : UINT) (depth : Nat)
    (nexthop : UINT64) (left level entrys : Nat) (lpm : LpmArray) :
    (arrayAddInner kind bitNum ip depth nexthop left level entrys lpm).1.arraySize =
      lpm.arraySize := by
  induction left generalizing level entrys lpm with
  | zero => rfl
  | succ _ ih =>
    rw [arrayAddInner]
    simp only
    split
    · split
      · exact ih _ _ _
      have alloc := allocEntry_arraySize kind bitNum lpm
      split
      · next same =>
        rw [same] at alloc
        exact alloc
      next same =>
      rw [same] at alloc
      rw [ih]
      exact alloc
    · apply forIndices_arraySize
      intro i current
      split
      · exact ih _ _ _
      · split <;> rfl

section Calls

variable {lpm : LpmS LpmArray} {left : Nat}

section FirstLevels

variable (first : lpm.bitNum 0 = firstBitNum) (upper : firstBitNum ≤ 24)
  (deep : lpm.level = left + 1) (singles : SingleEntries kind firstBitNum lpm.array)

include first upper deep singles

theorem add_fillsPrefix (lower : 1 ≤ firstBitNum) (recording : lpm.recordingMap = none)
    (alloc : LpmAlloc) :
    ∃ array, (lpmAdd kind.funcs lpm alloc 0 firstBitNum 1).1 = { lpm with array := array } ∧
      array.arraySize = lpm.array.arraySize ∧
      FillsPrefix kind firstBitNum 0 firstBitNum stateValid lpm.array array := by
  have call : ∃ nexthop, lpmAdd kind.funcs lpm alloc 0 firstBitNum 1 =
      arrayAdd kind lpm 0 firstBitNum nexthop := by
    unfold lpmAdd
    rw [recording, BitVec.ofNat_eq_ofNat, BitVec.zero_and]
    cases kind <;> exact ⟨_, rfl⟩
  obtain ⟨nexthop, call⟩ := call
  have fills := arrayAddInner_fillsPrefix first upper singles left nexthop (le_refl _)
    (BitVec.zero_and : 0#32 &&& prefix2Mask firstBitNum = 0#32)
  refine ⟨_, ?_, arrayAddInner_arraySize _ _ _ _ _ _ _ _ _, fills⟩
  rw [call, arrayAdd, if_neg (by omega)]
  simp [BitVec.zero_and, deep]

theorem lookup_add (lower : 1 ≤ firstBitNum) (recording : lpm.recordingMap = none)
    (shallow : entryDepth lpm.array.mem (firstEntry kind firstBitNum lpm.array 0) ≤ firstBitNum)
    (alloc : LpmAlloc) :
    (lpmLookup kind.funcs (lpmAdd kind.funcs lpm alloc 0 firstBitNum 1).1 0).isSome := by
  obtain ⟨array, call, -, fills⟩ := add_fillsPrefix first upper deep singles lower recording alloc
  rw [call]
  have found := @lookup_isSome_iff kind firstBitNum { lpm with array := array } left first upper deep
    (fills.single singles (by decide)) 0
  exact found.mpr ((fills.states 0).trans (if_pos ⟨rfl, shallow⟩))

theorem lookup_del (notNull : 0 < lpm.array.array) (ip : UINT) :
    (lpmLookup kind.funcs (lpmDel kind.funcs lpm 0 0 0 5) ip).isSome ↔
      entryDepth lpm.array.mem (firstEntry kind firstBitNum lpm.array ip) = 0 ∨
        entryState lpm.array.mem (firstEntry kind firstBitNum lpm.array ip) = stateValid := by
  have call : ∃ map, lpmDel kind.funcs lpm 0 0 0 5 =
      arrayDel kind { lpm with recordingMap := map } 0 0 0 5 := by
    obtain ⟨-, -, map, -⟩ := lpm
    cases map <;> cases kind <;> exact ⟨_, rfl⟩
  obtain ⟨map, call⟩ := call
  have fills := arrayDelInner_fillsPrefix first upper singles left 0 5 (zero_le _)
    (BitVec.zero_and : 0#32 &&& prefix2Mask 0 = 0#32) (by omega)
  rw [call, arrayDel]
  simp only [deep]
  have found := @lookup_isSome_iff kind firstBitNum
    ⟨lpm.bitNum, left + 1, map, arrayDelInner kind lpm.bitNum 0 0 0 5 (left + 1) 0 lpm.array.array
      lpm.array⟩
    left first upper rfl (fills.single singles (arrayNewState_ne_group _ _)) ip
  have state := fills.states ip
  rw [show arrayNewState 0 5 = stateValid from rfl, leading_zero, leading_zero] at state
  simp only [le_zero, true_and] at state
  refine found.trans ((Eq.congr_left state).trans ?_)
  split
  · next depth => exact iff_of_true rfl (.inl depth)
  · next depth => rw [or_iff_right depth]

end FirstLevels

end Calls

theorem reset_keeps_route {otherLeft : Nat} (first : lpm.bitNum 0 = firstBitNum)
    (upper : firstBitNum ≤ 24) (deep : lpm.level = otherLeft + 1)
    (singles : SingleEntries kind firstBitNum lpm.array) (lower : 1 ≤ firstBitNum)
    (recording : lpm.recordingMap = none)
    (shallow : entryDepth lpm.array.mem (firstEntry kind firstBitNum lpm.array 0) ≤ firstBitNum)
    (large : 2 ^ firstBitNum < lpm.array.arraySize.toNat) (two : 2 ≤ level) (alloc : LpmAlloc) :
    (lpmLookup kind.funcs (arrayResetLevel kind (lpmAdd kind.funcs lpm alloc 0 firstBitNum 1).1
      level firstBitNum) 0).isSome := by
  obtain ⟨array, call, size, fills⟩ := add_fillsPrefix first upper deep singles lower recording alloc
  have added := fills.single singles (by decide)
  have single : LeftoverSingle kind firstBitNum array := by
    intro i inside _
    obtain ⟨y, rfl⟩ := exists_leading_eq (by omega) inside
    exact added y
  have found := @resetLevel_lookup kind level firstBitNum { lpm with array := array }
    (size.symm ▸ large) upper two single 0 (.inl (leading_address_zero firstBitNum))
  rw [call]
  exact found.mpr ((fills.states 0).trans (if_pos ⟨rfl, shallow⟩))

theorem StartsFresh.no_recording {Array : Type} {funcs : LpmFuncs Array} {lpm fresh : LpmS Array}
    {map : LpmRecordKey → Option UINT64} (recording : fresh.recordingMap = some map)
    (added : ∀ alloc, (lpmLookup funcs (lpmAdd funcs lpm alloc 0 firstBitNum 1).1 0).isSome)
    (starts : ∀ calls, (∀ call ∈ calls, LpmCall.Shallow firstBitNum call) →
      StartsFresh funcs lpm fresh calls) : False := by
  have empty := starts [] nofun
  have missed : lpmLookup funcs fresh 0 = none := (empty.lookups 0).symm.trans (empty.misses 0)
  have short : ∀ call ∈ [LpmCall.add ⟨false, false, fun _ => false⟩ 0 firstBitNum 1],
      LpmCall.Shallow firstBitNum call := by
    intro call inside
    rw [mem_singleton.mp inside]
    exact le_refl _
  have same := (starts _ short).lookups 0
  have refused : lpmAdd funcs fresh ⟨false, false, fun _ => false⟩ 0 firstBitNum 1 =
      (fresh, .noMemory) := by
    simp [lpmAdd, recording]
  simp only [foldl_cons, foldl_nil, LpmCall.run, refused, missed] at same
  have found := added ⟨false, false, fun _ => false⟩
  rw [same] at found
  exact Bool.noConfusion found

section Arrays

variable {lpm : LpmS LpmArray} (layout : LpmLayout level firstBitNum)
  (large : 2 ^ firstBitNum < lpm.array.arraySize.toNat)

include layout large

theorem startsFresh_of_misses (single : LeftoverSingle kind firstBitNum lpm.array)
    (misses : LeftoverMisses kind firstBitNum lpm.array) (recording : lpm.recordingMap = none)
    {calls : List LpmCall} (shallow : ∀ call ∈ calls, call.Shallow firstBitNum) :
    StartsFresh kind.funcs (arrayResetLevel kind lpm level firstBitNum)
      (arrayFreshLevel kind lpm level firstBitNum) calls := by
  have agrees := @resetLevel_agrees kind level firstBitNum lpm large layout.firstUpper single misses
    recording
  constructor
  · intro ip
    rw [agrees.lookup]
    exact freshLevel_misses large layout.firstUpper layout.levelLower ip
  · exact (agrees.runs shallow).lookup

theorem startsFresh_of_zero (zero : LeftoverZero kind lpm.array)
    (recording : lpm.recordingMap = none) (calls : List LpmCall) :
    StartsFresh kind.funcs (arrayResetLevel kind lpm level firstBitNum)
      (arrayFreshLevel kind lpm level firstBitNum) calls := by
  have array := threaded_eq_cleared (lt_of_le_of_lt (zero_le _) large) zero
  have same : arrayResetLevel kind lpm level firstBitNum =
      arrayFreshLevel kind lpm level firstBitNum := by
    have parts : ∀ one two : LpmS LpmArray, one.bitNum = two.bitNum → one.level = two.level →
        one.recordingMap = two.recordingMap → one.array = two.array → one = two := by
      rintro ⟨_, _, _, _⟩ ⟨_, _, _, _⟩ rfl rfl rfl rfl
      rfl
    apply parts _ _ arrayFreshLevel_bitNum.symm rfl
    · rw [arrayResetLevel_recordingMap, arrayFreshLevel_recordingMap, recording]
      rfl
    · rw [arrayResetLevel_array, arrayFreshLevel_array, array]
  rw [same]
  exact ⟨freshLevel_misses large layout.firstUpper layout.levelLower, fun _ => rfl⟩

variable (notNull : 0 < lpm.array.array) (single : LeftoverSingle kind firstBitNum lpm.array)
  (starts : ∀ calls, (∀ call ∈ calls, LpmCall.Shallow firstBitNum call) →
    StartsFresh kind.funcs (arrayResetLevel kind lpm level firstBitNum)
      (arrayFreshLevel kind lpm level firstBitNum) calls)

include notNull single starts

theorem leftoverMisses_of_startsFresh : LeftoverMisses kind firstBitNum lpm.array := by
  intro i inside leftAlone
  have upper := layout.firstUpper
  have deep : level = level - 1 + 1 := by
    have lower := layout.levelLower
    omega
  obtain ⟨y, rfl⟩ := exists_leading_eq (by omega) inside
  have reset := @resetLevel_single kind level firstBitNum lpm large upper single
  have fresh := @freshLevel_single kind level firstBitNum lpm large upper
  have first : (arrayResetLevel kind lpm level firstBitNum).bitNum 0 = firstBitNum := rfl
  have freshFirst : (arrayFreshLevel kind lpm level firstBitNum).bitNum 0 = firstBitNum := rfl
  have left := @resetEntry_leftAlone kind level firstBitNum lpm _ large inside leftAlone
  have invalid : entryState lpm.array.mem (lpm.array.array + leading firstBitNum y * kind.entryWords) ≠
      stateValid := by
    intro valid
    have missed := (starts [] nofun).misses y
    have found := (resetLevel_lookup large upper layout.levelLower single leftAlone).mpr valid
    rw [missed] at found
    exact Bool.noConfusion found
  refine ⟨invalid, ?_⟩
  by_contra looksDeeper
  have shallow : ∀ call ∈ [LpmCall.del 0 0 0 5], LpmCall.Shallow firstBitNum call := by
    intro call inside
    rw [mem_singleton.mp inside]
    trivial
  have same := (starts _ shallow).lookups y
  simp only [foldl_cons, foldl_nil, LpmCall.run] at same
  have freshFound := (lookup_del freshFirst upper deep fresh
    (arrayFreshLevel_place.symm ▸ notNull) y).mpr (.inl (by
      rw [firstEntry, arrayFreshLevel_place]
      exact freshEntry_leftAlone large inside leftAlone))
  rw [← same] at freshFound
  have resetFound := (lookup_del first upper deep reset
    (arrayResetLevel_place.symm ▸ notNull) y).mp freshFound
  rw [firstEntry, arrayResetLevel_place, entryDepth, entryState, left] at resetFound
  exact resetFound.elim looksDeeper invalid

theorem recordingMap_of_startsFresh : lpm.recordingMap = none := by
  have upper := layout.firstUpper
  have lower := layout.firstLower
  have misses := leftoverMisses_of_startsFresh layout large notNull single starts 0
    (Nat.pow_pos (by decide)) (.inl rfl)
  by_contra recorded
  obtain ⟨_, recording⟩ := ne_none_iff_exists'.mp recorded
  have deep : level = level - 1 + 1 := by
    have lower := layout.levelLower
    omega
  have fresh : (arrayFreshLevel kind lpm level firstBitNum).recordingMap = some fun _ => none := by
    rw [arrayFreshLevel_recordingMap, recording]
    rfl
  refine StartsFresh.no_recording fresh ?_ starts
  have resetFirst : (arrayResetLevel kind lpm level firstBitNum).bitNum 0 = firstBitNum := rfl
  apply lookup_add resetFirst upper deep (resetLevel_single large upper single) (by omega)
    arrayResetLevel_recordingMap
  rw [firstEntry, leading_address_zero, arrayResetLevel_place, entryDepth,
    resetEntry_leftAlone large (Nat.pow_pos (by decide)) (.inl rfl), ← entryDepth, misses.2]
  exact zero_le _

end Arrays

section Dynamic

variable {lpm : Dlpm64b}

theorem dlpm64bResetLevel_misses (two : 2 ≤ level) (recording : Bool) (ip : UINT) :
    lpmLookup dlpm64bFuncs
      (lpmSetLevel dlpm64bFuncs (lpmFresh recording dlpm64bInit) level firstBitNum) ip = none := by
  have deep : level = level - 1 + 1 := by omega
  rw [deep]
  cases recording <;> rfl

theorem dlpm64bResetLevel_eq :
    dlpm64bResetLevel lpm level firstBitNum =
      lpmSetLevel dlpm64bFuncs (lpmFresh false dlpm64bInit) level firstBitNum := rfl

theorem dlpm64b_lookup_add (layout : LpmLayout level firstBitNum) (alloc : LpmAlloc) :
    (lpmLookup dlpm64bFuncs (lpmAdd dlpm64bFuncs (dlpm64bResetLevel lpm level firstBitNum) alloc 0
      firstBitNum 1).1 0).isSome := by
  obtain ⟨_, -, _, _, -⟩ := layout
  have deep : level = level - 1 + 1 := by omega
  have index : ∀ down, entryIndex 0#32 0 down = 0 := by
    intro down
    rw [entryIndex, BitVec.zero_and, BitVec.zero_ushiftRight]
    rfl
  have num : entryNum firstBitNum firstBitNum firstBitNum = 1 := by
    rw [entryNum, Nat.sub_self]
    exact min_eq_left (Nat.one_le_two_pow)
  rw [deep, dlpm64bResetLevel_eq]
  simp only [lpmAdd, lpmSetLevel, lpmFresh, dlpm64bInit, dlpm64bFuncs, dlpm64bSetLevel, dlpm64bAdd,
    if_neg (show ¬ (firstBitNum < 1 ∨ 32 < firstBitNum) by omega), dlpm64bAddInner, levelDepth,
    upDepth_zero, if_neg (lt_irrefl firstBitNum), if_true, BitVec.ofNat_eq_ofNat,
    BitVec.zero_and, Bool.false_eq_true, if_false, lpmLookup, dlpm64bLookup, dlpm64bLookupInner]
  rw [index, index, num, forEntrys, Dlpm64bEntry.zero, dlpm64bAddEntry, if_pos (zero_le _)]
  rfl

end Dynamic

end MyCode.Lpm
