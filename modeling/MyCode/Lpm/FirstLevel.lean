import MyCode.Lpm.Array

/-!
# The first level of an array-backed table

While the first-level table holds no group, a prefix no deeper than it only
fills in entries of the table.  What `init_freelist` writes into the array is
described for the bit numbers it is called with, which are all zero.
-/

namespace MyCode.Lpm

open Function List BitVec Nat

variable {kind : LpmKind} {mem : Memory} {entry depth firstBitNum : Nat} {nexthop : UINT64}
  {state : BitVec 2} {bitNum : Nat → Nat} {ip : UINT} {a n : Nat} {arraySize : UINT}
  {step : Nat → LpmArray → LpmArray × BsStatus}

theorem entryWords_pos (kind : LpmKind) : 0 < kind.entryWords := by
  cases kind <;> decide

theorem entryState_setState : entryState (setState mem entry state) entry = state := by
  rw [entryState, setState, update_self]
  exact extractLsb'_append_eq_right

theorem setEntry_apply_of_outside (outside : a < entry ∨ entry + kind.entryWords ≤ a) :
    setEntry kind mem entry state depth nexthop a = mem a := by
  have positive := entryWords_pos kind
  have different : a ≠ entry := by omega
  rw [setEntry, setState, update_of_ne different, setDepth, update_of_ne different]
  cases kind with
  | lpm => exact update_of_ne different _ _
  | lpm32b =>
    simp only [LpmKind.entryWords] at outside
    exact update_of_ne (by omega) _ _
  | lpm64b =>
    simp only [LpmKind.entryWords] at outside
    rw [setNexthop, store64, update_of_ne (by omega), update_of_ne (by omega)]

theorem entryState_setEntry (kind : LpmKind) (mem : Memory) (entry depth : Nat) (state : BitVec 2)
    (nexthop : UINT64) : entryState (setEntry kind mem entry state depth nexthop) entry = state :=
  entryState_setState

theorem entry_outside {entrys i j : Nat} (different : j ≠ i) :
    entrys + j * kind.entryWords < entrys + i * kind.entryWords ∨
      entrys + i * kind.entryWords + kind.entryWords ≤ entrys + j * kind.entryWords := by
  cases kind <;> simp only [LpmKind.entryWords] <;> omega

section InitFreelist

variable {lpm : LpmArray}

/-- One turn of the loop of `init_freelist` with no bit numbers installed. -/
def putBlock (kind : LpmKind) (lpm : LpmArray) (i : Nat) : LpmArray :=
  freeListPut lpm (block2Entry kind (fun _ => 0) lpm (BitVec.ofNat 32 i))

theorem block2Entry_zero {i : Nat} (bounded : i + 1 < 2 ^ 31) :
    block2Entry kind (fun _ => 0) lpm (BitVec.ofNat 32 i) =
      lpm.array + (i + 1) * kind.entryWords := by
  have index : block2Index (fun _ => 0) (BitVec.ofNat 32 i) = BitVec.ofNat 32 (i + 1) := by
    apply eq_of_toNat_eq
    simp only [block2Index, toNat_add, toNat_shiftLeft, toNat_ofNat]
    omega
  have value : (BitVec.ofNat 32 (i + 1)).toInt = ((i + 1 : Nat) : Int) := by
    have small : (BitVec.ofNat 32 (i + 1)).toNat = i + 1 := by
      rw [toNat_ofNat]
      omega
    rw [toInt_eq_toNat_of_lt (by omega), small]
  rw [block2Entry, index, index2Entry, value, ← Int.natCast_mul, ← Int.natCast_add,
    Int.toNat_natCast]

theorem foldl_putBlock_array (n : Nat) :
    ((range n).foldl (putBlock kind) lpm).array = lpm.array ∧
      ((range n).foldl (putBlock kind) lpm).arraySize = lpm.arraySize := by
  induction n with
  | zero => exact ⟨rfl, rfl⟩
  | succ _ ih =>
    rw [range_succ, foldl_append]
    exact ih

theorem foldl_putBlock_freeList (bounded : n + 1 < 2 ^ 31) :
    ((range (n + 1)).foldl (putBlock kind) lpm).freeList =
      pointer (lpm.array + (n + 1) * kind.entryWords) := by
  rw [range_succ, foldl_append, foldl_cons, foldl_nil, putBlock, freeListPut,
    block2Entry_zero bounded, (foldl_putBlock_array n).1]

theorem initFreelist_eq (kind : LpmKind) (lpm : LpmArray) :
    initFreelist kind (fun _ => 0) lpm =
      (range (lpm.arraySize - 1).toInt.toNat).foldl (putBlock kind) lpm := by
  have one : ((2 : Int) ^ 0) = 1 := rfl
  rw [initFreelist, one, Int.tdiv_one]
  rfl

theorem toInt_sub_one_of_le (positive : 0 < arraySize.toNat) (narrow : arraySize.toNat ≤ 2 ^ 31) :
    (arraySize - 1).toInt.toNat = arraySize.toNat - 1 := by
  have value : (arraySize - 1).toNat = arraySize.toNat - 1 := by
    rw [toNat_sub]
    simp only [ofNat_eq_ofNat, toNat_ofNat]
    omega
  rw [toInt_eq_toNat_of_lt (by omega), value, Int.toNat_natCast]

theorem toInt_sub_one_of_lt (wide : 2 ^ 31 < arraySize.toNat) :
    (arraySize - 1).toInt.toNat = 0 := by
  have value : (arraySize - 1).toNat = arraySize.toNat - 1 := by
    rw [toNat_sub]
    simp only [ofNat_eq_ofNat, toNat_ofNat]
    omega
  rw [toInt_eq_toNat_cond, value]
  omega

theorem store64_of_outside {address : Nat} {value : UINT64}
    (outside : a < address ∨ address + 1 < a) : store64 mem address value a = mem a := by
  rw [store64, update_of_ne (by omega), update_of_ne (by omega)]

theorem store64_self (mem : Memory) (address : Nat) (value : UINT64) :
    store64 mem address value address = value.extractLsb' 0 32 := by
  rw [store64, update_of_ne (Nat.ne_of_lt (lt_succ_self _)), update_self]

theorem extractLsb'_pointer (a : Nat) :
    ((pointer a).extractLsb' 0 32).extractLsb' 0 2 = stateFree := by
  apply eq_of_toNat_eq
  simp only [pointer, stateFree, ofNat_eq_ofNat, extractLsb'_toNat, toNat_ofNat, shiftRight_zero]
  omega

theorem foldl_putBlock_succ_mem (bounded : n + 1 < 2 ^ 31) :
    ((range (n + 1)).foldl (putBlock kind) lpm).mem =
      store64 ((range n).foldl (putBlock kind) lpm).mem (lpm.array + (n + 1) * kind.entryWords)
        ((range n).foldl (putBlock kind) lpm).freeList := by
  rw [range_succ, foldl_append, foldl_cons, foldl_nil, putBlock, freeListPut,
    block2Entry_zero bounded, (foldl_putBlock_array n).1]

theorem foldl_putBlock_free {n : Nat} (bounded : n < 2 ^ 31)
    (zeroed : entryState lpm.mem lpm.array = stateFree) (empty : lpm.freeList = 0) :
    ∀ i, i ≤ n →
      entryState ((range n).foldl (putBlock kind) lpm).mem (lpm.array + i * kind.entryWords) =
        stateFree := by
  induction n with
  | zero =>
    intro i inside
    rw [le_zero.mp inside, Nat.zero_mul]
    exact zeroed
  | succ n ih =>
    intro i inside
    rw [foldl_putBlock_succ_mem bounded, entryState]
    by_cases last : i = n + 1
    · rw [last, store64_self]
      cases n with
      | zero =>
        rw [range_zero, foldl_nil, empty]
        decide
      | succ => rw [foldl_putBlock_freeList (lt_of_succ_lt bounded), extractLsb'_pointer]
    · have earlier := Nat.mul_lt_mul_of_pos_right (lt_of_le_of_ne inside last) (entryWords_pos kind)
      rw [store64_of_outside (by omega)]
      exact ih (lt_of_succ_lt bounded) i (by omega)

theorem foldl_putBlock_first {n : Nat} (bounded : n + 1 < 2 ^ 31) :
    ((range (n + 1)).foldl (putBlock .lpm) lpm).mem lpm.array = lpm.mem lpm.array ∧
      ((range (n + 1)).foldl (putBlock .lpm) lpm).mem (lpm.array + 1) =
        lpm.freeList.extractLsb' 0 32 := by
  induction n with
  | zero =>
    rw [foldl_putBlock_succ_mem bounded, LpmKind.entryWords, mul_one, store64_self,
      store64_of_outside (by omega)]
    exact ⟨rfl, rfl⟩
  | succ _ ih =>
    rw [foldl_putBlock_succ_mem bounded, LpmKind.entryWords, mul_one,
      store64_of_outside (by omega), store64_of_outside (by omega)]
    exact ih (lt_of_succ_lt bounded)

end InitFreelist

theorem firstLevel_range (first : bitNum 0 = firstBitNum) (upper : firstBitNum ≤ 24)
    (masked : ip &&& prefix2Mask depth = ip) (reached : depth ≤ firstBitNum) :
    entryIndex ip (upDepth bitNum 0) (levelDepth bitNum 0) +
      entryNum (levelDepth bitNum 0) depth (bitNum 0) ≤ 2 ^ firstBitNum := by
  have inside : firstBitNum ≤ 32 := by omega
  have aligned := leading_mod_of_masked reached inside masked
  have bounded := leading_lt inside ip
  have num : entryNum firstBitNum depth firstBitNum ≤ 2 ^ (firstBitNum - depth) := by
    rw [entryNum, mod_eq_of_lt (by omega)]
    exact min_le_left _ _
  rw [upDepth_zero, levelDepth, first, entryIndex_eq (zero_le _) inside, Nat.sub_zero,
    mod_eq_of_lt bounded]
  have size : 2 ^ firstBitNum = 2 ^ (firstBitNum - depth) * 2 ^ depth := by
    rw [← pow_add, Nat.sub_add_cancel reached]
  obtain ⟨part, exactly⟩ := dvd_of_mod_eq_zero aligned
  rw [exactly, size] at bounded
  have next := Nat.lt_of_mul_lt_mul_left bounded
  calc leading firstBitNum ip + entryNum firstBitNum depth firstBitNum
      ≤ 2 ^ (firstBitNum - depth) * part + 2 ^ (firstBitNum - depth) := by
        rw [exactly]
        exact Nat.add_le_add_left num _
    _ = 2 ^ (firstBitNum - depth) * (part + 1) := by rw [Nat.mul_succ]
    _ ≤ 2 ^ firstBitNum := by
        rw [size]
        exact mul_le_mul_left _ next

theorem arrayNewState_ne_group (newDepth : Nat) (newNexthop : UINT64) :
    arrayNewState newDepth newNexthop ≠ stateGroup := by
  unfold arrayNewState
  split <;> decide

structure Filled (kind : LpmKind) (entrys depth : Nat) (state : BitVec 2) (start num last : Nat)
    (before after : LpmArray) : Prop where
  array : after.array = before.array
  freeList : after.freeList = before.freeList
  states : ∀ j, j < last →
    entryState after.mem (entrys + j * kind.entryWords) =
      if (start ≤ j ∧ j < start + num) ∧
          entryDepth before.mem (entrys + j * kind.entryWords) ≤ depth then
        state
      else
        entryState before.mem (entrys + j * kind.entryWords)

theorem forIndices_filled {entrys last newDepth : Nat} (single : state ≠ stateGroup)
    (steps : ∀ i lpm, i < last → entryState lpm.mem (entrys + i * kind.entryWords) ≠ stateGroup → step i lpm = if entryDepth lpm.mem (entrys + i * kind.entryWords) ≤ depth then ({ lpm with mem := setEntry kind lpm.mem (entrys + i * kind.entryWords) state newDepth nexthop }, .ok) else (lpm, .ok)) :
    ∀ (num start : Nat) (lpm : LpmArray), start + num ≤ last →
      (∀ j, j < last → entryState lpm.mem (entrys + j * kind.entryWords) ≠ stateGroup) →
      Filled kind entrys depth state start num last lpm (forIndices step start num lpm).1 := by
  intro num
  induction num with
  | zero =>
    intro start lpm _ _
    refine ⟨rfl, rfl, fun j _ => ?_⟩
    rw [if_neg (by omega), forIndices]
  | succ num ih =>
    intro start lpm bounded singles
    have stepped := steps start lpm (by omega) (singles start (by omega))
    rw [forIndices, stepped]
    by_cases shallow : entryDepth lpm.mem (entrys + start * kind.entryWords) ≤ depth
    · rw [if_pos shallow]
      have others : ∀ j, j ≠ start →
          setEntry kind lpm.mem (entrys + start * kind.entryWords) state newDepth nexthop
            (entrys + j * kind.entryWords) = lpm.mem (entrys + j * kind.entryWords) :=
        fun j different => setEntry_apply_of_outside (entry_outside different)
      obtain ⟨array, freeList, states⟩ := ih (start + 1)
        { lpm with mem :=
            setEntry kind lpm.mem (entrys + start * kind.entryWords) state newDepth nexthop }
        (by omega) (fun j inside => by
          by_cases same : j = start
          · rw [same, entryState_setEntry]
            exact single
          · simp only [entryState, others j same]
            exact singles j inside)
      refine ⟨array, freeList, fun j inside => (states j inside).trans ?_⟩
      by_cases same : j = start
      · subst same
        rw [if_neg (by omega), if_pos ⟨by omega, shallow⟩]
        exact entryState_setEntry _ _ _ _ _ _
      have range : (start + 1 ≤ j ∧ j < start + 1 + num) ↔
          (start ≤ j ∧ j < start + (num + 1)) := by omega
      simp only [entryState, entryDepth, others j same]
      exact if_congr (and_congr_left' range) rfl rfl
    rw [if_neg shallow]
    obtain ⟨array, freeList, states⟩ := ih (start + 1) lpm (by omega) singles
    refine ⟨array, freeList, fun j inside => (states j inside).trans ?_⟩
    by_cases same : j = start
    · subst same
      rw [if_neg (by omega), if_neg fun both => shallow both.2]
    have range : (start + 1 ≤ j ∧ j < start + 1 + num) ↔
        (start ≤ j ∧ j < start + (num + 1)) := by omega
    exact if_congr (and_congr_left' range) rfl rfl

/-- The entry of the first level that an address selects. -/
def firstEntry (kind : LpmKind) (firstBitNum : Nat) (lpm : LpmArray) (y : UINT) : Nat :=
  lpm.array + leading firstBitNum y * kind.entryWords

def SingleEntries (kind : LpmKind) (firstBitNum : Nat) (lpm : LpmArray) : Prop :=
  ∀ y, entryState lpm.mem (firstEntry kind firstBitNum lpm y) ≠ stateGroup

/-- The entries of a prefix that are no deeper than it get a state. -/
structure FillsPrefix (kind : LpmKind) (firstBitNum : Nat) (ip : UINT) (depth : Nat)
    (state : BitVec 2) (before after : LpmArray) : Prop where
  array : after.array = before.array
  freeList : after.freeList = before.freeList
  states : ∀ y, entryState after.mem (firstEntry kind firstBitNum after y) =
    if leading depth y = leading depth ip ∧
        entryDepth before.mem (firstEntry kind firstBitNum before y) ≤ depth then
      state
    else
      entryState before.mem (firstEntry kind firstBitNum before y)

theorem FillsPrefix.single {before after : LpmArray}
    (fills : FillsPrefix kind firstBitNum ip depth state before after)
    (singles : SingleEntries kind firstBitNum before) (single : state ≠ stateGroup) :
    SingleEntries kind firstBitNum after := by
  intro y
  rw [fills.states y]
  split
  · exact single
  · exact singles y

section FirstLevel

variable {lpm : LpmArray} (first : bitNum 0 = firstBitNum) (upper : firstBitNum ≤ 24)
  (singles : SingleEntries kind firstBitNum lpm)

include first upper singles

theorem forIndices_fillsPrefix (newDepth : Nat) (nexthop : UINT64) (single : state ≠ stateGroup)
    (reached : depth ≤ firstBitNum) (masked : ip &&& prefix2Mask depth = ip)
    (steps : ∀ i current, entryState current.mem (lpm.array + i * kind.entryWords) ≠ stateGroup → step i current = if entryDepth current.mem (lpm.array + i * kind.entryWords) ≤ depth then ({ current with mem := setEntry kind current.mem (lpm.array + i * kind.entryWords) state newDepth nexthop }, .ok) else (current, .ok)) :
    FillsPrefix kind firstBitNum ip depth state lpm
      (forIndices step (entryIndex ip (upDepth bitNum 0) (levelDepth bitNum 0))
        (entryNum (levelDepth bitNum 0) depth (bitNum 0)) lpm).1 := by
  have inside : firstBitNum ≤ 32 := by omega
  obtain ⟨array, freeList, states⟩ := forIndices_filled single
    (fun i current _ => steps i current) _ _ lpm (firstLevel_range first upper masked reached)
    (fun j bounded => by
      obtain ⟨y, rfl⟩ := exists_leading_eq inside bounded
      exact singles y)
  refine ⟨array, freeList, fun y => ?_⟩
  rw [firstEntry, array, states _ (leading_lt inside y)]
  have range := mem_entryRange_iff (zero_le depth) reached inside (by omega) masked
    (show leading 0 y = leading 0 ip by simp)
  have index : entryIndex y 0 firstBitNum = leading firstBitNum y := by
    rw [entryIndex_eq (zero_le _) inside, Nat.sub_zero, mod_eq_of_lt (leading_lt inside y)]
  rw [index, Nat.sub_zero] at range
  rw [upDepth_zero, levelDepth, first]
  exact if_congr (and_congr_left' range) rfl rfl

theorem arrayAddInner_fillsPrefix (left : Nat) (nexthop : UINT64) (reached : depth ≤ firstBitNum)
    (masked : ip &&& prefix2Mask depth = ip) :
    FillsPrefix kind firstBitNum ip depth stateValid lpm
      (arrayAddInner kind bitNum ip depth nexthop (left + 1) 0 lpm.array lpm).1 := by
  rw [arrayAddInner, if_neg (by rw [levelDepth, first]; omega)]
  apply forIndices_fillsPrefix first upper singles depth nexthop (by decide) reached masked
  intro i current single
  simp [if_neg single]

theorem arrayDelInner_fillsPrefix (left newDepth : Nat) (newNexthop : UINT64)
    (reached : depth ≤ firstBitNum) (masked : ip &&& prefix2Mask depth = ip)
    (notNull : lpm.array ≠ 0) :
    FillsPrefix kind firstBitNum ip depth (arrayNewState newDepth newNexthop) lpm
      (arrayDelInner kind bitNum ip depth newDepth newNexthop (left + 1) 0 lpm.array lpm) := by
  rw [arrayDelInner, if_neg notNull, if_neg (by rw [levelDepth, first]; omega)]
  apply forIndices_fillsPrefix first upper singles newDepth newNexthop
    (arrayNewState_ne_group _ _) reached masked
  intro i current single
  simp [if_neg single]

theorem entryState_pathEntry (y : UINT) :
    entryState lpm.mem (lpm.array +
      entryIndex y (upDepth bitNum 0) (levelDepth bitNum 0) * kind.entryWords) ≠ stateGroup := by
  have inside : firstBitNum ≤ 32 := by omega
  have single := singles y
  rw [upDepth_zero, levelDepth, first, entryIndex_eq (zero_le _) inside, Nat.sub_zero,
    mod_eq_of_lt (leading_lt inside y)]
  exact single

end FirstLevel

end MyCode.Lpm
