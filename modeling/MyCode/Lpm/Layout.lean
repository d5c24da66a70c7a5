import MyCode.Lpm.FirstLevel

/-!
# The blocks of an array-backed table

`lpmSetLevel` threads the free list before it installs the bit numbers, so the
list holds one block for every entry but the first.  Only where the entries
are too many for an `int` does it hold none; then no group is ever made.
-/

namespace MyCode.Lpm

open Nat BitVec

/-- A block of a table: the `k`-th of the free list, or the group at a path of
indices. -/
inductive LpmBlockRef where
  | free (k : Nat)
  | used (path : List Nat)
  deriving DecidableEq

/-- The `k`-th pointer of the free list; `NULL` from its end on. -/
def freeAt (lpm : LpmArray) : Nat → UINT64
  | 0 => lpm.freeList
  | k + 1 => if freeAt lpm k = 0 then 0 else load64 lpm.mem (address (freeAt lpm k))

/-- The entries that a path of indices leads to. -/
def entrysAt (kind : LpmKind) (bitNum : Nat → Nat) (lpm : LpmArray) :
    Nat → Nat → List Nat → Option Nat
  | entrys, _, [] => some entrys
  | entrys, level, i :: path =>
    let entry := entrys + i * kind.entryWords
    if i < 2 ^ bitNum level ∧ entryState lpm.mem entry = stateGroup then
      entrysAt kind bitNum lpm (groupEntrys kind bitNum lpm entry) (level + 1) path
    else
      none

def blockAt (kind : LpmKind) (lpm : LpmS LpmArray) : LpmBlockRef → Option Nat
  | .free k => if freeAt lpm.array k = 0 then none else some (address (freeAt lpm.array k))
  | .used [] => none
  | .used path => entrysAt kind lpm.bitNum lpm.array lpm.array.array 0 path

/-- The blocks lie in the array behind the first-level table and are pairwise
disjoint. -/
structure LpmLayoutOk (kind : LpmKind) (lpm : LpmS LpmArray) : Prop where
  inside : ∀ ref block, blockAt kind lpm ref = some block →
    ∃ index, block = lpm.array.array + index * kind.entryWords ∧
      2 ^ lpm.bitNum 0 ≤ index ∧ index + 2 ^ lpm.bitNum 1 ≤ lpm.array.arraySize.toNat
  disjoint : ∀ ref otherRef block other, ref ≠ otherRef →
    blockAt kind lpm ref = some block → blockAt kind lpm otherRef = some other →
    block + 2 ^ lpm.bitNum 1 * kind.entryWords ≤ other ∨
      other + 2 ^ lpm.bitNum 1 * kind.entryWords ≤ block

inductive LpmRun (funcs : LpmFuncs LpmArray) (lpm : LpmS LpmArray) : LpmS LpmArray → Prop where
  | none : LpmRun funcs lpm lpm
  | enableRecording {after} :
      LpmRun funcs lpm after → LpmRun funcs lpm (lpmEnableRecording after)
  | add {after} (alloc : LpmAlloc) (ip : UINT) (depth : Nat) (nexthop : UINT64) :
      LpmRun funcs lpm after → LpmRun funcs lpm (lpmAdd funcs after alloc ip depth nexthop).1
  | del {after} (ip : UINT) (depth newDepth : Nat) (newNexthop : UINT64) :
      LpmRun funcs lpm after → LpmRun funcs lpm (lpmDel funcs after ip depth newDepth newNexthop)

/-- What `LPM_SetLevel` is called on: a zeroed array in the address space with
more entries than the first level takes. -/
structure LpmArrayOk (kind : LpmKind) (mem : Memory) (array : Nat) (arraySize : UINT)
    (firstBitNum : Nat) : Prop where
  notNull : 0 < array
  inMemory : 4 * (array + arraySize.toNat * kind.entryWords) < 2 ^ 64
  zeroed : ∀ i, i < arraySize.toNat * kind.entryWords → mem (array + i) = 0
  large : 2 ^ firstBitNum < arraySize.toNat

variable {kind : LpmKind} {depth : Nat} {bitNum : Nat → Nat}

/-- The free list is empty and the first-level table holds no group. -/
structure Groupless (kind : LpmKind) (firstBitNum : Nat) (lpm : LpmS LpmArray) : Prop where
  first : lpm.bitNum 0 = firstBitNum
  exhausted : lpm.array.freeList = 0
  single : SingleEntries kind firstBitNum lpm.array

section Groupless

variable {firstBitNum : Nat} {lpm : LpmS LpmArray}

theorem freeAt_of_exhausted {lpm : LpmArray} (exhausted : lpm.freeList = 0) (k : Nat) :
    freeAt lpm k = 0 := by
  induction k with
  | zero => exact exhausted
  | succ _ ih => rw [freeAt, if_pos ih]

theorem Groupless.blockAt (groupless : Groupless kind firstBitNum lpm) (upper : firstBitNum ≤ 24)
    (ref : LpmBlockRef) : blockAt kind lpm ref = none := by
  cases ref with
  | free k => rw [Lpm.blockAt, if_pos (freeAt_of_exhausted groupless.exhausted k)]
  | used path =>
    cases path with
    | nil => rfl
    | cons i =>
      have absent : ¬ (i < 2 ^ lpm.bitNum 0 ∧
          entryState lpm.array.mem (lpm.array.array + i * kind.entryWords) = stateGroup) := by
        rw [groupless.first]
        intro both
        obtain ⟨y, rfl⟩ := exists_leading_eq (by omega) both.1
        exact groupless.single y both.2
      simp [Lpm.blockAt, entrysAt, if_neg absent]

theorem Groupless.layoutOk (groupless : Groupless kind firstBitNum lpm)
    (upper : firstBitNum ≤ 24) : LpmLayoutOk kind lpm := by
  constructor
  · intro ref block found
    rw [groupless.blockAt upper] at found
    cases found
  · intro ref otherRef block other _ found
    rw [groupless.blockAt upper] at found
    cases found

section

variable {ip : UINT} {array : LpmArray} (first : bitNum 0 = firstBitNum) (upper : firstBitNum ≤ 24)
  (masked : depth ≤ 32 → ip &&& prefix2Mask depth = ip) (exhausted : array.freeList = 0)
  (singles : SingleEntries kind firstBitNum array)

include first upper masked exhausted singles

theorem arrayAddInner_groupless (nexthop : UINT64) (left : Nat) :
    (arrayAddInner kind bitNum ip depth nexthop left 0 array.array array).1.freeList = 0 ∧
      SingleEntries kind firstBitNum
        (arrayAddInner kind bitNum ip depth nexthop left 0 array.array array).1 := by
  cases left with
  | zero => exact ⟨exhausted, singles⟩
  | succ left =>
    by_cases reached : depth ≤ firstBitNum
    · have fills := arrayAddInner_fillsPrefix first upper singles left nexthop reached
        (masked (by omega))
      exact ⟨fills.freeList.trans exhausted, fills.single singles (by decide)⟩
    have none : allocEntry kind bitNum array = (Option.none, array) := by
      rw [allocEntry, freeListGet, if_pos exhausted]
    rw [arrayAddInner, if_pos (by rw [levelDepth, first]; omega),
      if_neg (entryState_pathEntry first upper singles ip), none]
    exact ⟨exhausted, singles⟩

theorem arrayDelInner_groupless (newDepth : Nat) (newNexthop : UINT64) (left : Nat) :
    (arrayDelInner kind bitNum ip depth newDepth newNexthop left 0 array.array array).freeList = 0 ∧
      SingleEntries kind firstBitNum
        (arrayDelInner kind bitNum ip depth newDepth newNexthop left 0 array.array array) := by
  cases left with
  | zero => exact ⟨exhausted, singles⟩
  | succ left =>
    by_cases null : array.array = 0
    · rw [arrayDelInner, if_pos null]
      exact ⟨exhausted, singles⟩
    by_cases reached : depth ≤ firstBitNum
    · have fills := arrayDelInner_fillsPrefix first upper singles left newDepth
        newNexthop reached (masked (by omega)) null
      exact ⟨fills.freeList.trans exhausted, fills.single singles (arrayNewState_ne_group _ _)⟩
    · rw [arrayDelInner, if_neg null, if_pos (by rw [levelDepth, first]; omega),
        if_neg (entryState_pathEntry first upper singles ip)]
      exact ⟨exhausted, singles⟩

end

section

variable (groupless : Groupless kind firstBitNum lpm)

include groupless

theorem Groupless.arrayAdd (upper : firstBitNum ≤ 24) (ip : UINT) (depth : Nat) (nexthop : UINT64) :
    Groupless kind firstBitNum (arrayAdd kind lpm ip depth nexthop).1 := by
  unfold Lpm.arrayAdd
  split
  · exact groupless
  obtain ⟨first, exhausted, singles⟩ := groupless
  obtain ⟨stillExhausted, stillSingle⟩ := arrayAddInner_groupless first upper
    (fun inside => and_prefix2Mask_idem inside ip) exhausted singles nexthop lpm.level
  exact ⟨first, stillExhausted, stillSingle⟩

theorem Groupless.arrayDel (upper : firstBitNum ≤ 24) {ip : UINT}
    (masked : depth ≤ 32 → ip &&& prefix2Mask depth = ip) (newDepth : Nat) (newNexthop : UINT64) :
    Groupless kind firstBitNum (arrayDel kind lpm ip depth newDepth newNexthop) := by
  obtain ⟨first, exhausted, singles⟩ := groupless
  obtain ⟨stillExhausted, stillSingle⟩ :=
    arrayDelInner_groupless first upper masked exhausted singles newDepth newNexthop lpm.level
  exact ⟨first, stillExhausted, stillSingle⟩

theorem Groupless.recording (map : Option (LpmRecordKey → Option UINT64)) :
    Groupless kind firstBitNum { lpm with recordingMap := map } :=
  ⟨groupless.first, groupless.exhausted, groupless.single⟩

section

variable (upper : firstBitNum ≤ 24)

include upper

theorem Groupless.addFunc (alloc : LpmAlloc) (ip : UINT) (depth : Nat) (nexthop : UINT64) :
    Groupless kind firstBitNum (kind.funcs.addFunc lpm alloc ip depth nexthop).1 := by
  cases kind <;> exact groupless.arrayAdd upper _ _ _

theorem Groupless.delFunc {ip : UINT} (masked : depth ≤ 32 → ip &&& prefix2Mask depth = ip)
    (newDepth : Nat) (newNexthop : UINT64) :
    Groupless kind firstBitNum (kind.funcs.delFunc lpm ip depth newDepth newNexthop) := by
  cases kind <;> exact groupless.arrayDel upper masked _ _

theorem Groupless.lpmAdd (alloc : LpmAlloc) (ip : UINT) (depth : Nat) (nexthop : UINT64) :
    Groupless kind firstBitNum (lpmAdd kind.funcs lpm alloc ip depth nexthop).1 := by
  unfold Lpm.lpmAdd
  split
  · exact groupless.addFunc upper _ _ _ _
  next map _ =>
  simp only
  split
  · exact groupless
  split
  · exact groupless
  have added := (groupless.recording (some (Function.update map
    ⟨ip &&& prefix2Mask depth, depth⟩ (some nexthop)))).addFunc upper alloc
    (ip &&& prefix2Mask depth) depth nexthop
  split
  · next same => rwa [same] at added
  next same =>
  rw [same] at added
  exact added.recording _

theorem Groupless.lpmDel (ip : UINT) (depth newDepth : Nat) (newNexthop : UINT64) :
    Groupless kind firstBitNum (lpmDel kind.funcs lpm ip depth newDepth newNexthop) := by
  have masked : depth ≤ 32 → ip &&& prefix2Mask depth &&& prefix2Mask depth =
      ip &&& prefix2Mask depth := fun inside => and_prefix2Mask_idem inside ip
  unfold Lpm.lpmDel
  split
  · exact groupless.delFunc upper masked _ _
  simp only
  split
  · exact (groupless.recording _).delFunc upper masked _ _
  · exact (groupless.recording _).delFunc upper masked _ _

end

end

theorem LpmRun.groupless {after : LpmS LpmArray} (run : LpmRun kind.funcs lpm after)
    (upper : firstBitNum ≤ 24) (groupless : Groupless kind firstBitNum lpm) :
    Groupless kind firstBitNum after := by
  induction run with
  | none => exact groupless
  | enableRecording _ ih =>
    unfold lpmEnableRecording
    split
    · exact ih
    · exact ih.recording _
  | add alloc ip depth nexthop _ ih => exact ih.lpmAdd upper alloc ip depth nexthop
  | del ip depth newDepth newNexthop _ ih => exact ih.lpmDel upper ip depth newDepth newNexthop

end Groupless

section SetLevel

variable {mem : Memory} {array level firstBitNum : Nat} {arraySize : UINT}

theorem lpmSetLevel_array (kind : LpmKind) (mem : Memory) (array : Nat) (arraySize : UINT)
    (level firstBitNum : Nat) :
    (lpmSetLevel kind.funcs (lpmInit mem array arraySize) level firstBitNum).array =
      initFreelist kind (fun _ => 0) ⟨mem, array, arraySize, 0⟩ := by
  cases kind <;> rfl

theorem two_le_bitNum_one (layout : LpmLayout level firstBitNum) (funcs : LpmFuncs LpmArray)
    (lpm : LpmS LpmArray) : 2 ≤ (lpmSetLevel funcs lpm level firstBitNum).bitNum 1 := by
  obtain ⟨_, _, _, _, _⟩ := layout
  have second : (lpmSetLevel funcs lpm level firstBitNum).bitNum 1 =
      (32 - firstBitNum) / (level - 1) := by
    simp only [lpmSetLevel]
    rw [if_neg one_ne_zero, if_pos (by omega)]
  by_contra narrow
  have thin : (32 - firstBitNum) / (level - 1) ≤ 1 := by omega
  have product := mul_le_mul_right (level - 1) thin
  omega

theorem lpmSetLevel_not_layoutOk (arrayOk : LpmArrayOk kind mem array arraySize firstBitNum)
    (layout : LpmLayout level firstBitNum) (narrow : arraySize.toNat ≤ 2 ^ 31) :
    ¬ LpmLayoutOk kind (lpmSetLevel kind.funcs (lpmInit mem array arraySize) level firstBitNum) := by
  intro layoutOk
  obtain ⟨_, _, -, _⟩ := arrayOk
  have firstLevel : 2 ^ 8 ≤ 2 ^ firstBitNum := Nat.pow_le_pow_right (by decide) layout.firstLower
  have shape := lpmSetLevel_array kind mem array arraySize level firstBitNum
  have wide : 2 ^ 2 ≤ 2 ^ (lpmSetLevel kind.funcs (lpmInit mem array arraySize) level
      firstBitNum).bitNum 1 :=
    Nat.pow_le_pow_right (by decide) (two_le_bitNum_one layout _ _)
  rw [initFreelist_eq] at shape
  obtain ⟨count, exactly⟩ : ∃ count, (arraySize - 1).toInt.toNat = count + 1 ∧
      count + 2 = arraySize.toNat := by
    rw [toInt_sub_one_of_le (by omega) narrow]
    exact ⟨arraySize.toNat - 2, by omega, by omega⟩
  rw [exactly.1] at shape
  have head : freeAt (lpmSetLevel kind.funcs (lpmInit mem array arraySize) level
      firstBitNum).array 0 = pointer (array + (count + 1) * kind.entryWords) := by
    rw [freeAt, shape, foldl_putBlock_freeList (by omega)]
  have words := entryWords_pos kind
  have inside : (count + 1) * kind.entryWords ≤ arraySize.toNat * kind.entryWords :=
    mul_le_mul_right _ (by omega)
  have value : (pointer (array + (count + 1) * kind.entryWords)).toNat =
      4 * (array + (count + 1) * kind.entryWords) := by
    rw [pointer, toNat_ofNat, mod_eq_of_lt (by omega)]
  have nonzero : pointer (array + (count + 1) * kind.entryWords) ≠ 0 := by
    intro null
    rw [null] at value
    simp only [ofNat_eq_ofNat, toNat_ofNat, zero_mod] at value
    omega
  have found : blockAt kind (lpmSetLevel kind.funcs (lpmInit mem array arraySize) level
      firstBitNum) (.free 0) = some (array + (count + 1) * kind.entryWords) := by
    rw [blockAt, head, if_neg nonzero, address, value, Nat.mul_div_cancel_left _ (by decide)]
  obtain ⟨index, place, -, last⟩ := layoutOk.inside _ _ found
  rw [shape, (foldl_putBlock_array _).1] at place
  rw [shape, (foldl_putBlock_array _).2] at last
  have same := eq_of_mul_eq_mul_right words (add_left_cancel place)
  simp only at last
  omega

theorem lpmSetLevel_groupless (arrayOk : LpmArrayOk kind mem array arraySize firstBitNum)
    (upper : firstBitNum ≤ 24) (wide : 2 ^ 31 < arraySize.toNat) (level : Nat) :
    Groupless kind firstBitNum
      (lpmSetLevel kind.funcs (lpmInit mem array arraySize) level firstBitNum) := by
  have shape := lpmSetLevel_array kind mem array arraySize level firstBitNum
  rw [initFreelist_eq, toInt_sub_one_of_lt wide] at shape
  refine ⟨rfl, by rw [shape]; rfl, fun y => ?_⟩
  have words := entryWords_pos kind
  have bounded :=
    Nat.mul_lt_mul_of_pos_right (lt_trans (leading_lt (by omega) y) arrayOk.large) words
  rw [shape, firstEntry, entryState]
  simp only [List.range_zero, List.foldl_nil]
  rw [arrayOk.zeroed _ bounded]
  decide

/-- The layout holds in every run exactly where the array is too large for the
free list to be initialized at all. -/
theorem lpmLayoutOk_iff (kind : LpmKind) (arrayOk : LpmArrayOk kind mem array arraySize firstBitNum)
    (layout : LpmLayout level firstBitNum) :
    (∀ lpm, LpmRun kind.funcs
        (lpmSetLevel kind.funcs (lpmInit mem array arraySize) level firstBitNum) lpm →
      LpmLayoutOk kind lpm) ↔ 2 ^ 31 < arraySize.toNat := by
  constructor
  · intro holds
    by_contra narrow
    exact lpmSetLevel_not_layoutOk arrayOk layout (by omega) (holds _ .none)
  · intro wide lpm run
    have groupless := lpmSetLevel_groupless arrayOk layout.firstUpper wide level
    exact (run.groupless layout.firstUpper groupless).layoutOk layout.firstUpper

theorem lpmLayoutOk_iff_large :
    LpmArrayOk .lpm64b (fun _ => 0) 1024 0x80000001 8 ∧
    ∀ lpm, LpmRun gLpm64bFuncs
        (lpmSetLevel gLpm64bFuncs (lpmInit (fun _ => 0) 1024 0x80000001) 7 8) lpm →
      LpmLayoutOk .lpm64b lpm := by
  have arrayOk : LpmArrayOk .lpm64b (fun _ => 0) 1024 0x80000001 8 :=
    ⟨by decide, by decide, fun _ _ => rfl, by decide⟩
  exact ⟨arrayOk, (lpmLayoutOk_iff .lpm64b arrayOk
    ⟨by decide, by decide, by decide, by decide, by decide⟩).mpr (by decide)⟩

/-- An array of 4096 entries, split as 8, 4, 4, 4, 4, 4, 4. -/
theorem lpmLayoutOk_small_array :
    ¬ ∀ lpm, LpmRun gLpm64bFuncs
        (lpmSetLevel gLpm64bFuncs (lpmInit (fun _ => 0) 1024 4096) 7 8) lpm →
      LpmLayoutOk .lpm64b lpm := by
  have arrayOk : LpmArrayOk .lpm64b (fun _ => 0) 1024 4096 8 :=
    ⟨by decide, by decide, fun _ _ => rfl, by decide⟩
  intro holds
  exact lpmSetLevel_not_layoutOk arrayOk
    ⟨by decide, by decide, by decide, by decide, by decide⟩ (by decide) (holds _ .none)

end SetLevel

end MyCode.Lpm
