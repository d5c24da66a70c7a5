import MyCode.Lpm.Layout

/-!
# Resetting a table

`LPM_Reset` empties the recording map and then zeroes the whole `LPM_S`, the
pointer to that map with it.  The array-backed kinds keep their entries as they
are: what the next `LPM_SetLevel` overwrites of them is what it threads the free
list through, and the first entry is no part of that.
-/

namespace MyCode.Lpm

open Function BitVec Nat

variable {kind : LpmKind} {mem : Memory} {entry depth firstBitNum level : Nat} {nexthop : UINT64}
  {state : BitVec 2}

section Calls

variable {Array : Type}

def lpmReset (resetFunc : LpmS Array → LpmS Array) (lpm : LpmS Array) : LpmS Array :=
  resetFunc { lpm with recordingMap := lpm.recordingMap.map fun _ _ => none }

inductive LpmCall where
  | add (alloc : LpmAlloc) (ip : UINT) (depth : Nat) (nexthop : UINT64)
  | del (ip : UINT) (depth newDepth : Nat) (newNexthop : UINT64)

def LpmCall.run (funcs : LpmFuncs Array) (lpm : LpmS Array) : LpmCall → LpmS Array
  | add alloc ip depth nexthop => (lpmAdd funcs lpm alloc ip depth nexthop).1
  | del ip depth newDepth newNexthop => lpmDel funcs lpm ip depth newDepth newNexthop

def LpmCall.Shallow (firstBitNum : Nat) : LpmCall → Prop
  | add _ _ depth _ => depth ≤ firstBitNum
  | del _ _ _ _ => True

/-- A table misses every address, and the calls lead to the lookups that they lead to from a fresh
one. -/
structure StartsFresh (funcs : LpmFuncs Array) (lpm fresh : LpmS Array) (calls : List LpmCall) :
    Prop where
  misses : ∀ ip, lpmLookup funcs lpm ip = none
  lookups : ∀ ip, lpmLookup funcs (calls.foldl (LpmCall.run funcs) lpm) ip =
    lpmLookup funcs (calls.foldl (LpmCall.run funcs) fresh) ip

/-- A fresh instance with the recording setting of another one. -/
def lpmFresh (recording : Bool) (init : LpmS Array) : LpmS Array :=
  if recording then lpmEnableRecording init else init

end Calls

/-- `lpm_reset`, `lpm32b_reset` and `lpm64b_reset`: the array and its size are put back. -/
def arrayReset (lpm : LpmS LpmArray) : LpmS LpmArray :=
  { bitNum := fun _ => 0
    level := 0
    recordingMap := none
    array := ⟨lpm.array.mem, lpm.array.array, lpm.array.arraySize, 0⟩ }

/-- `dlpm64b_reset`: all entries are freed. -/
def dlpm64bReset (_ : Dlpm64b) : Dlpm64b where
  bitNum _ := 0
  level := 0
  recordingMap := none
  array _ := .zero

/-- The memory with the entry array zeroed, as `MEM_ZMalloc` gives it. -/
def clearedMemory (kind : LpmKind) (lpm : LpmArray) : Memory :=
  memsetZero lpm.mem lpm.array (lpm.arraySize.toNat * kind.entryWords)

/-- `LPM_Reset` and `LPM_SetLevel`. -/
def arrayResetLevel (kind : LpmKind) (lpm : LpmS LpmArray) (level firstBitNum : Nat) :
    LpmS LpmArray :=
  lpmSetLevel kind.funcs (lpmReset arrayReset lpm) level firstBitNum

def arrayFreshLevel (kind : LpmKind) (lpm : LpmS LpmArray) (level firstBitNum : Nat) :
    LpmS LpmArray :=
  lpmSetLevel kind.funcs
    (lpmFresh lpm.recordingMap.isSome
      (lpmInit (clearedMemory kind lpm.array) lpm.array.array lpm.array.arraySize))
    level firstBitNum

def dlpm64bResetLevel (lpm : Dlpm64b) (level firstBitNum : Nat) : Dlpm64b :=
  lpmSetLevel dlpm64bFuncs (lpmReset dlpm64bReset lpm) level firstBitNum

def dlpm64bFreshLevel (lpm : Dlpm64b) (level firstBitNum : Nat) : Dlpm64b :=
  lpmSetLevel dlpm64bFuncs (lpmFresh lpm.recordingMap.isSome dlpm64bInit) level firstBitNum

/-- The free list is not threaded through an entry. -/
def LeftAlone (lpm : LpmArray) (i : Nat) : Prop :=
  i = 0 ∨ 2 ^ 31 < lpm.arraySize.toNat

/-- The words that the free list does not overwrite are zero. -/
def LeftoverZero (kind : LpmKind) (lpm : LpmArray) : Prop :=
  ∀ i word, i < lpm.arraySize.toNat → word < kind.entryWords → LeftAlone lpm i ∨ 2 ≤ word →
    lpm.mem (lpm.array + i * kind.entryWords + word) = 0

/-- The entries of the first level that are left are no groups. -/
def LeftoverSingle (kind : LpmKind) (firstBitNum : Nat) (lpm : LpmArray) : Prop :=
  ∀ i, i < 2 ^ firstBitNum → LeftAlone lpm i →
    entryState lpm.mem (lpm.array + i * kind.entryWords) ≠ stateGroup

/-- They are invalid and look no deeper than fresh ones. -/
def LeftoverMisses (kind : LpmKind) (firstBitNum : Nat) (lpm : LpmArray) : Prop :=
  ∀ i, i < 2 ^ firstBitNum → LeftAlone lpm i →
    entryState lpm.mem (lpm.array + i * kind.entryWords) ≠ stateValid ∧
      entryDepth lpm.mem (lpm.array + i * kind.entryWords) = 0

def nexthopField (kind : LpmKind) (nexthop : UINT64) : UINT64 :=
  match kind with
  | .lpm => (nexthop.setWidth 24).setWidth 64
  | .lpm32b => (nexthop.setWidth 32).setWidth 64
  | .lpm64b => nexthop

theorem entryDepth_setEntry :
    entryDepth (setEntry kind mem entry state depth nexthop) entry = depth % 2 ^ 6 := by
  rw [← toNat_ofNat depth 6, entryDepth, setEntry, setState, update_self, setDepth, update_self]
  congr 1
  apply eq_of_getLsbD_eq
  intro bit bounded
  grind

theorem entryNexthop_setEntry :
    entryNexthop kind (setEntry kind mem entry state depth nexthop) entry =
      nexthopField kind nexthop := by
  cases kind with
  | lpm =>
    rw [entryNexthop, setEntry, setState, update_self, setDepth, update_self,
      setNexthop, update_self, nexthopField]
    congr 1
    apply eq_of_getLsbD_eq
    intro bit bounded
    simp only [getLsbD_extractLsb', getLsbD_append]
    grind
  | lpm32b =>
    have apart : entry + 1 ≠ entry := by omega
    rw [entryNexthop, setEntry, setState, update_of_ne apart, setDepth,
      update_of_ne apart, setNexthop, update_self, nexthopField]
  | lpm64b =>
    have apart : entry + 2 ≠ entry := by omega
    have further : entry + 2 + 1 ≠ entry := by omega
    rw [entryNexthop, load64, setEntry, setState, update_of_ne apart,
      update_of_ne further, setDepth, update_of_ne apart,
      update_of_ne further, setNexthop, store64_self]
    rw [store64, update_self, nexthopField]
    apply eq_of_getLsbD_eq
    intro bit bounded
    grind

/-- Two memories hold entries that no lookup tells apart: no groups, as deep as each other, and
valid together with one next hop. -/
structure EntryAgrees (kind : LpmKind) (mem other : Memory) (entry : Nat) : Prop where
  depth : entryDepth mem entry = entryDepth other entry
  single : entryState mem entry ≠ stateGroup
  otherSingle : entryState other entry ≠ stateGroup
  valid : entryState mem entry = stateValid ↔ entryState other entry = stateValid
  nexthop : entryState other entry = stateValid →
    entryNexthop kind mem entry = entryNexthop kind other entry

theorem entryAgrees_setEntry (other : Memory) (single : state ≠ stateGroup) :
    EntryAgrees kind (setEntry kind mem entry state depth nexthop)
      (setEntry kind other entry state depth nexthop) entry := by
  refine ⟨?_, ?_, ?_, ?_, fun _ => ?_⟩
  · rw [entryDepth_setEntry, entryDepth_setEntry]
  · rw [entryState_setEntry]
    exact single
  · rw [entryState_setEntry]
    exact single
  · rw [entryState_setEntry, entryState_setEntry]
  · rw [entryNexthop_setEntry, entryNexthop_setEntry]

theorem entryNexthop_congr {mem other : Memory}
    (same : ∀ word, word < kind.entryWords → mem (entry + word) = other (entry + word)) :
    entryNexthop kind mem entry = entryNexthop kind other entry := by
  cases kind with
  | lpm =>
    have first := same 0 (by decide)
    rw [add_zero] at first
    rw [entryNexthop, entryNexthop, first]
  | lpm32b => rw [entryNexthop, entryNexthop, same 1 (by decide)]
  | lpm64b =>
    rw [entryNexthop, entryNexthop, load64, load64, same 2 (by decide), same 3 (by decide)]

theorem EntryAgrees.congr {mem other mem' other' : Memory}
    (agrees : EntryAgrees kind mem other entry)
    (same : ∀ word, word < kind.entryWords → mem' (entry + word) = mem (entry + word))
    (otherSame : ∀ word, word < kind.entryWords → other' (entry + word) = other (entry + word)) :
    EntryAgrees kind mem' other' entry := by
  have first := same 0 (entryWords_pos kind)
  have otherFirst := otherSame 0 (entryWords_pos kind)
  rw [add_zero] at first otherFirst
  obtain ⟨depth, single, otherSingle, valid, nexthop⟩ := agrees
  simp only [entryDepth, entryState, ← first, ← otherFirst] at depth single otherSingle valid nexthop
  refine ⟨depth, single, otherSingle, valid, fun isValid => ?_⟩
  rw [entryNexthop_congr same, entryNexthop_congr otherSame]
  exact nexthop isValid

theorem EntryAgrees.setEntry {other : Memory} {entrys i j : Nat} (single : state ≠ stateGroup)
    (agrees : EntryAgrees kind mem other (entrys + j * kind.entryWords)) :
    EntryAgrees kind
      (setEntry kind mem (entrys + i * kind.entryWords) state depth nexthop)
      (setEntry kind other (entrys + i * kind.entryWords) state depth nexthop)
      (entrys + j * kind.entryWords) := by
  by_cases same : j = i
  · rw [same]
    exact entryAgrees_setEntry other single
  have outside := @entry_outside kind entrys i j same
  have further := @entry_outside kind entrys j i (Ne.symm same)
  apply agrees.congr
  · intro word within
    exact setEntry_apply_of_outside (by omega)
  · intro word within
    exact setEntry_apply_of_outside (by omega)

theorem forIndices_related {Related : LpmArray → LpmArray → Prop}
    {step otherStep : Nat → LpmArray → LpmArray × BsStatus} {last : Nat}
    (steps : ∀ i lpm other, i < last → Related lpm other →
      (step i lpm).2 = .ok ∧ (otherStep i other).2 = .ok ∧
        Related (step i lpm).1 (otherStep i other).1) :
    ∀ (num start : Nat) (lpm other : LpmArray), start + num ≤ last → Related lpm other →
      Related (forIndices step start num lpm).1 (forIndices otherStep start num other).1 := by
  intro num
  induction num with
  | zero => exact fun _ _ _ _ related => related
  | succ _ ih =>
    intro start lpm other bounded related
    obtain ⟨succeeds, otherSucceeds, stepped⟩ := steps start lpm other (by omega) related
    rw [forIndices, forIndices]
    rw [show step start lpm = ((step start lpm).1, .ok) from Prod.ext rfl succeeds,
      show otherStep start other = ((otherStep start other).1, .ok) from Prod.ext rfl otherSucceeds]
    exact ih (start + 1) _ _ (by omega) stepped

structure TableAgrees (kind : LpmKind) (array size : Nat) (lpm other : LpmArray) : Prop where
  place : lpm.array = array
  otherPlace : other.array = array
  entries : ∀ i, i < size → EntryAgrees kind lpm.mem other.mem (array + i * kind.entryWords)

section Tables

variable {bitNum : Nat → Nat} {ip : UINT} {array size : Nat} {lpm other : LpmArray}

theorem TableAgrees.fill {start num : Nat} {step otherStep : Nat → LpmArray → LpmArray × BsStatus}
    (agrees : TableAgrees kind array size lpm other) (depth newDepth : Nat)
    (nexthop : UINT64) (single : state ≠ stateGroup) (bounded : start + num ≤ size)
    (steps : ∀ i current, entryState current.mem (array + i * kind.entryWords) ≠ stateGroup →
      step i current =
        if entryDepth current.mem (array + i * kind.entryWords) ≤ depth then
          ({ current with
              mem := setEntry kind current.mem (array + i * kind.entryWords) state newDepth
                nexthop }, .ok)
        else
          (current, .ok))
    (otherSteps : ∀ i current, entryState current.mem (array + i * kind.entryWords) ≠ stateGroup →
      otherStep i current =
        if entryDepth current.mem (array + i * kind.entryWords) ≤ depth then
          ({ current with
              mem := setEntry kind current.mem (array + i * kind.entryWords) state newDepth
                nexthop }, .ok)
        else
          (current, .ok)) :
    TableAgrees kind array size (forIndices step start num lpm).1
      (forIndices otherStep start num other).1 := by
  refine forIndices_related (fun i lpm other inside agrees => ?_) num start lpm other bounded agrees
  have entry := agrees.entries i inside
  rw [steps i lpm entry.single, otherSteps i other entry.otherSingle, entry.depth]
  split
  · refine ⟨rfl, rfl, agrees.place, agrees.otherPlace, fun j within => ?_⟩
    exact (agrees.entries j within).setEntry single
  · exact ⟨rfl, rfl, agrees⟩

variable (first : bitNum 0 = firstBitNum) (upper : firstBitNum ≤ 24)

include first upper

section

variable (agrees : TableAgrees kind array (2 ^ firstBitNum) lpm other)

include agrees

theorem TableAgrees.addInner (left : Nat) (nexthop : UINT64) (reached : depth ≤ firstBitNum)
    (masked : ip &&& prefix2Mask depth = ip) :
    TableAgrees kind array (2 ^ firstBitNum)
      (arrayAddInner kind bitNum ip depth nexthop left 0 array lpm).1
      (arrayAddInner kind bitNum ip depth nexthop left 0 array other).1 := by
  cases left with
  | zero => exact agrees
  | succ =>
    have shallow : ¬ levelDepth bitNum 0 < depth := by
      rw [levelDepth, first]
      omega
    rw [arrayAddInner, if_neg shallow, arrayAddInner, if_neg shallow]
    apply agrees.fill depth depth nexthop (by decide : stateValid ≠ stateGroup)
      (firstLevel_range first upper masked reached)
    · intro i current single
      simp [if_neg single]
    · intro i current single
      simp [if_neg single]

theorem TableAgrees.delInner (left newDepth : Nat) (newNexthop : UINT64)
    (masked : depth ≤ 32 → ip &&& prefix2Mask depth = ip) :
    TableAgrees kind array (2 ^ firstBitNum)
      (arrayDelInner kind bitNum ip depth newDepth newNexthop left 0 array lpm)
      (arrayDelInner kind bitNum ip depth newDepth newNexthop left 0 array other) := by
  cases left with
  | zero => exact agrees
  | succ =>
    rw [arrayDelInner, arrayDelInner]
    by_cases null : array = 0
    · rw [if_pos null, if_pos null]
      exact agrees
    rw [if_neg null, if_neg null]
    by_cases deep : levelDepth bitNum 0 < depth
    · have index := entryIndex_lt (zero_le firstBitNum) (by omega) ip
      have entry := agrees.entries (entryIndex ip (upDepth bitNum 0) (levelDepth bitNum 0)) (by
        rw [upDepth_zero, levelDepth, first]
        exact index)
      rw [if_pos deep, if_neg entry.single, if_pos deep, if_neg entry.otherSingle]
      exact agrees
    have reached : depth ≤ firstBitNum := by
      rw [levelDepth, first] at deep
      omega
    rw [if_neg deep, if_neg deep]
    apply agrees.fill depth newDepth newNexthop (arrayNewState_ne_group newDepth newNexthop)
      (firstLevel_range first upper (masked (by omega)) reached)
    · intro i current single
      simp [if_neg single]
    · intro i current single
      simp [if_neg single]

theorem TableAgrees.lookupInner (left : Nat) (ip : UINT) :
    arrayLookupInner kind bitNum ip lpm left 0 0 array =
      arrayLookupInner kind bitNum ip other left 0 0 array := by
  cases left with
  | zero => rfl
  | succ =>
    have index := entryIndex_lt (zero_le firstBitNum) (by omega) ip
    have entry := agrees.entries (entryIndex ip 0 (0 + bitNum 0)) (by
      rw [zero_add, first]
      exact index)
    rw [arrayLookupInner, arrayLookupInner]
    simp only [if_neg entry.single, if_neg entry.otherSingle, entry.valid]
    split
    · next isValid => rw [entry.nexthop isValid]
    · rfl

end

end Tables

/-- Two instances without records whose first levels agree. -/
structure FirstLevelAgrees (kind : LpmKind) (firstBitNum : Nat) (lpm fresh : LpmS LpmArray) :
    Prop where
  first : lpm.bitNum 0 = firstBitNum
  upper : firstBitNum ≤ 24
  bitNum : fresh.bitNum = lpm.bitNum
  level : fresh.level = lpm.level
  recording : lpm.recordingMap = none
  freshRecording : fresh.recordingMap = none
  table : TableAgrees kind lpm.array.array (2 ^ firstBitNum) lpm.array fresh.array

section FirstLevels

variable {lpm fresh : LpmS LpmArray}

section

variable (agrees : FirstLevelAgrees kind firstBitNum lpm fresh)

include agrees

theorem FirstLevelAgrees.arrayAdd (ip : UINT) (nexthop : UINT64) (reached : depth ≤ firstBitNum) :
    FirstLevelAgrees kind firstBitNum (arrayAdd kind lpm ip depth nexthop).1
      (arrayAdd kind fresh ip depth nexthop).1 := by
  obtain ⟨first, upper, bitNum, level, recording, freshRecording, table⟩ := agrees
  unfold Lpm.arrayAdd
  split
  · exact ⟨first, upper, bitNum, level, recording, freshRecording, table⟩
  have added := table.addInner first upper lpm.level nexthop reached
    (and_prefix2Mask_idem (by omega) ip)
  rw [bitNum, level, table.otherPlace]
  refine ⟨first, upper, rfl, rfl, recording, freshRecording, ?_⟩
  exact added.place.symm ▸ added

theorem FirstLevelAgrees.arrayDel {ip : UINT}
    (newDepth : Nat) (newNexthop : UINT64) (masked : depth ≤ 32 → ip &&& prefix2Mask depth = ip) :
    FirstLevelAgrees kind firstBitNum (arrayDel kind lpm ip depth newDepth newNexthop)
      (arrayDel kind fresh ip depth newDepth newNexthop) := by
  obtain ⟨first, upper, bitNum, level, recording, freshRecording, table⟩ := agrees
  unfold Lpm.arrayDel
  have deleted := table.delInner first upper lpm.level newDepth newNexthop masked
  rw [bitNum, level, table.otherPlace]
  refine ⟨first, upper, rfl, rfl, recording, freshRecording, ?_⟩
  exact deleted.place.symm ▸ deleted

theorem FirstLevelAgrees.run {call : LpmCall} (shallow : call.Shallow firstBitNum) :
    FirstLevelAgrees kind firstBitNum (call.run kind.funcs lpm) (call.run kind.funcs fresh) := by
  cases call with
  | add =>
    simp only [LpmCall.run, lpmAdd, agrees.recording, agrees.freshRecording]
    cases kind <;> exact agrees.arrayAdd _ _ shallow
  | del ip depth =>
    have masked : depth ≤ 32 → ip &&& prefix2Mask depth &&& prefix2Mask depth =
        ip &&& prefix2Mask depth := fun inside => and_prefix2Mask_idem inside ip
    simp only [LpmCall.run, lpmDel, agrees.recording, agrees.freshRecording]
    cases kind <;> exact agrees.arrayDel _ _ masked

end

theorem FirstLevelAgrees.runs {calls : List LpmCall}
    (agrees : FirstLevelAgrees kind firstBitNum lpm fresh)
    (shallow : ∀ call ∈ calls, call.Shallow firstBitNum) :
    FirstLevelAgrees kind firstBitNum (calls.foldl (LpmCall.run kind.funcs) lpm)
      (calls.foldl (LpmCall.run kind.funcs) fresh) := by
  induction calls generalizing lpm fresh with
  | nil => exact agrees
  | cons call _ ih =>
    exact ih (agrees.run (shallow call List.mem_cons_self))
      fun other inside => shallow other (List.mem_cons_of_mem _ inside)

theorem FirstLevelAgrees.lookup (agrees : FirstLevelAgrees kind firstBitNum lpm fresh) (ip : UINT) :
    lpmLookup kind.funcs lpm ip = lpmLookup kind.funcs fresh ip := by
  have same := agrees.table.lookupInner agrees.first agrees.upper lpm.level ip
  have lookups : arrayLookup kind lpm ip = arrayLookup kind fresh ip := by
    rw [arrayLookup, arrayLookup, agrees.bitNum, agrees.level, agrees.table.otherPlace]
    exact same
  cases kind <;> exact lookups

end FirstLevels

end MyCode.Lpm
