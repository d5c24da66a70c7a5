import MyCode.Net

/-!
# Longest prefix match tables: the common part

`LPM_S` with its recording map and the functions of `lpm_common.c`, which
dispatch to the functions of an entry kind.  The recording map is the partial
function that the AVL map holds.
-/

namespace MyCode.Lpm

open Nat

/-- The states an entry has while it does not stand for a group. -/
inductive LpmEntryState where
  | free
  | invalid
  | valid
  deriving DecidableEq, Repr

structure LpmRecordKey where
  ip : UINT
  depth : Nat
  deriving DecidableEq, Repr

/-- `LPM_S`; what an entry kind keeps in it besides is in `array`. -/
structure LpmS (Array : Type) where
  bitNum : Nat → Nat
  level : Nat
  recordingMap : Option (LpmRecordKey → Option UINT64)
  array : Array

/-- Which allocations of one call succeed: the record, its map node, and the
entries of a new group at a level. -/
structure LpmAlloc where
  recordNode : Bool
  mapNode : Bool
  entrys : Nat → Bool

structure LpmFuncs (Array : Type) where
  setLevelFunc : LpmS Array → Nat → Nat → LpmS Array
  addFunc : LpmS Array → LpmAlloc → UINT → Nat → UINT64 → LpmS Array × BsStatus
  delFunc : LpmS Array → UINT → Nat → Nat → UINT64 → LpmS Array
  lookupFunc : LpmS Array → UINT → Option UINT64

/-- The layouts that the assertions of `LPM_SetLevel` admit. -/
structure LpmLayout (level firstBitNum : Nat) : Prop where
  levelLower : 2 ≤ level
  levelUpper : level ≤ 8
  firstLower : 8 ≤ firstBitNum
  firstUpper : firstBitNum ≤ 24
  total : (32 - firstBitNum) / (level - 1) * (level - 1) + firstBitNum = 32

def levelDepth (bitNum : Nat → Nat) : Nat → Nat
  | 0 => bitNum 0
  | level + 1 => levelDepth bitNum level + bitNum (level + 1)

def upDepth (bitNum : Nat → Nat) (level : Nat) : Nat :=
  levelDepth bitNum level - bitNum level

/-- Where the bits of `ip` between two depths point to. -/
def entryIndex (ip : UINT) (upDepth levelDepth : Nat) : Nat :=
  ((ip &&& ~~~prefix2Mask upDepth) >>> (32 - levelDepth)).toNat

/-- How many entries of a level a prefix covers.  The shift count of a `UINT`
is taken modulo its width. -/
def entryNum (levelDepth depth bitNum : Nat) : Nat :=
  min (2 ^ ((levelDepth - depth) % 32)) (2 ^ bitNum)

section Common

variable {Array : Type}

def lpmEnableRecording (lpm : LpmS Array) : LpmS Array :=
  match lpm.recordingMap with
  | some _ => lpm
  | none => { lpm with recordingMap := some fun _ => none }

def lpmSetLevel (funcs : LpmFuncs Array) (lpm : LpmS Array) (level firstBitNum : Nat) :
    LpmS Array :=
  let otherBitNum := (32 - firstBitNum) / (level - 1)
  let lpm := funcs.setLevelFunc lpm level firstBitNum
  { lpm with
    bitNum := fun i =>
      if i = 0 then firstBitNum else if i < level then otherBitNum else lpm.bitNum i
    level := level }

def lpmAdd (funcs : LpmFuncs Array) (lpm : LpmS Array) (alloc : LpmAlloc) (ip : UINT)
    (depth : Nat) (nexthop : UINT64) : LpmS Array × BsStatus :=
  let ip := ip &&& prefix2Mask depth
  match lpm.recordingMap with
  | none => funcs.addFunc lpm alloc ip depth nexthop
  | some map =>
    if !alloc.recordNode || !alloc.mapNode then
      (lpm, .noMemory)
    else if (map ⟨ip, depth⟩).isSome then
      (lpm, .alreadyExist)
    else
      let lpm := { lpm with recordingMap := some (Function.update map ⟨ip, depth⟩ (some nexthop)) }
      match funcs.addFunc lpm alloc ip depth nexthop with
      | (lpm, .ok) => (lpm, .ok)
      | (lpm, ret) => ({ lpm with recordingMap := some map }, ret)

/-- `_lpm_get_parent`: the loop from `depth - 1` down to `0`. -/
def lpmGetParent (map : LpmRecordKey → Option UINT64) (ip : UINT) : Nat → Option (Nat × UINT64)
  | 0 => none
  | i + 1 =>
    match map ⟨ip &&& prefix2Mask i, i⟩ with
    | some nexthop => some (i, nexthop)
    | none => lpmGetParent map ip i

def lpmDel (funcs : LpmFuncs Array) (lpm : LpmS Array) (ip : UINT) (depth newDepth : Nat)
    (newNexthop : UINT64) : LpmS Array :=
  let ip := ip &&& prefix2Mask depth
  match lpm.recordingMap with
  | none => funcs.delFunc lpm ip depth newDepth newNexthop
  | some map =>
    let map := Function.update map ⟨ip, depth⟩ none
    let lpm := { lpm with recordingMap := some map }
    match lpmGetParent map ip depth with
    | some (parentDepth, nexthop) => funcs.delFunc lpm ip depth parentDepth nexthop
    | none => funcs.delFunc lpm ip depth newDepth newNexthop

def lpmFindRecording (lpm : LpmS Array) (ip : UINT) (depth : Nat) : Option UINT64 :=
  lpm.recordingMap.bind fun map => map ⟨ip &&& prefix2Mask depth, depth⟩

def lpmLookup (funcs : LpmFuncs Array) (lpm : LpmS Array) (ip : UINT) : Option UINT64 :=
  funcs.lookupFunc lpm ip

end Common

section Levels

variable {bitNum : Nat → Nat} {level up down depth : Nat} {ip target : UINT}

@[simp]
theorem upDepth_zero : upDepth bitNum 0 = 0 := Nat.sub_self _

@[simp]
theorem upDepth_succ (bitNum : Nat → Nat) (level : Nat) :
    upDepth bitNum (level + 1) = levelDepth bitNum level :=
  Nat.add_sub_cancel _ _

theorem upDepth_add (bitNum : Nat → Nat) (level : Nat) :
    upDepth bitNum level + bitNum level = levelDepth bitNum level := by
  cases level with
  | zero => rw [upDepth_zero, levelDepth, zero_add]
  | succ => rw [upDepth_succ, levelDepth]

theorem levelDepth_le {shallow : Nat} (le : shallow ≤ level) :
    levelDepth bitNum shallow ≤ levelDepth bitNum level := by
  induction le with
  | refl => exact le_refl _
  | step _ ih => exact le_trans ih (le_add_right _ _)

theorem entryIndex_eq (nested : up ≤ down) (inside : down ≤ 32) (ip : UINT) :
    entryIndex ip up down = leading down ip % 2 ^ (down - up) := by
  have split : 32 - up = 32 - down + (down - up) := by omega
  rw [entryIndex, BitVec.toNat_ushiftRight, toNat_and_not_prefix2Mask (by omega),
    shiftRight_eq_div_pow, split, pow_add, mod_mul_right_div_self, leading]

theorem entryIndex_eq_iff (nested : up ≤ down) (inside : down ≤ 32)
    (same : leading up ip = leading up target) :
    entryIndex ip up down = entryIndex target up down ↔ leading down ip = leading down target := by
  rw [leading_of_le nested inside, leading_of_le nested inside target] at same
  rw [entryIndex_eq nested inside, entryIndex_eq nested inside]
  constructor
  · intro index
    rw [← div_add_mod (leading down ip) (2 ^ (down - up)), index, same, div_add_mod]
  · exact fun equal => by rw [equal]

theorem entryIndex_lt (nested : up ≤ down) (inside : down ≤ 32) (ip : UINT) :
    entryIndex ip up down < 2 ^ (down - up) := by
  rw [entryIndex_eq nested inside]
  exact Nat.mod_lt _ (Nat.pow_pos (by decide))

theorem leading_mod_of_masked (shallow : depth ≤ down) (inside : down ≤ 32)
    (masked : ip &&& prefix2Mask depth = ip) : leading down ip % 2 ^ (down - depth) = 0 := by
  have value : ip.toNat = leading depth ip * 2 ^ (32 - depth) := by
    rw [← toNat_and_prefix2Mask (by omega), masked]
  have split : 32 - depth = down - depth + (32 - down) := by omega
  rw [leading, value, split, pow_add, ← mul_assoc,
    Nat.mul_div_cancel _ (Nat.pow_pos (by decide)), Nat.mul_mod_left]

theorem entryIndex_of_shallow (shallow : depth ≤ up) (nested : up ≤ down) (inside : down ≤ 32)
    (masked : ip &&& prefix2Mask depth = ip) : entryIndex ip up down = 0 := by
  rw [entryIndex_eq nested inside]
  have whole := leading_mod_of_masked (le_trans shallow nested) inside masked
  have divides : 2 ^ (down - up) ∣ 2 ^ (down - depth) := pow_dvd_pow 2 (by omega)
  exact mod_eq_zero_of_dvd (dvd_trans divides (dvd_of_mod_eq_zero whole))

theorem entryNum_of_shallow (shallow : depth ≤ up) (nested : up ≤ down)
    (narrow : down - depth < 32) : entryNum down depth (down - up) = 2 ^ (down - up) := by
  exact Nat.min_eq_right (Nat.pow_le_pow_right (by decide) (by omega))

theorem mem_alignedRange_iff {unit block a b : Nat} (positive : 0 < unit) (aligned : b % unit = 0)
    (shared : a / (unit * block) = b / (unit * block)) :
    (b % (unit * block) ≤ a % (unit * block) ∧
      a % (unit * block) < b % (unit * block) + unit) ↔ a / unit = b / unit := by
  obtain ⟨part, exactly⟩ : unit ∣ b % (unit * block) :=
    (dvd_mod_iff (dvd_mul_right _ _)).mpr (dvd_of_mod_eq_zero aligned)
  have quotients : a / unit = b / unit ↔ a % (unit * block) / unit = part := by
    have partEq : b % (unit * block) / unit = part := by
      rw [exactly, Nat.mul_div_cancel_left _ positive]
    rw [← partEq, mod_mul_right_div_self, mod_mul_right_div_self]
    rw [← Nat.div_div_eq_div_mul, ← Nat.div_div_eq_div_mul] at shared
    constructor
    · exact fun equal => by rw [equal]
    · intro equal
      rw [← div_add_mod (a / unit) block, equal, shared, div_add_mod]
  rw [quotients, exactly, Nat.div_eq_iff positive]
  have step : part * unit = unit * part := mul_comm _ _
  omega

theorem mem_entryRange_iff (deep : up ≤ depth) (shallow : depth ≤ down) (inside : down ≤ 32)
    (narrow : down - depth < 32) (masked : target &&& prefix2Mask depth = target)
    (same : leading up ip = leading up target) :
    (entryIndex target up down ≤ entryIndex ip up down ∧
      entryIndex ip up down < entryIndex target up down + entryNum down depth (down - up)) ↔
      leading depth ip = leading depth target := by
  have size : 2 ^ (down - up) = 2 ^ (down - depth) * 2 ^ (depth - up) := by
    rw [← pow_add]
    congr 1
    omega
  have num : entryNum down depth (down - up) = 2 ^ (down - depth) := by
    rw [entryNum, mod_eq_of_lt narrow]
    exact Nat.min_eq_left (Nat.pow_le_pow_right (by decide) (by omega))
  rw [leading_of_le (by omega : up ≤ down) inside, leading_of_le (by omega : up ≤ down) inside target,
    size] at same
  rw [entryIndex_eq (by omega) inside, entryIndex_eq (by omega) inside, num, size,
    leading_of_le shallow inside, leading_of_le shallow inside target]
  exact mem_alignedRange_iff (Nat.pow_pos (by decide))
    (leading_mod_of_masked shallow inside masked) same

end Levels

end MyCode.Lpm

/-!
## DLPM64B: groups allocated on demand

The entries of `lpm64b_dynamic.c`.  An entry in the state `GROUP` owns the
block of entries it points to, so the model puts the block in its place.  The
functions recurse over the levels that are left below a table.
-/

namespace MyCode.Lpm

inductive Dlpm64bEntry where
  | cell (state : LpmEntryState) (depth : Nat) (nexthop : UINT64)
  | group (entrys : Nat → Dlpm64bEntry)

namespace Dlpm64bEntry

def zero : Dlpm64bEntry := cell .free 0 0

end Dlpm64bEntry

open Dlpm64bEntry

/-- A loop over `num` entries from `i` that returns at the first error. -/
def forEntrys (step : Dlpm64bEntry → Dlpm64bEntry × BsStatus) :
    Nat → Nat → (Nat → Dlpm64bEntry) → (Nat → Dlpm64bEntry) × BsStatus
  | _, 0, entrys => (entrys, .ok)
  | i, num + 1, entrys =>
    match step (entrys i) with
    | (entry, .ok) => forEntrys step (i + 1) num (Function.update entrys i entry)
    | (entry, ret) => (Function.update entrys i entry, ret)

def dlpm64bAllocEntry : Nat → Dlpm64bEntry :=
  fun i => if i = 0 then cell .invalid 0 0 else zero

/-- A new group that takes over what its entry held. -/
def dlpm64bSplit (bitNum : Nat) (state : LpmEntryState) (depth : Nat) (nexthop : UINT64) :
    Nat → Dlpm64bEntry :=
  fun i =>
    if state = .valid ∧ i < 2 ^ bitNum then
      cell .valid depth nexthop
    else
      dlpm64bAllocEntry i

/-- What an added prefix makes of an entry it covers. -/
def dlpm64bAddEntry (inner : (Nat → Dlpm64bEntry) → (Nat → Dlpm64bEntry) × BsStatus)
    (depth : Nat) (nexthop : UINT64) : Dlpm64bEntry → Dlpm64bEntry × BsStatus
  | cell state oldDepth oldNexthop =>
    if oldDepth ≤ depth then
      (cell .valid depth nexthop, .ok)
    else
      (cell state oldDepth oldNexthop, .ok)
  | group nextEntrys =>
    let (nextEntrys, ret) := inner nextEntrys
    (group nextEntrys, ret)

def dlpm64bAddInner (bitNum : Nat → Nat) (alloc : LpmAlloc) (ip : UINT) (depth : Nat)
    (nexthop : UINT64) :
    Nat → Nat → (Nat → Dlpm64bEntry) → (Nat → Dlpm64bEntry) × BsStatus
  | 0, _, entrys => (entrys, .err)
  | left + 1, level, entrys =>
    let inner := dlpm64bAddInner bitNum alloc ip depth nexthop left (level + 1)
    let index := entryIndex ip (upDepth bitNum level) (levelDepth bitNum level)
    if levelDepth bitNum level < depth then
      match entrys index with
      | group nextEntrys =>
        let (nextEntrys, ret) := inner nextEntrys
        (Function.update entrys index (group nextEntrys), ret)
      | cell state oldDepth oldNexthop =>
        if alloc.entrys (level + 1) then
          let (nextEntrys, ret) :=
            inner (dlpm64bSplit (bitNum (level + 1)) state oldDepth oldNexthop)
          (Function.update entrys index (group nextEntrys), ret)
        else
          (entrys, .err)
    else
      forEntrys (dlpm64bAddEntry inner depth nexthop) index
        (entryNum (levelDepth bitNum level) depth (bitNum level)) entrys

def dlpm64bCanRecycle (bitNum : Nat → Nat) (level : Nat) (entrys : Nat → Dlpm64bEntry)
    (toState : LpmEntryState) : Bool :=
  (List.range (2 ^ bitNum level)).all fun i =>
    match entrys i with
    | group _ => false
    | cell state depth _ =>
      decide (depth ≤ upDepth bitNum level) &&
        !(decide (toState = .invalid) && decide (state = .valid))

/-- The state that a deleted prefix leaves behind. -/
def lpmNewState (newDepth : Nat) (newNexthop : UINT64) : LpmEntryState :=
  if newDepth = 0 ∧ newNexthop = 0 then .invalid else .valid

/-- What a deleted prefix makes of an entry it covers. -/
def dlpm64bDelEntry (inner : (Nat → Dlpm64bEntry) → (Nat → Dlpm64bEntry))
    (depth newDepth : Nat) (newNexthop : UINT64) : Dlpm64bEntry → Dlpm64bEntry × BsStatus
  | group nextEntrys => (group (inner nextEntrys), .ok)
  | cell state oldDepth oldNexthop =>
    if oldDepth ≤ depth then
      (cell (lpmNewState newDepth newNexthop) newDepth newNexthop, .ok)
    else
      (cell state oldDepth oldNexthop, .ok)

def dlpm64bDelInner (bitNum : Nat → Nat) (ip : UINT) (depth newDepth : Nat)
    (newNexthop : UINT64) :
    Nat → Nat → (Nat → Dlpm64bEntry) → (Nat → Dlpm64bEntry)
  | 0, _, entrys => entrys
  | left + 1, level, entrys =>
    let inner := dlpm64bDelInner bitNum ip depth newDepth newNexthop left (level + 1)
    let state := lpmNewState newDepth newNexthop
    let index := entryIndex ip (upDepth bitNum level) (levelDepth bitNum level)
    if levelDepth bitNum level < depth then
      match entrys index with
      | cell _ _ _ => entrys
      | group nextEntrys =>
        let nextEntrys := inner nextEntrys
        if dlpm64bCanRecycle bitNum (level + 1) nextEntrys state then
          Function.update entrys index (cell state newDepth newNexthop)
        else
          Function.update entrys index (group nextEntrys)
    else
      (forEntrys (dlpm64bDelEntry inner depth newDepth newNexthop) index
        (entryNum (levelDepth bitNum level) depth (bitNum level)) entrys).1

/-- The loop over the levels `i`, ..., with the entries found so far. -/
def dlpm64bLookupInner (bitNum : Nat → Nat) (ip : UINT) :
    Nat → Nat → Nat → (Nat → Dlpm64bEntry) → Option UINT64
  | 0, _, _, _ => none
  | left + 1, i, startBit, entrys =>
    let stopBit := startBit + bitNum i
    match entrys (entryIndex ip startBit stopBit) with
    | cell .valid _ nexthop => some nexthop
    | group nextEntrys => dlpm64bLookupInner bitNum ip left (i + 1) stopBit nextEntrys
    | _ => none

abbrev Dlpm64b := LpmS (Nat → Dlpm64bEntry)

def dlpm64bInit : Dlpm64b where
  bitNum _ := 0
  level := 0
  recordingMap := none
  array _ := zero

def dlpm64bSetLevel (lpm : Dlpm64b) (_level _firstBitNum : Nat) : Dlpm64b :=
  { lpm with array := fun _ => zero }

def dlpm64bAdd (lpm : Dlpm64b) (alloc : LpmAlloc) (ip : UINT) (depth : Nat) (nexthop : UINT64) :
    Dlpm64b × BsStatus :=
  if depth < 1 ∨ 32 < depth then
    (lpm, .err)
  else
    let (array, ret) := dlpm64bAddInner lpm.bitNum alloc ip depth nexthop lpm.level 0 lpm.array
    ({ lpm with array := array }, ret)

def dlpm64bDel (lpm : Dlpm64b) (ip : UINT) (depth newDepth : Nat) (newNexthop : UINT64) :
    Dlpm64b :=
  { lpm with
    array := dlpm64bDelInner lpm.bitNum ip depth newDepth newNexthop lpm.level 0 lpm.array }

def dlpm64bLookup (lpm : Dlpm64b) (ip : UINT) : Option UINT64 :=
  dlpm64bLookupInner lpm.bitNum ip lpm.level 0 0 lpm.array

def dlpm64bFuncs : LpmFuncs (Nat → Dlpm64bEntry) where
  setLevelFunc := dlpm64bSetLevel
  addFunc := dlpm64bAdd
  delFunc := dlpm64bDel
  lookupFunc := dlpm64bLookup

/-- Calls with prefix lengths up to 32 and, for a delete, no parent prefix. -/
inductive Dlpm64bReachable (level firstBitNum : Nat) : Dlpm64b → Prop where
  | init :
      Dlpm64bReachable level firstBitNum
        (lpmSetLevel dlpm64bFuncs (lpmEnableRecording dlpm64bInit) level firstBitNum)
  | add {lpm} (alloc : LpmAlloc) (ip : UINT) (depth : Nat) (nexthop : UINT64) :
      Dlpm64bReachable level firstBitNum lpm →
      depth ≤ 32 →
      Dlpm64bReachable level firstBitNum (lpmAdd dlpm64bFuncs lpm alloc ip depth nexthop).1
  | del {lpm} (ip : UINT) (depth : Nat) :
      Dlpm64bReachable level firstBitNum lpm →
      depth ≤ 32 →
      Dlpm64bReachable level firstBitNum (lpmDel dlpm64bFuncs lpm ip depth 0 0)

end MyCode.Lpm
