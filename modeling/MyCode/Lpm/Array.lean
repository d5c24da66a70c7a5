import MyCode.Lpm.Common

/-!
# LPM, LPM32B and LPM64B: groups in one array

The three entry kinds of `lpm_utl.c`, `lpm32b_utl.c` and `lpm64b_utl.c` keep
their groups in blocks of one entry array, and thread the list of the free
blocks through the entries themselves.  What overlaps what is the point here,
so the model is memory: words of 32 bits at word addresses, with 64-bit byte
addresses as the pointers that are stored in it.
-/

namespace MyCode.Lpm

open Function List

inductive LpmKind where
  | lpm
  | lpm32b
  | lpm64b
  deriving DecidableEq, Repr

def LpmKind.entryWords : LpmKind → Nat
  | lpm => 1
  | lpm32b => 2
  | lpm64b => 4

abbrev Memory := Nat → UINT

structure LpmArray where
  mem : Memory
  /-- The word address of the entry array. -/
  array : Nat
  arraySize : UINT
  freeList : UINT64

def pointer (address : Nat) : UINT64 :=
  BitVec.ofNat 64 (4 * address)

def address (pointer : UINT64) : Nat :=
  pointer.toNat / 4

def load64 (mem : Memory) (address : Nat) : UINT64 :=
  mem (address + 1) ++ mem address

def store64 (mem : Memory) (address : Nat) (value : UINT64) : Memory :=
  update (update mem address (value.extractLsb' 0 32)) (address + 1)
    (value.extractLsb' 32 32)

def memsetZero (mem : Memory) (address words : Nat) : Memory :=
  fun a => if address ≤ a ∧ a < address + words then 0 else mem a

def stateFree : BitVec 2 := 0

def stateInvalid : BitVec 2 := 1

def stateValid : BitVec 2 := 2

def stateGroup : BitVec 2 := 3

def entryState (mem : Memory) (entry : Nat) : BitVec 2 :=
  (mem entry).extractLsb' 0 2

def entryDepth (mem : Memory) (entry : Nat) : Nat :=
  ((mem entry).extractLsb' 2 6).toNat

def setState (mem : Memory) (entry : Nat) (state : BitVec 2) : Memory :=
  update mem entry ((mem entry).extractLsb' 2 30 ++ state)

def setDepth (mem : Memory) (entry : Nat) (depth : Nat) : Memory :=
  update mem entry
    ((mem entry).extractLsb' 8 24 ++ BitVec.ofNat 6 depth ++ (mem entry).extractLsb' 0 2)

def entryNexthop (kind : LpmKind) (mem : Memory) (entry : Nat) : UINT64 :=
  match kind with
  | .lpm => ((mem entry).extractLsb' 8 24).setWidth 64
  | .lpm32b => (mem (entry + 1)).setWidth 64
  | .lpm64b => load64 mem (entry + 2)

def setNexthop (kind : LpmKind) (mem : Memory) (entry : Nat) (nexthop : UINT64) : Memory :=
  match kind with
  | .lpm => update mem entry (nexthop.setWidth 24 ++ (mem entry).extractLsb' 0 8)
  | .lpm32b => update mem (entry + 1) (nexthop.setWidth 32)
  | .lpm64b => store64 mem (entry + 2) nexthop

/-- The three assignments that fill in an entry. -/
def setEntry (kind : LpmKind) (mem : Memory) (entry : Nat) (state : BitVec 2) (depth : Nat)
    (nexthop : UINT64) : Memory :=
  setState (setDepth (setNexthop kind mem entry nexthop) entry depth) entry state

def freeListPut (lpm : LpmArray) (node : Nat) : LpmArray :=
  { lpm with
    mem := store64 lpm.mem node lpm.freeList
    freeList := pointer node }

def freeListGet (lpm : LpmArray) : Option Nat × LpmArray :=
  if lpm.freeList = 0 then
    (none, lpm)
  else
    (some (address lpm.freeList), { lpm with freeList := load64 lpm.mem (address lpm.freeList) })

section Blocks

variable (kind : LpmKind) (bitNum : Nat → Nat)

/-- `entry_2_index`; an `int` is its 32-bit word. -/
def entry2Index (lpm : LpmArray) (entry : Nat) : UINT :=
  BitVec.ofInt 32 (((entry : Int) - lpm.array) / kind.entryWords)

def index2Entry (lpm : LpmArray) (index : UINT) : Nat :=
  ((lpm.array : Int) + index.toInt * kind.entryWords).toNat

def index2Block (index : UINT) : UINT :=
  (index - BitVec.ofNat 32 (2 ^ bitNum 0)).sshiftRight (bitNum 1)

def block2Index (block : UINT) : UINT :=
  BitVec.ofNat 32 (2 ^ bitNum 0) + (block <<< bitNum 1)

def block2Entry (lpm : LpmArray) (block : UINT) : Nat :=
  index2Entry kind lpm (block2Index bitNum block)

/-- The entries of the group that an entry stands for: LPM64B stores their
pointer, the other kinds the number of their block. -/
def groupEntrys (lpm : LpmArray) (entry : Nat) : Nat :=
  match kind with
  | .lpm64b => address (entryNexthop kind lpm.mem entry)
  | _ => block2Entry kind bitNum lpm ((entryNexthop kind lpm.mem entry).setWidth 32)

def groupNexthop (lpm : LpmArray) (entrys : Nat) : UINT64 :=
  match kind with
  | .lpm64b => pointer entrys
  | _ => (index2Block bitNum (entry2Index kind lpm entrys)).setWidth 64

/-- `alloc_entry`: the entries of a new group. -/
def allocEntry (lpm : LpmArray) : Option Nat × LpmArray :=
  match freeListGet lpm with
  | (none, lpm) => (none, lpm)
  | (some entry, lpm) =>
    let mem := memsetZero lpm.mem entry (kind.entryWords * 2 ^ bitNum 1)
    let lpm := { lpm with mem := setState mem entry stateInvalid }
    match kind with
    | .lpm64b => (some entry, lpm)
    | _ =>
      let index := entry2Index kind lpm entry
      if index.toInt < 0 then (none, lpm) else (some (index2Entry kind lpm index), lpm)

def freeEntrys (lpm : LpmArray) (entrys : Nat) : LpmArray :=
  freeListPut { lpm with mem := setState lpm.mem entrys stateFree } entrys

/-- `init_freelist`, with the bit numbers of the moment. -/
def initFreelist (lpm : LpmArray) : LpmArray :=
  let start := BitVec.ofNat 32 (2 ^ bitNum 0)
  let left := (lpm.arraySize - start).toInt
  let blockCount := left.tdiv (2 ^ bitNum 1)
  (range blockCount.toNat).foldl
    (fun lpm i => freeListPut lpm (block2Entry kind bitNum lpm (BitVec.ofNat 32 i))) lpm

end Blocks

/-- A loop over `num` entries from `i` that returns at the first error. -/
def forIndices (step : Nat → LpmArray → LpmArray × BsStatus) :
    Nat → Nat → LpmArray → LpmArray × BsStatus
  | _, 0, lpm => (lpm, .ok)
  | i, num + 1, lpm =>
    match step i lpm with
    | (lpm, .ok) => forIndices step (i + 1) num lpm
    | (lpm, ret) => (lpm, ret)

section Operations

variable (kind : LpmKind) (bitNum : Nat → Nat) (ip : UINT) (depth : Nat)

def splitEntry (level : Nat) (entry entrys : Nat) (lpm : LpmArray) : LpmArray :=
  let mem :=
    if entryState lpm.mem entry = stateValid then
      (range (2 ^ bitNum (level + 1))).foldl
        (fun mem i =>
          setNexthop kind
            (setDepth (setState mem (entrys + i * kind.entryWords) stateValid)
              (entrys + i * kind.entryWords) (entryDepth mem entry))
            (entrys + i * kind.entryWords) (entryNexthop kind mem entry))
        lpm.mem
    else
      lpm.mem
  let mem := setDepth (setState mem entry stateGroup) entry 0
  { lpm with mem := setNexthop kind mem entry (groupNexthop kind bitNum lpm entrys) }

def arrayAddInner (nexthop : UINT64) : Nat → Nat → Nat → LpmArray → LpmArray × BsStatus
  | 0, _, _, lpm => (lpm, .err)
  | left + 1, level, entrys, lpm =>
    let inner := arrayAddInner nexthop left (level + 1)
    let index := entryIndex ip (upDepth bitNum level) (levelDepth bitNum level)
    let entry := entrys + index * kind.entryWords
    if levelDepth bitNum level < depth then
      if entryState lpm.mem entry = stateGroup then
        inner (groupEntrys kind bitNum lpm entry) lpm
      else
        match allocEntry kind bitNum lpm with
        | (none, lpm) => (lpm, .err)
        | (some nextEntrys, lpm) =>
          let lpm := splitEntry kind bitNum level entry nextEntrys lpm
          inner (groupEntrys kind bitNum lpm entry) lpm
    else
      forIndices
        (fun i lpm =>
          let entry := entrys + i * kind.entryWords
          if entryState lpm.mem entry = stateGroup then
            inner (groupEntrys kind bitNum lpm entry) lpm
          else if entryDepth lpm.mem entry ≤ depth then
            ({ lpm with mem := setEntry kind lpm.mem entry stateValid depth nexthop }, .ok)
          else
            (lpm, .ok))
        index (entryNum (levelDepth bitNum level) depth (bitNum level)) lpm

def arrayCanRecycle (level entrys : Nat) (lpm : LpmArray) (toState : BitVec 2) : Bool :=
  (range (2 ^ bitNum level)).all fun i =>
    let entry := entrys + i * kind.entryWords
    decide (entryState lpm.mem entry ≠ stateGroup) &&
      decide (entryDepth lpm.mem entry ≤ upDepth bitNum level) &&
      !(decide (toState = stateInvalid) && decide (entryState lpm.mem entry = stateValid))

def arrayNewState (newDepth : Nat) (newNexthop : UINT64) : BitVec 2 :=
  if newDepth = 0 ∧ newNexthop = 0 then stateInvalid else stateValid

def arrayDelInner (newDepth : Nat) (newNexthop : UINT64) :
    Nat → Nat → Nat → LpmArray → LpmArray
  | 0, _, _, lpm => lpm
  | left + 1, level, entrys, lpm =>
    let inner := arrayDelInner newDepth newNexthop left (level + 1)
    let state := arrayNewState newDepth newNexthop
    let index := entryIndex ip (upDepth bitNum level) (levelDepth bitNum level)
    let entry := entrys + index * kind.entryWords
    if entrys = 0 then
      lpm
    else if levelDepth bitNum level < depth then
      if entryState lpm.mem entry = stateGroup then
        let lpm := inner (groupEntrys kind bitNum lpm entry) lpm
        let nextEntrys := groupEntrys kind bitNum lpm entry
        if arrayCanRecycle kind bitNum (level + 1) nextEntrys lpm state then
          let lpm := freeEntrys lpm nextEntrys
          { lpm with mem := setEntry kind lpm.mem entry state newDepth newNexthop }
        else
          lpm
      else
        lpm
    else
      (forIndices (fun i lpm =>
          let entry := entrys + i * kind.entryWords
          if entryState lpm.mem entry = stateGroup then
            (inner (groupEntrys kind bitNum lpm entry) lpm, .ok)
          else if entryDepth lpm.mem entry ≤ depth then
            ({ lpm with mem := setEntry kind lpm.mem entry state newDepth newNexthop }, .ok)
          else
            (lpm, .ok))
        index (entryNum (levelDepth bitNum level) depth (bitNum level)) lpm).1

def arrayLookupInner (lpm : LpmArray) : Nat → Nat → Nat → Nat → Option UINT64
  | 0, _, _, _ => none
  | left + 1, i, startBit, entrys =>
    let stopBit := startBit + bitNum i
    let entry := entrys + entryIndex ip startBit stopBit * kind.entryWords
    if entryState lpm.mem entry = stateValid then
      some (entryNexthop kind lpm.mem entry)
    else if entryState lpm.mem entry = stateGroup then
      arrayLookupInner lpm left (i + 1) stopBit (groupEntrys kind bitNum lpm entry)
    else
      none

end Operations

def arraySetLevel (kind : LpmKind) (lpm : LpmS LpmArray) (_level _firstBitNum : Nat) :
    LpmS LpmArray :=
  { lpm with array := initFreelist kind lpm.bitNum lpm.array }

def arrayAdd (kind : LpmKind) (lpm : LpmS LpmArray) (ip : UINT) (depth : Nat)
    (nexthop : UINT64) : LpmS LpmArray × BsStatus :=
  if depth < 1 ∨ 32 < depth then
    (lpm, .err)
  else
    let ipMasked := ip &&& prefix2Mask depth
    let (array, ret) := arrayAddInner kind lpm.bitNum ipMasked depth nexthop lpm.level 0
      lpm.array.array lpm.array
    ({ lpm with array := array }, ret)

def arrayDel (kind : LpmKind) (lpm : LpmS LpmArray) (ip : UINT) (depth newDepth : Nat)
    (newNexthop : UINT64) : LpmS LpmArray :=
  { lpm with
    array := arrayDelInner kind lpm.bitNum ip depth newDepth newNexthop lpm.level 0
      lpm.array.array lpm.array }

def arrayLookup (kind : LpmKind) (lpm : LpmS LpmArray) (ip : UINT) : Option UINT64 :=
  arrayLookupInner kind lpm.bitNum ip lpm.array lpm.level 0 0 lpm.array.array

/-- LPM passes next hops on as a `UINT`. -/
def lpmNexthop (nexthop : UINT64) : UINT64 :=
  (nexthop.setWidth 32).setWidth 64

def gLpmFuncs : LpmFuncs LpmArray where
  setLevelFunc := arraySetLevel .lpm
  addFunc lpm _ ip depth nexthop := arrayAdd .lpm lpm ip depth (lpmNexthop nexthop)
  delFunc lpm ip depth newDepth newNexthop :=
    arrayDel .lpm lpm ip depth newDepth (lpmNexthop newNexthop)
  lookupFunc := arrayLookup .lpm

def gLpm32bFuncs : LpmFuncs LpmArray where
  setLevelFunc := arraySetLevel .lpm32b
  addFunc lpm _ ip depth nexthop := arrayAdd .lpm32b lpm ip depth nexthop
  delFunc := arrayDel .lpm32b
  lookupFunc := arrayLookup .lpm32b

def gLpm64bFuncs : LpmFuncs LpmArray where
  setLevelFunc := arraySetLevel .lpm64b
  addFunc lpm _ ip depth nexthop := arrayAdd .lpm64b lpm ip depth nexthop
  delFunc := arrayDel .lpm64b
  lookupFunc := arrayLookup .lpm64b

def LpmKind.funcs : LpmKind → LpmFuncs LpmArray
  | lpm => gLpmFuncs
  | lpm32b => gLpm32bFuncs
  | lpm64b => gLpm64bFuncs

/-- `LPM_Init`, `LPM32B_Init` and `LPM64B_Init` on the memory of an array. -/
def lpmInit (mem : Memory) (array : Nat) (arraySize : UINT) : LpmS LpmArray where
  bitNum _ := 0
  level := 0
  recordingMap := none
  array := ⟨mem, array, arraySize, 0⟩

end MyCode.Lpm
