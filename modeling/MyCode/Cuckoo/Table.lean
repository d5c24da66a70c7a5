import MyCode.Types
import Mathlib.Data.List.Basic

/-!
# Cuckoo hashing

`cuckoo_hash.c`.  The draws of `RAND_Get` are a parameter of every add, and an `int`
that the code gets from a `UINT` is the integer of the same bits.
-/

namespace MyCode.Cuckoo

structure CuckooFuncs (α : Type) where
  index_func : α → UINT
  cmp_func : α → α → UINT

structure CuckooHashNode (α : Type) where
  used : Bool
  key_factor : UINT
  data : α

structure CuckooHashS (α : Type) where
  bucket_mask : UINT
  bucket_depth_mask : UINT
  bucket_num : Int
  bucket_depth : Int
  entry_count : Int
  table : Nat → CuckooHashNode α

def cuckooHashMaxTry : Nat := 256

variable {α : Type}

def cuckooHashInit (NUM_IS2N : UINT → Bool) (table : Nat → CuckooHashNode α)
    (bucket_num bucket_depth : UINT) : Option (CuckooHashS α) :=
  if !NUM_IS2N bucket_num then
    none
  else if !NUM_IS2N bucket_depth then
    none
  else
    some
      { bucket_mask := bucket_num - 1
        bucket_depth_mask := bucket_depth - 1
        bucket_num := bucket_num.toInt
        bucket_depth := bucket_depth.toInt
        entry_count := 0
        table := fun i => { table i with used := false } }

section Operations

variable (hash : CuckooHashS α)

def cuckoohashFirstBktIndex (key_factor : UINT) : Nat :=
  (key_factor &&& hash.bucket_mask).toNat

def cuckoohashSecondBktIndex (key_factor : UINT) : Nat :=
  let first_index := key_factor &&& hash.bucket_mask
  let index := (key_factor >>> 16 ^^^ key_factor) &&& hash.bucket_mask
  if index = first_index then
    let index := (key_factor >>> 7 ^^^ 0x5bd1e995) &&& hash.bucket_mask
    if index = first_index then (~~~index &&& hash.bucket_mask).toNat else index.toNat
  else
    index.toNat

def cuckoohashPeerBktIndex (key_factor : UINT) (cur_index : Nat) : Nat :=
  let index := cuckoohashFirstBktIndex hash key_factor
  if index = cur_index then cuckoohashSecondBktIndex hash key_factor else index

/-- The places of a bucket, in the order of the loops. -/
def cuckoohashBkt (bkt_index : Nat) : List Nat :=
  List.range' (bkt_index * hash.bucket_depth.toNat) hash.bucket_depth.toNat

def cuukoohashGetLastUsedInBkt (bkt_index : Nat) : Option Nat :=
  (cuckoohashBkt hash bkt_index).reverse.find? fun i => (hash.table i).used

def cuckoohashFindInBkt (funcs : CuckooFuncs α) (bkt_index : Nat) (key_factor : UINT) (data : α) :
    Option Nat :=
  ((cuckoohashBkt hash bkt_index).takeWhile fun i => (hash.table i).used).find? fun i =>
    (hash.table i).key_factor == key_factor && funcs.cmp_func (hash.table i).data data == 0

def CuckooHashS.setNode (hash : CuckooHashS α) (i : Nat) (node : CuckooHashNode α) :
    CuckooHashS α :=
  { hash with table := Function.update hash.table i node }

def cuckoohashAdd2Bkt (bkt_index : Nat) (key_factor : UINT) (data : α) :
    Option (CuckooHashS α × Nat) :=
  ((cuckoohashBkt hash bkt_index).find? fun i => !(hash.table i).used).map fun i =>
    (hash.setNode i ⟨true, key_factor, data⟩, i)

end Operations

/-- With `left` tries left.  A failed try puts the displaced node back. -/
def cuckoohashForceAdd2Bkt (RAND_Get : Nat → UINT) : (left : Nat) → (hash : CuckooHashS α) →
    (bkt_index : Nat) → (key_factor : UINT) → (data : α) → CuckooHashS α × Option Nat
  | 0, hash, bkt_index, key_factor, data =>
    match cuckoohashAdd2Bkt hash bkt_index key_factor data with
    | some (hash, added_index) => (hash, some added_index)
    | none => (hash, none)
  | left + 1, hash, bkt_index, key_factor, data =>
    match cuckoohashAdd2Bkt hash bkt_index key_factor data with
    | some (hash, added_index) => (hash, some added_index)
    | none =>
      let force_index := bkt_index * hash.bucket_depth.toNat +
        (RAND_Get (cuckooHashMaxTry - (left + 1)) &&& hash.bucket_depth_mask).toNat
      let old := hash.table force_index
      let hash := hash.setNode force_index { old with key_factor := key_factor, data := data }
      let peer_bkt_index := cuckoohashPeerBktIndex hash old.key_factor bkt_index
      let added := cuckoohashForceAdd2Bkt RAND_Get left hash peer_bkt_index old.key_factor
        old.data
      match added.2 with
      | some _ => (added.1, some force_index)
      | none =>
        (added.1.setNode force_index { added.1.table force_index with
          key_factor := old.key_factor, data := old.data }, none)

section Operations

variable (funcs : CuckooFuncs α) (hash : CuckooHashS α)

def cuckoohashAddWithKeyFactor (RAND_Get : Nat → UINT) (key_factor : UINT) (data : α) :
    CuckooHashS α × Option Nat :=
  let added :=
    match cuckoohashAdd2Bkt hash (cuckoohashFirstBktIndex hash key_factor) key_factor data with
    | some (hash, index) => (hash, some index)
    | none => cuckoohashForceAdd2Bkt RAND_Get cuckooHashMaxTry hash
        (cuckoohashSecondBktIndex hash key_factor) key_factor data
  match added.2 with
  | some index => ({ added.1 with entry_count := added.1.entry_count + 1 }, some index)
  | none => (added.1, none)

def cuckooHashAdd (RAND_Get : Nat → UINT) (data : α) : CuckooHashS α × Option Nat :=
  cuckoohashAddWithKeyFactor hash RAND_Get (funcs.index_func data) data

def cuckoohashFindWithKeyFactor (key_factor : UINT) (data : α) : Option Nat :=
  match cuckoohashFindInBkt hash funcs (cuckoohashFirstBktIndex hash key_factor) key_factor data with
  | some find_index => some find_index
  | none =>
    cuckoohashFindInBkt hash funcs (cuckoohashSecondBktIndex hash key_factor) key_factor data

def cuckooHashFind (data : α) : Option Nat :=
  cuckoohashFindWithKeyFactor funcs hash (funcs.index_func data) data

def cuckooHashGetData (index : Nat) : Option α :=
  if (index : Int) ≥ hash.bucket_num * hash.bucket_depth then
    none
  else if !(hash.table index).used then
    none
  else
    some (hash.table index).data

def cuckooHashFindData (data : α) : Option α :=
  (cuckooHashFind funcs hash data).map fun index => (hash.table index).data

def cuckooHashDelIndex (index : Nat) : CuckooHashS α × Option α :=
  if (index : Int) ≥ hash.bucket_num * hash.bucket_depth then
    (hash, none)
  else if !(hash.table index).used then
    (hash, none)
  else
    let data := (hash.table index).data
    match cuukoohashGetLastUsedInBkt hash (index / hash.bucket_depth.toNat) with
    | none => (hash, none)
    | some last =>
      let hash := if last ≠ index then hash.setNode index (hash.table last) else hash
      let hash := hash.setNode last { hash.table last with used := false }
      ({ hash with entry_count := hash.entry_count - 1 }, some data)

def cuckooHashDel (data : α) : CuckooHashS α × Option α :=
  match cuckooHashFind funcs hash data with
  | some index => cuckooHashDelIndex hash index
  | none => (hash, none)

def cuckooHashCount : Int :=
  hash.entry_count

def cuckooHashGetKeyFactor (index : Nat) : UINT :=
  if (index : Int) ≥ hash.bucket_num * hash.bucket_depth then
    0
  else if !(hash.table index).used then
    0
  else
    (hash.table index).key_factor

end Operations

end MyCode.Cuckoo
