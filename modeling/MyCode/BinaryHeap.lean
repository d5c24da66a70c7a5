import MyCode.Darray

/-!
# Binary heap

`heap/binary_heap.c`.  `none` is a write outside the array, or NULL handed to the compare
function.
-/

namespace MyCode.BinaryHeap

open Darray

variable {α : Type}

structure BinaryHeapS (α : Type) where
  hDarray : DarrayCtrl α
  pfCmp : α → α → Int
  count : Nat

/-- `count` is what the memory of the caller holds. -/
def binaryHeapInit (pfCmp : α → α → Int) (count : Nat) : BinaryHeapS α :=
  { hDarray := darrayCreate 1024 128
    pfCmp := pfCmp
    count := count }

def callCmp (pfCmp : α → α → Int) : Option α → Option α → Option Int
  | some first, some second => some (pfCmp first second)
  | _, _ => none

/-- The loop over the indexes below `count`; `index` is the next one. -/
def binaryheapGetIndexFrom (heap : BinaryHeapS α) (data : α) : Nat → Nat → Option Nat
  | 0, _ => some DARRAY_INVALID_INDEX
  | left + 1, index => do
      let order ← callCmp heap.pfCmp (some data) (darrayGet heap.hDarray index)
      if order = 0 then
        some index
      else
        binaryheapGetIndexFrom heap data left (index + 1)

def binaryheapGetIndex (heap : BinaryHeapS α) (data : α) : Option Nat :=
  binaryheapGetIndexFrom heap data heap.count 0

/-- The loop of `binaryheap_Up`; the elements above `current` are moved down. -/
def binaryheapUpLoop (pfCmp : α → α → Int) (current : Option α) :
    Nat → DarrayCtrl α → Nat → Option (DarrayCtrl α × Nat)
  | 0, _, _ => none
  | rounds + 1, hDarray, c =>
    if c > 0 then do
      let p := (c - 1) / 2
      let parrent := darrayGet hDarray p
      let order ← callCmp pfCmp current parrent
      if order ≥ 0 then
        some (hDarray, c)
      else do
        let hDarray ← darraySet hDarray c parrent
        binaryheapUpLoop pfCmp current rounds hDarray p
    else
      some (hDarray, c)

def binaryheapUp (heap : BinaryHeapS α) (index : Nat) : Option (BinaryHeapS α) := do
  let current := darrayGet heap.hDarray index
  let (hDarray, c) ← binaryheapUpLoop heap.pfCmp current (index + 1) heap.hDarray index
  let hDarray ← darraySet hDarray c current
  some { heap with hDarray := hDarray }

def binaryheapGetMinChild (pfCmp : α → α → Int) (hDarray : DarrayCtrl α) (count index : Nat) :
    Option Nat :=
  let l := (2 * index + 1) % 2 ^ 32
  let r := (l + 1) % 2 ^ 32
  if l ≥ count then
    some DARRAY_INVALID_INDEX
  else if r ≥ count then
    some l
  else do
    let left := darrayGet hDarray l
    let right := darrayGet hDarray r
    let order ← callCmp pfCmp left right
    if order < 0 then some l else some r

/-- The loop of `binaryheap_Down`; the elements below `current` are moved up. -/
def binaryheapDownLoop (pfCmp : α → α → Int) (count : Nat) (current : Option α) :
    Nat → DarrayCtrl α → Nat → Option (DarrayCtrl α × Nat)
  | 0, _, _ => none
  | rounds + 1, hDarray, c =>
    if c < count then do
      let n ← binaryheapGetMinChild pfCmp hDarray count c
      if n = DARRAY_INVALID_INDEX then
        some (hDarray, c)
      else do
        let next := darrayGet hDarray n
        let order ← callCmp pfCmp current next
        if order ≤ 0 then
          some (hDarray, c)
        else do
          let hDarray ← darraySet hDarray c next
          binaryheapDownLoop pfCmp count current rounds hDarray n
    else
      some (hDarray, c)

def binaryheapDown (heap : BinaryHeapS α) (index : Nat) : Option (BinaryHeapS α) := do
  let current := darrayGet heap.hDarray index
  let (hDarray, c) ←
    binaryheapDownLoop heap.pfCmp heap.count current (heap.count + 1) heap.hDarray index
  let hDarray ← darraySet hDarray c current
  some { heap with hDarray := hDarray }

def binaryHeapInsert (heap : BinaryHeapS α) (new_data : α) : Option (BinaryHeapS α) := do
  let (hDarray, index) ← darrayAdd heap.hDarray new_data
  binaryheapUp { heap with hDarray := hDarray, count := (heap.count + 1) % 2 ^ 32 } index

def binaryHeapRemoveIndex (heap : BinaryHeapS α) (index : Nat) :
    Option (BinaryHeapS α × Option α) :=
  let count := heap.count
  if index ≥ count then
    some (heap, none)
  else do
    let last := darrayGet heap.hDarray (count - 1)
    let hDarray ← darraySet heap.hDarray (count - 1) none
    let heap := { heap with hDarray := hDarray, count := count - 1 }
    if index = count - 1 then
      some (heap, last)
    else do
      let deleted := darrayGet heap.hDarray index
      let hDarray ← darraySet heap.hDarray index last
      let heap ← binaryheapUp { heap with hDarray := hDarray } index
      let heap ← binaryheapDown heap index
      some (heap, deleted)

def binaryHeapRemoveData (heap : BinaryHeapS α) (data : α) : Option (BinaryHeapS α × BsStatus) := do
  let index ← binaryheapGetIndex heap data
  if index = DARRAY_INVALID_INDEX then
    some (heap, .notFound)
  else do
    let (heap, _) ← binaryHeapRemoveIndex heap index
    some (heap, .ok)

inductive HeapCall (α : Type) where
  | insert (new_data : α)
  | removeIndex (index : Nat)
  | removeData (data : α)

inductive HeapAnswer (α : Type) where
  | status (status : BsStatus)
  | data (data : Option α)

def HeapCall.run (heap : BinaryHeapS α) : HeapCall α → Option (BinaryHeapS α × HeapAnswer α)
  | insert new_data => do
      let heap ← binaryHeapInsert heap new_data
      some (heap, .status .ok)
  | removeIndex index => do
      let (heap, data) ← binaryHeapRemoveIndex heap index
      some (heap, .data data)
  | removeData data => do
      let (heap, status) ← binaryHeapRemoveData heap data
      some (heap, .status status)

end MyCode.BinaryHeap
