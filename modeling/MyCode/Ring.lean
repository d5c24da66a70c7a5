import MyCode.Types
import MyCode.Lib.Transition
import Mathlib.Data.List.Basic

/-!
# Rings

`ring_utl.h` used by one thread.  Nobody else moves a head between its read and its
exchange, so the exchange succeeds at once and producers of both kinds do the same.
-/

namespace MyCode.Ring

open Function BitVec Nat

inductive RingQueue where
  | fixed
  | vary
  deriving DecidableEq, Repr

structure RingHeadTail where
  head : UINT
  tail : UINT
  single : Bool

/-- `RING_S` and the objects behind it. -/
structure RingS (α : Type) where
  size : UINT
  mask : UINT
  capacity : UINT
  prod : RingHeadTail
  cons : RingHeadTail
  data : Nat → α

variable {α : Type}

def ringInit (NUM_IS2N : UINT → Bool) (capacity : UINT) (is_single_prod is_single_cons : Bool)
    (data : Nat → α) : Option (RingS α) :=
  if !NUM_IS2N capacity then
    none
  else
    some
      { size := capacity
        mask := capacity - 1
        capacity := capacity
        prod := ⟨0, 0, is_single_prod⟩
        cons := ⟨0, 0, is_single_cons⟩
        data := data }

/-- `count` assignments `target[idx++] = source[i++]`. -/
def ringCopyOnes (source : Nat → α) : Nat → Nat → Nat → (Nat → α) → Nat → α
  | 0, _, _, target => target
  | count + 1, i, idx, target =>
    ringCopyOnes source count (i + 1) (idx + 1) (update target idx (source i))

def ringCopyFours (source : Nat → α) : Nat → Nat → Nat → (Nat → α) → Nat → α
  | 0, _, _, target => target
  | rounds + 1, i, idx, target =>
    ringCopyFours source rounds (i + 4) (idx + 4) (ringCopyOnes source 4 i idx target)

def ringEnqueuePtrs (r : RingS α) (prod_head : UINT) (obj_table : Nat → α) (n : UINT) :
    RingS α :=
  let idx := prod_head &&& r.mask
  { r with
    data :=
      if idx + n < r.size then
        let copied := (n &&& ~~~3).toNat
        ringCopyOnes obj_table (n &&& 3).toNat copied (idx.toNat + copied)
          (ringCopyFours obj_table (copied / 4) 0 idx.toNat r.data)
      else
        let copied := r.size.toNat - idx.toNat
        ringCopyOnes obj_table (n.toNat - copied) copied 0
          (ringCopyOnes obj_table copied 0 idx.toNat r.data) }

def ringDequeuePtrs (r : RingS α) (cons_head : UINT) (obj_table : Nat → α) (n : UINT) :
    Nat → α :=
  let idx := cons_head &&& r.mask
  if idx + n < r.size then
    let copied := (n &&& ~~~3).toNat
    ringCopyOnes r.data (n &&& 3).toNat (idx.toNat + copied) copied
      (ringCopyFours r.data (copied / 4) idx.toNat 0 obj_table)
  else
    let copied := r.size.toNat - idx.toNat
    ringCopyOnes r.data (n.toNat - copied) 0 copied
      (ringCopyOnes r.data copied idx.toNat 0 obj_table)

/-- What `RING_MoveProdHead` and `RING_MoveConsHead` return. -/
structure RingMoved (α : Type) where
  r : RingS α
  n : UINT
  old_head : UINT
  new_head : UINT
  entries : UINT

def ringTake (behavior : RingQueue) (n entries : UINT) : UINT :=
  if n > entries then (if behavior = .fixed then 0 else entries) else n

def ringMoveProdHead (r : RingS α) (n : UINT) (behavior : RingQueue) : RingMoved α :=
  let old_head := r.prod.head
  let free_entries := r.capacity + r.cons.tail - old_head
  let n := ringTake behavior n free_entries
  if n = 0 then
    ⟨r, 0, old_head, old_head, free_entries⟩
  else
    ⟨{ r with prod.head := old_head + n }, n, old_head, old_head + n, free_entries⟩

def ringMoveConsHead (r : RingS α) (n : UINT) (behavior : RingQueue) : RingMoved α :=
  let old_head := r.cons.head
  let entries := r.prod.tail - old_head
  let n := ringTake behavior n entries
  if n = 0 then
    ⟨r, 0, old_head, old_head, entries⟩
  else
    ⟨{ r with cons.head := old_head + n }, n, old_head, old_head + n, entries⟩

/-- `none` where the loop for several threads does not end. -/
def ringUpdateTail (ht : RingHeadTail) (old_val new_val : UINT) (single : Bool) :
    Option RingHeadTail :=
  if !single && ht.tail != old_val then none else some { ht with tail := new_val }

/-- The ring, the number of objects and `free_space`. -/
def ringDoEnqueue (r : RingS α) (obj_table : Nat → α) (n : UINT) (behavior : RingQueue)
    (is_sp : Bool) : Option (RingS α × UINT × UINT) :=
  let moved := ringMoveProdHead r n behavior
  if moved.n = 0 then
    some (moved.r, moved.n, moved.entries - moved.n)
  else
    let r := ringEnqueuePtrs moved.r moved.old_head obj_table moved.n
    (ringUpdateTail r.prod moved.old_head moved.new_head is_sp).map fun prod =>
      ({ r with prod := prod }, moved.n, moved.entries - moved.n)

/-- The ring, the table, the number of objects and `available`. -/
def ringDoDequeue (r : RingS α) (obj_table : Nat → α) (n : UINT) (behavior : RingQueue)
    (is_sc : Bool) : Option (RingS α × (Nat → α) × UINT × UINT) :=
  let moved := ringMoveConsHead r n behavior
  if moved.n = 0 then
    some (moved.r, obj_table, moved.n, moved.entries - moved.n)
  else
    let obj_table := ringDequeuePtrs moved.r moved.old_head obj_table moved.n
    (ringUpdateTail moved.r.cons moved.old_head moved.new_head is_sc).map fun cons =>
      ({ moved.r with cons := cons }, obj_table, moved.n, moved.entries - moved.n)

def ringCount (r : RingS α) : UINT :=
  let count := (r.prod.tail - r.cons.tail) &&& r.mask
  if count > r.capacity then r.capacity else count

def ringFreeCount (r : RingS α) : UINT :=
  r.capacity - ringCount r

def ringFull (r : RingS α) : Bool :=
  ringFreeCount r == 0

def ringEmpty (r : RingS α) : Bool :=
  ringCount r == 0

/-- The bulk calls are `fixed`, the burst calls are `vary`; `single` is that of the
call or of the ring. -/
inductive RingCall (α : Type) where
  | enqueue (behavior : RingQueue) (single : Bool) (obj_table : Nat → α) (n : UINT)
  | dequeue (behavior : RingQueue) (single : Bool) (obj_table : Nat → α) (n : UINT)

structure RingRun (α : Type) where
  r : RingS α
  enqueued : List α
  dequeued : List α

def RingCall.run (run : RingRun α) : RingCall α → Option (RingRun α)
  | enqueue behavior single obj_table n =>
    (ringDoEnqueue run.r obj_table n behavior single).map fun (r, n, _) =>
      { run with r := r, enqueued := run.enqueued ++ (List.range n.toNat).map obj_table }
  | dequeue behavior single obj_table n =>
    (ringDoDequeue run.r obj_table n behavior single).map fun (r, obj_table, n, _) =>
      { run with r := r, dequeued := run.dequeued ++ (List.range n.toNat).map obj_table }

/-- The runs of rings whose size is a power of two. -/
def ringSystem : Lib.System (RingRun α) (RingCall α) where
  start run := ∃ (NUM_IS2N : UINT → Bool) (k : Nat) (is_single_prod is_single_cons : Bool)
    (data : Nat → α), k < 32 ∧ NUM_IS2N (BitVec.ofNat 32 (2 ^ k)) = true ∧
      some run = (ringInit NUM_IS2N (BitVec.ofNat 32 (2 ^ k)) is_single_prod is_single_cons
        data).map fun r => ⟨r, [], []⟩
  step run call after := call.run run = some after

variable {source target : Nat → α} {i idx j count : Nat}

theorem ringCopyOnes_apply : ringCopyOnes source count i idx target j =
    if idx ≤ j ∧ j < idx + count then source (i + (j - idx)) else target j := by
  induction count generalizing i idx target with
  | zero =>
    rw [if_neg (by omega)]
    rfl
  | succ count ih =>
    rw [ringCopyOnes, ih]
    by_cases first : j = idx
    · subst first
      rw [if_neg (by omega), if_pos (by omega), update_self, Nat.sub_self, Nat.add_zero]
    rw [update_of_ne first]
    by_cases inside : idx ≤ j ∧ j < idx + (count + 1)
    · rw [if_pos (by omega), if_pos inside]
      congr 1
      omega
    · rw [if_neg (by omega), if_neg inside]

theorem ringCopyOnes_add (more : Nat) : ringCopyOnes source (count + more) i idx target =
    ringCopyOnes source more (i + count) (idx + count)
      (ringCopyOnes source count i idx target) := by
  induction count generalizing i idx target with
  | zero => rw [Nat.zero_add]; rfl
  | succ _ ih =>
    rw [Nat.add_right_comm, ringCopyOnes, ih, ringCopyOnes]
    congr 1 <;> omega

theorem ringCopyFours_eq (rounds : Nat) : ringCopyFours source rounds i idx target =
    ringCopyOnes source (4 * rounds) i idx target := by
  induction rounds generalizing i idx target with
  | zero => rfl
  | succ rounds ih =>
    have whole : 4 * (rounds + 1) = 4 + 4 * rounds := by omega
    rw [ringCopyFours, ih, whole, ringCopyOnes_add]

theorem toNat_and_not_three (n : UINT) : (n &&& ~~~3).toNat = 4 * (n.toNat / 4) := by
  have shifts : n &&& ~~~(3 : UINT) = n >>> 2 <<< 2 := by
    rw [shiftLeft_ushiftRight]
    rfl
  rw [shifts, toNat_shiftLeft, toNat_ushiftRight, Nat.shiftLeft_eq, shiftRight_eq_div_pow]
  omega

theorem toNat_and_three (n : UINT) : (n &&& 3).toNat = n.toNat % 4 := by
  exact and_two_pow_sub_one_eq_mod n.toNat 2

theorem ringCopy_eq (n : UINT) :
    ringCopyOnes source (n &&& 3).toNat (i + (n &&& ~~~3).toNat) (idx + (n &&& ~~~3).toNat)
      (ringCopyFours source ((n &&& ~~~3).toNat / 4) i idx target) =
    ringCopyOnes source n.toNat i idx target := by
  have whole : n.toNat = 4 * (n.toNat / 4) + n.toNat % 4 := by omega
  rw [ringCopyFours_eq, toNat_and_three, toNat_and_not_three, Nat.mul_div_cancel_left _ (by omega)]
  conv_rhs => rw [whole, ringCopyOnes_add]

/-- The size is a power of two, and the capacity and the mask belong to it. -/
structure RingSized (r : RingS α) (k : Nat) : Prop where
  small : k < 32
  size : r.size.toNat = 2 ^ k
  capacity : r.capacity = r.size
  mask : r.mask.toNat = 2 ^ k - 1

variable {r : RingS α} {k : Nat} {n head : UINT} {obj_table : Nat → α}

theorem RingSized.place (sized : RingSized r k) (head : UINT) :
    (head &&& r.mask).toNat = head.toNat % 2 ^ k := by
  rw [toNat_and, sized.mask, and_two_pow_sub_one_eq_mod]

theorem two_pow_le {k : Nat} (small : k < 32) : 2 ^ k ≤ 2 ^ 31 :=
  Nat.pow_le_pow_right (by omega) (by omega)

theorem RingSized.fits_iff (sized : RingSized r k) (few : n.toNat ≤ 2 ^ k) :
    (head &&& r.mask) + n < r.size ↔ head.toNat % 2 ^ k + n.toNat < 2 ^ k := by
  have bound := two_pow_le sized.small
  rw [lt_def, toNat_add, sized.place, sized.size, mod_eq_of_lt (by omega)]

theorem place_add (head : Nat) {size : Nat} (behind : i < size) : (head + i) % size =
    if head % size + i < size then head % size + i else head % size + i - size := by
  have inside : head % size < size := mod_lt _ (by omega)
  rw [add_mod, mod_eq_of_lt behind]
  split
  · next before => exact mod_eq_of_lt before
  next beyond =>
  rw [mod_eq_sub_mod (by omega)]
  exact mod_eq_of_lt (by omega)

section

variable (sized : RingSized r k) (few : n.toNat ≤ 2 ^ k)

include sized few

theorem ringEnqueuePtrs_new (inside : i < n.toNat) :
    (ringEnqueuePtrs r head obj_table n).data ((head.toNat + i) % 2 ^ k) = obj_table i := by
  simp only [ringEnqueuePtrs, sized.fits_iff few, sized.place, sized.size]
  rw [place_add _ (by omega)]
  split
  · next fits =>
    have copied := @ringCopy_eq _ obj_table r.data 0 (head.toNat % 2 ^ k) n
    rw [Nat.zero_add] at copied
    have straight : head.toNat % 2 ^ k + i < 2 ^ k := by omega
    rw [if_pos straight, copied, ringCopyOnes_apply, if_pos (by omega)]
    congr 1
    omega
  next turns =>
  by_cases first : head.toNat % 2 ^ k + i < 2 ^ k
  · rw [if_pos first, ringCopyOnes_apply, if_neg (by omega), ringCopyOnes_apply,
      if_pos (by omega)]
    congr 1
    omega
  · rw [if_neg first, ringCopyOnes_apply, if_pos (by omega)]
    congr 1
    omega

theorem ringEnqueuePtrs_old (bounded : j < 2 ^ k)
    (other : ∀ i < n.toNat, (head.toNat + i) % 2 ^ k ≠ j) :
    (ringEnqueuePtrs r head obj_table n).data j = r.data j := by
  -- The object at `j` would have the number of the place behind the head.
  have before : head.toNat % 2 ^ k ≤ j → n.toNat ≤ j - head.toNat % 2 ^ k := by
    intro later
    by_contra less
    apply other (j - head.toNat % 2 ^ k) (by omega)
    rw [place_add _ (by omega), if_pos (by omega)]
    omega
  have beyond : j < head.toNat % 2 ^ k → n.toNat ≤ j + 2 ^ k - head.toNat % 2 ^ k := by
    intro _
    by_contra less
    apply other (j + 2 ^ k - head.toNat % 2 ^ k) (by omega)
    rw [place_add _ (by omega), if_neg (by omega)]
    omega
  simp only [ringEnqueuePtrs, sized.fits_iff few, sized.place, sized.size]
  split
  · next fits =>
    have copied := @ringCopy_eq _ obj_table r.data 0 (head.toNat % 2 ^ k) n
    rw [Nat.zero_add] at copied
    rw [copied, ringCopyOnes_apply, if_neg (by omega)]
  · next turns =>
    rw [ringCopyOnes_apply, if_neg (by omega), ringCopyOnes_apply, if_neg (by omega)]

theorem ringDequeuePtrs_new (inside : i < n.toNat) :
    ringDequeuePtrs r head obj_table n i = r.data ((head.toNat + i) % 2 ^ k) := by
  simp only [ringDequeuePtrs, sized.fits_iff few, sized.place, sized.size]
  rw [place_add _ (by omega)]
  split
  · next fits =>
    have copied := @ringCopy_eq _ r.data obj_table (head.toNat % 2 ^ k) 0 n
    rw [Nat.zero_add] at copied
    rw [copied, ringCopyOnes_apply, if_pos (by omega), if_pos (by omega)]
    congr 1
  next turns =>
  rw [ringCopyOnes_apply]
  by_cases first : head.toNat % 2 ^ k + i < 2 ^ k
  · rw [if_pos first, if_neg (by omega), ringCopyOnes_apply, if_pos (by omega)]
    congr 1
  rw [if_neg first, if_pos (by omega)]
  congr 1
  omega

theorem ringDequeuePtrs_old (beyond : n.toNat ≤ i) :
    ringDequeuePtrs r head obj_table n i = obj_table i := by
  simp only [ringDequeuePtrs, sized.fits_iff few, sized.place, sized.size]
  split
  · next fits =>
    have copied := @ringCopy_eq _ r.data obj_table (head.toNat % 2 ^ k) 0 n
    rw [Nat.zero_add] at copied
    rw [copied, ringCopyOnes_apply, if_neg (by omega)]
  · next turns =>
    rw [ringCopyOnes_apply, if_neg (by omega), ringCopyOnes_apply, if_neg (by omega)]

end

end MyCode.Ring
