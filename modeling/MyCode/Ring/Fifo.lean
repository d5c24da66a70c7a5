import MyCode.Ring

/-!
# Rings as bounded queues

A ring holds a queue of at most as many objects as it has places.  The counts mask
the number of objects with one less than that, so they are right except for the full
ring.
-/

namespace MyCode.Ring

open BitVec Option List Nat

variable {α : Type}

/-- How many objects a call moves where `there` can be moved. -/
def fifoTake (behavior : RingQueue) (wanted there : Nat) : Nat :=
  if wanted ≤ there then wanted else if behavior = .fixed then 0 else there

/-- The objects that were put into the ring and not taken from it. -/
def RingRun.unread (run : RingRun α) : List α :=
  run.enqueued.drop run.dequeued.length

/-- Objects come out in the order in which they went in, no unread object is
overwritten, and every call returns what it returns for the bounded queue. -/
structure RingFifo (run : RingRun α) : Prop where
  order : run.enqueued = run.dequeued ++ run.unread
  fits : run.unread.length ≤ run.r.size.toNat
  kept : ∀ i obj, run.unread[i]? = some obj →
    run.r.data ((run.r.cons.tail + BitVec.ofNat 32 i) &&& run.r.mask).toNat = obj
  enqueue : ∀ behavior single obj_table n, ∃ after took free_space,
    ringDoEnqueue run.r obj_table n behavior single = some (after, took, free_space) ∧
      took.toNat = fifoTake behavior n.toNat (run.r.size.toNat - run.unread.length) ∧
      free_space.toNat = run.r.size.toNat - run.unread.length - took.toNat
  dequeue : ∀ behavior single obj_table n, ∃ after table took available,
    ringDoDequeue run.r obj_table n behavior single = some (after, table, took, available) ∧
      took.toNat = fifoTake behavior n.toNat run.unread.length ∧
      available.toNat = run.unread.length - took.toNat ∧
      (range took.toNat).map table = run.unread.take took.toNat ∧
      ∀ i, took.toNat ≤ i → table i = obj_table i

structure RingCounts (run : RingRun α) : Prop where
  count : (ringCount run.r).toNat = run.unread.length
  freeCount : (ringFreeCount run.r).toNat = run.r.size.toNat - run.unread.length
  full : ringFull run.r = true ↔ run.unread.length = run.r.size.toNat
  empty : ringEmpty run.r = true ↔ run.unread = []

structure RingHolds (r : RingS α) (k : Nat) (queue : List α) : Prop where
  sized : RingSized r k
  prod : r.prod.head = r.prod.tail
  cons : r.cons.head = r.cons.tail
  count : (r.prod.tail - r.cons.tail).toNat = queue.length
  fits : queue.length ≤ 2 ^ k
  kept : ∀ i obj, queue[i]? = some obj → r.data ((r.cons.tail.toNat + i) % 2 ^ k) = obj

variable {r : RingS α} {k i : Nat} {queue : List α} {n entries : UINT} {behavior : RingQueue}
  {single : Bool} {obj_table : Nat → α}

theorem toNat_ringTake :
    (ringTake behavior n entries).toNat = fifoTake behavior n.toNat entries.toNat := by
  rw [ringTake, fifoTake]
  by_cases more : n > entries
  · have exceeds := Nat.not_le.mpr (lt_def.mp more)
    rw [if_pos more, if_neg exceeds]
    split <;> rfl
  · have fits := Nat.le_of_not_lt fun less => more (lt_def.mpr less)
    rw [if_neg more, if_pos fits]

theorem fifoTake_le {wanted there : Nat} : fifoTake behavior wanted there ≤ there := by
  rw [fifoTake]
  split
  · assumption
  · split <;> omega

theorem ringUpdateTail_eq {ht : RingHeadTail} {old_val new_val : UINT} (same : ht.tail = old_val) :
    ringUpdateTail ht old_val new_val single = some { ht with tail := new_val } := by
  rw [ringUpdateTail, same]
  simp

theorem place_injective {head size first second : Nat} (lower : first < size)
    (upper : second < size) (same : (head + first) % size = (head + second) % size) :
    first = second := by
  rw [place_add head lower, place_add head upper] at same
  split at same <;> split at same <;> omega

theorem RingHolds.tail (holds : RingHolds r k queue) (i : Nat) :
    (r.prod.tail.toNat + i) % 2 ^ k = (r.cons.tail.toNat + (queue.length + i)) % 2 ^ k := by
  have dvd : 2 ^ k ∣ 2 ^ 32 := Nat.pow_dvd_pow 2 (by have := holds.sized.small; omega)
  have ahead : r.prod.tail.toNat % 2 ^ 32 = (r.cons.tail.toNat + queue.length) % 2 ^ 32 := by
    have count := holds.count
    bv_omega
  calc (r.prod.tail.toNat + i) % 2 ^ k
      = (r.prod.tail.toNat % 2 ^ 32 % 2 ^ k + i) % 2 ^ k := by
        rw [mod_mod_of_dvd _ dvd, mod_add_mod]
    _ = (r.cons.tail.toNat + queue.length + i) % 2 ^ k := by
        rw [ahead, mod_mod_of_dvd _ dvd, mod_add_mod]
    _ = (r.cons.tail.toNat + (queue.length + i)) % 2 ^ k := by rw [Nat.add_assoc]

/-- The ring after `taken` objects of the table were put into it. -/
def ringPut (r : RingS α) (obj_table : Nat → α) (taken : UINT) : RingS α :=
  { ringEnqueuePtrs { r with prod.head := r.prod.head + taken } r.prod.head obj_table taken with
    prod := ⟨r.prod.head + taken, r.prod.head + taken, r.prod.single⟩ }

theorem RingHolds.put (holds : RingHolds r k queue) (room : n.toNat ≤ 2 ^ k - queue.length) :
    RingHolds (ringPut r obj_table n) k (queue ++ (range n.toNat).map obj_table) := by
  have fits := holds.fits
  have small := two_pow_le holds.sized.small
  have length : (queue ++ (range n.toNat).map obj_table).length = queue.length + n.toNat := by
    rw [length_append, length_map, length_range]
  have sized : RingSized { r with prod.head := r.prod.head + n } k :=
    ⟨holds.sized.small, holds.sized.size, holds.sized.capacity, holds.sized.mask⟩
  refine ⟨⟨sized.small, sized.size, sized.capacity, sized.mask⟩, rfl, holds.cons, ?_, ?_, ?_⟩
  · change (r.prod.head + n - r.cons.tail).toNat = _
    have count := holds.count
    rw [holds.prod, length]
    bv_omega
  · omega
  intro i obj inside
  change (ringEnqueuePtrs _ r.prod.head obj_table n).data ((r.cons.tail.toNat + i) % 2 ^ k) = obj
  have bounded := (List.getElem?_eq_some_iff.mp inside).1
  rw [getElem?_append] at inside
  split at inside
  · next old =>
    have other : ∀ j < n.toNat,
        (r.prod.head.toNat + j) % 2 ^ k ≠ (r.cons.tail.toNat + i) % 2 ^ k := by
      intro j less same
      rw [holds.prod, holds.tail] at same
      have equal := place_injective (by omega) (by omega) same
      omega
    rw [ringEnqueuePtrs_old sized (by omega) (mod_lt _ (Nat.two_pow_pos k)) other]
    exact holds.kept i obj inside
  · next new =>
    have behind : i = queue.length + (i - queue.length) := by omega
    rw [behind, ← holds.tail, ← holds.prod, ringEnqueuePtrs_new sized (by omega) (by omega)]
    rw [getElem?_map, getElem?_range (by omega)] at inside
    exact some.inj inside

theorem RingHolds.free (holds : RingHolds r k queue) :
    (r.capacity + r.cons.tail - r.prod.head).toNat = 2 ^ k - queue.length := by
  have size := holds.sized.size
  have count := holds.count
  have fits := holds.fits
  rw [holds.prod, holds.sized.capacity]
  bv_omega

theorem RingHolds.enqueue (holds : RingHolds r k queue) (behavior : RingQueue) (single : Bool)
    (obj_table : Nat → α) (n : UINT) :
    ∃ after took free_space,
      ringDoEnqueue r obj_table n behavior single = some (after, took, free_space) ∧
      took.toNat = fifoTake behavior n.toNat (2 ^ k - queue.length) ∧
      free_space.toNat = 2 ^ k - queue.length - took.toNat ∧
      RingHolds after k (queue ++ (range took.toNat).map obj_table) := by
  have took := @toNat_ringTake n (r.capacity + r.cons.tail - r.prod.head) behavior
  rw [holds.free] at took
  have less := @fifoTake_le behavior n.toNat (2 ^ k - queue.length)
  generalize isTaken : ringTake behavior n (r.capacity + r.cons.tail - r.prod.head) = taken at took
  have rest : (r.capacity + r.cons.tail - r.prod.head - taken).toNat =
      2 ^ k - queue.length - taken.toNat := by
    rw [toNat_sub_of_le (le_def.mpr (by rw [holds.free]; omega)), holds.free]
  by_cases none : taken = 0
  · refine ⟨r, taken, _, ?_, took, rest, ?_⟩
    · simp [ringDoEnqueue, ringMoveProdHead, isTaken, none]
    rw [none]
    change RingHolds r k (queue ++ [])
    rw [append_nil]
    exact holds
  · refine ⟨ringPut r obj_table taken, taken, _, ?_, took, rest, holds.put (by omega)⟩
    simp only [ringDoEnqueue, ringMoveProdHead, isTaken, if_neg none]
    rw [ringUpdateTail_eq]
    · rfl
    · exact holds.prod.symm

/-- The ring after `taken` objects were taken from it. -/
def ringDrop (r : RingS α) (taken : UINT) : RingS α :=
  { r with cons := ⟨r.cons.head + taken, r.cons.head + taken, r.cons.single⟩ }

section

variable (holds : RingHolds r k queue)

include holds

theorem RingHolds.drop (there : n.toNat ≤ queue.length) :
    RingHolds (ringDrop r n) k (queue.drop n.toNat) := by
  have fits := holds.fits
  have dvd : 2 ^ k ∣ 2 ^ 32 := Nat.pow_dvd_pow 2 (by have := holds.sized.small; omega)
  refine ⟨⟨holds.sized.small, holds.sized.size, holds.sized.capacity, holds.sized.mask⟩,
    holds.prod, rfl, ?_, ?_, ?_⟩
  · change (r.prod.tail - (r.cons.head + n)).toNat = _
    have count := holds.count
    rw [holds.cons, length_drop]
    bv_omega
  · rw [length_drop]
    omega
  intro i obj inside
  change r.data (((r.cons.head + n).toNat + i) % 2 ^ k) = obj
  rw [getElem?_drop] at inside
  rw [← holds.kept _ obj inside, holds.cons, toNat_add, ← mod_add_mod,
    mod_mod_of_dvd _ dvd, mod_add_mod, Nat.add_assoc]

theorem RingHolds.taken (there : n.toNat ≤ queue.length) :
    (range n.toNat).map (ringDequeuePtrs { r with cons.head := r.cons.head + n } r.cons.head
      obj_table n) = queue.take n.toNat := by
  have fits := holds.fits
  have sized : RingSized { r with cons.head := r.cons.head + n } k :=
    ⟨holds.sized.small, holds.sized.size, holds.sized.capacity, holds.sized.mask⟩
  apply ext_getElem
  · rw [length_map, length_range, length_take]
    omega
  intro i inTable inQueue
  rw [length_map, length_range] at inTable
  rw [getElem_map, getElem_range, getElem_take,
    ringDequeuePtrs_new sized (by omega) inTable, holds.cons]
  exact holds.kept i _ (getElem?_eq_getElem (by omega))

theorem RingHolds.dequeue (behavior : RingQueue) (single : Bool) (obj_table : Nat → α) (n : UINT) :
    ∃ after table took available,
      ringDoDequeue r obj_table n behavior single = some (after, table, took, available) ∧
      took.toNat = fifoTake behavior n.toNat queue.length ∧
      available.toNat = queue.length - took.toNat ∧
      (range took.toNat).map table = queue.take took.toNat ∧
      (∀ i, took.toNat ≤ i → table i = obj_table i) ∧
      RingHolds after k (queue.drop took.toNat) := by
  have fits := holds.fits
  have entries : (r.prod.tail - r.cons.head).toNat = queue.length := by
    rw [holds.cons]
    exact holds.count
  have took := @toNat_ringTake n (r.prod.tail - r.cons.head) behavior
  rw [entries] at took
  have less := @fifoTake_le behavior n.toNat queue.length
  generalize isTaken : ringTake behavior n (r.prod.tail - r.cons.head) = taken at took
  have rest : (r.prod.tail - r.cons.head - taken).toNat = queue.length - taken.toNat := by
    rw [toNat_sub_of_le (le_def.mpr (by rw [entries]; omega)), entries]
  by_cases none : taken = 0
  · refine ⟨r, obj_table, taken, _, ?_, took, rest, ?_, fun _ _ => rfl, ?_⟩
    · simp [ringDoDequeue, ringMoveConsHead, isTaken, none]
    · rw [none]
      rfl
    · rw [none]
      exact holds
  have sized : RingSized { r with cons.head := r.cons.head + taken } k :=
    ⟨holds.sized.small, holds.sized.size, holds.sized.capacity, holds.sized.mask⟩
  refine ⟨ringDrop r taken, ringDequeuePtrs { r with cons.head := r.cons.head + taken }
    r.cons.head obj_table taken, taken, _, ?_, took, rest, holds.taken (by omega),
    fun i beyond => ringDequeuePtrs_old sized (by omega) beyond, holds.drop (by omega)⟩
  simp only [ringDoDequeue, ringMoveConsHead, isTaken, if_neg none]
  rw [ringUpdateTail_eq]
  · rfl
  · exact holds.cons.symm

theorem RingHolds.ringCount : (ringCount r).toNat = queue.length % 2 ^ k := by
  have masked : ((r.prod.tail - r.cons.tail) &&& r.mask).toNat = queue.length % 2 ^ k := by
    rw [holds.sized.place, holds.count]
  have fits : ¬ (r.prod.tail - r.cons.tail) &&& r.mask > r.capacity := by
    rw [gt_iff_lt, lt_def, masked, holds.sized.capacity, holds.sized.size]
    omega
  rw [Ring.ringCount, if_neg fits, masked]

theorem RingHolds.ringFreeCount : (ringFreeCount r).toNat = 2 ^ k - queue.length % 2 ^ k := by
  have capacity : r.capacity.toNat = 2 ^ k := by rw [holds.sized.capacity, holds.sized.size]
  have count := holds.ringCount
  rw [Ring.ringFreeCount, toNat_sub_of_le (le_def.mpr (by omega)), capacity, count]

end

theorem toNat_beq_zero (word : UINT) : (word == 0) = true ↔ word.toNat = 0 := by
  rw [beq_iff_eq, ← toNat_inj]
  rfl

variable {run : RingRun α}

/-- The ring holds what was put into it and not taken from it. -/
def RingRunOk (run : RingRun α) : Prop :=
  ∃ k queue, run.enqueued = run.dequeued ++ queue ∧ RingHolds run.r k queue

theorem ringSystem_ok (reached : ringSystem.Reachable run) : RingRunOk run := by
  apply reached.invariant
  · rintro _ ⟨_, k, _, _, _, small, isPower, isRun⟩
    have size : (BitVec.ofNat 32 (2 ^ k)).toNat = 2 ^ k :=
      mod_eq_of_lt (Nat.pow_lt_pow_right (by omega) small)
    have some : 1 ≤ 2 ^ k := Nat.one_le_two_pow
    simp only [ringInit, isPower, Bool.not_true, Bool.false_eq_true, if_false, map_some,
      Option.some.injEq] at isRun
    rw [isRun]
    refine ⟨k, [], rfl, ⟨small, size, rfl, ?_⟩, rfl, rfl, ?_, zero_le _, ?_⟩
    · rw [toNat_sub_of_le (le_def.mpr (by rw [size]; exact some)), size]
      rfl
    · change ((0 : UINT) - 0).toNat = 0
      decide
    · exact nofun
  rintro run call _ ⟨k, queue, order, holds⟩ stepped
  cases call with
  | enqueue behavior single obj_table n =>
    obtain ⟨_, took, _, entered, -, -, later⟩ := holds.enqueue behavior single obj_table n
    simp only [ringSystem, RingCall.run, entered, map_some, some.injEq] at stepped
    rw [← stepped]
    refine ⟨k, queue ++ (range took.toNat).map obj_table, ?_, later⟩
    rw [order, List.append_assoc]
  | dequeue behavior single obj_table n =>
    obtain ⟨_, _, took, _, left, -, -, taken, -, later⟩ :=
      holds.dequeue behavior single obj_table n
    simp only [ringSystem, RingCall.run, left, map_some, some.injEq] at stepped
    rw [← stepped]
    refine ⟨k, queue.drop took.toNat, ?_, later⟩
    rw [taken, List.append_assoc, take_append_drop, order]

theorem RingHolds.fifo (holds : RingHolds run.r k queue)
    (order : run.enqueued = run.dequeued ++ queue) : RingFifo run := by
  have unread : run.unread = queue := by
    rw [RingRun.unread, order, drop_left]
  have size := holds.sized.size
  refine ⟨?_, ?_, fun i obj inside => ?_, fun behavior single obj_table n => ?_,
    fun behavior single obj_table n => ?_⟩
  · rw [unread, order]
  · rw [unread, size]
    exact holds.fits
  · rw [unread] at inside
    have dvd : 2 ^ k ∣ 2 ^ 32 := Nat.pow_dvd_pow 2 (by have := holds.sized.small; omega)
    rw [← holds.kept i obj inside, holds.sized.place, toNat_add, toNat_ofNat,
      mod_mod_of_dvd _ dvd, ← add_mod_mod, mod_mod_of_dvd _ dvd, add_mod_mod]
  · rw [unread, size]
    obtain ⟨after, took, free_space, entered, isTook, free, -⟩ :=
      holds.enqueue behavior single obj_table n
    exact ⟨after, took, free_space, entered, isTook, free⟩
  rw [unread]
  obtain ⟨after, table, took, available, left, isTook, rest, taken, beyond, -⟩ :=
    holds.dequeue behavior single obj_table n
  exact ⟨after, table, took, available, left, isTook, rest, taken, beyond⟩

theorem RingHolds.counts_iff (holds : RingHolds run.r k queue)
    (order : run.enqueued = run.dequeued ++ queue) :
    RingCounts run ↔ run.unread.length < run.r.size.toNat := by
  have unread : run.unread = queue := by
    rw [RingRun.unread, order, drop_left]
  have size := holds.sized.size
  have fits := holds.fits
  have count := holds.ringCount
  have freeCount := holds.ringFreeCount
  rw [unread, size]
  constructor
  · intro counts
    by_contra full
    have isFull : queue.length = 2 ^ k := by omega
    have zero := counts.count
    rw [count, unread, isFull, mod_self] at zero
    omega
  intro less
  rw [mod_eq_of_lt less] at count freeCount
  refine ⟨?_, ?_, ?_, ?_⟩
  · rw [unread, count]
  · rw [unread, size, freeCount]
  · rw [ringFull, toNat_beq_zero, unread, size, freeCount]
    omega
  · rw [ringEmpty, toNat_beq_zero, unread, count, length_eq_zero_iff]

def ringOne : RingRun Nat :=
  ⟨⟨1, 0, 1, ⟨0, 0, true⟩, ⟨0, 0, true⟩, fun _ => 0⟩, [], []⟩

def ringOneFull : RingRun Nat :=
  ⟨⟨1, 0, 1, ⟨1, 1, true⟩, ⟨0, 0, true⟩, Function.update (fun _ => 0) 0 7⟩, [7], []⟩

theorem ringOne_reachable : ringSystem.Reachable ringOne := by
  refine .start ⟨fun _ => true, 0, true, true, fun _ => 0, by decide, rfl, ?_⟩
  rfl

theorem ringOneFull_reachable : ringSystem.Reachable ringOneFull := by
  refine ringOne_reachable.next (?_ : ringSystem.step ringOne
    (.enqueue .fixed true (fun _ => 7) 1) ringOneFull)
  rfl

end MyCode.Ring
