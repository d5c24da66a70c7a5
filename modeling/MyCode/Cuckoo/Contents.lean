import MyCode.Cuckoo.Table
import MyCode.Lib.Transition
import Mathlib.Algebra.BigOperators.Group.Finset.Piecewise
import Mathlib.Data.List.TakeWhile

/-!
# The contents of a cuckoo hash

The data of a table are a multiset.  A chain of displacements keeps the data of the
table together with the datum in hand, so a chain that gives up has only to restore
its places.
-/

namespace MyCode.Cuckoo

open Function List Nat Option Finset

variable {α : Type} {added : CuckooHashS α × Nat} {k : Nat}

def CuckooHashS.size (hash : CuckooHashS α) : Nat :=
  hash.bucket_num.toNat * hash.bucket_depth.toNat

def CuckooHashNode.slot (node : CuckooHashNode α) : Multiset α :=
  if node.used then {node.data} else 0

def CuckooHashS.contents (hash : CuckooHashS α) : Multiset α :=
  ∑ i ∈ range hash.size, (hash.table i).slot

def CuckooHashS.Candidate (hash : CuckooHashS α) (key_factor : UINT) (bkt_index : Nat) : Prop :=
  bkt_index = cuckoohashFirstBktIndex hash key_factor ∨
    bkt_index = cuckoohashSecondBktIndex hash key_factor

structure CuckooSized (hash : CuckooHashS α) (a b : Nat) : Prop where
  small : a + b < 31
  num : hash.bucket_num = 2 ^ a
  depth : hash.bucket_depth = 2 ^ b
  mask : hash.bucket_mask.toNat = 2 ^ a - 1
  depth_mask : hash.bucket_depth_mask.toNat = 2 ^ b - 1

/-- Every used place is in a bucket of its datum, and they are the first of their bucket. -/
structure CuckooPlaced (funcs : CuckooFuncs α) (hash : CuckooHashS α) : Prop where
  placed : ∀ i < hash.size, (hash.table i).used = true →
    (hash.table i).key_factor = funcs.index_func (hash.table i).data ∧
      hash.Candidate (hash.table i).key_factor (i / hash.bucket_depth.toNat)
  leading : ∀ i < hash.size, (hash.table i).used = true → ∀ j ≤ i,
    j / hash.bucket_depth.toNat = i / hash.bucket_depth.toNat → (hash.table j).used = true

variable {funcs : CuckooFuncs α} {hash : CuckooHashS α} {a b i j last bkt_index : Nat}
  {key_factor : UINT} {data : α} {node : CuckooHashNode α} {RAND_Get : Nat → UINT}

section

variable (sized : CuckooSized hash a b)

include sized

theorem CuckooSized.toNat_depth : hash.bucket_depth.toNat = 2 ^ b := by
  rw [sized.depth, Int.toNat_pow_of_nonneg (by decide)]
  rfl

theorem CuckooSized.size_eq : hash.size = 2 ^ a * 2 ^ b := by
  rw [CuckooHashS.size, sized.toNat_depth, sized.num, Int.toNat_pow_of_nonneg (by decide)]
  rfl

theorem CuckooSized.size_cast : hash.bucket_num * hash.bucket_depth = (hash.size : Int) := by
  rw [sized.size_eq, sized.num, sized.depth]
  push_cast
  rfl

theorem CuckooSized.setNode : CuckooSized (hash.setNode i node) a b :=
  ⟨sized.small, sized.num, sized.depth, sized.mask, sized.depth_mask⟩

theorem CuckooSized.masked (word : UINT) : (word &&& hash.bucket_mask).toNat < 2 ^ a := by
  have bound : (word &&& hash.bucket_mask).toNat ≤ hash.bucket_mask.toNat := by
    exact and_le_right
  have some := Nat.two_pow_pos a
  rw [sized.mask] at bound
  omega

theorem CuckooSized.candidate
    (candidate : hash.Candidate key_factor bkt_index) : bkt_index < 2 ^ a := by
  rcases candidate with rfl | rfl
  · exact sized.masked _
  simp only [cuckoohashSecondBktIndex]
  split
  · split
    · exact sized.masked _
    · exact sized.masked _
  · exact sized.masked _

theorem CuckooSized.mem_bkt :
    i ∈ cuckoohashBkt hash bkt_index ↔ i / hash.bucket_depth.toNat = bkt_index := by
  have some : 0 < hash.bucket_depth.toNat := by
    rw [sized.toNat_depth]
    exact Nat.two_pow_pos b
  rw [cuckoohashBkt, mem_range'_1, Nat.div_eq_iff some]
  omega

theorem CuckooSized.bkt_lt (bounded : bkt_index < 2 ^ a)
    (inside : i / hash.bucket_depth.toNat = bkt_index) : i < hash.size := by
  have some := Nat.two_pow_pos b
  rw [sized.toNat_depth] at inside
  rw [sized.size_eq, ← div_lt_iff_lt_mul some, inside]
  exact bounded

theorem CuckooSized.bkt_of_lt (bounded : i < hash.size) : i / hash.bucket_depth.toNat < 2 ^ a := by
  rw [sized.size_eq] at bounded
  rw [sized.toNat_depth, div_lt_iff_lt_mul (Nat.two_pow_pos b)]
  exact bounded

theorem CuckooSized.forced (draw : UINT) :
    (bkt_index * hash.bucket_depth.toNat + (draw &&& hash.bucket_depth_mask).toNat) /
      hash.bucket_depth.toNat = bkt_index := by
  have some := Nat.two_pow_pos b
  have bound : (draw &&& hash.bucket_depth_mask).toNat ≤ hash.bucket_depth_mask.toNat := by
    exact and_le_right
  rw [sized.depth_mask] at bound
  rw [sized.toNat_depth, mul_comm, mul_add_div some, div_eq_of_lt (by omega)]
  rfl

end

@[simp]
theorem setNode_self : (hash.setNode i node).table i = node :=
  update_self ..

@[simp]
theorem setNode_of_ne (differs : j ≠ i) : (hash.setNode i node).table j = hash.table j :=
  update_of_ne differs ..

theorem setNode_table (same : node = hash.table i) : hash.setNode i node = hash := by
  rw [CuckooHashS.setNode, same, update_eq_self]

theorem setNode_setNode {other : CuckooHashNode α} :
    (hash.setNode i node).setNode i other = hash.setNode i other := by
  simp [CuckooHashS.setNode, update_idem]

theorem contents_setNode (bounded : i < hash.size) :
    (hash.table i).slot + (hash.setNode i node).contents = node.slot + hash.contents := by
  have inside := Finset.mem_range.mpr bounded
  have moved : (fun j => ((hash.setNode i node).table j).slot) =
      update (fun j => (hash.table j).slot) i node.slot := by
    funext j
    by_cases same : j = i
    · rw [same, setNode_self, update_self]
    · rw [setNode_of_ne same, update_of_ne same]
  have before := add_sum_erase _ (fun j => (hash.table j).slot) inside
  have after : (hash.setNode i node).contents =
      node.slot + ∑ j ∈ (Finset.range hash.size).erase i, (hash.table j).slot := by
    change ∑ j ∈ range hash.size, ((hash.setNode i node).table j).slot = _
    rw [moved, sum_update_of_mem inside, sdiff_singleton_eq_erase]
  rw [after, CuckooHashS.contents, ← before]
  exact add_left_comm _ _ _

theorem mem_contents :
    data ∈ hash.contents ↔ ∃ i < hash.size, (hash.table i).used = true ∧ (hash.table i).data = data := by
  rw [CuckooHashS.contents, Multiset.mem_sum]
  constructor
  · rintro ⟨i, bounded, inside⟩
    rw [CuckooHashNode.slot] at inside
    split at inside
    · next used => exact ⟨i, Finset.mem_range.mp bounded, used, (Multiset.mem_singleton.mp inside).symm⟩
    · exact absurd inside (Multiset.notMem_zero _)
  · rintro ⟨i, bounded, used, rfl⟩
    refine ⟨i, Finset.mem_range.mpr bounded, ?_⟩
    rw [CuckooHashNode.slot, if_pos used]
    exact Multiset.mem_singleton_self _

theorem contents_fill (bounded : i < hash.size) (unused : (hash.table i).used = false) :
    (hash.setNode i ⟨true, key_factor, data⟩).contents = data ::ₘ hash.contents := by
  have moved := @contents_setNode _ hash i ⟨true, key_factor, data⟩ bounded
  simpa [CuckooHashNode.slot, unused] using moved

variable (used : (hash.table i).used = true) (bounded : i < hash.size)

include used bounded in
theorem contents_swap :
    (hash.table i).data ::ₘ
        (hash.setNode i { hash.table i with key_factor := key_factor, data := data }).contents =
      data ::ₘ hash.contents := by
  have moved := @contents_setNode _ hash i
    { hash.table i with key_factor := key_factor, data := data } bounded
  simpa [CuckooHashNode.slot, used] using moved

variable (sized : CuckooSized hash a b)
  (isAdded : cuckoohashAdd2Bkt hash bkt_index key_factor data = some added)

include sized isAdded in
theorem cuckoohashAdd2Bkt_eq_some :
    ∃ i, i / hash.bucket_depth.toNat = bkt_index ∧ (hash.table i).used = false ∧
      (∀ j < i, j / hash.bucket_depth.toNat = bkt_index → (hash.table j).used = true) ∧
      added = (hash.setNode i ⟨true, key_factor, data⟩, i) := by
  obtain ⟨i, found, isAdded⟩ := map_eq_some_iff.mp isAdded
  obtain ⟨unused, n, inBkt, _, earlier⟩ := find?_eq_some_iff_getElem.mp found
  have inside := mem_of_find?_eq_some found
  refine ⟨i, sized.mem_bkt.mp inside, by simpa using unused, fun j less inSame => ?_, isAdded.symm⟩
  obtain ⟨m, inRange, isJ⟩ := mem_iff_getElem.mp (sized.mem_bkt.mpr inSame)
  have place : (cuckoohashBkt hash bkt_index)[n] = bkt_index * hash.bucket_depth.toNat + 1 * n :=
    getElem_range' inBkt
  have place' : (cuckoohashBkt hash bkt_index)[m] = bkt_index * hash.bucket_depth.toNat + 1 * m :=
    getElem_range' inRange
  have before := earlier m (by omega)
  rw [isJ] at before
  simpa using before

variable (inside : i / hash.bucket_depth.toNat = bkt_index)

include sized inside in
theorem cuckoohashAdd2Bkt_eq_none
    (isFull : cuckoohashAdd2Bkt hash bkt_index key_factor data = none) : (hash.table i).used = true := by
  have used := find?_eq_none.mp (map_eq_none_iff.mp isFull) i (sized.mem_bkt.mpr inside)
  simpa using used

variable (candidate : hash.Candidate key_factor bkt_index)
  (isFactor : key_factor = funcs.index_func data)

include inside candidate isFactor in
theorem CuckooPlaced.fill (placed : CuckooPlaced funcs hash)
    (earlier : ∀ j < i, j / hash.bucket_depth.toNat = bkt_index → (hash.table j).used = true) :
    CuckooPlaced funcs (hash.setNode i ⟨true, key_factor, data⟩) where
  placed j bounded used := by
    by_cases same : j = i
    · rw [same, setNode_self]
      exact ⟨isFactor, inside ▸ candidate⟩
    · rw [setNode_of_ne same] at used ⊢
      exact placed.placed j bounded used
  leading j bounded used k less inSame := by
    by_cases same : k = i
    · rw [same, setNode_self]
    rw [setNode_of_ne same]
    by_cases atI : j = i
    · exact earlier k (by omega) (inSame.trans (atI ▸ inside))
    · rw [setNode_of_ne atI] at used
      exact placed.leading j bounded used k less inSame

variable (placed : CuckooPlaced funcs hash)

include inside candidate isFactor placed in
theorem CuckooPlaced.swap :
    CuckooPlaced funcs
      (hash.setNode i { hash.table i with key_factor := key_factor, data := data }) := by
  have sameUsed (j : Nat) : ((hash.setNode i
      { hash.table i with key_factor := key_factor, data := data }).table j).used =
        (hash.table j).used := by
    by_cases same : j = i
    · rw [same, setNode_self]
    · rw [setNode_of_ne same]
  refine ⟨fun j bounded used => ?_, fun j bounded used k less inSame => ?_⟩
  · by_cases same : j = i
    · rw [same, setNode_self]
      exact ⟨isFactor, inside ▸ candidate⟩
    · rw [setNode_of_ne same] at used ⊢
      exact placed.placed j bounded used
  · rw [sameUsed] at used ⊢
    exact placed.leading j bounded used k less inSame

theorem candidate_peer :
    hash.Candidate key_factor (cuckoohashPeerBktIndex hash key_factor bkt_index) := by
  simp only [cuckoohashPeerBktIndex]
  split
  · exact .inr rfl
  · exact .inl rfl

/-- What adding a datum may do: it is added, or the table is as before. -/
def CuckooAdds (funcs : CuckooFuncs α) (hash : CuckooHashS α) (a b : Nat) (data : α)
    (counted : Int) (added : CuckooHashS α × Option Nat) : Prop :=
  (added.2.isSome ∧ CuckooSized added.1 a b ∧ CuckooPlaced funcs added.1 ∧
    added.1.contents = data ::ₘ hash.contents ∧ added.1.entry_count = hash.entry_count + counted) ∨
  added = (hash, none)

include sized isAdded candidate isFactor placed in
theorem cuckoohashAdd2Bkt_adds :
    CuckooAdds funcs hash a b data 0 (added.1, some added.2) := by
  obtain ⟨i, inside, unused, earlier, rfl⟩ := cuckoohashAdd2Bkt_eq_some sized isAdded
  have bounded := sized.bkt_lt (sized.candidate candidate) inside
  exact .inl ⟨rfl, sized.setNode, placed.fill inside candidate isFactor earlier,
    contents_fill bounded unused, (Int.add_zero _).symm⟩

include sized candidate isFactor placed in
theorem cuckoohashForceAdd2Bkt_adds {left : Nat} :
    CuckooAdds funcs hash a b data 0
      (cuckoohashForceAdd2Bkt RAND_Get left hash bkt_index key_factor data) := by
  induction left generalizing hash bkt_index key_factor data with
  | zero =>
    rw [cuckoohashForceAdd2Bkt]
    split
    · next isAdded => exact cuckoohashAdd2Bkt_adds sized isAdded candidate isFactor placed
    · exact .inr rfl
  | succ left ih =>
    rw [cuckoohashForceAdd2Bkt]
    split
    · next isAdded => exact cuckoohashAdd2Bkt_adds sized isAdded candidate isFactor placed
    next isFull =>
    have inside := @CuckooSized.forced _ _ _ _ bkt_index sized
      (RAND_Get (cuckooHashMaxTry - (left + 1)))
    generalize isForced : bkt_index * hash.bucket_depth.toNat +
      (RAND_Get (cuckooHashMaxTry - (left + 1)) &&& hash.bucket_depth_mask).toNat = force_index
      at inside
    have used := cuckoohashAdd2Bkt_eq_none sized inside isFull
    have bounded := sized.bkt_lt (sized.candidate candidate) inside
    have oldFactor := (placed.placed force_index bounded used).1
    have moved := ih sized.setNode (@candidate_peer _ _ bkt_index _) oldFactor
      (placed.swap inside candidate isFactor)
    simp only
    rcases moved with ⟨isSome, sizedAfter, placedAfter, contents, count⟩ | failed
    · obtain ⟨_, isIndex⟩ := isSome_iff_exists.mp isSome
      rw [isIndex]
      exact .inl ⟨rfl, sizedAfter, placedAfter, contents.trans (contents_swap used bounded), count⟩
    rw [failed]
    refine .inr (Prod.ext ?_ rfl)
    rw [setNode_self, setNode_setNode]
    exact setNode_table rfl

include sized placed in
theorem cuckooHashAdd_adds :
    CuckooAdds funcs hash a b data 1 (cuckooHashAdd funcs hash RAND_Get data) := by
  have counted (added : CuckooHashS α × Option Nat) (adds : CuckooAdds funcs hash a b data 0 added)
      (isAdded : cuckooHashAdd funcs hash RAND_Get data = added.2.elim (added.1, none)
        fun index => ({ added.1 with entry_count := added.1.entry_count + 1 }, some index)) :
      CuckooAdds funcs hash a b data 1 (cuckooHashAdd funcs hash RAND_Get data) := by
    rw [isAdded]
    rcases adds with ⟨isSome, sizedAfter, placedAfter, contents, count⟩ | rfl
    · obtain ⟨_, isIndex⟩ := isSome_iff_exists.mp isSome
      rw [isIndex]
      refine .inl ⟨rfl, ?_, ?_, contents, ?_⟩
      · exact ⟨sizedAfter.small, sizedAfter.num, sizedAfter.depth, sizedAfter.mask,
          sizedAfter.depth_mask⟩
      · exact ⟨placedAfter.placed, placedAfter.leading⟩
      · exact congrArg (· + 1) (count.trans (Int.add_zero _))
    · exact .inr rfl
  cases isAdded : cuckoohashAdd2Bkt hash (cuckoohashFirstBktIndex hash (funcs.index_func data))
      (funcs.index_func data) data with
  | some =>
    apply counted _ (cuckoohashAdd2Bkt_adds sized isAdded (.inl rfl) rfl placed)
    rw [cuckooHashAdd, cuckoohashAddWithKeyFactor, isAdded, elim_some]
  | none =>
    have forced := @cuckoohashForceAdd2Bkt_adds _ funcs hash a b _ _ data RAND_Get sized
      (.inr rfl) rfl placed cuckooHashMaxTry
    apply counted _ forced
    cases status : (cuckoohashForceAdd2Bkt RAND_Get cuckooHashMaxTry hash
        (cuckoohashSecondBktIndex hash (funcs.index_func data)) (funcs.index_func data) data).2 <;>
      simp [cuckooHashAdd, cuckoohashAddWithKeyFactor, isAdded, status]

/-- Equal data have the same hash factor, and the comparison is an equivalence. -/
structure CuckooFuncs.Agree (funcs : CuckooFuncs α) : Prop where
  refl : ∀ first, funcs.cmp_func first first = 0
  symm : ∀ first second, funcs.cmp_func first second = 0 → funcs.cmp_func second first = 0
  trans : ∀ first second third, funcs.cmp_func first second = 0 →
    funcs.cmp_func second third = 0 → funcs.cmp_func first third = 0
  factor : ∀ first second, funcs.cmp_func first second = 0 →
    funcs.index_func first = funcs.index_func second

include sized in
theorem cuckoohashFindInBkt_sound
    (found : cuckoohashFindInBkt hash funcs bkt_index key_factor data = some i) :
    i / hash.bucket_depth.toNat = bkt_index ∧ (hash.table i).used = true ∧
      funcs.cmp_func (hash.table i).data data = 0 := by
  have inside := mem_of_find?_eq_some found
  have matched := find?_some found
  rw [Bool.and_eq_true, beq_iff_eq, beq_iff_eq] at matched
  refine ⟨sized.mem_bkt.mp ((List.takeWhile_prefix _).subset inside), ?_, matched.2⟩
  exact mem_takeWhile_imp (p := fun i => (hash.table i).used) inside

include used bounded sized placed in
theorem cuckoohashFindInBkt_isSome
    (same : (hash.table i).key_factor = key_factor ∧ funcs.cmp_func (hash.table i).data data = 0) :
    (cuckoohashFindInBkt hash funcs (i / hash.bucket_depth.toNat) key_factor data).isSome := by
  rw [cuckoohashFindInBkt, find?_isSome]
  refine ⟨i, ?_, by simp [same]⟩
  obtain ⟨before, after, isBkt⟩ := append_of_mem (sized.mem_bkt.mpr rfl : i ∈ cuckoohashBkt hash _)
  have ordered : (before ++ i :: after).Pairwise (· < ·) := isBkt ▸ pairwise_lt_range'
  rw [isBkt, takeWhile_append_of_pos,
    takeWhile_cons_of_pos (p := fun i => (hash.table i).used) used]
  · exact mem_append_right _ mem_cons_self
  intro j inside
  have less := (pairwise_append.mp ordered).2.2 j inside i mem_cons_self
  have inBkt : j ∈ cuckoohashBkt hash (i / hash.bucket_depth.toNat) := by
    rw [isBkt]
    exact mem_append_left _ inside
  exact placed.leading i bounded used j less.le (sized.mem_bkt.mp inBkt)

include sized in
theorem cuckooHashFind_sound
    (found : cuckooHashFind funcs hash data = some i) :
    i < hash.size ∧ (hash.table i).used = true ∧ funcs.cmp_func (hash.table i).data data = 0 := by
  simp only [cuckooHashFind, cuckoohashFindWithKeyFactor] at found
  split at found
  · next inFirst =>
    cases found
    obtain ⟨inside, used, same⟩ := cuckoohashFindInBkt_sound sized inFirst
    exact ⟨sized.bkt_lt (sized.candidate (.inl rfl)) inside, used, same⟩
  · obtain ⟨inside, used, same⟩ := cuckoohashFindInBkt_sound sized found
    exact ⟨sized.bkt_lt (sized.candidate (.inr rfl)) inside, used, same⟩

variable (agree : funcs.Agree)

include used bounded sized placed agree in
theorem cuckooHashFind_isSome (same : funcs.cmp_func (hash.table i).data data = 0) :
    (cuckooHashFind funcs hash data).isSome := by
  obtain ⟨isFactor, candidate⟩ := placed.placed i bounded used
  rw [agree.factor _ _ same] at isFactor
  rw [isFactor] at candidate
  have found := cuckoohashFindInBkt_isSome used bounded sized placed ⟨isFactor, same⟩
  simp only [cuckooHashFind, cuckoohashFindWithKeyFactor]
  split
  · rfl
  next notInFirst =>
  rcases candidate with inFirst | inSecond
  · rw [inFirst, notInFirst] at found
    exact absurd found (by simp)
  · rw [inSecond] at found
    exact found

include used sized in
theorem cuukoohashGetLastUsedInBkt_spec :
    ∃ last, cuukoohashGetLastUsedInBkt hash (i / hash.bucket_depth.toNat) = some last ∧
      last / hash.bucket_depth.toNat = i / hash.bucket_depth.toNat ∧
      (hash.table last).used = true ∧ ∀ j, j / hash.bucket_depth.toNat =
        i / hash.bucket_depth.toNat → (hash.table j).used = true → j ≤ last := by
  have isSome : (cuukoohashGetLastUsedInBkt hash (i / hash.bucket_depth.toNat)).isSome := by
    rw [cuukoohashGetLastUsedInBkt, find?_isSome]
    exact ⟨i, mem_reverse.mpr (sized.mem_bkt.mpr rfl), used⟩
  obtain ⟨last, found⟩ := isSome_iff_exists.mp isSome
  obtain ⟨lastUsed, later, earlier, isBkt, unused⟩ := find?_eq_some_iff_append.mp found
  have inside := mem_reverse.mp (mem_of_find?_eq_some found)
  refine ⟨last, found, sized.mem_bkt.mp inside, lastUsed, fun j inBkt isUsed => ?_⟩
  have ordered : (later ++ last :: earlier).Pairwise (· > ·) := by
    rw [← isBkt, pairwise_reverse]
    exact pairwise_lt_range'
  have among : j ∈ later ++ last :: earlier := by
    rw [← isBkt]
    exact mem_reverse.mpr (sized.mem_bkt.mpr inBkt)
  rcases mem_append.mp among with isLater | isEarlier
  · have absent := unused j isLater
    rw [isUsed] at absent
    exact absurd absent (by decide)
  rcases mem_cons.mp isEarlier with rfl | isEarlier
  · exact le_rfl
  · have after := (pairwise_append.mp ordered).2.1
    exact le_of_lt (rel_of_pairwise_cons after isEarlier)

/-- The table after the last node of a bucket was moved to a place of the bucket. -/
def CuckooHashS.moveLast (hash : CuckooHashS α) (i last : Nat) : CuckooHashS α :=
  let hash := if last ≠ i then hash.setNode i (hash.table last) else hash
  hash.setNode last { hash.table last with used := false }

theorem moveLast_table (j : Nat) :
    (hash.moveLast i last).table j =
      if j = last then { hash.table last with used := false }
      else if j = i then hash.table last else hash.table j := by
  simp only [CuckooHashS.moveLast]
  by_cases isLast : j = last
  · rw [isLast, setNode_self, if_pos rfl]
    split
    · next differs => rw [setNode_of_ne differs]
    · rfl
  rw [setNode_of_ne isLast, if_neg isLast]
  by_cases differs : last ≠ i
  · rw [if_pos differs]
    by_cases isI : j = i
    · rw [isI, setNode_self, if_pos rfl]
    · rw [setNode_of_ne isI, if_neg isI]
  · have isI : j ≠ i := fun same => isLast (same.trans (not_not.mp differs).symm)
    rw [if_neg differs, if_neg isI]

include used bounded in
theorem moveLast_contents (lastBounded : last < hash.size) (lastUsed : (hash.table last).used = true) :
    (hash.table i).data ::ₘ (hash.moveLast i last).contents = hash.contents := by
  simp only [CuckooHashS.moveLast]
  split
  · next differs =>
    have moved := @contents_setNode _ hash i (hash.table last) bounded
    have cleared := @contents_setNode _ (hash.setNode i (hash.table last)) last
      { (hash.setNode i (hash.table last)).table last with used := false } lastBounded
    rw [setNode_of_ne differs] at cleared ⊢
    simp only [CuckooHashNode.slot, used, lastUsed, if_true, Bool.false_eq_true, if_false,
      Multiset.singleton_add, zero_add] at moved cleared
    rw [← cleared, Multiset.cons_swap, Multiset.cons_inj_right] at moved
    exact moved
  · next same =>
    have cleared := @contents_setNode _ hash last { hash.table last with used := false } lastBounded
    simp only [CuckooHashNode.slot, lastUsed, if_true, Bool.false_eq_true, if_false,
      Multiset.singleton_add, zero_add] at cleared
    rw [← not_not.mp same]
    exact cleared

include used placed in
theorem CuckooPlaced.moveLast
    (inside : last / hash.bucket_depth.toNat = i / hash.bucket_depth.toNat)
    (lastBounded : last < hash.size) (lastUsed : (hash.table last).used = true)
    (isLast : ∀ j, j / hash.bucket_depth.toNat = i / hash.bucket_depth.toNat →
      (hash.table j).used = true → j ≤ last) :
    CuckooPlaced funcs (hash.moveLast i last) := by
  have sameSize : (hash.moveLast i last).size = hash.size := by
    simp only [CuckooHashS.moveLast]
    split <;> rfl
  have sameDepth : (hash.moveLast i last).bucket_depth = hash.bucket_depth := by
    simp only [CuckooHashS.moveLast]
    split <;> rfl
  have sameMask : (hash.moveLast i last).bucket_mask = hash.bucket_mask := by
    simp only [CuckooHashS.moveLast]
    split <;> rfl
  have candidate (key_factor : UINT) (bkt_index : Nat) :
      (hash.moveLast i last).Candidate key_factor bkt_index ↔ hash.Candidate key_factor bkt_index := by
    simp [CuckooHashS.Candidate, cuckoohashFirstBktIndex, cuckoohashSecondBktIndex, sameMask]
  refine ⟨fun j bounded stays => ?_, fun j bounded stays k less inSame => ?_⟩
  · rw [sameSize] at bounded
    rw [candidate, sameDepth]
    rw [moveLast_table] at stays ⊢
    split at stays
    · cases stays
    next notLast =>
    rw [if_neg notLast]
    by_cases isI : j = i
    · rw [if_pos isI, isI, ← inside]
      exact placed.placed last lastBounded lastUsed
    · rw [if_neg isI] at stays ⊢
      exact placed.placed j bounded stays
  rw [sameSize] at bounded
  rw [sameDepth] at inSame
  rw [moveLast_table] at stays ⊢
  split at stays
  · cases stays
  next notLast =>
  have usedBefore : (hash.table j).used = true := by
    by_cases isI : j = i
    · rw [isI]
      exact used
    · rw [if_neg isI] at stays
      exact stays
  have before : k ≠ last := by
    rintro rfl
    exact notLast (le_antisymm (isLast j (inSame.symm.trans inside) usedBefore) less)
  rw [if_neg before]
  by_cases isI : k = i
  · rw [if_pos isI]
    exact lastUsed
  · rw [if_neg isI]
    exact placed.leading j bounded usedBefore k less inSame

include used bounded sized placed in
theorem cuckooHashDelIndex_eq :
    ∃ after, cuckooHashDelIndex hash i = (after, some (hash.table i).data) ∧
      CuckooSized after a b ∧ CuckooPlaced funcs after ∧
      (hash.table i).data ::ₘ after.contents = hash.contents ∧
      after.entry_count = hash.entry_count - 1 := by
  obtain ⟨last, isLast, inside, lastUsed, others⟩ := cuukoohashGetLastUsedInBkt_spec used sized
  have lastBounded := sized.bkt_lt (sized.bkt_of_lt bounded) inside
  have moved := placed.moveLast used inside lastBounded lastUsed others
  have sizedAfter : CuckooSized (hash.moveLast i last) a b := by
    simp only [CuckooHashS.moveLast]
    split
    · exact sized.setNode.setNode
    · exact sized.setNode
  have count : (hash.moveLast i last).entry_count = hash.entry_count := by
    simp only [CuckooHashS.moveLast]
    split <;> rfl
  refine ⟨{ hash.moveLast i last with entry_count := hash.entry_count - 1 }, ?_, ?_, ?_,
    moveLast_contents used bounded lastBounded lastUsed, rfl⟩
  · have fits : ¬ (i : Int) ≥ hash.bucket_num * hash.bucket_depth := by
      rw [sized.size_cast]
      omega
    rw [cuckooHashDelIndex, if_neg fits, used, isLast, ← count]
    rfl
  · exact ⟨sizedAfter.small, sizedAfter.num, sizedAfter.depth, sizedAfter.mask,
      sizedAfter.depth_mask⟩
  · exact ⟨moved.placed, moved.leading⟩

include sized in
theorem cuckooHashDelIndex_none
    (unused : i < hash.size → (hash.table i).used = false) :
    cuckooHashDelIndex hash i = (hash, none) := by
  rw [cuckooHashDelIndex, sized.size_cast]
  split
  · rfl
  · next fits => rw [unused (by omega), Bool.not_false, if_pos rfl]

include sized placed agree in
theorem cuckooHashDel_eq :
    (∃ after found, cuckooHashDel funcs hash data = (after, some found) ∧
      funcs.cmp_func found data = 0 ∧ CuckooSized after a b ∧ CuckooPlaced funcs after ∧
      found ::ₘ after.contents = hash.contents ∧ after.entry_count = hash.entry_count - 1) ∨
    (cuckooHashDel funcs hash data = (hash, none) ∧
      ∀ other ∈ hash.contents, funcs.cmp_func other data ≠ 0) := by
  rw [cuckooHashDel]
  cases found : cuckooHashFind funcs hash data with
  | some =>
    obtain ⟨bounded, used, same⟩ := cuckooHashFind_sound sized found
    obtain ⟨after, isAfter, rest⟩ := cuckooHashDelIndex_eq used bounded sized placed
    exact .inl ⟨after, _, isAfter, same, rest⟩
  | none =>
    refine .inr ⟨rfl, fun other inside same => ?_⟩
    obtain ⟨_, bounded, used, rfl⟩ := mem_contents.mp inside
    have isSome := cuckooHashFind_isSome used bounded sized placed agree same
    rw [found] at isSome
    cases isSome

inductive CuckooCall (α : Type) where
  | add (RAND_Get : Nat → UINT) (data : α)
  | find (data : α)
  | del (data : α)
  | delIndex (index : Nat)

def CuckooCall.run (funcs : CuckooFuncs α) (hash : CuckooHashS α) : CuckooCall α → CuckooHashS α
  | add RAND_Get data => (cuckooHashAdd funcs hash RAND_Get data).1
  | find _ => hash
  | del data => (cuckooHashDel funcs hash data).1
  | delIndex index => (cuckooHashDelIndex hash index).1

variable [DecidableEq α]

def CuckooCall.leaves (funcs : CuckooFuncs α) (hash : CuckooHashS α) (stored : Finset α) :
    CuckooCall α → Finset α
  | add RAND_Get data =>
    if (cuckooHashAdd funcs hash RAND_Get data).2.isSome then insert data stored else stored
  | find _ => stored
  | del data => stored.filter fun other => funcs.cmp_func other data ≠ 0
  | delIndex index =>
    match cuckooHashGetData hash index with
    | some data => stored.erase data
    | none => stored

/-- Only data that are not in the table are added to it. -/
def CuckooCall.Enabled (funcs : CuckooFuncs α) (stored : Finset α) : CuckooCall α → Prop
  | add _ data => ∀ other ∈ stored, funcs.cmp_func other data ≠ 0
  | _ => True

structure CuckooRun (α : Type) where
  hash : CuckooHashS α
  stored : Finset α

def cuckooRunNext (funcs : CuckooFuncs α) (run : CuckooRun α) (call : CuckooCall α) :
    CuckooRun α :=
  ⟨call.run funcs run.hash, call.leaves funcs run.hash run.stored⟩

def cuckooSystem (funcs : CuckooFuncs α) (bucket_num bucket_depth : UINT) :
    Lib.System (CuckooRun α) (CuckooCall α) where
  start run := ∃ NUM_IS2N table,
    (cuckooHashInit NUM_IS2N table bucket_num bucket_depth).map (⟨·, ∅⟩) = some run
  step run call after := call.Enabled funcs run.stored ∧ after = cuckooRunNext funcs run call

/-- The table holds exactly the data that it should hold, each in one of its buckets and
found there. -/
structure CuckooHolds (funcs : CuckooFuncs α) (hash : CuckooHashS α) (stored : Finset α) :
    Prop where
  placed : ∀ data ∈ stored, ∃ i < hash.size, (hash.table i).used = true ∧
    (hash.table i).data = data ∧
    hash.Candidate (funcs.index_func data) (i / hash.bucket_depth.toNat)
  contents : hash.contents = stored.val
  leading : ∀ i < hash.size, (hash.table i).used = true → ∀ j ≤ i,
    j / hash.bucket_depth.toNat = i / hash.bucket_depth.toNat → (hash.table j).used = true
  find : ∀ data, (∀ i, cuckooHashFind funcs hash data = some i →
      (hash.table i).data ∈ stored ∧ funcs.cmp_func (hash.table i).data data = 0) ∧
    ((cuckooHashFind funcs hash data).isSome ↔ ∃ other ∈ stored, funcs.cmp_func other data = 0)
  count : cuckooHashCount hash = stored.card
  failed : ∀ RAND_Get data, (cuckooHashAdd funcs hash RAND_Get data).2 = none →
    (cuckooHashAdd funcs hash RAND_Get data).1 = hash

structure CuckooRunOk (funcs : CuckooFuncs α) (run : CuckooRun α) (a b : Nat) : Prop where
  sized : CuckooSized run.hash a b
  placed : CuckooPlaced funcs run.hash
  contents : run.hash.contents = run.stored.val
  count : run.hash.entry_count = run.stored.card
  apart : ∀ first ∈ run.stored, ∀ second ∈ run.stored,
    funcs.cmp_func first second = 0 → first = second

variable {run : CuckooRun α}

variable (ok : CuckooRunOk funcs run a b)

include ok in
theorem CuckooRunOk.erase {after : CuckooHashS α}
    (sized : CuckooSized after a b) (placed : CuckooPlaced funcs after)
    (contents : data ::ₘ after.contents = run.hash.contents)
    (count : after.entry_count = run.hash.entry_count - 1) :
    CuckooRunOk funcs ⟨after, run.stored.erase data⟩ a b := by
  rw [ok.contents] at contents
  have inside : data ∈ run.stored := by
    rw [← mem_val, ← contents]
    exact Multiset.mem_cons_self _ _
  refine ⟨sized, placed, ?_, ?_, fun first isFirst second isSecond => ?_⟩
  · rw [erase_val, ← contents, Multiset.erase_cons_head]
  · rw [count, ok.count, card_erase_of_mem inside]
    have some := card_pos.mpr ⟨data, inside⟩
    omega
  · exact ok.apart first (mem_of_mem_erase isFirst) second (mem_of_mem_erase isSecond)

include agree ok in
theorem CuckooRunOk.add
    (absent : ∀ other ∈ run.stored, funcs.cmp_func other data ≠ 0) :
    CuckooRunOk funcs (cuckooRunNext funcs run (.add RAND_Get data)) a b := by
  have fresh : data ∉ run.stored := fun inside => absent data inside (agree.refl data)
  rcases @cuckooHashAdd_adds _ funcs run.hash a b data RAND_Get ok.sized ok.placed with
    ⟨isSome, sized, placed, contents, count⟩ | failed
  · simp only [cuckooRunNext, CuckooCall.run, CuckooCall.leaves, isSome, if_true]
    refine ⟨sized, placed, ?_, ?_, fun first isFirst second isSecond same => ?_⟩
    · rw [contents, ok.contents, insert_val_of_notMem fresh]
    · rw [count, ok.count, card_insert_of_notMem fresh]
      rfl
    rcases mem_insert.mp isFirst with rfl | firstInside <;>
      rcases mem_insert.mp isSecond with rfl | secondInside
    · rfl
    · exact absurd (agree.symm _ _ same) (absent _ secondInside)
    · exact absurd same (absent _ firstInside)
    · exact ok.apart first firstInside second secondInside same
  · simp only [cuckooRunNext, CuckooCall.run, CuckooCall.leaves, failed, isSome_none,
      Bool.false_eq_true, if_false]
    exact ok

include agree ok in
theorem CuckooRunOk.del :
    CuckooRunOk funcs (cuckooRunNext funcs run (.del data)) a b := by
  simp only [cuckooRunNext, CuckooCall.run, CuckooCall.leaves]
  rcases @cuckooHashDel_eq _ funcs run.hash a b data ok.sized ok.placed agree with
    ⟨_, found, isAfter, same, sized, placed, contents, count⟩ | ⟨isAfter, absent⟩
  · have inside : found ∈ run.stored := by
      rw [← mem_val, ← ok.contents, ← contents]
      exact Multiset.mem_cons_self _ _
    -- No other datum of the table is equal to the one that was found.
    have erased : (run.stored.filter fun other => funcs.cmp_func other data ≠ 0) =
        run.stored.erase found := by
      ext other
      rw [Finset.mem_filter, mem_erase, and_comm]
      refine and_congr_left fun isOther => not_congr ⟨fun equal => ?_, ?_⟩
      · exact ok.apart other isOther found inside (agree.trans _ _ _ equal (agree.symm _ _ same))
      · rintro rfl
        exact same
    rw [isAfter, erased]
    exact ok.erase sized placed contents count
  have kept : (run.stored.filter fun other => funcs.cmp_func other data ≠ 0) = run.stored := by
    apply filter_true_of_mem
    intro other inside
    apply absent
    rw [ok.contents]
    exact inside
  rw [isAfter, kept]
  exact ok

include ok in
theorem CuckooRunOk.delIndex :
    CuckooRunOk funcs (cuckooRunNext funcs run (.delIndex i)) a b := by
  simp only [cuckooRunNext, CuckooCall.run, CuckooCall.leaves, cuckooHashGetData,
    ok.sized.size_cast]
  by_cases bounded : i < run.hash.size
  · have inside : ¬ (i : Int) ≥ (run.hash.size : Int) := by omega
    rw [if_neg inside]
    cases used : (run.hash.table i).used
    · rw [cuckooHashDelIndex_none ok.sized fun _ => used]
      exact ok
    obtain ⟨_, isAfter, sized, placed, contents, count⟩ :=
      cuckooHashDelIndex_eq used bounded ok.sized ok.placed
    rw [isAfter]
    exact ok.erase sized placed contents count
  · have outside : (i : Int) ≥ (run.hash.size : Int) := by omega
    rw [if_pos outside, cuckooHashDelIndex_none ok.sized fun inside => absurd inside bounded]
    exact ok

omit [DecidableEq α] in
include ok in
theorem CuckooRunOk.congr {other : CuckooFuncs α}
    (factor : ∀ data ∈ run.stored, other.index_func data = funcs.index_func data)
    (compare : ∀ first ∈ run.stored, ∀ second ∈ run.stored,
      other.cmp_func first second = funcs.cmp_func first second) :
    CuckooRunOk other run a b := by
  refine ⟨ok.sized, ⟨fun i bounded used => ?_, ok.placed.leading⟩, ok.contents, ok.count,
    fun first isFirst second isSecond same => ?_⟩
  · have inside : (run.hash.table i).data ∈ run.stored := by
      rw [← mem_val, ← ok.contents]
      exact mem_contents.mpr ⟨i, bounded, used, rfl⟩
    rw [factor _ inside]
    exact ok.placed.placed i bounded used
  · rw [compare first isFirst second isSecond] at same
    exact ok.apart first isFirst second isSecond same

omit [DecidableEq α] in
theorem toNat_two_pow (fits : k < 31) : (BitVec.ofNat 32 (2 ^ k)).toNat = 2 ^ k := by
  exact mod_eq_of_lt (Nat.pow_lt_pow_right (by omega) (by omega))

omit [DecidableEq α] in
theorem toInt_two_pow (fits : k < 31) : (BitVec.ofNat 32 (2 ^ k)).toInt = 2 ^ k := by
  have less : 2 ^ k < 2 ^ 31 := Nat.pow_lt_pow_right (by omega) fits
  rw [BitVec.toInt_eq_toNat_of_lt (by rw [toNat_two_pow fits]; omega), toNat_two_pow fits]
  push_cast
  rfl

omit [DecidableEq α] in
theorem toNat_two_pow_mask (fits : k < 31) : (BitVec.ofNat 32 (2 ^ k) - 1).toNat = 2 ^ k - 1 := by
  have some : 1 ≤ 2 ^ k := Nat.one_le_two_pow
  rw [BitVec.toNat_sub_of_le (BitVec.le_def.mpr (by rw [toNat_two_pow fits]; exact some)),
    toNat_two_pow fits]
  rfl

theorem cuckooSystem_ok (agree : funcs.Agree) (fits : a + b < 31)
    (reached : (cuckooSystem funcs (BitVec.ofNat 32 (2 ^ a)) (BitVec.ofNat 32 (2 ^ b))).Reachable
      run) : CuckooRunOk funcs run a b := by
  apply reached.invariant
  · rintro _ ⟨_, _, isRun⟩
    obtain ⟨_, isHash, rfl⟩ := map_eq_some_iff.mp isRun
    simp only [cuckooHashInit] at isHash
    split at isHash
    · cases isHash
    split at isHash
    · cases isHash
    cases isHash
    refine ⟨⟨fits, toInt_two_pow (by omega), toInt_two_pow (by omega),
      toNat_two_pow_mask (by omega), toNat_two_pow_mask (by omega)⟩,
      ⟨nofun, nofun⟩, ?_, rfl,
      fun first isFirst => absurd isFirst (notMem_empty first)⟩
    exact sum_eq_zero fun i _ => rfl
  · rintro _ call _ ok ⟨enabled, rfl⟩
    cases call with
    | add => exact ok.add agree enabled
    | find => exact ok
    | del => exact ok.del agree
    | delIndex => exact ok.delIndex

omit [DecidableEq α] in
include sized placed agree in
theorem cuckooHashFind_iff :
    (cuckooHashFind funcs hash data).isSome ↔
      ∃ other ∈ hash.contents, funcs.cmp_func other data = 0 := by
  constructor
  · intro isSome
    obtain ⟨i, found⟩ := isSome_iff_exists.mp isSome
    obtain ⟨bounded, used, same⟩ := cuckooHashFind_sound sized found
    exact ⟨_, mem_contents.mpr ⟨i, bounded, used, rfl⟩, same⟩
  · rintro ⟨_, inside, same⟩
    obtain ⟨_, bounded, used, rfl⟩ := mem_contents.mp inside
    exact cuckooHashFind_isSome used bounded sized placed agree same

/-- A cuckoo hash whose places an `int` counts holds the data that were added to it. -/
theorem cuckoo_refines (agree : funcs.Agree) (fits : a + b < 31)
    (reached : (cuckooSystem funcs (BitVec.ofNat 32 (2 ^ a)) (BitVec.ofNat 32 (2 ^ b))).Reachable
      run) : CuckooHolds funcs run.hash run.stored := by
  have ok := cuckooSystem_ok agree fits reached
  refine ⟨fun data inside => ?_, ok.contents, ok.placed.leading, fun data => ⟨fun i found => ?_, ?_⟩,
    ok.count, fun RAND_Get data failed => ?_⟩
  · rw [← mem_val, ← ok.contents] at inside
    obtain ⟨i, bounded, used, isData⟩ := mem_contents.mp inside
    obtain ⟨isFactor, candidate⟩ := ok.placed.placed i bounded used
    rw [isFactor, isData] at candidate
    exact ⟨i, bounded, used, isData, candidate⟩
  · obtain ⟨bounded, used, same⟩ := cuckooHashFind_sound ok.sized found
    refine ⟨?_, same⟩
    rw [← mem_val, ← ok.contents]
    exact mem_contents.mpr ⟨i, bounded, used, rfl⟩
  · rw [cuckooHashFind_iff ok.sized ok.placed agree, ok.contents]
    rfl
  · rcases @cuckooHashAdd_adds _ funcs run.hash a b data RAND_Get ok.sized ok.placed with
      ⟨isSome, -⟩ | unchanged
    · rw [failed] at isSome
      cases isSome
    · rw [unchanged]

def natFuncs : CuckooFuncs Nat where
  index_func := BitVec.ofNat 32
  cmp_func first second := if first = second then 0 else 1

theorem natFuncs_agree : natFuncs.Agree := by
  have equal (first second : Nat) : natFuncs.cmp_func first second = 0 ↔ first = second := by
    simp [natFuncs]
  refine ⟨fun first => ?_, fun first second => ?_, fun first second third => ?_, fun first second => ?_⟩
  · rw [equal]
  · rw [equal, equal]
    exact Eq.symm
  · rw [equal, equal, equal]
    exact Eq.trans
  · rw [equal]
    exact congrArg natFuncs.index_func

instance (funcs : CuckooFuncs α) (stored : Finset α) :
    (call : CuckooCall α) → Decidable (call.Enabled funcs stored)
  | .add _ data => inferInstanceAs (Decidable (∀ other ∈ stored, funcs.cmp_func other data ≠ 0))
  | .find _ => isTrue trivial
  | .del _ => isTrue trivial
  | .delIndex _ => isTrue trivial

def natRun (bucket_num bucket_depth : UINT) (calls : List (CuckooCall Nat)) : CuckooRun Nat :=
  calls.foldl (cuckooRunNext natFuncs)
    ⟨⟨bucket_num - 1, bucket_depth - 1, bucket_num.toInt, bucket_depth.toInt, 0,
      fun _ => ⟨false, 0, 0⟩⟩, ∅⟩

theorem natRun_reachable (bucket_num bucket_depth : UINT) (calls : List (CuckooCall Nat))
    (admitted : Lib.System.Admitted (fun run call => CuckooCall.Enabled natFuncs run.stored call)
      (cuckooRunNext natFuncs) (natRun bucket_num bucket_depth []) calls) :
    (cuckooSystem natFuncs bucket_num bucket_depth).Reachable
      (natRun bucket_num bucket_depth calls) := by
  have steps (run : CuckooRun Nat) (call : CuckooCall Nat)
      (enabled : call.Enabled natFuncs run.stored) :
      True ∧ (cuckooSystem natFuncs bucket_num bucket_depth).step run call
        (cuckooRunNext natFuncs run call) :=
    ⟨trivial, enabled, rfl⟩
  exact .foldl steps (.start ⟨fun _ => true, fun _ => ⟨false, 0, 0⟩, rfl⟩) admitted

def natCalls : List (CuckooCall Nat) :=
  [.add (fun _ => 0) 0, .add (fun _ => 0) 4, .del 0, .delIndex 0, .find 4]

theorem cuckoo_refines_nat :
    (natRun 2 1 natCalls).stored = {4} ∧
      CuckooHolds natFuncs (natRun 2 1 natCalls).hash (natRun 2 1 natCalls).stored :=
  ⟨by decide +kernel, @cuckoo_refines Nat natFuncs 1 0 _ _ natFuncs_agree (by decide)
    (natRun_reachable 2 1 natCalls (by decide +kernel))⟩

/-- With `2 ^ 31` buckets the number of places is negative and nothing is deleted. -/
theorem cuckoo_keeps_deleted :
    (∃ run, (cuckooSystem natFuncs (BitVec.ofNat 32 (2 ^ 31)) (BitVec.ofNat 32 (2 ^ 0))).Reachable
      run ∧ run.stored = ∅ ∧ cuckooHashFind natFuncs run.hash 5 = some 5 ∧
        cuckooHashCount run.hash = 1) ∧
    ¬ ∀ (funcs : CuckooFuncs Nat) (a b : Nat) (run : CuckooRun Nat), funcs.Agree →
      a < 32 → b < 32 →
      (cuckooSystem funcs (BitVec.ofNat 32 (2 ^ a)) (BitVec.ofNat 32 (2 ^ b))).Reachable run →
      CuckooHolds funcs run.hash run.stored := by
  have reached := natRun_reachable (BitVec.ofNat 32 (2 ^ 31)) (BitVec.ofNat 32 (2 ^ 0))
    [.add (fun _ => 0) 5, .del 5] (by decide +kernel)
  have gone : (natRun (BitVec.ofNat 32 (2 ^ 31)) (BitVec.ofNat 32 (2 ^ 0))
      [.add (fun _ => 0) 5, .del 5]).stored = ∅ := by
    decide +kernel
  have found : cuckooHashFind natFuncs (natRun (BitVec.ofNat 32 (2 ^ 31)) (BitVec.ofNat 32 (2 ^ 0))
      [.add (fun _ => 0) 5, .del 5]).hash 5 = some 5 := by
    decide +kernel
  refine ⟨⟨_, reached, gone, found, by decide +kernel⟩, fun holds => ?_⟩
  have inside := (((holds natFuncs 31 0 _ natFuncs_agree (by decide) (by decide) reached).find 5).1
    5 found).1
  exact absurd inside (notMem_empty _)

end MyCode.Cuckoo
