import MyCode.Nap.Pool
import MyCode.LBitMap.Least
import Mathlib.Data.BitVec

/-!
# The invariant of a pool

The set bits are the indices of the live nodes, each of which the table finds by
its index, and the identifier of a node leads back to its index.
-/

namespace MyCode.Nap

open LBitMap Hash Function Option Prod List Nat

variable {head : NapHead} {live : List NapNode} {table : NapTable} {slots : NapSlots}
  {address : Option Nat} {uiIndex : UINT} {n : NapNode} {after : NapSlots}

theorem napHashFuncs_lawful : napHashFuncs.Lawful := by
  intro first second
  exact sub_eq_zero

def TableOk (live : List NapNode) : NapTable → Prop
  | .array => ∀ n ∈ live, n.address = n.uiIndex.toNat
  | .ptrArray ppPrtArray => ∀ n ∈ live, ppPrtArray n.uiIndex.toNat = some n
  | .hash hHashTbl => HashOk napHashFuncs hHashTbl ∧ ∀ n, n ∈ hashWalk hHashTbl ↔ n ∈ live

theorem TableOk.find (ok : TableOk live table) (inside : n ∈ live) :
    table.getNodeByIndex n.uiIndex = some n := by
  cases table with
  | array => rw [NapTable.getNodeByIndex, ← ok n inside]
  | ptrArray => exact ok n inside
  | hash => exact (hashFind_eq_some_iff napHashFuncs_lawful ok.1).mpr ⟨(ok.2 n).mpr inside, rfl⟩

theorem pfAlloc_asked (slots : NapSlots) (address : Option Nat) (uiIndex : UINT) :
    (slots.pfAlloc address uiIndex).1.asked = uiIndex :: slots.asked := by
  unfold NapSlots.pfAlloc
  split
  · rfl
  · rfl
  · simp only
    split <;> rfl

theorem pfFree_asked (slots : NapSlots) (n : NapNode) (uiIndex : UINT) :
    (slots.pfFree n uiIndex).asked = uiIndex :: slots.asked := by
  unfold NapSlots.pfFree
  split
  · rfl
  · split <;> rfl
  · rfl

theorem pfAlloc_index (got : slots.pfAlloc address uiIndex = (after, some n)) :
    n.uiIndex = uiIndex := by
  unfold NapSlots.pfAlloc at got
  split at got
  · cases got
    rfl
  · obtain ⟨_, isNode⟩ := mk.inj got
    obtain ⟨_, _, rfl⟩ := map_eq_some_iff.mp isNode
    rfl
  simp only at got
  split at got
  · cases got
  next found =>
  cases got
  obtain ⟨_, _, rfl⟩ := map_eq_some_iff.mp found
  rfl

section Absent

variable (ok : TableOk live slots.table) (absent : ∀ m ∈ live, m.uiIndex ≠ uiIndex)

include ok absent

theorem TableOk.alloc (got : slots.pfAlloc address uiIndex = (after, some n)) :
    TableOk (n :: live) after.table := by
  have index := pfAlloc_index got
  unfold NapSlots.pfAlloc at got
  cases isTable : slots.table with
  | array =>
    rw [isTable] at got ok
    cases got
    intro m inside
    rcases mem_cons.mp inside with rfl | old
    · rfl
    · exact ok m old
  | ptrArray =>
    rw [isTable] at got ok
    obtain ⟨rfl, isNode⟩ := mk.inj got
    intro m inside
    rcases mem_cons.mp inside with rfl | old
    · simp only [index, update_self]
      exact isNode
    have other :=  fun same => absent m old (BitVec.eq_of_toNat_eq same)
    simp only [update_of_ne other]
    exact ok m old
  | hash hHashTbl =>
    rw [isTable] at got ok
    simp only at got
    split at got
    · cases got
    cases got
    have missing : hashFind napHashFuncs hHashTbl (napHashFuncs.key n) = none := by
      rw [hashFind_eq_none_iff napHashFuncs_lawful ok.1]
      intro m inside same
      exact absent m ((ok.2 m).mp inside) (same.trans index)
    refine ⟨ok.1.add napHashFuncs_lawful missing, fun m => ?_⟩
    rw [mem_hashWalk_add ok.1, ok.2 m, mem_cons]

theorem TableOk.allocFailed (got : slots.pfAlloc address uiIndex = (after, none)) :
    TableOk live after.table := by
  unfold NapSlots.pfAlloc at got
  cases isTable : slots.table with
  | array =>
    rw [isTable] at got
    cases got
  | ptrArray =>
    rw [isTable] at got ok
    obtain ⟨rfl, -⟩ := mk.inj got
    intro m inside
    have other :=  fun same => absent m inside (BitVec.eq_of_toNat_eq same)
    simp only [update_of_ne other]
    exact ok m inside
  | hash =>
    rw [isTable] at got ok
    simp only at got
    split at got
    · cases got
      exact ok
    · cases got

end Absent

theorem TableOk.free (ok : TableOk live slots.table)
    (distinct : live.Pairwise fun m n => m.uiIndex ≠ n.uiIndex) (inside : n ∈ live) :
    TableOk (live.erase n) (slots.pfFree n n.uiIndex).table := by
  have others (m : NapNode) : m ∈ live.erase n ↔ m ≠ n ∧ m ∈ live := by
    have nodup : live.Nodup := distinct.imp fun different same => different (by rw [same])
    exact nodup.mem_erase_iff
  have different (m : NapNode) (kept : m ∈ live.erase n) : m.uiIndex ≠ n.uiIndex := by
    obtain ⟨other, old⟩ := (others m).mp kept
    intro same
    exact other (inj_on_of_nodup_map (pairwise_map.mpr distinct) old inside same)
  unfold NapSlots.pfFree
  cases isTable : slots.table with
  | array =>
    rw [isTable] at ok
    exact fun m kept => ok m ((others m).mp kept).2
  | ptrArray =>
    rw [isTable] at ok
    simp only
    split
    · exact fun m kept => ok m ((others m).mp kept).2
    intro m kept
    have other :=  fun same => different m kept (BitVec.eq_of_toNat_eq same)
    simp only [update_of_ne other]
    exact ok m ((others m).mp kept).2
  | hash =>
    rw [isTable] at ok
    have stored := (ok.2 n).mpr inside
    simp only [hashDelNode_eq napHashFuncs_lawful ok.1 stored]
    refine ⟨ok.1.del napHashFuncs_lawful, fun m => ?_⟩
    rw [mem_hashWalk_del napHashFuncs_lawful ok.1, ok.2 m, others]
    constructor
    · exact fun ⟨old, other⟩ => ⟨fun same => other (by rw [same]), old⟩
    · exact fun ⟨other, old⟩ => ⟨old, different m ((others m).mpr ⟨other, old⟩)⟩

/-- What `NUM_NeedBits` is relied on for: as many bits as it says are enough for
the indices below a maximum, and 31 bits are enough for every maximum. -/
def NeedBitsOk (needBits : UINT → Nat) : Prop :=
  ∀ num : UINT, num ≤ 0x7fffffff → needBits num ≤ 31 ∧ num.toNat ≤ 2 ^ needBits num

/-- The index mask covers the indices below the maximum, and not bit 31. -/
structure MaskOk (head : NapHead) : Prop where
  small : head.uiMaxNum ≤ 0x7fffffff
  masked : ∀ i < head.uiMaxNum, i &&& head.ulIndexMask = i
  low : head.ulIndexMask.getLsbD 31 = false

theorem getLsbD_indexMask {ucIndexBits : Nat} (low : ucIndexBits ≤ 31) (k : Nat) :
    (~~~prefix2Mask (32 - ucIndexBits)).getLsbD k = decide (k < ucIndexBits) := by
  have ones (k : Nat) : (0xffffffff : UINT).getLsbD k = decide (k < 32) := BitVec.getLsbD_allOnes
  rw [BitVec.getLsbD_not, prefix2Mask]
  split
  · next none =>
    rw [ones]
    have noBits : ¬ k < ucIndexBits := by omega
    rw [decide_eq_false noBits]
    by_cases inside : k < 32 <;> simp [inside]
  rw [BitVec.getLsbD_not, BitVec.getLsbD_ushiftRight, ones]
  by_cases inside : k < 32
  · simp only [inside, decide_true, Bool.true_and, Bool.not_not]
    exact decide_eq_decide.mpr (by omega)
  · simp only [inside, decide_false, Bool.false_and]
    exact (decide_eq_false (by omega)).symm

theorem maskOk_create {needBits : UINT → Nat} {memory : Nat → Option NapNode}
    {ulID : NapNode → UINT} {p : NapParam} (needs : NeedBitsOk needBits)
    (created : napCreate needBits memory ulID p = some head) : MaskOk head := by
  unfold napCreate at created
  split at created
  · cases created
  next within =>
  obtain ⟨-, -, rfl⟩ := map_eq_some_iff.mp created
  have small : (if p.uiMaxNum = 0 then 0x7fffffff else p.uiMaxNum) ≤ (0x7fffffff : UINT) := by
    split
    · exact BitVec.le_refl _
    · exact BitVec.not_lt.mp within
  obtain ⟨low, enough⟩ := needs _ small
  refine ⟨small, fun i less => ?_, ?_⟩
  · apply BitVec.eq_of_getLsbD_eq
    intro k _
    rw [BitVec.getLsbD_and, getLsbD_indexMask low]
    by_cases inside : k < needBits (if p.uiMaxNum = 0 then 0x7fffffff else p.uiMaxNum)
    · rw [decide_eq_true inside, Bool.and_true]
    have bound := lt_of_lt_of_le (lt_of_lt_of_le less enough)
        (Nat.pow_le_pow_right (by decide) (Nat.le_of_not_lt inside))
    rw [decide_eq_false inside, Bool.and_false]
    exact (testBit_lt_two_pow bound).symm
  · rw [getLsbD_indexMask low]
    exact decide_eq_false (by omega)

/-- The sequence mask has no bit of the index mask. -/
def SeqApart (head : NapHead) : Prop :=
  head.stSeqOpt.bEnable = true → head.stSeqOpt.ulSeqMask &&& head.ulIndexMask = 0

theorem and_indexMask_top (ok : MaskOk head) (id : UINT) :
    (id ||| 0x80000000) &&& head.ulIndexMask = id &&& head.ulIndexMask := by
  have top : (0x80000000 : UINT) = BitVec.twoPow 32 31 := rfl
  apply BitVec.eq_of_getLsbD_eq
  intro k _
  rw [top, BitVec.getLsbD_and, BitVec.getLsbD_or, BitVec.getLsbD_twoPow, BitVec.getLsbD_and]
  by_cases last : k = 31
  · rw [last, ok.low, Bool.and_false, Bool.and_false]
  · have other : ¬ 31 = k := fun same => last same.symm
    simp [other]

theorem napIdOf_index (ok : MaskOk head) (apart : head.stSeqOpt.ulSeqMask &&& head.ulIndexMask = 0)
    {i : UINT} (less : i < head.uiMaxNum) (seq : USHORT) :
    napIdOf head.stSeqOpt i seq &&& head.ulIndexMask = i := by
  have masked := ok.masked i less
  rw [napIdOf, and_indexMask_top ok]
  apply BitVec.eq_of_getLsbD_eq
  intro k inside
  have maskedBit := congrArg (fun bits => bits.getLsbD k) masked
  have apartBit : (head.stSeqOpt.ulSeqMask.getLsbD k && head.ulIndexMask.getLsbD k) = false := by
    rw [← BitVec.getLsbD_and, apart]
    exact BitVec.getLsbD_zero
  simp only [BitVec.getLsbD_and] at maskedBit
  simp only [BitVec.getLsbD_and, BitVec.getLsbD_or, BitVec.getLsbD_not]
  cases isMask : head.ulIndexMask.getLsbD k with
  | false =>
    rw [isMask, Bool.and_false] at maskedBit
    rw [Bool.and_false, maskedBit]
  | true =>
    rw [isMask, Bool.and_true] at apartBit
    simp [apartBit, decide_eq_true inside]

theorem top_ne_zero (id : UINT) : id ||| 0x80000000 ≠ napInvalidId := by
  intro zero
  have top := congrArg (fun bits => bits.getLsbD 31) zero
  simp [napInvalidId] at top

theorem napCacleIDByIndex_index (ok : MaskOk head) (apart : SeqApart head) {i : UINT}
    (less : i < head.uiMaxNum) :
    (napCacleIDByIndex head i).2 &&& head.ulIndexMask = i ∧
      (napCacleIDByIndex head i).2 ≠ napInvalidId := by
  unfold napCacleIDByIndex
  simp only
  split
  · next enabled => exact ⟨napIdOf_index ok (apart enabled) less _, top_ne_zero _⟩
  · refine ⟨?_, top_ne_zero _⟩
    rw [and_indexMask_top ok, ok.masked i less]

structure NapOk (head : NapHead) (live : List NapNode) : Prop where
  mask : MaskOk head
  flags : FlagsSound 3 head.hLBitmap
  bits : ∀ i, LBitMapHas head.hLBitmap i ↔ ∃ n ∈ live, n.uiIndex = i
  distinct : live.Pairwise fun m n => m.uiIndex ≠ n.uiIndex
  below : ∀ n ∈ live, n.uiIndex < head.uiMaxNum
  index : ∀ n ∈ live, head.ulID n &&& head.ulIndexMask = n.uiIndex
  valid : ∀ n ∈ live, head.ulID n ≠ napInvalidId
  table : TableOk live head.slots.table
  asked : ∀ i ∈ head.slots.asked, i < head.uiMaxNum

/-- What a lookup relies on: the bits are the indices of the live nodes, and the identifier of a
node leads to its index. -/
structure Slotted (head : NapHead) (live : List NapNode) : Prop where
  bits : ∀ i, LBitMapHas head.hLBitmap i ↔ ∃ n ∈ live, n.uiIndex = i
  distinct : live.Pairwise fun m n => m.uiIndex ≠ n.uiIndex
  index : ∀ n ∈ live, napCacleIndexByID head (head.ulID n) = n.uiIndex
  valid : ∀ n ∈ live, head.ulID n ≠ napInvalidId
  table : TableOk live head.slots.table

theorem NapOk.slotted (ok : NapOk head live) : Slotted head live :=
  ⟨ok.bits, ok.distinct, ok.index, ok.valid, ok.table⟩

section Slotted

variable (slotted : Slotted head live)

include slotted

theorem Slotted.eq_of_index {m : NapNode} (first : m ∈ live) (second : n ∈ live)
    (same : m.uiIndex = n.uiIndex) : m = n :=
  inj_on_of_nodup_map (pairwise_map.mpr slotted.distinct) first second same

theorem Slotted.eq_of_id {m : NapNode} (first : m ∈ live) (second : n ∈ live)
    (same : head.ulID m = head.ulID n) : m = n := by
  apply slotted.eq_of_index first second
  rw [← slotted.index m first, same, slotted.index n second]

theorem Slotted.getNodeByID (id : UINT) :
    (napGetNodeByID head id).2 = some n ↔ n ∈ live ∧ head.ulID n = id := by
  unfold napGetNodeByID
  split
  · next invalid =>
    refine ⟨nofun, fun ⟨inside, same⟩ => ?_⟩
    exact absurd (same.trans invalid) (slotted.valid n inside)
  simp only
  split
  · next clear =>
    rw [Bool.not_eq_true'] at clear
    refine ⟨nofun, fun ⟨inside, same⟩ => ?_⟩
    have setted : napIsIndexSetted head (napCacleIndexByID head id) = true :=
      (slotted.bits _).mpr ⟨n, inside, by rw [← same, slotted.index n inside]⟩
    rw [clear] at setted
    cases setted
  next setted =>
  rw [Bool.not_eq_true', Bool.not_eq_false] at setted
  obtain ⟨m, inside, index⟩ := (slotted.bits _).mp setted
  have found := slotted.table.find inside
  rw [index] at found
  simp only [NapSlots.pfGetNodeByIndex, found]
  have same_of_id (isLive : n ∈ live) (sameId : head.ulID n = id) : n = m :=
    slotted.eq_of_index isLive inside (by rw [← slotted.index n isLive, sameId, index])
  split
  · next other =>
    refine ⟨nofun, fun ⟨isLive, same⟩ => ?_⟩
    exact absurd (same_of_id isLive same ▸ same) other
  next same =>
  rw [not_not] at same
  refine ⟨?_, fun ⟨isLive, sameId⟩ => by rw [same_of_id isLive sameId]⟩
  intro isNode
  cases isNode
  exact ⟨inside, same⟩

end Slotted

end MyCode.Nap
