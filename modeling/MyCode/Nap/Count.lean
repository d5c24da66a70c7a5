import MyCode.Nap.Identity

/-!
# Bounds and counts

The allocating functions do not compare an index with the maximum of the pool,
and `NAP_AllocByID` does not count.
-/

namespace MyCode.Nap

open LBitMap Hash Lib List BitVec Prod Nat

/-- An index below the maximum is free, and the bitmap has memory. -/
def HasFree (head : NapHead) (alloc : NodeAlloc) : Prop :=
  (∃ i < head.uiMaxNum, ¬ LBitMapHas head.hLBitmap i) ∧ ∀ path, alloc path = true

/-- A node at an index is refused: the index is in use, or memory is missing. -/
def Refused (run : NapRun) (label : NapLabel) (uiIndex : UINT) : Prop :=
  LBitMapHas run.head.hLBitmap uiIndex ∨
    uiIndex < run.head.uiMaxNum ∧
      (HasRoom 3 label.nodeAlloc run.head.hLBitmap uiIndex.toNat = false ∨
        label.address = none ∧ run.head.slots.table ≠ .array)

/-- When a call keeps the bounds and the count. -/
def NapLabel.Bounded (run : NapRun) (label : NapLabel) : Prop :=
  SeqApart run.head ∧
    match label.call with
    | .alloc => HasFree run.head label.nodeAlloc
    | .allocByIndex uiSpecIndex =>
      if uiSpecIndex = napInvalidId then HasFree run.head label.nodeAlloc
      else GivenBelow run.head uiSpecIndex
    | .allocByID ulSpecID =>
      if ulSpecID = napInvalidId then HasFree run.head label.nodeAlloc
      else Refused run label (napCacleIndexByID run.head ulSpecID)
    | .free _ => True
    | .getNodeByID _ => True

structure NapBounded (run : NapRun) : Prop where
  below : ∀ n ∈ run.live, n.uiIndex < run.head.uiMaxNum
  live : run.live.length ≤ run.head.uiMaxNum.toNat
  count : run.head.uiCount.toNat = run.live.length
  asked : ∀ i ∈ run.head.slots.asked, i < run.head.uiMaxNum

section Run

variable {run after : NapRun} {label : NapLabel}

theorem HasFree.handsOutBelow {alloc : NodeAlloc} (ok : NapOk run.head run.live)
    (free : HasFree run.head alloc) : HandsOutBelow run.head alloc := by
  obtain ⟨⟨i, less, clear⟩, room⟩ := free
  intro uiIndex handed
  have least := allocatesLeast_of_sound ok.flags room (show (0 : UINT) ≤ 0x7fffffff by decide)
  obtain ⟨_, rfl, -, before, -⟩ := least.least uiIndex handed
  apply lt_of_le_of_lt _ less
  apply Nat.le_of_not_lt
  exact fun above => clear (before i (zero_le _) above)

theorem Refused.givenBelow {uiIndex : UINT} (refused : Refused run label uiIndex) :
    GivenBelow run.head uiIndex :=
  refused.imp_right And.left

theorem NapLabel.Bounded.within (ok : NapOk run.head run.live) (bounded : label.Bounded run) :
    label.Within run := by
  obtain ⟨_, _, call⟩ := label
  obtain ⟨apart, holds⟩ := bounded
  refine ⟨apart, ?_⟩
  cases call with
  | alloc => exact HasFree.handsOutBelow ok holds
  | allocByIndex =>
    simp only at holds ⊢
    split
    · next unspecified => exact HasFree.handsOutBelow ok ((if_pos unspecified).mp holds)
    · next specified => exact (if_neg specified).mp holds
  | allocByID =>
    simp only at holds ⊢
    split
    · next unspecified => exact HasFree.handsOutBelow ok ((if_pos unspecified).mp holds)
    · next specified => exact ((if_neg specified).mp holds).givenBelow
  | free => trivial
  | getNodeByID => trivial

theorem pfAlloc_refused {slots : NapSlots} (other : slots.table ≠ .array) (uiIndex : UINT) :
    (slots.pfAlloc none uiIndex).2 = none := by
  unfold NapSlots.pfAlloc
  split
  · next isArray => exact absurd isArray other
  · rfl
  · rfl

theorem napAllocByID_refused {ulSpecID : UINT} (specified : ulSpecID ≠ napInvalidId)
    (refused : Refused run label (napCacleIndexByID run.head ulSpecID)) :
    (napAllocByID run.head label.nodeAlloc label.address ulSpecID).2 = none := by
  rw [napAllocByID, if_neg specified]
  simp only [napAllocSpecIndex]
  split
  · exact congrArg snd (if_pos rfl)
  next clear =>
  have missing := (refused.resolve_left clear).2
  split
  · next hLBitmap same =>
    have room := lbitmapSetIndexBit_ok_iff.mp (congrArg snd same)
    obtain ⟨noAddress, other⟩ := missing.resolve_left (by rw [room]; exact (by simp))
    split
    · rfl
    have noNode := @pfAlloc_refused run.head.slots other (napCacleIndexByID run.head ulSpecID)
    unfold napAllocNode
    simp only [noAddress]
    split
    · rfl
    next isNode =>
    rw [isNode] at noNode
    cases noNode
  · exact congrArg snd (if_pos rfl)

def Counted (run : NapRun) : Prop :=
  run.head.uiCount = BitVec.ofNat 32 run.live.length

theorem Counted.built {result : NapHead × Option NapNode} (counted : Counted run)
    (allocates : Allocates run.head run.live true result) : Counted (run.hold true result) := by
  cases allocates with
  | failed _ _ count => exact count.trans counted
  | @built after n _ _ count =>
    have next : after.uiCount = BitVec.ofNat 32 (n :: run.live).length := by
      rw [count, counted, length_cons, ofNat_add]
      rfl
    rw [NapRun.hold]
    split <;> exact next

theorem Counted.release {n : NapNode} (counted : Counted run) (inside : n ∈ run.live) :
    Counted (run.release n) := by
  have count : (run.release n).head.uiCount = run.head.uiCount - 1 := rfl
  have positive := length_pos_of_mem inside
  have whole := (Nat.sub_add_cancel positive).symm
  rw [Counted, count, counted]
  change _ = BitVec.ofNat 32 (run.live.erase n).length
  rw [length_erase_of_mem inside, whole, ofNat_add, Nat.add_sub_cancel]
  exact add_sub_cancel _ _

theorem Counted.next (counted : Counted run) (ok : NapOk run.head run.live)
    (bounded : label.Bounded run) (ready : label.Ready run) : Counted (label.run run) := by
  have within := bounded.within ok
  obtain ⟨nodeAlloc, address, call⟩ := label
  obtain ⟨apart, below⟩ := within
  cases call with
  | alloc => exact counted.built (ok.allocates apart below)
  | allocByIndex =>
    refine counted.built (ok.allocByIndex apart ?_ ?_)
    · exact fun unspecified => (if_pos unspecified).mp below
    · exact fun specified => (if_neg specified).mp below
  | allocByID ulSpecID =>
    by_cases unspecified : ulSpecID = napInvalidId
    · have same := beq_iff_eq.mpr unspecified
      rw [NapLabel.run]
      simp only [same, napAllocByID, if_pos unspecified]
      exact counted.built (ok.allocates apart ((if_pos unspecified).mp below))
    have refused := (if_neg unspecified).mp bounded.2
    have noNode := napAllocByID_refused unspecified refused
    have allocates := @NapOk.allocByID _ _ nodeAlloc address _ ok unspecified
      ((if_neg unspecified).mp below)
    rw [NapLabel.run]
    simp only
    generalize napAllocByID run.head nodeAlloc address ulSpecID = result at noNode allocates
    cases allocates with
    | failed _ _ count => exact count.trans counted
    | given => cases noNode
  | free pstNode => exact counted.release (ready pstNode rfl)
  | getNodeByID ulID =>
    obtain ⟨_, isHead, -⟩ := ok.lookup ulID
    rw [NapLabel.run]
    simp only [isHead]
    exact counted

end Run

theorem counted_started {needBits : UINT → Nat} {run : NapRun}
    (started : NapStarted needBits run) : Counted run := by
  obtain ⟨_, _, _, created, isCreated, either, live, -⟩ := started
  have zero : created.uiCount = 0 := by
    unfold napCreate at isCreated
    split at isCreated
    · cases isCreated
    · obtain ⟨_, -, rfl⟩ := Option.map_eq_some_iff.mp isCreated
      rfl
  rw [Counted, live]
  rcases either with same | ⟨seqArray, ulSeqMask, uiSeqCount, same⟩
  · rw [same, zero]
    rfl
  obtain ⟨_, enabled⟩ := napEnableSeq_head created seqArray ulSeqMask uiSeqCount
  rw [same, enabled, zero]
  rfl

theorem NapOk.length_le {head : NapHead} {live : List NapNode} (ok : NapOk head live) :
    live.length ≤ head.uiMaxNum.toNat := by
  have nodup : (live.map fun n => n.uiIndex.toNat).Nodup := by
    refine pairwise_map.mpr (ok.distinct.imp fun different same => different ?_)
    exact eq_of_toNat_eq same
  have inside : (live.map fun n => n.uiIndex.toNat) ⊆ range head.uiMaxNum.toNat := by
    intro i isIndex
    obtain ⟨n, isLive, rfl⟩ := mem_map.mp isIndex
    exact mem_range.mpr (ok.below n isLive)
  have bound := (subperm_of_subset nodup inside).length_le
  rwa [length_map, length_range] at bound

/-- Where a free index below the maximum is left for every node, and none is
allocated by its identifier, the pool stays within its bounds and counts its
nodes. -/
theorem nap_bounded {needBits : UINT → Nat} (needs : NeedBitsOk needBits) {run : NapRun}
    (reached : (nap needBits).ReachableWhen (fun run label => label.Bounded run) run) :
    NapBounded run := by
  have holds : NapOk run.head run.live ∧ Counted run := by
    apply reached.invariant
    · exact fun run started => ⟨.started needs started, counted_started started⟩
    · rintro _ _ _ ⟨ok, counted⟩ bounded ⟨ready, rfl⟩
      exact ⟨ok.next (bounded.within ok) ready, counted.next ok bounded ready⟩
  obtain ⟨ok, counted⟩ := holds
  refine ⟨ok.below, ok.length_le, ?_, ok.asked⟩
  have length := ok.length_le
  rw [counted]
  exact mod_eq_of_lt (by omega)

theorem nap_bounded_alloc : NapBounded ((napLabel .alloc).run napEight) := by
  have clear : ¬ LBitMapHas napEight.head.hLBitmap 0 := by decide +kernel
  have bounded : (napLabel .alloc).Bounded napEight :=
    ⟨fun _ => by decide +kernel, ⟨0, by decide, clear⟩, fun _ => rfl⟩
  have ready : (napLabel .alloc).Ready napEight := nofun
  have stepped : (nap bitsOf).step napEight (napLabel .alloc) ((napLabel .alloc).run napEight) :=
    ⟨ready, rfl⟩
  exact nap_bounded bitsOf_ok (.step (.start napEight_started) bounded stepped)

def napAllocs : Nat → NapRun
  | 0 => napEight
  | num + 1 => (napLabel .alloc).run (napAllocs num)

theorem napAllocs_reached (num : Nat) : (nap bitsOf).Reachable (napAllocs num) := by
  induction num with
  | zero => exact .start napEight_started
  | succ _ ih => exact napLabel_step ih nofun

/-- The ninth node of an array of eight lies behind its end. -/
theorem nap_bounded_beyond : ¬ ∀ run, (nap bitsOf).Reachable run → NapBounded run := by
  intro holds
  have beyond : (⟨8, 8⟩ : NapNode) ∈ (napAllocs 9).live := by decide +kernel
  have below := (holds _ (napAllocs_reached 9)).below _ beyond
  exact absurd below (by decide +kernel)

end MyCode.Nap
