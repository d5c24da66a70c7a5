import MyCode.Nap.Invariant

/-!
# What the calls of a pool do

Each call keeps the invariant as long as the indices that are handed out are
below the maximum of the pool.
-/

namespace MyCode.Nap

open LBitMap Hash Function List BitVec Bool Prod

variable {head after : NapHead} {live : List NapNode} {alloc : NodeAlloc} {address : Option Nat}
  {uiIndex : UINT} {n : NapNode} {uiSpecIndex : UINT} {marked : NapHead}

/-- The bitmap may have new nodes, but stands for the same indices. -/
structure Unmarked (before after : NapHead) : Prop where
  others : after = { before with hLBitmap := after.hLBitmap }
  flags : FlagsSound 3 after.hLBitmap
  bits : ∀ i, LBitMapHas after.hLBitmap i ↔ LBitMapHas before.hLBitmap i

structure Marked (before after : NapHead) (uiIndex : UINT) : Prop where
  others : after = { before with hLBitmap := after.hLBitmap }
  flags : FlagsSound 3 after.hLBitmap
  clear : ¬ LBitMapHas before.hLBitmap uiIndex
  bits : ∀ i, LBitMapHas after.hLBitmap i ↔ i = uiIndex ∨ LBitMapHas before.hLBitmap i

theorem napAllocIndex_cases (flags : FlagsSound 3 head.hLBitmap)
    (got : napAllocIndex head alloc = (after, uiIndex)) :
    uiIndex = napInvalidIndex ∧ Unmarked head after ∨
      uiIndex ≠ napInvalidIndex ∧ Marked head after uiIndex ∧
        (lBitMapAllocByRange alloc head.hLBitmap 0 0x7fffffff).2 = .ok uiIndex.toNat := by
  have attempted := @attempted_get 3 alloc head.hLBitmap 0 0x7fffffff (by decide) (by decide)
  have flagsAfter := @FlagsSound.get 3 alloc head.hLBitmap 0 0x7fffffff flags (by decide)
    (by decide)
  rw [napAllocIndex, lBitMapAllocByRange] at got
  rw [lBitMapAllocByRange]
  split at got
  · next hLBitmap i same =>
    rw [same] at attempted flagsAfter ⊢
    have upper := attempted.upper
    have value : (BitVec.ofNat 32 i).toNat = i := Nat.mod_eq_of_lt (by omega)
    cases got
    refine Or.inr ⟨fun invalid => ?_, ⟨rfl, flagsAfter, ?_, fun j => ?_⟩, by rw [value]⟩
    · rw [invalid] at value
      have large : napInvalidIndex.toNat = 0xffffffff := rfl
      omega
    · rw [LBitMapHas, value, attempted.clear]
      exact false_ne_true
    have same : j.toNat = i ↔ j = BitVec.ofNat 32 i := by
      rw [← toNat_inj, value]
    rw [LBitMapHas, attempted.set _ (toNat_lt_unit j), or_eq_true, decide_eq_true_iff, same]
    rfl
  · next hLBitmap eRet same =>
    rw [same] at attempted flagsAfter
    cases got
    exact Or.inl ⟨rfl, rfl, flagsAfter, fun j => by rw [LBitMapHas, LBitMapHas, attempted]⟩

theorem napAllocSpecIndex_cases (flags : FlagsSound 3 head.hLBitmap)
    (proper : LBitMapHas head.hLBitmap uiSpecIndex ∨ uiSpecIndex ≠ napInvalidIndex)
    (got : napAllocSpecIndex head alloc uiSpecIndex = (after, uiIndex)) :
    uiIndex = napInvalidIndex ∧ Unmarked head after ∨
      uiIndex = uiSpecIndex ∧ uiIndex ≠ napInvalidIndex ∧ Marked head after uiIndex := by
  have low := toNat_lt_unit uiSpecIndex
  have flagsAfter := @FlagsSound.setIndexBit 3 _ alloc head.hLBitmap flags low
  unfold napAllocSpecIndex at got
  split at got
  · cases got
    exact Or.inl ⟨rfl, rfl, flags, fun _ => Iff.rfl⟩
  next clear =>
  have valid := proper.resolve_left clear
  rw [lBitMapSetBit] at got
  split at got
  · next hLBitmap same =>
    have ok := congrArg snd same
    have room := lbitmapSetIndexBit_ok_iff.mp ok
    rw [same] at flagsAfter
    cases got
    refine Or.inr ⟨rfl, valid, rfl, flagsAfter, clear, fun j => ?_⟩
    have bits := lBitMapIsBitSetted_setIndexBit low (toNat_lt_unit j) room
    rw [same] at bits
    rw [LBitMapHas, bits, or_eq_true, decide_eq_true_iff, toNat_inj]
    rfl
  next hLBitmap eRet failed same =>
  have notOk : (lbitmapSetIndexBit 3 alloc head.hLBitmap uiSpecIndex.toNat).2 ≠ .ok := by
    intro ok
    exact failed ((congrArg snd same).symm.trans ok)
  have bits := lBitMapIsBitSetted_setIndexBit_of_failed notOk
  rw [same] at flagsAfter bits
  cases got
  exact Or.inl ⟨rfl, rfl, flagsAfter, fun j => by rw [LBitMapHas, LBitMapHas, bits]⟩

theorem NapOk.unmarked (ok : NapOk head live) (unmarked : Unmarked head after) :
    NapOk after live := by
  obtain ⟨others, flags, bits⟩ := unmarked
  rw [others]
  exact { ok with
    mask := ⟨ok.mask.small, ok.mask.masked, ok.mask.low⟩
    flags := flags
    bits := fun i => (bits i).trans (ok.bits i) }

/-- What an allocating call leaves; `isBuilt` says whether the identifier of the
node is built or given. -/
inductive Allocates (head : NapHead) (live : List NapNode) :
    Bool → NapHead × Option NapNode → Prop where
  | failed {isBuilt : Bool} {after : NapHead} (ok : NapOk after live)
      (mask : after.ulIndexMask = head.ulIndexMask) (count : after.uiCount = head.uiCount)
      (ids : after.ulID = head.ulID) (seq : after.stSeqOpt = head.stSeqOpt) :
      Allocates head live isBuilt (after, none)
  | built {after : NapHead} {n : NapNode} (ok : NapOk after (n :: live))
      (mask : after.ulIndexMask = head.ulIndexMask) (count : after.uiCount = head.uiCount + 1)
      (ids : after.ulID = update head.ulID n (napCacleIDByIndex head n.uiIndex).2)
      (seq : after.stSeqOpt = (napCacleIDByIndex head n.uiIndex).1.stSeqOpt) :
      Allocates head live true (after, some n)
  | given {after : NapHead} {n : NapNode} {ulID : UINT} (ok : NapOk after (n :: live))
      (mask : after.ulIndexMask = head.ulIndexMask) (count : after.uiCount = head.uiCount)
      (ids : after.ulID = update head.ulID n ulID)
      (seq : after.stSeqOpt = head.stSeqOpt) :
      Allocates head live false (after, some n)

section Marked

variable {hLBitmap : LBitMapCtrl} {slots : NapSlots} (ok : NapOk head live)
  (flags : FlagsSound 3 hLBitmap) (clear : ¬ LBitMapHas head.hLBitmap uiIndex)
  (bits : ∀ i, LBitMapHas hLBitmap i ↔ i = uiIndex ∨ LBitMapHas head.hLBitmap i)

theorem lBitMapHas_clrBit (hLBitmap : LBitMapCtrl) (uiIndex i : UINT) :
    LBitMapHas (lBitMapClrBit hLBitmap uiIndex.toNat) i ↔ i ≠ uiIndex ∧ LBitMapHas hLBitmap i := by
  rw [LBitMapHas, lBitMapClrBit, lBitMapIsBitSetted_clearBit (toNat_lt_unit _) (toNat_lt_unit _),
    and_eq_true, not_eq_true', decide_eq_false_iff_not, toNat_inj]
  rfl

include ok clear

theorem NapOk.absent (m : NapNode) (inside : m ∈ live) : m.uiIndex ≠ uiIndex :=
  fun same => clear ((ok.bits uiIndex).mpr ⟨m, inside, same⟩)

include flags bits

theorem NapOk.returned (table : TableOk live slots.table)
    (asked : ∀ i ∈ slots.asked, i < head.uiMaxNum) :
    NapOk { head with
      hLBitmap := lBitMapClrBit hLBitmap uiIndex.toNat
      slots := slots } live :=
  { ok with
    mask := ⟨ok.mask.small, ok.mask.masked, ok.mask.low⟩
    flags := flags.clearBit _
    bits := by
      intro i
      rw [← ok.bits i, lBitMapHas_clrBit, bits i]
      constructor
      · exact fun ⟨other, either⟩ => either.resolve_left other
      · intro has
        exact ⟨fun same => clear (same ▸ has), Or.inr has⟩
    table := table
    asked := asked }

theorem NapOk.added {stSeqOpt : NapSeqOpt} {ulID : UINT} (isIndex : n.uiIndex = uiIndex)
    (below : uiIndex < head.uiMaxNum) (index : ulID &&& head.ulIndexMask = uiIndex)
    (valid : ulID ≠ napInvalidId) (table : TableOk (n :: live) slots.table)
    (asked : ∀ i ∈ slots.asked, i < head.uiMaxNum) :
    NapOk { head with
      hLBitmap := hLBitmap
      slots := slots
      stSeqOpt := stSeqOpt
      ulID := update head.ulID n ulID } (n :: live) := by
  have absent := ok.absent clear
  have other (m : NapNode) (inside : m ∈ live) : m ≠ n :=
    fun same => absent m inside (same ▸ isIndex)
  exact {
    mask := ⟨ok.mask.small, ok.mask.masked, ok.mask.low⟩
    flags := flags
    bits := by
      intro i
      rw [bits i, ok.bits i, exists_mem_cons_iff, isIndex, eq_comm]
    distinct := pairwise_cons.mpr
      ⟨fun m inside same => absent m inside (same.symm.trans isIndex), ok.distinct⟩
    below := by
      intro m inside
      rcases mem_cons.mp inside with rfl | old
      · exact isIndex ▸ below
      · exact ok.below m old
    index := by
      intro m inside
      rcases mem_cons.mp inside with rfl | old
      · simp only [update_self]
        exact index.trans isIndex.symm
      · simp only [update_of_ne (other m old)]
        exact ok.index m old
    valid := by
      intro m inside
      rcases mem_cons.mp inside with rfl | old
      · simp only [update_self]
        exact valid
      · simp only [update_of_ne (other m old)]
        exact ok.valid m old
    table := table
    asked := asked }

end Marked

theorem NapOk.counted (ok : NapOk head live) (uiCount : UINT) :
    NapOk { head with uiCount := uiCount } live :=
  { ok with mask := ⟨ok.mask.small, ok.mask.masked, ok.mask.low⟩ }

theorem NapOk.allocNode {marked : NapHead} {id : NapHead → NapHead × UINT} {ulID : UINT}
    {stSeqOpt : NapSeqOpt} (ok : NapOk head live) (isMarked : Marked head marked uiIndex)
    (below : uiIndex < head.uiMaxNum)
    (idOf : ∀ slots, id { marked with slots := slots } =
      ({ marked with slots := slots, stSeqOpt := stSeqOpt }, ulID))
    (index : ulID &&& head.ulIndexMask = uiIndex) (valid : ulID ≠ napInvalidId) :
    (∃ after, napAllocNode marked address uiIndex id = (after, none) ∧ NapOk after live ∧
        after.ulIndexMask = head.ulIndexMask ∧ after.uiCount = head.uiCount ∧
        after.ulID = head.ulID ∧ after.stSeqOpt = head.stSeqOpt) ∨
      ∃ after n, napAllocNode marked address uiIndex id = (after, some n) ∧ n.uiIndex = uiIndex ∧
        NapOk after (n :: live) ∧ after.ulIndexMask = head.ulIndexMask ∧
        after.uiCount = head.uiCount ∧ after.ulID = update head.ulID n ulID ∧ after.stSeqOpt = stSeqOpt := by
  obtain ⟨others, flags, clear, bits⟩ := isMarked
  have absent := ok.absent clear
  generalize marked.hLBitmap = hLBitmap at others flags bits
  subst others
  have asked (i : UINT) (inside : i ∈ uiIndex :: head.slots.asked) : i < head.uiMaxNum := by
    rcases mem_cons.mp inside with rfl | old
    · exact below
    · exact ok.asked i old
  have askedAfter := pfAlloc_asked head.slots address uiIndex
  unfold napAllocNode
  cases got : head.slots.pfAlloc address uiIndex with
  | mk slots found =>
    rw [got] at askedAfter
    have slotsAsked := askedAfter ▸ asked
    cases found with
    | none =>
      exact Or.inl ⟨_, rfl, ok.returned flags clear bits (ok.table.allocFailed absent got)
        slotsAsked, rfl, rfl, rfl, rfl⟩
    | some n =>
      have isIndex := pfAlloc_index got
      have added := @NapOk.added _ _ _ n _ slots ok flags clear bits stSeqOpt ulID isIndex below
        index valid (ok.table.alloc absent got) slotsAsked
      simp only [idOf]
      exact Or.inr ⟨_, n, rfl, isIndex, added, rfl, rfl, rfl, rfl⟩

theorem napCacleIDByIndex_of_marked (others : marked = { head with hLBitmap := marked.hLBitmap })
    (slots : NapSlots) :
    napCacleIDByIndex { marked with slots := slots } uiIndex =
      ({ marked with
        slots := slots
        stSeqOpt := (napCacleIDByIndex head uiIndex).1.stSeqOpt },
        (napCacleIDByIndex head uiIndex).2) := by
  generalize marked.hLBitmap = hLBitmap at others
  subst others
  unfold napCacleIDByIndex
  simp only
  split <;> rfl

theorem NapOk.allocBuilt (ok : NapOk head live) (apart : SeqApart head)
    (isMarked : Marked head marked uiIndex) (below : uiIndex < head.uiMaxNum) :
    Allocates head live true (napCountNode (napAllocNode marked address uiIndex fun pstCommonHead =>
      napCacleIDByIndex pstCommonHead uiIndex)) := by
  obtain ⟨index, valid⟩ := napCacleIDByIndex_index ok.mask apart below
  have node := @NapOk.allocNode head live address uiIndex marked
    (fun pstCommonHead => napCacleIDByIndex pstCommonHead uiIndex) _ _ ok isMarked below
    (napCacleIDByIndex_of_marked isMarked.others) index valid
  rcases node with ⟨_, got, okAfter, mask, count, ids, seq⟩ |
    ⟨_, _, got, isIndex, okAfter, mask, count, ids, seq⟩
  · rw [got]
    exact .failed okAfter mask count ids seq
  rw [got]
  subst isIndex
  exact .built (okAfter.counted _) mask (congrArg (· + 1) count) ids seq

/-- The index that the bitmap hands out next is below the maximum. -/
def HandsOutBelow (head : NapHead) (alloc : NodeAlloc) : Prop :=
  ∀ uiIndex, (lBitMapAllocByRange alloc head.hLBitmap 0 0x7fffffff).2 = .ok uiIndex →
    uiIndex < head.uiMaxNum.toNat

theorem NapOk.allocates (ok : NapOk head live) (apart : SeqApart head)
    (below : HandsOutBelow head alloc) : Allocates head live true (napAlloc head alloc address) := by
  unfold napAlloc
  cases got : napAllocIndex head alloc with
  | mk =>
    simp only
    rcases napAllocIndex_cases ok.flags got with ⟨invalid, unmarked⟩ | ⟨valid, isMarked, handed⟩
    · rw [if_pos invalid]
      have others := unmarked.others
      refine .failed (ok.unmarked unmarked) ?_ ?_ ?_ ?_ <;> rw [others]
    · rw [if_neg valid]
      exact ok.allocBuilt apart isMarked (below _ handed)

/-- An index that is given by the caller is in use or below the maximum. -/
def GivenBelow (head : NapHead) (uiIndex : UINT) : Prop :=
  LBitMapHas head.hLBitmap uiIndex ∨ uiIndex < head.uiMaxNum

theorem NapOk.allocSpecIndex (ok : NapOk head live) (below : GivenBelow head uiSpecIndex)
    (got : napAllocSpecIndex head alloc uiSpecIndex = (marked, uiIndex)) :
    uiIndex = napInvalidIndex ∧ (∀ isBuilt, Allocates head live isBuilt (marked, none)) ∨
      uiIndex = uiSpecIndex ∧ uiIndex ≠ napInvalidIndex ∧ Marked head marked uiIndex ∧
        uiIndex < head.uiMaxNum := by
  have proper : LBitMapHas head.hLBitmap uiSpecIndex ∨ uiSpecIndex ≠ napInvalidIndex := by
    refine below.imp_right ?_
    rintro less rfl
    have value : napInvalidIndex.toNat = 0xffffffff := rfl
    rw [lt_def, value] at less
    omega
  rcases napAllocSpecIndex_cases ok.flags proper got with ⟨invalid, unmarked⟩ | ⟨rfl, valid, isMarked⟩
  · have others := unmarked.others
    refine Or.inl ⟨invalid, fun _ => .failed (ok.unmarked unmarked) ?_ ?_ ?_ ?_⟩ <;> rw [others]
  · exact Or.inr ⟨rfl, valid, isMarked, below.resolve_left isMarked.clear⟩

theorem NapOk.allocByIndex (ok : NapOk head live) (apart : SeqApart head)
    (handed : uiSpecIndex = napInvalidId → HandsOutBelow head alloc)
    (below : uiSpecIndex ≠ napInvalidId → GivenBelow head uiSpecIndex) :
    Allocates head live true (napAllocByIndex head alloc address uiSpecIndex) := by
  unfold napAllocByIndex
  split
  · next unspecified => exact ok.allocates apart (handed unspecified)
  next specified =>
  cases got : napAllocSpecIndex head alloc uiSpecIndex with
  | mk =>
    simp only
    rcases ok.allocSpecIndex (below specified) got with
      ⟨invalid, failed⟩ | ⟨-, valid, isMarked, less⟩
    · rw [if_pos invalid]
      exact failed _
    · rw [if_neg valid]
      exact ok.allocBuilt apart isMarked less

theorem NapOk.allocByID {ulSpecID : UINT} (ok : NapOk head live)
    (specified : ulSpecID ≠ napInvalidId)
    (below : GivenBelow head (napCacleIndexByID head ulSpecID)) :
    Allocates head live false (napAllocByID head alloc address ulSpecID) := by
  unfold napAllocByID
  rw [if_neg specified]
  simp only
  cases got : napAllocSpecIndex head alloc (napCacleIndexByID head ulSpecID) with
  | mk marked uiIndex =>
    rcases ok.allocSpecIndex below got with ⟨invalid, failed⟩ | ⟨isSpec, valid, isMarked, less⟩
    · rw [if_pos invalid]
      exact failed _
    rw [if_neg valid]
    have idOf (slots : NapSlots) : ({ marked with slots := slots }, ulSpecID) =
        (({ marked with slots := slots, stSeqOpt := head.stSeqOpt } : NapHead), ulSpecID) := by
      rw [isMarked.others]
    rcases @NapOk.allocNode head live address uiIndex marked
        (fun pstCommonHead => (pstCommonHead, ulSpecID)) _ _ ok isMarked less idOf isSpec.symm
        specified with
      ⟨_, same, okAfter, mask, count, ids, seq⟩ |
        ⟨_, _, same, -, okAfter, mask, count, ids, seq⟩
    · rw [same]
      exact .failed okAfter mask count ids seq
    · rw [same]
      exact .given okAfter mask count ids seq

theorem Slotted.bits_erase (slotted : Slotted head live) (inside : n ∈ live) (i : UINT) :
    LBitMapHas (lBitMapClrBit head.hLBitmap n.uiIndex.toNat) i ↔
      ∃ m ∈ live.erase n, m.uiIndex = i := by
  have nodup : live.Nodup := slotted.distinct.imp fun different same => different (by rw [same])
  have kept (m : NapNode) : m ∈ live.erase n ↔ m ≠ n ∧ m ∈ live := nodup.mem_erase_iff
  rw [lBitMapHas_clrBit, slotted.bits i]
  constructor
  · rintro ⟨other, m, old, rfl⟩
    exact ⟨m, (kept m).mpr ⟨fun same => other (by rw [same]), old⟩, rfl⟩
  rintro ⟨m, inRest, rfl⟩
  obtain ⟨other, old⟩ := (kept m).mp inRest
  exact ⟨fun same => other (slotted.eq_of_index old inside same), m, old, rfl⟩

theorem Slotted.free_eq (slotted : Slotted head live) (inside : n ∈ live) :
    napFree head n = { head with
      hLBitmap := lBitMapClrBit head.hLBitmap n.uiIndex.toNat
      slots := head.slots.pfFree n n.uiIndex
      uiCount := head.uiCount - 1 } := by
  rw [napFree, slotted.index n inside]
  rfl

theorem NapOk.free (ok : NapOk head live) (inside : n ∈ live) :
    NapOk (napFree head n) (live.erase n) := by
  rw [ok.slotted.free_eq inside]
  exact {
    mask := ⟨ok.mask.small, ok.mask.masked, ok.mask.low⟩
    flags := ok.flags.clearBit _
    bits := ok.slotted.bits_erase inside
    distinct := ok.distinct.sublist erase_sublist
    below := fun m inRest => ok.below m (mem_of_mem_erase inRest)
    index := fun m inRest => ok.index m (mem_of_mem_erase inRest)
    valid := fun m inRest => ok.valid m (mem_of_mem_erase inRest)
    table := ok.table.free ok.distinct inside
    asked := by
      intro i wasAsked
      rw [pfFree_asked] at wasAsked
      rcases mem_cons.mp wasAsked with rfl | old
      · exact ok.below n inside
      · exact ok.asked i old }

theorem NapOk.lookup (ok : NapOk head live) (ulID : UINT) :
    ∃ asked, (napGetNodeByID head ulID).1 =
        { head with slots := ⟨head.slots.table, asked⟩ } ∧
      NapOk { head with slots := ⟨head.slots.table, asked⟩ } live := by
  have askedOk {asked : List UINT} (below : ∀ i ∈ asked, i < head.uiMaxNum) :
      NapOk { head with slots := ⟨head.slots.table, asked⟩ } live :=
    { ok with
      mask := ⟨ok.mask.small, ok.mask.masked, ok.mask.low⟩
      asked := below }
  unfold napGetNodeByID
  split
  · exact ⟨head.slots.asked, rfl, askedOk ok.asked⟩
  simp only
  split
  · exact ⟨head.slots.asked, rfl, askedOk ok.asked⟩
  next setted =>
  rw [not_eq_true', not_eq_false] at setted
  obtain ⟨m, inside, index⟩ := (ok.bits _).mp setted
  have below : ∀ i ∈ napCacleIndexByID head ulID :: head.slots.asked, i < head.uiMaxNum := by
    intro i wasAsked
    rcases mem_cons.mp wasAsked with rfl | old
    · exact index ▸ ok.below m inside
    · exact ok.asked i old
  split
  · next same =>
    obtain ⟨rfl, -⟩ := mk.inj same
    exact ⟨_, rfl, askedOk below⟩
  · next same =>
    obtain ⟨rfl, -⟩ := mk.inj same
    exact ⟨_, rfl, askedOk below⟩

end MyCode.Nap
