import MyCode.LBitMap.Busy
import MyCode.Nap.Identity

/-!
# Allocating a given index, and the indices in turn

`NAP_AllocByIndex` takes index 0 for the invalid identifier, and allocates any index then.
`NAP_GetNextIndex` starts and ends with the invalid index; `SES_Walk` expects 0 at both ends.
-/

namespace MyCode.Nap

open LBitMap Hash Lib

structure PoolSound (head : NapHead) : Prop where
  flags : FlagsSound 3 head.hLBitmap
  small : head.uiMaxNum ≤ 0x7fffffff

variable {head : NapHead} {nodeAlloc : NodeAlloc} {uiIndex : UINT} {needBits : UINT → Nat}
  {run : NapRun}

section

variable (sound : PoolSound head)

include sound

theorem PoolSound.withSlots (slots : NapSlots) :
    PoolSound { head with slots := slots } :=
  ⟨sound.flags, sound.small⟩

theorem PoolSound.freeIndex (uiIndex : UINT) : PoolSound (napFreeIndex head uiIndex) :=
  ⟨sound.flags.clearBit _, sound.small⟩

theorem PoolSound.allocIndex (alloc : NodeAlloc) : PoolSound (napAllocIndex head alloc).1 := by
  have flags := @FlagsSound.get 3 alloc head.hLBitmap 0 0x7fffffff sound.flags (by decide)
    (by decide)
  rw [napAllocIndex, lBitMapAllocByRange]
  split
  · next same =>
    rw [same] at flags
    exact ⟨flags, sound.small⟩
  · next same =>
    rw [same] at flags
    exact ⟨flags, sound.small⟩

theorem PoolSound.allocSpecIndex (alloc : NodeAlloc) (uiIndex : UINT) :
    PoolSound (napAllocSpecIndex head alloc uiIndex).1 := by
  have flags := @FlagsSound.setIndexBit 3 _ alloc head.hLBitmap sound.flags (toNat_lt_unit uiIndex)
  rw [napAllocSpecIndex, lBitMapSetBit]
  split
  · exact sound
  split
  · next same =>
    rw [same] at flags
    exact ⟨flags, sound.small⟩
  · next same =>
    rw [same] at flags
    exact ⟨flags, sound.small⟩

theorem PoolSound.cacleID (uiIndex : UINT) : PoolSound (napCacleIDByIndex head uiIndex).1 := by
  unfold napCacleIDByIndex
  simp only
  split <;> exact ⟨sound.flags, sound.small⟩

theorem PoolSound.allocNode (address : Option Nat) (uiIndex : UINT) {id : NapHead → NapHead × UINT}
    (keeps : ∀ slots, PoolSound (id { head with slots := slots }).1) :
    PoolSound (napAllocNode head address uiIndex id).1 := by
  unfold napAllocNode
  split
  · next slots _ => exact (sound.withSlots slots).freeIndex uiIndex
  next slots _ _ =>
  have kept := keeps slots
  exact ⟨kept.flags, kept.small⟩

end

theorem PoolSound.countNode {result : NapHead × Option NapNode} (sound : PoolSound result.1) :
    PoolSound (napCountNode result).1 := by
  obtain ⟨_, found⟩ := result
  cases found <;> exact ⟨sound.flags, sound.small⟩

section

variable (sound : PoolSound head)

include sound

theorem PoolSound.alloc (alloc : NodeAlloc) (address : Option Nat) :
    PoolSound (napAlloc head alloc address).1 := by
  have marked := sound.allocIndex alloc
  unfold napAlloc
  generalize napAllocIndex head alloc = result at marked
  obtain ⟨_, uiIndex⟩ := result
  simp only at marked ⊢
  split
  · exact marked
  · exact (marked.allocNode address uiIndex fun slots =>
      (marked.withSlots slots).cacleID uiIndex).countNode

theorem PoolSound.allocByIndex (alloc : NodeAlloc) (address : Option Nat) (uiSpecIndex : UINT) :
    PoolSound (napAllocByIndex head alloc address uiSpecIndex).1 := by
  have marked := sound.allocSpecIndex alloc uiSpecIndex
  unfold napAllocByIndex
  generalize napAllocSpecIndex head alloc uiSpecIndex = result at marked
  obtain ⟨_, uiIndex⟩ := result
  simp only at marked ⊢
  split
  · exact sound.alloc alloc address
  split
  · exact marked
  · exact (marked.allocNode address uiIndex fun slots =>
      (marked.withSlots slots).cacleID uiIndex).countNode

theorem PoolSound.allocByID (alloc : NodeAlloc) (address : Option Nat) (ulSpecID : UINT) :
    PoolSound (napAllocByID head alloc address ulSpecID).1 := by
  have marked := sound.allocSpecIndex alloc (napCacleIndexByID head ulSpecID)
  unfold napAllocByID
  generalize napCacleIndexByID head ulSpecID = uiSpecIndex at marked
  simp only
  generalize napAllocSpecIndex head alloc uiSpecIndex = result at marked
  obtain ⟨_, uiIndex⟩ := result
  split
  · exact sound.alloc alloc address
  split
  · exact marked
  · exact marked.allocNode address uiIndex marked.withSlots

theorem PoolSound.free (pstNode : NapNode) : PoolSound (napFree head pstNode) := by
  exact ⟨sound.flags.clearBit _, sound.small⟩

theorem PoolSound.getNodeByID (ulID : UINT) : PoolSound (napGetNodeByID head ulID).1 := by
  unfold napGetNodeByID
  split
  · exact sound
  simp only
  split
  · exact sound
  split <;> exact ⟨sound.flags, sound.small⟩

end

theorem PoolSound.hold {isBuilt : Bool} {result : NapHead × Option NapNode}
    (sound : PoolSound result.1) : PoolSound (run.hold isBuilt result).head := by
  obtain ⟨_, found⟩ := result
  cases found with
  | none => exact sound
  | some =>
    rw [NapRun.hold]
    split <;> exact sound

theorem PoolSound.next (sound : PoolSound run.head) (label : NapLabel) :
    PoolSound (label.run run).head := by
  obtain ⟨nodeAlloc, address, call⟩ := label
  cases call with
  | alloc => exact (sound.alloc nodeAlloc address).hold
  | allocByIndex uiSpecIndex => exact (sound.allocByIndex nodeAlloc address uiSpecIndex).hold
  | allocByID ulSpecID => exact (sound.allocByID nodeAlloc address ulSpecID).hold
  | free pstNode => exact sound.free pstNode
  | getNodeByID ulID => exact sound.getNodeByID ulID

theorem poolSound_of_reachable (needs : NeedBitsOk needBits)
    (reached : (nap needBits).Reachable run) : PoolSound run.head := by
  apply reached.invariant
  · intro run started
    have ok := NapOk.started needs started
    exact ⟨ok.flags, ok.mask.small⟩
  · rintro _ label _ sound ⟨-, rfl⟩
    exact sound.next label

/-- The index that is free is allocated, where there is memory; an index in use is refused and
nothing changes. -/
structure AllocatesExactly (head : NapHead) (uiIndex : UINT) : Prop where
  free : ¬LBitMapHas head.hLBitmap uiIndex → ∀ alloc address, (∀ path, alloc path = true) →
    ∃ after n, napAllocByIndex head alloc (some address) uiIndex = (after, some n) ∧
      n.uiIndex = uiIndex
  inUse : LBitMapHas head.hLBitmap uiIndex → ∀ alloc address,
    ∃ after, napAllocByIndex head alloc address uiIndex = (after, none) ∧ Unmarked head after

theorem napAllocNode_some (head : NapHead) (address : Nat) (uiIndex : UINT)
    (id : NapHead → NapHead × UINT) :
    ∃ after n, napCountNode (napAllocNode head (some address) uiIndex id) = (after, some n) ∧
      n.uiIndex = uiIndex := by
  cases got : head.slots.pfAlloc (some address) uiIndex with
  | mk _ found =>
    cases found with
    | none =>
      unfold NapSlots.pfAlloc at got
      split at got <;> cases got
    | some n =>
      have isIndex := pfAlloc_index got
      rw [napAllocNode, got]
      exact ⟨_, n, rfl, isIndex⟩

theorem lBitMapSetBit_ok (hLBitmap : LBitMapCtrl) (uiIndex : UINT)
    (room : ∀ path, nodeAlloc path = true) :
    (lBitMapSetBit nodeAlloc hLBitmap uiIndex.toNat).2 = .ok := by
  rw [lBitMapSetBit, lbitmapSetIndexBit_ok_iff]
  exact hasRoom_of_alloc room

theorem napAllocSpecIndex_inUse (nodeAlloc : NodeAlloc) (inUse : LBitMapHas head.hLBitmap uiIndex) :
    napAllocSpecIndex head nodeAlloc uiIndex = (head, napInvalidIndex) :=
  if_pos inUse

theorem napAllocSpecIndex_free (free : ¬LBitMapHas head.hLBitmap uiIndex)
    (room : ∀ path, nodeAlloc path = true) :
    ∃ hLBitmap, napAllocSpecIndex head nodeAlloc uiIndex =
      ({ head with hLBitmap := hLBitmap }, uiIndex) := by
  have isOk := lBitMapSetBit_ok head.hLBitmap uiIndex room
  refine ⟨(lBitMapSetBit nodeAlloc head.hLBitmap uiIndex.toNat).1, ?_⟩
  have clear : ¬napIsIndexSetted head uiIndex = true := free
  unfold napAllocSpecIndex
  rw [if_neg clear]
  split
  · next same => rw [same]
  next failed same =>
  rw [same] at isOk
  exact absurd isOk failed

theorem allocatesExactly_of_ne (sound : PoolSound head) (below : uiIndex < head.uiMaxNum)
    (specified : uiIndex ≠ napInvalidId) : AllocatesExactly head uiIndex := by
  have valid : uiIndex ≠ napInvalidIndex := by
    rintro rfl
    rw [napInvalidIndex] at below
    bv_omega
  constructor
  · intro free nodeAlloc address room
    obtain ⟨_, isMarked⟩ := napAllocSpecIndex_free free room
    unfold napAllocByIndex
    rw [if_neg specified, isMarked]
    simp only
    rw [if_neg valid]
    exact napAllocNode_some _ address uiIndex _
  · intro inUse nodeAlloc address
    unfold napAllocByIndex
    rw [if_neg specified, napAllocSpecIndex_inUse nodeAlloc inUse]
    exact ⟨head, if_pos rfl, rfl, sound.flags, fun _ => Iff.rfl⟩

/-- What `NAP_Alloc` does in place of an allocation of index 0. -/
theorem napAllocByIndex_zero (head : NapHead) (nodeAlloc : NodeAlloc) (address : Option Nat) :
    napAllocByIndex head nodeAlloc address 0 = napAlloc head nodeAlloc address :=
  if_pos rfl

theorem napAlloc_least (sound : PoolSound head) (room : ∀ path, nodeAlloc path = true)
    (free : ∃ i ≤ (0x7fffffff : UINT), ¬LBitMapHas head.hLBitmap i) (address : Nat) :
    ∃ after n, napAlloc head nodeAlloc (some address) = (after, some n) ∧
      ∀ i, ¬LBitMapHas head.hLBitmap i → ¬i < n.uiIndex := by
  obtain ⟨i, low, clear⟩ := free
  have least := allocatesLeast_of_sound sound.flags room (show (0 : UINT) ≤ 0x7fffffff by decide)
  obtain ⟨uiBitIndex, isOk⟩ := least.succeeds.mpr ⟨i, ⟨Nat.zero_le _, low⟩, clear⟩
  obtain ⟨b, rfl, ⟨⟨-, upper⟩, -⟩, before, -⟩ := least.least uiBitIndex isOk
  have valid : b ≠ napInvalidIndex := by
    rintro rfl
    exact absurd upper (by decide)
  obtain ⟨marked, isMarked⟩ : ∃ marked, napAllocIndex head nodeAlloc = (marked, b) := by
    unfold napAllocIndex
    change (lBitMapAllocByRange nodeAlloc head.hLBitmap 0 0x7fffffff).2 = .ok b.toNat at isOk
    generalize lBitMapAllocByRange nodeAlloc head.hLBitmap 0 0x7fffffff = result at isOk
    obtain ⟨hLBitmap, result⟩ := result
    subst isOk
    refine ⟨{ head with hLBitmap := hLBitmap }, ?_⟩
    simp
  obtain ⟨after, n, isNode, isIndex⟩ := napAllocNode_some marked address b
    fun pstCommonHead => napCacleIDByIndex pstCommonHead b
  refine ⟨after, n, ?_, fun i clear below => ?_⟩
  · unfold napAlloc
    rw [isMarked]
    simp only
    rw [if_neg valid]
    exact isNode
  · exact clear (before i (Nat.zero_le _) (isIndex ▸ below))

theorem napAlloc_full (sound : PoolSound head)
    (full : ∀ i ≤ (0x7fffffff : UINT), LBitMapHas head.hLBitmap i) (nodeAlloc : NodeAlloc)
    (address : Option Nat) :
    ∃ after, napAlloc head nodeAlloc address = (after, none) ∧ Unmarked head after := by
  have attempted := @attempted_get 3 nodeAlloc head.hLBitmap 0 0x7fffffff (by decide) (by decide)
  cases got : napAllocIndex head nodeAlloc with
  | mk marked uiIndex =>
    unfold napAlloc
    rw [got]
    simp only
    rcases napAllocIndex_cases sound.flags got with ⟨invalid, unmarked⟩ | ⟨-, isMarked, handed⟩
    · rw [if_pos invalid]
      exact ⟨marked, rfl, unmarked⟩
    rw [lBitMapAllocByRange] at handed
    generalize lbitmapGet 3 nodeAlloc head.hLBitmap 0 0x7fffffff = result at attempted handed
    obtain ⟨_, result⟩ := result
    subst handed
    exact absurd (full uiIndex attempted.upper) isMarked.clear

theorem napOk_of_within (needs : NeedBitsOk needBits)
    (reached : (nap needBits).ReachableWhen (fun run label => label.Within run) run) :
    NapOk run.head run.live := by
  apply reached.invariant
  · exact fun run started => .started needs started
  · rintro _ _ _ ok within ⟨ready, rfl⟩
    exact ok.next within ready

open List

section Operations

variable (pstCommonHead : NapHead)

def napGetNextIndex (uiCurrentIndex : UINT) : UINT :=
  if uiCurrentIndex = napInvalidIndex then
    (lBitMapGetFirstBusyBit pstCommonHead.hLBitmap).getD napInvalidIndex
  else (lBitMapGetNextBusyBit pstCommonHead.hLBitmap uiCurrentIndex).getD napInvalidIndex

def napGetNodeByIndex (uiIndex : UINT) : Option NapNode :=
  if !napIsIndexSetted pstCommonHead uiIndex then none
  else pstCommonHead.slots.table.getNodeByIndex uiIndex

def napGetIDByNode : Option NapNode → UINT
  | none => napInvalidId
  | some pstCommonNode => pstCommonHead.ulID pstCommonNode

/-- What `SES_Walk` on a pool hands to its callback, when it ends within `turns` turns. -/
def sesWalk (pfFunc : UINT → Int) : Nat → UINT → Option (List UINT)
  | 0, _ => none
  | turns + 1, uiIndex =>
    let uiIndex := napGetNextIndex pstCommonHead uiIndex
    if uiIndex = 0 then some []
    else
      let ulID := napGetIDByNode pstCommonHead (napGetNodeByIndex pstCommonHead uiIndex)
      if pfFunc ulID < 0 then some [ulID]
      else (sesWalk pfFunc turns uiIndex).map (ulID :: ·)

end Operations

/-- The callback is called once for each live session. -/
def SesWalkVisits (head : NapHead) (live : List NapNode) (pfFunc : UINT → Int) : Prop :=
  ∃ turns calls, sesWalk head pfFunc turns 0 = some calls ∧ calls.Perm (live.map head.ulID)

/-- `NAP_GetNextIndex` from one index to the next, until it returns the invalid one. -/
def napNext (head : NapHead) (current : Option UINT) : Option UINT :=
  let uiIndex := napGetNextIndex head (current.getD napInvalidIndex)
  if uiIndex = napInvalidIndex then none else some uiIndex

def NapEnumerates (head : NapHead) (live : List NapNode) : Prop :=
  ∃ found, Enumerates (napNext head) none found ∧ found.Pairwise (fun i j => i < j) ∧
    ∀ i, i ∈ found ↔ ∃ n ∈ live, n.uiIndex = i

variable {head : NapHead} {live : List NapNode} {run : NapRun} {pfFunc : UINT → Int}

theorem napGetNextIndex_ne_zero {uiIndex : UINT} (other : uiIndex ≠ napInvalidIndex) :
    napGetNextIndex head uiIndex ≠ 0 := by
  rw [napGetNextIndex, if_neg other]
  cases isNext : lBitMapGetNextBusyBit head.hLBitmap uiIndex with
  | none => decide
  | some next =>
    have isNext' : lBitMapNextBusyBit head.hLBitmap (some uiIndex) = some next := isNext
    have above := (lBitMapNextBusyBit_some isNext').1
    rintro rfl
    have less := (nextBit_le_iff other).mp above
    exact absurd less (Nat.not_lt_zero _)

theorem NapOk.notInvalid (ok : NapOk head live) : ¬ LBitMapHas head.hLBitmap napInvalidIndex := by
  rw [ok.bits]
  rintro ⟨n, inside, same⟩
  have below := ok.below n inside
  rw [same] at below
  exact absurd head.uiMaxNum.isLt (Nat.not_lt.mpr below)

theorem NapOk.sesWalk_invalid (ok : NapOk head live) (goesOn : ∀ ulID, 0 ≤ pfFunc ulID)
    {turns : Nat} {uiIndex : UINT} {calls : List UINT} (other : uiIndex ≠ napInvalidIndex)
    (ends : sesWalk head pfFunc turns uiIndex = some calls) : napInvalidId ∈ calls := by
  induction turns generalizing uiIndex calls with
  | zero => cases ends
  | succ _ ih =>
    rw [sesWalk, if_neg (napGetNextIndex_ne_zero other), if_neg (Int.not_lt.mpr (goesOn _))] at ends
    obtain ⟨_, laterEnds, rfl⟩ := Option.map_eq_some_iff.mp ends
    by_cases last : napGetNextIndex head uiIndex = napInvalidIndex
    · have absent : napIsIndexSetted head napInvalidIndex = false :=
        Bool.eq_false_iff.mpr ok.notInvalid
      rw [last, napGetNodeByIndex, absent]
      exact mem_cons_self
    · exact mem_cons_of_mem _ (ih last laterEnds)

theorem NapOk.not_sesWalkVisits (ok : NapOk head live) (goesOn : ∀ ulID, 0 ≤ pfFunc ulID) :
    ¬ SesWalkVisits head live pfFunc := by
  rintro ⟨_, _, ends, same⟩
  have inside := same.mem_iff.mp (ok.sesWalk_invalid goesOn (by decide) ends)
  obtain ⟨n, isLive, isInvalid⟩ := mem_map.mp inside
  exact ok.valid n isLive isInvalid

theorem NapOk.napNext_eq (ok : NapOk head live) {current : Option UINT}
    (other : current ≠ some napInvalidIndex) :
    napNext head current = lBitMapNextBusyBit head.hLBitmap current := by
  have answer : napGetNextIndex head (current.getD napInvalidIndex) =
      (lBitMapNextBusyBit head.hLBitmap current).getD napInvalidIndex := by
    cases current with
    | none => rfl
    | some => exact if_neg fun same => other (congrArg some same)
  rw [napNext, answer]
  cases isNext : lBitMapNextBusyBit head.hLBitmap current with
  | none => rfl
  | some =>
    have has := (lBitMapNextBusyBit_some isNext).2.1
    refine if_neg ?_
    rintro rfl
    exact ok.notInvalid has

theorem NapOk.enumerates_iff (ok : NapOk head live) :
    NapEnumerates head live ↔ ∀ n ∈ live, SeenBit n.uiIndex := by
  constructor
  · rintro ⟨_, enumerated, -, mem_iff⟩ n inside
    have has := (mem_iff n.uiIndex).mpr ⟨n, inside, rfl⟩
    obtain ⟨⟨before, isNext⟩, -⟩ := enumerated.after has
    -- The invalid index is also where the search starts.
    have restart : ∃ start, start ≠ some napInvalidIndex ∧ napNext head start = some n.uiIndex := by
      by_cases last : before = some napInvalidIndex
      · rw [last] at isNext
        exact ⟨none, nofun, isNext⟩
      · exact ⟨before, last, isNext⟩
    obtain ⟨_, other, isNext⟩ := restart
    rw [ok.napNext_eq other] at isNext
    exact (lBitMapNextBusyBit_some isNext).2.2.1
  intro seen
  have scanned : ∀ b, LBitMapHas head.hLBitmap b → SeenBit b ∧ b ≠ 0xffffffff := by
    intro b has
    obtain ⟨n, inside, rfl⟩ := (ok.bits b).mp has
    exact ⟨seen n inside, fun same => ok.notInvalid (by rwa [same] at has)⟩
  obtain ⟨found, enumerated, ascending, mem_iff⟩ := enumeratesBits_all scanned
  refine ⟨found, enumerated.congr fun reached either => ok.napNext_eq ?_, ascending,
    fun i => (mem_iff i).trans (ok.bits i)⟩
  rcases either with rfl | inside
  · exact Option.some_ne_none _ |>.symm
  rintro rfl
  obtain ⟨_, isFound, same⟩ := mem_map.mp inside
  cases same
  exact ok.notInvalid ((mem_iff _).mp isFound)

end MyCode.Nap
