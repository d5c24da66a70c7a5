import MyCode.Nap.Identity

/-!
# The pool of list heads

`ListRule_Init` creates a pool without a maximum of its own and without sequence
numbers, so the identifier of a head is its index with bit 31 set.
-/

namespace MyCode.ListRule

open Nap LBitMap Function List BitVec Nat Prod

structure HeadsOk (head : NapHead) (live : List NapNode) : Prop where
  mask : head.ulIndexMask = 0x7fffffff
  noSeq : head.stSeqOpt.bEnable = false
  flags : FlagsSound 3 head.hLBitmap
  bits : ∀ i, LBitMapHas head.hLBitmap i ↔ ∃ n ∈ live, n.uiIndex = i
  distinct : live.Pairwise fun m n => m.uiIndex ≠ n.uiIndex
  below : ∀ n ∈ live, n.uiIndex ≤ 0x7fffffff
  ids : ∀ n ∈ live, head.ulID n = n.uiIndex ||| 0x80000000
  table : TableOk live head.slots.table

variable {head after : NapHead} {live : List NapNode} {n : NapNode} {needBits : UINT → Nat}

theorem indexMask_full {ucIndexBits : Nat} (full : ucIndexBits = 31) :
    ~~~Nap.prefix2Mask (32 - ucIndexBits) = 0x7fffffff := by
  rw [full]
  decide

theorem headsOk_create {memory : Nat → Option NapNode} {ulID : NapNode → UINT}
    (needs : NeedBitsOk needBits) (created : napCreate needBits memory ulID ⟨.hash, 0⟩ = some head) :
    HeadsOk head [] := by
  have ok := napOk_create needs created
  have width : needBits 0x7fffffff = 31 := by
    obtain ⟨most, enough⟩ := needs 0x7fffffff (BitVec.le_refl _)
    apply Nat.le_antisymm most
    by_contra less
    have small : 2 ^ needBits 0x7fffffff ≤ 2 ^ 30 := Nat.pow_le_pow_right (by decide) (by omega)
    exact absurd (le_trans enough small) (by decide)
  have others : head.ulIndexMask = 0x7fffffff ∧ head.stSeqOpt.bEnable = false := by
    cases created
    exact ⟨indexMask_full width, rfl⟩
  exact {
    mask := others.1
    noSeq := others.2
    flags := ok.flags
    bits := ok.bits
    distinct := .nil
    below := nofun
    ids := nofun
    table := ok.table }

theorem and_mask_top {i : UINT} (below : i ≤ 0x7fffffff) : 
    (i ||| 0x80000000) &&& 0x7fffffff = i := by
  have small : i.toNat < 2 ^ 31 := lt_of_le_of_lt below (by decide)
  apply eq_of_getLsbD_eq
  intro k inside
  have top : (0x80000000 : UINT) = twoPow 32 31 := rfl
  have mask : (0x7fffffff : UINT) = BitVec.ofNat 32 (2 ^ 31 - 1) := rfl
  rw [top, mask, getLsbD_and, getLsbD_or, getLsbD_twoPow, getLsbD_ofNat,
    testBit_two_pow_sub_one, decide_eq_true inside]
  by_cases low : k < 31
  · have other : ¬ 31 = k := by omega
    simp [low, other]
  have last : k = 31 := by omega
  subst last
  have clear : i.getLsbD 31 = false := testBit_lt_two_pow small
  simpa using clear

theorem HeadsOk.index (ok : HeadsOk head live) (inside : n ∈ live) :
    napCacleIndexByID head (head.ulID n) = n.uiIndex := by
  rw [napCacleIndexByID, ok.mask, ok.ids n inside, and_mask_top (ok.below n inside)]

theorem HeadsOk.valid (ok : HeadsOk head live) (inside : n ∈ live) :
    head.ulID n ≠ napInvalidId := by
  rw [ok.ids n inside]
  exact top_ne_zero _

theorem HeadsOk.slotted (ok : HeadsOk head live) : Slotted head live :=
  ⟨ok.bits, ok.distinct, fun _ => ok.index, fun _ => ok.valid, ok.table⟩

/-- What `NAP_ZAlloc` leaves. -/
inductive Allocated (head : NapHead) (live : List NapNode) : NapHead × Option NapNode → Prop where
  | failed {after : NapHead} (ok : HeadsOk after live) (ids : after.ulID = head.ulID) :
      Allocated head live (after, none)
  | taken {after : NapHead} {n : NapNode} (ok : HeadsOk after (n :: live)) (fresh : n ∉ live)
      (ids : ∀ m ∈ live, after.ulID m = head.ulID m) : Allocated head live (after, some n)

theorem HeadsOk.allocNode {marked : NapHead} {uiIndex : UINT} (ok : HeadsOk head live)
    (isMarked : Marked head marked uiIndex) (below : uiIndex ≤ 0x7fffffff) (address : Option Nat) :
    Allocated head live (napCountNode (napAllocNode marked address uiIndex fun pstCommonHead =>
      napCacleIDByIndex pstCommonHead uiIndex)) := by
  obtain ⟨others, flags, clear, bits⟩ := isMarked
  have absent : ∀ m ∈ live, m.uiIndex ≠ uiIndex := fun m inside same =>
    clear ((ok.bits uiIndex).mpr ⟨m, inside, same⟩)
  generalize marked.hLBitmap = hLBitmap at others flags bits
  subst others
  unfold napAllocNode
  cases got : head.slots.pfAlloc address uiIndex with
  | mk slots found =>
    cases found with
    | none =>
      apply Allocated.failed
      · exact { ok with
          flags := flags.clearBit _
          bits := by
            intro i
            change LBitMapHas (lBitMapClrBit hLBitmap uiIndex.toNat) i ↔ _
            rw [lBitMapHas_clrBit, bits i, ← ok.bits i]
            constructor
            · exact fun ⟨other, either⟩ => either.resolve_left other
            · exact fun has => ⟨fun same => clear (same ▸ has), .inr has⟩
          table := ok.table.allocFailed absent got }
      · rfl
    | some n =>
      have isIndex := pfAlloc_index got
      have other (m : NapNode) (inside : m ∈ live) : m ≠ n :=
        fun same => absent m inside (same ▸ isIndex)
      have built : napCacleIDByIndex { head with slots := slots, hLBitmap := hLBitmap } uiIndex =
          ({ head with slots := slots, hLBitmap := hLBitmap }, uiIndex ||| 0x80000000) := by
        rw [napCacleIDByIndex]
        simp [ok.noSeq]
      simp only [built]
      apply Allocated.taken
      · exact {
          mask := ok.mask
          noSeq := ok.noSeq
          flags := flags
          bits := by
            intro i
            rw [bits i, ok.bits i, exists_mem_cons_iff, isIndex, eq_comm]
          distinct := pairwise_cons.mpr
            ⟨fun m inside same => absent m inside (same.symm.trans isIndex), ok.distinct⟩
          below := by
            intro m inside
            rcases mem_cons.mp inside with rfl | old
            · exact isIndex ▸ below
            · exact ok.below m old
          ids := by
            intro m inside
            rcases mem_cons.mp inside with rfl | old
            · simp [isIndex]
            · simp only [update_of_ne (other m old)]
              exact ok.ids m old
          table := ok.table.alloc absent got }
      · exact fun inside => other n inside rfl
      · intro m inside
        simp [update_of_ne (other m inside)]

theorem HeadsOk.alloc (ok : HeadsOk head live) (alloc : NodeAlloc) (address : Option Nat) :
    Allocated head live (napAlloc head alloc address) := by
  unfold napAlloc
  cases got : napAllocIndex head alloc with
  | mk _ uiIndex =>
    simp only
    rcases napAllocIndex_cases ok.flags got with ⟨invalid, others, flags, bits⟩ | ⟨valid, isMarked, handed⟩
    · rw [if_pos invalid]
      rw [others]
      apply Allocated.failed
      · exact { ok with
          flags := flags
          bits := fun i => (bits i).trans (ok.bits i) }
      · rfl
    · rw [if_neg valid]
      have attempted := @attempted_get 3 alloc head.hLBitmap 0 0x7fffffff (by decide) (by decide)
      apply ok.allocNode isMarked
      rw [show lbitmapGet 3 alloc head.hLBitmap 0 0x7fffffff = (_, .ok uiIndex.toNat) from
        Prod.ext rfl handed] at attempted
      exact attempted.upper

theorem HeadsOk.free (ok : HeadsOk head live) (inside : n ∈ live) :
    HeadsOk (napFree head n) (live.erase n) := by
  rw [ok.slotted.free_eq inside]
  exact {
    mask := ok.mask
    noSeq := ok.noSeq
    flags := ok.flags.clearBit _
    bits := ok.slotted.bits_erase inside
    distinct := ok.distinct.sublist erase_sublist
    below := fun m inRest => ok.below m (mem_of_mem_erase inRest)
    ids := fun m inRest => ok.ids m (mem_of_mem_erase inRest)
    table := ok.table.free ok.distinct inside }

theorem HeadsOk.lookup (ok : HeadsOk head live) (id : UINT) :
    HeadsOk (napGetNodeByID head id).1 live ∧ (napGetNodeByID head id).1.ulID = head.ulID := by
  have same : ∃ asked, (napGetNodeByID head id).1 =
      { head with slots := ⟨head.slots.table, asked⟩ } := by
    unfold napGetNodeByID
    split
    · exact ⟨head.slots.asked, rfl⟩
    simp only
    split
    · exact ⟨head.slots.asked, rfl⟩
    split
    · next got =>
      obtain ⟨rfl, -⟩ := mk.inj got
      exact ⟨_, rfl⟩
    · next got =>
      obtain ⟨rfl, -⟩ := mk.inj got
      exact ⟨_, rfl⟩
  obtain ⟨_, same⟩ := same
  rw [same]
  exact ⟨{ ok with }, rfl⟩

end MyCode.ListRule
