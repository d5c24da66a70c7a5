import MyCode.Lpm.DynamicRecording

/-!
# The groups of a DLPM64B

Adding a prefix makes groups on the way of the prefix only.  Deleting one
leaves a group only where an address below it has a match deeper than the
entry of the group.
-/

namespace MyCode.Lpm

open Dlpm64bEntry Lib.LongestPrefix Function Bool Nat

variable {bits bound : Nat} {state : LpmEntryState} {old target : UINT → Option (Nat × UINT64)}
  {new : Option (Nat × UINT64)}

/-- The entry on the way of `y`, `steps` levels below an entry of `level`, is
there and stands for a group. -/
def entryIsGroup (bitNum : Nat → Nat) (y : UINT) : Nat → Nat → Dlpm64bEntry → Bool
  | _, _, cell _ _ _ => false
  | 0, _, group _ => true
  | steps + 1, level, group nextEntrys =>
    entryIsGroup bitNum y steps (level + 1)
      (nextEntrys (entryIndex y (upDepth bitNum (level + 1)) (levelDepth bitNum (level + 1))))

def tableIsGroup (bitNum : Nat → Nat) (y : UINT) (steps level : Nat)
    (entrys : Nat → Dlpm64bEntry) : Bool :=
  entryIsGroup bitNum y steps level
    (entrys (entryIndex y (upDepth bitNum level) (levelDepth bitNum level)))

/-- The entry of a level on the way of `y` refers to a child group. -/
def dlpm64bIsGroup (lpm : Dlpm64b) (y : UINT) (level : Nat) : Bool :=
  tableIsGroup lpm.bitNum y level 0 lpm.array

variable {bitNum : Nat → Nat} {alloc : LpmAlloc} {ip y : UINT}
  {depth newDepth left level steps : Nat} {nexthop newNexthop : UINT64}
  {entrys nextEntrys : Nat → Dlpm64bEntry} {entry : Dlpm64bEntry}

@[simp]
theorem entryIsGroup_cell (state : LpmEntryState) :
    entryIsGroup bitNum y steps level (cell state depth nexthop) = false := by
  cases steps <;> rfl

variable (inside : levelDepth bitNum level ≤ 32)

include inside in
theorem tableIsGroup_update
    (same : Meets bitNum level y ip) :
    tableIsGroup bitNum y steps level
        (update entrys (entryOf bitNum ip level) entry) =
      if Follows bitNum level y ip then
        entryIsGroup bitNum y steps level entry
      else
        tableIsGroup bitNum y steps level entrys := by
  have index := entryIndex_eq_iff (upDepth_le_levelDepth bitNum level) inside same
  rw [tableIsGroup, update_apply, tableIsGroup]
  simp only [index]
  split <;> rfl

theorem tableIsGroup_congr (inside : levelDepth bitNum (level + steps) ≤ 32)
    (same : Follows bitNum (level + steps) y ip) :
    tableIsGroup bitNum y steps level entrys = tableIsGroup bitNum ip steps level entrys := by
  induction steps generalizing level entrys with
  | zero =>
    rw [add_zero] at inside same
    rw [tableIsGroup, entryIndex_onPath inside same, tableIsGroup]
    generalize entrys _ = entry
    cases entry <;> rfl
  | succ steps ih =>
    have reached : levelDepth bitNum level ≤ levelDepth bitNum (level + (steps + 1)) :=
      levelDepth_le (le_add_right _ _)
    have onPath := leading_eq_of_le reached inside same
    rw [tableIsGroup, entryIndex_onPath (le_trans reached inside) onPath, tableIsGroup]
    generalize entrys _ = entry
    cases entry with
    | cell => rfl
    | group =>
      have step : level + (steps + 1) = level + 1 + steps := by omega
      rw [step] at inside same
      exact ih inside same

theorem Fits.isGroup_lt (fits : Fits bitNum left level entry)
    (isGroup : entryIsGroup bitNum y steps level entry) : steps < left := by
  induction left generalizing steps level entry with
  | zero =>
    cases entry with
    | cell => simp at isGroup
    | group => exact fits.elim
  | succ left ih =>
    cases entry with
    | cell => simp at isGroup
    | group =>
      cases steps with
      | zero => exact succ_pos left
      | succ => exact succ_lt_succ (ih (fits _) isGroup)

theorem Fits.isGroup_inside (fits : Fits bitNum left level entry)
    (isGroup : entryIsGroup bitNum y steps level entry)
    (last : levelDepth bitNum (level + left) = 32) : levelDepth bitNum (level + steps) ≤ 32 := by
  have within := fits.isGroup_lt isGroup
  rw [← last]
  exact levelDepth_le (by omega)

theorem upDepth_le_add (level steps : Nat) : upDepth bitNum level ≤ levelDepth bitNum (level + steps) :=
  le_trans (upDepth_le_levelDepth bitNum level) (levelDepth_le (le_add_right _ _))

theorem Fits.isGroup_of_deep (fits : Fits bitNum left level entry)
    (deep : levelDepth bitNum (level + steps) < depthOf (entryMatch bitNum y left level entry)) :
    entryIsGroup bitNum y steps level entry := by
  induction left generalizing steps level entry with
  | zero =>
    cases entry with
    | cell =>
      rw [depthOf_entryMatch_cell fits] at deep
      have bounded := (fits_cell.mp fits).2
      have reached : levelDepth bitNum level ≤ levelDepth bitNum (level + steps) :=
        levelDepth_le (le_add_right _ _)
      omega
    | group => exact fits.elim
  | succ _ ih =>
    cases entry with
    | cell =>
      rw [depthOf_entryMatch_cell fits] at deep
      have bounded := (fits_cell.mp fits).2
      have reached : levelDepth bitNum level ≤ levelDepth bitNum (level + steps) :=
        levelDepth_le (le_add_right _ _)
      omega
    | group =>
      cases steps with
      | zero => rfl
      | succ =>
        apply ih (fits _)
        rwa [add_right_comm]

theorem forEntrys_isGroup {step : Dlpm64bEntry → Dlpm64bEntry × BsStatus}
    (keeps : ∀ entry, entryIsGroup bitNum y steps level (step entry).1 =
      entryIsGroup bitNum y steps level entry) (num i : Nat) (entrys : Nat → Dlpm64bEntry) :
    tableIsGroup bitNum y steps level (forEntrys step i num entrys).1 =
      tableIsGroup bitNum y steps level entrys := by
  induction num generalizing i entrys with
  | zero => rfl
  | succ _ ih =>
    have stepped := keeps (entrys i)
    have updated : tableIsGroup bitNum y steps level (update entrys i (step (entrys i)).1) =
        tableIsGroup bitNum y steps level entrys := by
      rw [tableIsGroup, update_apply, tableIsGroup]
      split
      · next same => rw [stepped, same]
      · rfl
    rw [forEntrys]
    split
    · next entry result =>
      rw [result] at updated
      exact (ih _ _).trans updated
    · next entry ret _ result =>
      rw [result] at updated
      exact updated

theorem dlpm64bAddInner_isGroup_shallow (shallow : depth ≤ levelDepth bitNum level) :
    tableIsGroup bitNum y steps level
        (dlpm64bAddInner bitNum alloc ip depth nexthop left level entrys).1 =
      tableIsGroup bitNum y steps level entrys := by
  induction left generalizing level steps entrys with
  | zero => rfl
  | succ _ ih =>
    rw [dlpm64bAddInner, if_neg (not_lt.mpr shallow)]
    apply forEntrys_isGroup
    intro entry
    cases entry with
    | cell =>
      rw [dlpm64bAddEntry]
      split <;> simp
    | group =>
      cases steps with
      | zero => rfl
      | succ => exact ih (le_trans shallow (levelDepth_le (le_succ level)))

theorem dlpm64bDelInner_isGroup_shallow (shallow : depth ≤ levelDepth bitNum level) :
    tableIsGroup bitNum y steps level
        (dlpm64bDelInner bitNum ip depth newDepth newNexthop left level entrys) =
      tableIsGroup bitNum y steps level entrys := by
  induction left generalizing level steps entrys with
  | zero => rfl
  | succ _ ih =>
    rw [dlpm64bDelInner, if_neg (not_lt.mpr shallow)]
    apply forEntrys_isGroup
    intro entry
    cases entry with
    | cell =>
      rw [dlpm64bDelEntry]
      split <;> simp
    | group =>
      cases steps with
      | zero => rfl
      | succ => exact ih (le_trans shallow (levelDepth_le (le_succ level)))

theorem tableIsGroup_split :
    tableIsGroup bitNum y steps level (dlpm64bSplit bits state depth nexthop) = false := by
  rw [tableIsGroup, dlpm64bSplit]
  split
  · exact entryIsGroup_cell _
  · rw [dlpm64bAllocEntry]
    split <;> exact entryIsGroup_cell _

def OnWay (bitNum : Nat → Nat) (ip : UINT) (depth : Nat) (y : UINT) (level : Nat) : Prop :=
  levelDepth bitNum level < depth ∧
    leading (levelDepth bitNum level) y = leading (levelDepth bitNum level) ip

theorem dlpm64bAddInner_isGroup_reached (reached : depth ≤ levelDepth bitNum level)
    (isGroup : tableIsGroup bitNum y steps level
      (dlpm64bAddInner bitNum alloc ip depth nexthop left level entrys).1) :
    tableIsGroup bitNum y steps level entrys ∨ OnWay bitNum ip depth y (level + steps) := by
  rw [dlpm64bAddInner_isGroup_shallow reached] at isGroup
  exact Or.inl isGroup

theorem dlpm64bAddInner_isGroup (whole : depth ≤ 32) (last : levelDepth bitNum (level + left) = 32)
    (same : Meets bitNum level y ip)
    (isGroup : tableIsGroup bitNum y steps level
      (dlpm64bAddInner bitNum alloc ip depth nexthop (left + 1) level entrys).1) :
    tableIsGroup bitNum y steps level entrys ∨ OnWay bitNum ip depth y (level + steps) := by
  induction left generalizing level steps entrys with
  | zero => exact dlpm64bAddInner_isGroup_reached (last ▸ whole) isGroup
  | succ left ih =>
    have inside := levelDepth_inside last
    rcases lt_or_ge (levelDepth bitNum level) depth with further | reached
    · have lastBelow := levelDepth_below last
      rw [dlpm64bAddInner, if_pos further] at isGroup
      split at isGroup
      · next nextEntrys found =>
        rw [tableIsGroup_update inside same] at isGroup
        split at isGroup
        · next onPath =>
          rw [tableIsGroup, entryIndex_onPath inside onPath, found]
          cases steps with
          | zero => exact Or.inl rfl
          | succ =>
            have below := ih lastBelow (meets_succ.mpr onPath) isGroup
            rwa [add_right_comm] at below
        · exact Or.inl isGroup
      split at isGroup
      · rw [tableIsGroup_update inside same] at isGroup
        split at isGroup
        · next onPath =>
          cases steps with
          | zero => exact Or.inr ⟨further, onPath⟩
          | succ =>
            have below := ih lastBelow (meets_succ.mpr onPath) isGroup
            rw [tableIsGroup_split, add_right_comm] at below
            exact Or.inr (below.resolve_left false_ne_true)
        · exact Or.inl isGroup
      · exact Or.inl isGroup
    · exact dlpm64bAddInner_isGroup_reached reached isGroup

/-- Below each group of the block of `ip`, an address has a match in `target`
that is deeper than the entry of the group. -/
def Tight (bitNum : Nat → Nat) (ip : UINT) (level : Nat) (target : UINT → Option (Nat × UINT64))
    (entrys : Nat → Dlpm64bEntry) : Prop :=
  ∀ y steps, leading (upDepth bitNum level) y = leading (upDepth bitNum level) ip →
    tableIsGroup bitNum y steps level entrys →
    ∃ z, leading (levelDepth bitNum (level + steps)) z =
        leading (levelDepth bitNum (level + steps)) y ∧
      levelDepth bitNum (level + steps) < depthOf (target z)

theorem AddsPrefix.deeper {added : (Nat → Dlpm64bEntry) × BsStatus}
    (adds : AddsPrefix bitNum ip depth nexthop left level entrys added)
    (same : Meets bitNum level y ip)
    (deep : bound < depthOf (dlpm64bMatch bitNum y (left + 1) level entrys)) :
    bound < depthOf (dlpm64bMatch bitNum y (left + 1) level added.1) := by
  rw [adds.2 y same]
  split
  · rw [overlay]
    split
    · next shallow => exact lt_of_lt_of_le deep shallow
    · exact deep
  · exact deep

variable (masked : ip &&& prefix2Mask depth = ip) (whole : depth ≤ 32)
  (fits : ∀ i, Fits bitNum left level (entrys i)) (last : levelDepth bitNum (level + left) = 32)
  (deep : upDepth bitNum level < depth)

include masked whole fits last deep in
theorem dlpm64bAddInner_tight
    (succeeded : (dlpm64bAddInner bitNum alloc ip depth nexthop (left + 1) level entrys).2 = .ok)
    (tight : Tight bitNum ip level (fun y => dlpm64bMatch bitNum y (left + 1) level entrys) entrys) :
    Tight bitNum ip level
      (fun y => dlpm64bMatch bitNum y (left + 1) level
        (dlpm64bAddInner bitNum alloc ip depth nexthop (left + 1) level entrys).1)
      (dlpm64bAddInner bitNum alloc ip depth nexthop (left + 1) level entrys).1 := by
  have adds := @dlpm64bAddInner_deep bitNum alloc ip depth left level nexthop entrys masked fits last
    deep whole
  intro y steps same isGroup
  have inside := (adds.1 _).isGroup_inside isGroup last
  have nested := @upDepth_le_add bitNum level steps
  rcases dlpm64bAddInner_isGroup whole last same isGroup with before | onWay
  · obtain ⟨z, below, deeper⟩ := tight y steps same before
    exact ⟨z, below, adds.deeper ((leading_eq_of_le nested inside below).trans same) deeper⟩
  refine ⟨ip, onWay.2.symm, ?_⟩
  simp only
  rw [adds.2 ip rfl, if_pos ⟨succeeded, rfl⟩, overlay]
  have further := onWay.1
  split
  · exact further
  · omega

/-- The groups that a prefix needs below an entry of a level that is none. -/
def allocsBelow (bitNum : Nat → Nat) (alloc : LpmAlloc) (depth : Nat) : Nat → Nat → Bool
  | 0, _ => true
  | left + 1, level =>
    if levelDepth bitNum level < depth then
      alloc.entrys (level + 1) && allocsBelow bitNum alloc depth left (level + 1)
    else
      true

/-- Every group that the way of a prefix lacks can be allocated. -/
def allocsAll (bitNum : Nat → Nat) (alloc : LpmAlloc) (ip : UINT) (depth : Nat) :
    Nat → Nat → (Nat → Dlpm64bEntry) → Bool
  | 0, _, _ => true
  | left + 1, level, entrys =>
    if levelDepth bitNum level < depth then
      match entrys (entryIndex ip (upDepth bitNum level) (levelDepth bitNum level)) with
      | group nextEntrys => allocsAll bitNum alloc ip depth left (level + 1) nextEntrys
      | cell _ _ _ => alloc.entrys (level + 1) && allocsBelow bitNum alloc depth left (level + 1)
    else
      true

/-- The way of a prefix lacks a group, and the first cannot be allocated. -/
def allocsNone (bitNum : Nat → Nat) (alloc : LpmAlloc) (ip : UINT) (depth : Nat) :
    Nat → Nat → (Nat → Dlpm64bEntry) → Bool
  | 0, _, _ => false
  | left + 1, level, entrys =>
    if levelDepth bitNum level < depth then
      match entrys (entryIndex ip (upDepth bitNum level) (levelDepth bitNum level)) with
      | group nextEntrys => allocsNone bitNum alloc ip depth left (level + 1) nextEntrys
      | cell _ _ _ => !alloc.entrys (level + 1)
    else
      false

theorem allocsAll_split {oldDepth : Nat} {oldNexthop : UINT64} :
    allocsAll bitNum alloc ip depth left level (dlpm64bSplit bits state oldDepth oldNexthop) =
      allocsBelow bitNum alloc depth left level := by
  have notGroup : ∀ i nextEntrys,
      dlpm64bSplit bits state oldDepth oldNexthop i ≠ group nextEntrys := by
    intro i nextEntrys
    rw [dlpm64bSplit]
    split
    · exact Dlpm64bEntry.noConfusion
    · rw [dlpm64bAllocEntry]
      split <;> exact Dlpm64bEntry.noConfusion
  cases left with
  | zero => rfl
  | succ =>
    rw [allocsAll, allocsBelow]
    split
    · split
      · next nextEntrys found => exact absurd found (notGroup _ _)
      · rfl
    · rfl

include masked in
theorem dlpm64bAddInner_ok_of_reached
    (positive : 1 ≤ depth) (last : levelDepth bitNum (level + left) = 32)
    (fits : ∀ i, Fits bitNum left level (entrys i)) (reached : depth ≤ levelDepth bitNum level) :
    (dlpm64bAddInner bitNum alloc ip depth nexthop (left + 1) level entrys).2 = .ok := by
  have steps := dlpm64bAddEntry_overlays alloc nexthop masked positive left level last reached
  rw [dlpm64bAddInner, if_neg (not_lt.mpr reached),
    forEntrys_eq _ _ _ fun i _ => (steps _ (fits i)).1]

theorem allocsAll_of_reached (reached : depth ≤ levelDepth bitNum level) :
    allocsAll bitNum alloc ip depth (left + 1) level entrys = true := by
  rw [allocsAll, if_neg (not_lt.mpr reached)]

include masked in
theorem dlpm64bAddInner_ok_iff (positive : 1 ≤ depth) (whole : depth ≤ 32)
    (last : levelDepth bitNum (level + left) = 32) (fits : ∀ i, Fits bitNum left level (entrys i)) :
    (dlpm64bAddInner bitNum alloc ip depth nexthop (left + 1) level entrys).2 = .ok ↔
      allocsAll bitNum alloc ip depth (left + 1) level entrys := by
  induction left generalizing level entrys with
  | zero =>
    have reached := last ▸ whole
    exact iff_of_true (dlpm64bAddInner_ok_of_reached masked positive last fits reached)
      (allocsAll_of_reached reached)
  | succ left ih =>
    rcases lt_or_ge (levelDepth bitNum level) depth with further | reached
    · have lastBelow := levelDepth_below last
      have fitsEntry := fits (entryOf bitNum ip level)
      rw [dlpm64bAddInner, allocsAll, if_pos further, if_pos further]
      split
      · next nextEntrys found =>
        rw [found] at fitsEntry
        simp only [found]
        exact ih lastBelow fitsEntry
      next state oldDepth oldNexthop found =>
      rw [found] at fitsEntry
      have fitsBelow : ∀ i, Fits bitNum left (level + 1)
          (dlpm64bSplit (bitNum (level + 1)) state oldDepth oldNexthop i) :=
        dlpm64bSplit_fits fitsEntry
      have below := ih lastBelow fitsBelow
      rw [allocsAll_split] at below
      simp only [found, and_eq_true, ← below]
      split
      · next got => exact (and_iff_right got).symm
      · next refused => exact iff_of_false (by simp) fun both => refused both.1
    · exact iff_of_true (dlpm64bAddInner_ok_of_reached masked positive last fits reached)
        (allocsAll_of_reached reached)

theorem dlpm64bAddInner_of_allocsNone (none : allocsNone bitNum alloc ip depth left level entrys) :
    dlpm64bAddInner bitNum alloc ip depth nexthop left level entrys = (entrys, .err) := by
  induction left generalizing level entrys with
  | zero => rfl
  | succ _ ih =>
    rw [allocsNone] at none
    split at none
    · next further =>
      rw [dlpm64bAddInner, if_pos further]
      split at none
      · next nextEntrys found =>
        simp only [found, ih none]
        rw [← found, update_eq_self]
      next state oldDepth oldNexthop found =>
      rw [not_eq_true'] at none
      simp only [found, none]
      rfl
    · cases none

theorem dlpm64bAddInner_leaves (all : ¬ allocsAll bitNum alloc ip depth left level entrys)
    (none : ¬ allocsNone bitNum alloc ip depth left level entrys) :
    ∃ steps,
      tableIsGroup bitNum ip steps level
        (dlpm64bAddInner bitNum alloc ip depth nexthop left level entrys).1 = true ∧
      tableIsGroup bitNum ip steps level entrys = false := by
  induction left generalizing level entrys with
  | zero => exact absurd rfl all
  | succ _ ih =>
    rw [allocsAll] at all
    rw [allocsNone] at none
    split at all
    · next further =>
      rw [if_pos further] at none
      rw [dlpm64bAddInner, if_pos further]
      split at all
      · next nextEntrys found =>
        simp only [found] at none ⊢
        obtain ⟨steps, after, before⟩ := ih all none
        refine ⟨steps + 1, ?_, ?_⟩
        · rw [tableIsGroup, update_self]
          exact after
        · rw [tableIsGroup, found]
          exact before
      next state oldDepth oldNexthop found =>
      simp only [found, not_eq_true', not_eq_false] at none ⊢
      refine ⟨0, ?_, ?_⟩
      · rw [if_pos none, tableIsGroup]
        simp only [update_self]
        rfl
      · rw [tableIsGroup, found]
        exact entryIsGroup_cell state
    · exact absurd rfl all

theorem Deletes.stays (deletes : Deletes ip depth new old target bound) (whole : depth ≤ 32)
    (same : leading bound y = leading bound ip) (offWay : ¬ OnWay bitNum ip depth y level)
    (deep : levelDepth bitNum level < depthOf (old y)) :
    levelDepth bitNum level < depthOf (target y) := by
  rw [deletes.expected y same]
  split
  · next covered =>
    rw [overlay]
    split
    · next shallow =>
      have further := lt_of_lt_of_le deep shallow
      exact absurd ⟨further, leading_eq_of_le further.le whole covered⟩ offWay
    · exact deep
  · exact deep

include inside in
theorem exists_entryIndex_eq {index : Nat} (bounded : index < 2 ^ bitNum level) (ip : UINT) :
    ∃ z, Meets bitNum level z ip ∧
      entryOf bitNum z level = index := by
  have nested := upDepth_le_levelDepth bitNum level
  have above := leading_lt (le_trans nested inside) ip
  have size : 2 ^ levelDepth bitNum level = 2 ^ upDepth bitNum level * 2 ^ bitNum level := by
    rw [← pow_add, upDepth_add]
  have small : leading (upDepth bitNum level) ip * 2 ^ bitNum level + index <
      2 ^ levelDepth bitNum level := by
    calc leading (upDepth bitNum level) ip * 2 ^ bitNum level + index
        < (leading (upDepth bitNum level) ip + 1) * 2 ^ bitNum level := by
          rw [succ_mul]
          exact Nat.add_lt_add_left bounded _
      _ ≤ 2 ^ levelDepth bitNum level := by
          rw [size]
          exact mul_le_mul_right _ above
  obtain ⟨z, value⟩ := exists_leading_eq inside small
  have positive : 0 < 2 ^ bitNum level := Nat.pow_pos (by decide)
  refine ⟨z, ?_, ?_⟩
  · rw [Meets, leading_of_le nested inside, value, levelDepth_sub_upDepth, mul_comm,
      mul_add_div positive, div_eq_of_lt bounded, add_zero]
  · rw [entryOf, entryIndex_eq nested inside, value, levelDepth_sub_upDepth, mul_comm,
      mul_add_mod, mod_eq_of_lt bounded]

include inside in
/-- A table without groups whose addresses all match what its entry is to
match can be recycled. -/
theorem dlpm64bCanRecycle_of_uniform
    (matches_ : Matches bitNum ip left level target entrys)
    (single : ∀ z, Meets bitNum level z ip → ¬ tableIsGroup bitNum z 0 level entrys)
    (shallow : ∀ z, Meets bitNum level z ip → depthOf (target z) ≤ upDepth bitNum level)
    (uniform : ∀ z, Meets bitNum level z ip → target z = newMatch newDepth newNexthop) :
    dlpm64bCanRecycle bitNum level entrys (lpmNewState newDepth newNexthop) = true := by
  obtain ⟨fits, matches_⟩ := matches_
  rw [dlpm64bCanRecycle, List.all_eq_true]
  intro index member
  obtain ⟨z, same, rfl⟩ := exists_entryIndex_eq inside (List.mem_range.mp member) ip
  have notGroup := single z same
  have bounded := shallow z same
  have result := uniform z same
  have fitsEntry := fits (entryOf bitNum z level)
  rw [← matches_ z same, dlpm64bMatch_succ] at bounded result
  rw [tableIsGroup] at notGroup
  generalize entrys (entryOf bitNum z level) = entry at *
  cases entry with
  | group => exact absurd rfl notGroup
  | cell state =>
    rw [depthOf_entryMatch_cell fitsEntry] at bounded
    rw [entryMatch_cell] at result
    have notValid : lpmNewState newDepth newNexthop = .invalid → state ≠ .valid := by
      rintro invalid rfl
      rw [if_pos rfl, newMatch, if_pos] at result
      · cases result
      by_contra valid
      rw [lpmNewState_eq_valid.mpr valid] at invalid
      cases invalid
    simpa [bounded, imp_iff_not_or] using notValid

variable (deletes : Deletes ip depth new (fun y => dlpm64bMatch bitNum y (left + 1) level entrys)
    target (upDepth bitNum level))
  (tight : Tight bitNum ip level (fun y => dlpm64bMatch bitNum y (left + 1) level entrys) entrys)

include whole fits last deletes tight

theorem Tight.offWay
    (same : Meets bitNum level y ip)
    (isGroup : tableIsGroup bitNum y steps level entrys)
    (offWay : ¬ OnWay bitNum ip depth y (level + steps)) :
    ∃ z, Follows bitNum (level + steps) z y ∧
      levelDepth bitNum (level + steps) < depthOf (target z) := by
  obtain ⟨z, below, deep⟩ := tight y steps same isGroup
  have inside := (fits _).isGroup_inside isGroup last
  have nested := @upDepth_le_add bitNum level steps
  refine ⟨z, below, deletes.stays whole ((leading_eq_of_le nested inside below).trans same) ?_ deep⟩
  exact fun onWay => offWay ⟨onWay.1, below.symm.trans onWay.2⟩

omit fits last deletes tight in
theorem OnWay.top (onWay : OnWay bitNum ip depth y (level + steps)) :
    Follows bitNum level y ip :=
  leading_eq_of_le (levelDepth_le (le_add_right _ _)) (by have further := onWay.1; omega)
    onWay.2

theorem dlpm64bDelInner_tight_reached (reached : depth ≤ levelDepth bitNum level) :
    Tight bitNum ip level target
      (dlpm64bDelInner bitNum ip depth newDepth newNexthop (left + 1) level entrys) := by
  intro y steps same isGroup
  rw [dlpm64bDelInner_isGroup_shallow reached] at isGroup
  apply Tight.offWay whole fits last deletes tight same isGroup
  rintro ⟨_, -⟩
  have below : levelDepth bitNum level ≤ levelDepth bitNum (level + steps) :=
    levelDepth_le (le_add_right _ _)
  omega

omit whole fits last deletes tight

theorem Tight.below
    (tight : Tight bitNum ip level (fun y => dlpm64bMatch bitNum y (left + 2) level entrys) entrys)
    (fits : ∀ i, Fits bitNum left (level + 1) (nextEntrys i))
    (last : levelDepth bitNum (level + 1 + left) = 32)
    (found : entrys (entryOf bitNum ip level) =
      group nextEntrys) :
    Tight bitNum ip (level + 1)
      (fun y => dlpm64bMatch bitNum y (left + 1) (level + 1) nextEntrys) nextEntrys := by
  intro y steps same isGroup
  replace same := meets_succ.mp same
  have inside := (fits _).isGroup_inside isGroup last
  have reached : levelDepth bitNum level ≤ levelDepth bitNum (level + 1 + steps) :=
    levelDepth_le (by omega)
  have index : ∀ z, Follows bitNum level z ip →
      entrys (entryOf bitNum z level) =
        group nextEntrys := by
    intro z onPath
    rw [entryOf, entryIndex_onPath (le_trans reached inside) onPath, found]
  have above := leading_eq_of_le (upDepth_le_levelDepth bitNum level) (le_trans reached inside) same
  have whole : tableIsGroup bitNum y (steps + 1) level entrys := by
    rw [tableIsGroup, index y same]
    exact isGroup
  obtain ⟨z, below, deep⟩ := tight y (steps + 1) above whole
  have step : level + (steps + 1) = level + 1 + steps := by omega
  rw [step] at below deep
  refine ⟨z, below, ?_⟩
  have onPath := (leading_eq_of_le reached inside below).trans same
  simp only [@dlpm64bMatch_succ bitNum z (left + 1) level, index z onPath] at deep
  exact deep

theorem exists_deep_of_kept (inside : levelDepth bitNum (level + 1) ≤ 32)
    (further : levelDepth bitNum level < depth)
    (deletes : Deletes ip depth (newMatch newDepth newNexthop) old target bound)
    (matches_ : Matches bitNum ip left (level + 1) target nextEntrys)
    (tight : Tight bitNum ip (level + 1) target nextEntrys)
    (kept : ¬ dlpm64bCanRecycle bitNum (level + 1) nextEntrys (lpmNewState newDepth newNexthop)) :
    ∃ z, Follows bitNum level z ip ∧
      levelDepth bitNum level < depthOf (target z) := by
  by_contra noneDeep
  have shallow : ∀ z, Follows bitNum level z ip →
      depthOf (target z) ≤ levelDepth bitNum level := by
    intro z same
    by_contra deep
    exact noneDeep ⟨z, same, Nat.lt_of_not_le deep⟩
  have uniform := deletes.collapse _ further shallow
  simp only [← meets_succ, ← upDepth_succ bitNum level] at shallow uniform
  refine kept (dlpm64bCanRecycle_of_uniform inside matches_ ?_ shallow uniform)
  intro z same isGroup
  obtain ⟨deepest, below, deep⟩ := tight z 0 same isGroup
  have nested := upDepth_le_levelDepth bitNum (level + 1)
  have bounded := shallow deepest ((leading_eq_of_le nested inside below).trans same)
  rw [add_zero] at deep
  omega

include masked whole fits last deep tight in
theorem dlpm64bDelInner_tight (proper : newDepth = 0 → newNexthop = 0) (shorter : newDepth ≤ depth)
    (deletes : Deletes ip depth (newMatch newDepth newNexthop) (fun y => dlpm64bMatch bitNum y (left + 1) level entrys) target (upDepth bitNum level)) :
    Tight bitNum ip level target
      (dlpm64bDelInner bitNum ip depth newDepth newNexthop (left + 1) level entrys) := by
  induction left generalizing level entrys with
  | zero =>
    have reached := last ▸ whole
    exact dlpm64bDelInner_tight_reached whole fits last deletes tight reached
  | succ left ih =>
    have inside := levelDepth_inside last
    rcases lt_or_ge (levelDepth bitNum level) depth with further | reached
    · have lastBelow := levelDepth_below last
      have insideBelow := levelDepth_inside lastBelow
      have deepBelow : upDepth bitNum (level + 1) < depth := by rwa [upDepth_succ]
      rw [dlpm64bDelInner, if_pos further]
      split
      · next state oldDepth oldNexthop found =>
        intro y steps same isGroup
        apply Tight.offWay whole fits last deletes tight same isGroup
        intro onWay
        rw [tableIsGroup, entryIndex_onPath inside (OnWay.top whole onWay), found, entryIsGroup_cell]
          at isGroup
        cases isGroup
      next nextEntrys found =>
      have fitsEntry := fits (entryOf bitNum ip level)
      rw [found] at fitsEntry
      have deletesBelow := deletes.below inside found
      have matchesBelow := dlpm64bDelInner_deep masked fitsEntry lastBelow deepBelow proper
        shorter whole deletesBelow
      have tightBelow := ih fitsEntry lastBelow deepBelow
        (tight.below fitsEntry lastBelow found) deletesBelow
      simp only
      split
      · intro y steps same isGroup
        rw [tableIsGroup_update inside same] at isGroup
        split at isGroup
        · rw [entryIsGroup_cell] at isGroup
          cases isGroup
        next offPath =>
        apply Tight.offWay whole fits last deletes tight same isGroup
        exact fun onWay => offPath (OnWay.top whole onWay)
      next kept =>
      intro y steps same isGroup
      rw [tableIsGroup_update inside same] at isGroup
      split at isGroup
      · next onPath =>
        cases steps with
        | zero =>
          obtain ⟨z, below, deeper⟩ := exists_deep_of_kept insideBelow further deletes
            matchesBelow tightBelow kept
          exact ⟨z, below.trans onPath.symm, deeper⟩
        | succ steps =>
          have step : level + (steps + 1) = level + 1 + steps := by omega
          rw [step]
          exact tightBelow y steps (meets_succ.mpr onPath) isGroup
      · next offPath =>
        apply Tight.offWay whole fits last deletes tight same isGroup
        exact fun onWay => offPath (OnWay.top whole onWay)
    · exact dlpm64bDelInner_tight_reached whole fits last deletes tight reached

end MyCode.Lpm
