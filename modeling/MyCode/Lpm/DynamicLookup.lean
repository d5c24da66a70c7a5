import MyCode.Lpm.Common

/-!
# DLPM64B finds the longest recorded prefix

A table is read as the match it gives every address.  Adding and deleting a
prefix change that match as they change the longest recorded prefix: inside
the prefix, where the entry is no deeper than it.
-/

namespace MyCode.Lpm

open Dlpm64bEntry Lib.LongestPrefix Function Nat

variable {state : LpmEntryState} {entry : Dlpm64bEntry} {oldDepth : Nat} {oldNexthop : UINT64}
  {target : UINT → Option (Nat × UINT64)}

/-- The index of the entry of a table that is on the way of `y`. -/
abbrev entryOf (bitNum : Nat → Nat) (y : UINT) (level : Nat) : Nat :=
  entryIndex y (upDepth bitNum level) (levelDepth bitNum level)

/-- Two addresses that come to the same table. -/
abbrev Meets (bitNum : Nat → Nat) (level : Nat) (y ip : UINT) : Prop :=
  leading (upDepth bitNum level) y = leading (upDepth bitNum level) ip

/-- Two addresses that go through the same entry. -/
abbrev Follows (bitNum : Nat → Nat) (level : Nat) (y ip : UINT) : Prop :=
  leading (levelDepth bitNum level) y = leading (levelDepth bitNum level) ip

/-- What a lookup finds below a table, with the depth of the entry. -/
def dlpm64bMatch (bitNum : Nat → Nat) (y : UINT) :
    Nat → Nat → (Nat → Dlpm64bEntry) → Option (Nat × UINT64)
  | 0, _, _ => none
  | left + 1, level, entrys =>
    match entrys (entryIndex y (upDepth bitNum level) (levelDepth bitNum level)) with
    | cell .valid depth nexthop => some (depth, nexthop)
    | cell _ _ _ => none
    | group nextEntrys => dlpm64bMatch bitNum y left (level + 1) nextEntrys

/-- What a lookup finds in one entry of a table. -/
def entryMatch (bitNum : Nat → Nat) (y : UINT) (left level : Nat) :
    Dlpm64bEntry → Option (Nat × UINT64)
  | cell .valid depth nexthop => some (depth, nexthop)
  | cell _ _ _ => none
  | group nextEntrys => dlpm64bMatch bitNum y left (level + 1) nextEntrys

/-- An entry of a table with `left` levels below: groups are only above the
last level, the valid entries are those with a depth, and no entry is deeper
than its table. -/
def Fits (bitNum : Nat → Nat) : Nat → Nat → Dlpm64bEntry → Prop
  | _, level, cell state depth _ => (state = .valid ↔ depth ≠ 0) ∧ depth ≤ levelDepth bitNum level
  | 0, _, group _ => False
  | left + 1, level, group entrys => ∀ i, Fits bitNum left (level + 1) (entrys i)

/-- What a prefix of depth `depth` makes of a match inside it. -/
def overlay (depth : Nat) (new old : Option (Nat × UINT64)) : Option (Nat × UINT64) :=
  if depthOf old ≤ depth then new else old

/-- What the entry of a deleted prefix matches. -/
def newMatch (newDepth : Nat) (newNexthop : UINT64) : Option (Nat × UINT64) :=
  if newDepth = 0 ∧ newNexthop = 0 then none else some (newDepth, newNexthop)

variable {bitNum : Nat → Nat} {alloc : LpmAlloc} {ip y : UINT} {depth newDepth left level : Nat}
  {nexthop newNexthop : UINT64} {entrys : Nat → Dlpm64bEntry}

theorem dlpm64bMatch_succ :
    dlpm64bMatch bitNum y (left + 1) level entrys =
      entryMatch bitNum y left level
        (entrys (entryIndex y (upDepth bitNum level) (levelDepth bitNum level))) := by
  rw [dlpm64bMatch]
  generalize entrys _ = entry
  cases entry with
  | cell state => cases state <;> rfl
  | group => rfl

theorem dlpm64bLookupInner_eq (bitNum : Nat → Nat) (ip : UINT) :
    ∀ (left i : Nat) (entrys : Nat → Dlpm64bEntry),
      dlpm64bLookupInner bitNum ip left i (upDepth bitNum i) entrys =
        (dlpm64bMatch bitNum ip left i entrys).map Prod.snd := by
  intro left
  induction left with
  | zero => intros; rfl
  | succ _ ih =>
    intro i entrys
    rw [dlpm64bLookupInner, dlpm64bMatch, upDepth_add]
    generalize entrys _ = entry
    cases entry with
    | cell state => cases state <;> rfl
    | group nextEntrys =>
      have below := ih (i + 1) nextEntrys
      rw [upDepth_succ] at below
      exact below

theorem fits_cell :
    Fits bitNum left level (cell state depth nexthop) ↔
      (state = .valid ↔ depth ≠ 0) ∧ depth ≤ levelDepth bitNum level := by
  cases left <;> rfl

theorem entryMatch_cell (state : LpmEntryState) (depth : Nat) (nexthop : UINT64) :
    entryMatch bitNum y left level (cell state depth nexthop) =
      if state = .valid then some (depth, nexthop) else none := by
  cases state <;> rfl

theorem depthOf_entryMatch_cell (fits : Fits bitNum left level (cell state depth nexthop)) :
    depthOf (entryMatch bitNum y left level (cell state depth nexthop)) = depth := by
  rw [entryMatch_cell]
  split
  · rfl
  · next other =>
    exact (Decidable.not_not.mp fun nonzero => other ((fits_cell.mp fits).1.mpr nonzero)).symm

theorem Fits.positive (fits : Fits bitNum left level entry)
    (zero : depthOf (entryMatch bitNum y left level entry) = 0) :
    entryMatch bitNum y left level entry = none := by
  induction left generalizing level entry with
  | zero =>
    cases entry with
    | cell =>
      rw [depthOf_entryMatch_cell fits] at zero
      rw [entryMatch_cell, if_neg fun valid => (fits_cell.mp fits).1.mp valid zero]
    | group => exact fits.elim
  | succ _ ih =>
    cases entry with
    | cell =>
      rw [depthOf_entryMatch_cell fits] at zero
      rw [entryMatch_cell, if_neg fun valid => (fits_cell.mp fits).1.mp valid zero]
    | group => exact ih (fits _) zero

theorem Fits.zero : Fits bitNum left level zero :=
  fits_cell.mpr ⟨iff_of_false nofun fun nonzero => nonzero rfl, zero_le _⟩

theorem lpmNewState_eq_valid : lpmNewState newDepth newNexthop = .valid ↔
    ¬ (newDepth = 0 ∧ newNexthop = 0) := by
  unfold lpmNewState
  split <;> simp_all

theorem entryMatch_newState :
    entryMatch bitNum y left level (cell (lpmNewState newDepth newNexthop) newDepth newNexthop) =
      newMatch newDepth newNexthop := by
  rw [entryMatch_cell, newMatch, lpmNewState]
  split <;> simp

theorem depthOf_newMatch (newDepth : Nat) (newNexthop : UINT64) :
    depthOf (newMatch newDepth newNexthop) = newDepth := by
  rw [newMatch]
  split
  · next both => exact both.1.symm
  · rfl

theorem newState_fits (proper : newDepth = 0 → newNexthop = 0)
    (bounded : newDepth ≤ levelDepth bitNum level) :
    Fits bitNum left level (cell (lpmNewState newDepth newNexthop) newDepth newNexthop) := by
  rw [fits_cell, lpmNewState_eq_valid]
  exact ⟨not_congr ⟨And.left, fun zero => ⟨zero, proper zero⟩⟩, bounded⟩

theorem forEntrys_eq {step : Dlpm64bEntry → Dlpm64bEntry × BsStatus} :
    ∀ (num i : Nat) (entrys : Nat → Dlpm64bEntry), (∀ j, i ≤ j → (step (entrys j)).2 = .ok) →
      forEntrys step i num entrys =
        (fun j => if i ≤ j ∧ j < i + num then (step (entrys j)).1 else entrys j, .ok) := by
  intro num
  induction num with
  | zero =>
    intro i entrys _
    have empty : ∀ j, ¬ (i ≤ j ∧ j < i + 0) := fun j => by omega
    simp only [forEntrys, empty, if_false]
  | succ num ih =>
    intro i entrys succeeds
    have later : ∀ entry j, i + 1 ≤ j → update entrys i entry j = entrys j :=
      fun entry j after => update_of_ne (by omega) _ _
    obtain ⟨entry, stepped⟩ : ∃ entry, step (entrys i) = (entry, .ok) :=
      ⟨_, Prod.ext rfl (succeeds i (le_refl i))⟩
    rw [forEntrys, stepped]
    simp only
    rw [ih (i + 1) (update entrys i entry) fun j after => by
      rw [later entry j after]; exact succeeds j (by omega)]
    refine Prod.ext (funext fun j => ?_) rfl
    simp only
    by_cases first : j = i
    · subst first
      have inside : j ≤ j ∧ j < j + (num + 1) := by omega
      have before : ¬ (j + 1 ≤ j ∧ j < j + 1 + num) := by omega
      rw [if_pos inside, if_neg before, update_self, stepped]
    · have same : (i ≤ j ∧ j < i + (num + 1)) ↔ (i + 1 ≤ j ∧ j < i + 1 + num) := by omega
      simp [same, update_of_ne first]

theorem levelDepth_inside (last : levelDepth bitNum (level + left) = 32) :
    levelDepth bitNum level ≤ 32 := by
  rw [← last]
  exact levelDepth_le (le_add_right _ _)

theorem levelDepth_below (last : levelDepth bitNum (level + (left + 1)) = 32) :
    levelDepth bitNum (level + 1 + left) = 32 := by
  rwa [add_right_comm]

theorem upDepth_le_levelDepth (bitNum : Nat → Nat) (level : Nat) :
    upDepth bitNum level ≤ levelDepth bitNum level := by
  rw [← upDepth_add bitNum level]
  exact le_add_right _ _

theorem meets_succ : Meets bitNum (level + 1) y ip ↔ Follows bitNum level y ip := by
  rw [Meets, upDepth_succ]

theorem levelDepth_sub_upDepth (bitNum : Nat → Nat) (level : Nat) :
    levelDepth bitNum level - upDepth bitNum level = bitNum level := by
  rw [← upDepth_add bitNum level, Nat.add_sub_cancel_left]

theorem entryOf_lt (inside : levelDepth bitNum level ≤ 32) (y : UINT) :
    entryOf bitNum y level < 2 ^ bitNum level := by
  rw [← levelDepth_sub_upDepth bitNum level]
  exact entryIndex_lt (upDepth_le_levelDepth bitNum level) inside y

theorem entryIndex_onPath (inside : levelDepth bitNum level ≤ 32)
    (onPath : Follows bitNum level y ip) :
    entryIndex y (upDepth bitNum level) (levelDepth bitNum level) =
      entryIndex ip (upDepth bitNum level) (levelDepth bitNum level) :=
  have nested := upDepth_le_levelDepth bitNum level
  (entryIndex_eq_iff nested inside (leading_eq_of_le nested inside onPath)).mpr onPath

/-- How a change of single entries changes a match. -/
def Overlays (bitNum : Nat → Nat) (left level depth : Nat) (new : Option (Nat × UINT64))
    (step : Dlpm64bEntry → Dlpm64bEntry × BsStatus) : Prop :=
  ∀ entry, Fits bitNum left level entry →
    (step entry).2 = .ok ∧ Fits bitNum left level (step entry).1 ∧
      ∀ y, entryMatch bitNum y left level (step entry).1 =
        overlay depth new (entryMatch bitNum y left level entry)

section Loops

variable {new : Option (Nat × UINT64)} {step : Dlpm64bEntry → Dlpm64bEntry × BsStatus}
  (steps : Overlays bitNum left level depth new step) (fits : ∀ i, Fits bitNum left level (entrys i))

include steps fits

theorem forEntrys_match (start num : Nat) :
    ∃ stepped, forEntrys step start num entrys = (stepped, .ok) ∧ (∀ i, Fits bitNum left level (stepped i)) ∧
      ∀ y, dlpm64bMatch bitNum y (left + 1) level stepped =
        if start ≤ entryOf bitNum y level ∧
            entryOf bitNum y level < start + num then
          overlay depth new (dlpm64bMatch bitNum y (left + 1) level entrys)
        else
          dlpm64bMatch bitNum y (left + 1) level entrys := by
  refine ⟨_, forEntrys_eq num start entrys fun j _ => (steps _ (fits j)).1, fun i => ?_,
    fun y => ?_⟩
  · split
    · exact (steps _ (fits i)).2.1
    · exact fits i
  simp only [dlpm64bMatch_succ]
  split
  · exact (steps _ (fits _)).2.2 y
  · rfl

theorem forEntrys_shallow (last : levelDepth bitNum (level + left) = 32)
    (masked : ip &&& prefix2Mask depth = ip) (shallow : depth ≤ upDepth bitNum level)
    (positive : depth = 0 → new = none) :
    ∃ stepped,
      forEntrys step (entryOf bitNum ip level)
          (entryNum (levelDepth bitNum level) depth (bitNum level)) entrys = (stepped, .ok) ∧
        (∀ i, Fits bitNum left level (stepped i)) ∧
        ∀ y, dlpm64bMatch bitNum y (left + 1) level stepped =
          overlay depth new (dlpm64bMatch bitNum y (left + 1) level entrys) := by
  obtain ⟨stepped, result, stillFits, matches_⟩ := forEntrys_match steps fits
    (entryOf bitNum ip level)
    (entryNum (levelDepth bitNum level) depth (bitNum level))
  refine ⟨stepped, result, stillFits, fun y => (matches_ y).trans ?_⟩
  have inside := levelDepth_inside last
  have nested := upDepth_le_levelDepth bitNum level
  rcases Nat.eq_zero_or_pos depth with zero | _
  · -- The width of the loop does not matter: there is nothing a prefix of
    -- depth zero could replace.
    split
    · rfl
    rw [overlay, positive zero, zero]
    split
    · next shallow =>
      exact (fits _).positive (le_zero.mp shallow)
    · rfl
  have whole := entryNum_of_shallow shallow nested (by omega)
  rw [levelDepth_sub_upDepth] at whole
  have first : entryOf bitNum ip level = 0 :=
    entryIndex_of_shallow shallow nested inside masked
  have below := entryOf_lt inside y
  rw [if_pos]
  omega

theorem forEntrys_covered (last : levelDepth bitNum (level + left) = 32)
    (masked : ip &&& prefix2Mask depth = ip) (deep : upDepth bitNum level < depth)
    (reached : depth ≤ levelDepth bitNum level) :
    ∃ stepped,
      forEntrys step (entryOf bitNum ip level)
          (entryNum (levelDepth bitNum level) depth (bitNum level)) entrys = (stepped, .ok) ∧
        (∀ i, Fits bitNum left level (stepped i)) ∧
        ∀ y, Meets bitNum level y ip →
          dlpm64bMatch bitNum y (left + 1) level stepped =
            if leading depth y = leading depth ip then
              overlay depth new (dlpm64bMatch bitNum y (left + 1) level entrys)
            else
              dlpm64bMatch bitNum y (left + 1) level entrys := by
  obtain ⟨stepped, result, stillFits, matches_⟩ := forEntrys_match steps fits
    (entryOf bitNum ip level)
    (entryNum (levelDepth bitNum level) depth (bitNum level))
  refine ⟨stepped, result, stillFits, fun y same => (matches_ y).trans ?_⟩
  have inside := levelDepth_inside last
  have covered := mem_entryRange_iff deep.le reached inside (by omega) masked same
  rw [levelDepth_sub_upDepth] at covered
  simp [covered]

end Loops

theorem overlay_cell {new : Option (Nat × UINT64)}
    (fits : Fits bitNum left level (cell state oldDepth oldNexthop))
    (result : entryMatch bitNum y left level entry = new) :
    entryMatch bitNum y left level
        (if oldDepth ≤ depth then entry else cell state oldDepth oldNexthop) =
      overlay depth new (entryMatch bitNum y left level (cell state oldDepth oldNexthop)) := by
  rw [overlay, depthOf_entryMatch_cell fits]
  split
  · exact result
  · rfl

/-- Steps that put `fill` into the shallow entries, and go through the groups. -/
theorem overlays_steps {new : Option (Nat × UINT64)} {fill : Dlpm64bEntry}
    {step : Nat → Nat → Dlpm64bEntry → Dlpm64bEntry × BsStatus}
    (masked : ip &&& prefix2Mask depth = ip) (positive : depth = 0 → new = none)
    (fillFits : ∀ left level, depth ≤ levelDepth bitNum level → Fits bitNum left level fill)
    (isNew : ∀ left level y, entryMatch bitNum y left level fill = new)
    (cells : ∀ left level state oldDepth oldNexthop, step left level (cell state oldDepth oldNexthop) =
      (if oldDepth ≤ depth then fill else cell state oldDepth oldNexthop, .ok))
    (groups : ∀ left level nextEntrys stepped, depth ≤ levelDepth bitNum (level + 1) →
      forEntrys (step left (level + 1))
          (entryOf bitNum ip (level + 1))
          (entryNum (levelDepth bitNum (level + 1)) depth (bitNum (level + 1))) nextEntrys =
        (stepped, .ok) →
      step (left + 1) level (group nextEntrys) = (group stepped, .ok))
    (left level : Nat) (last : levelDepth bitNum (level + left) = 32)
    (shallow : depth ≤ levelDepth bitNum level) :
    Overlays bitNum left level depth new (step left level) := by
  intro entry fits
  induction left generalizing level entry with
  | zero =>
    cases entry with
    | cell =>
      rw [cells]
      refine ⟨rfl, ?_, fun y => overlay_cell fits (isNew ..)⟩
      split
      · exact fillFits _ _ shallow
      · exact fits
    | group => exact fits.elim
  | succ left ih =>
    cases entry with
    | cell =>
      rw [cells]
      refine ⟨rfl, ?_, fun y => overlay_cell fits (isNew ..)⟩
      split
      · exact fillFits _ _ shallow
      · exact fits
    | group nextEntrys =>
      have lastBelow := levelDepth_below last
      have above : depth ≤ upDepth bitNum (level + 1) := by rwa [upDepth_succ]
      have reached := le_trans above (upDepth_le_levelDepth bitNum (level + 1))
      have fitsBelow := fits
      obtain ⟨stepped, result, stillFits, matches_⟩ := forEntrys_shallow
        (ih (level + 1) lastBelow reached) fitsBelow lastBelow masked above positive
      rw [groups left level nextEntrys stepped reached result]
      exact ⟨rfl, stillFits, matches_⟩

theorem dlpm64bAddEntry_overlays (alloc : LpmAlloc) (nexthop : UINT64)
    (masked : ip &&& prefix2Mask depth = ip) (positive : 1 ≤ depth) (left level : Nat) (last : levelDepth bitNum (level + left) = 32)
    (shallow : depth ≤ levelDepth bitNum level) :
    Overlays bitNum left level depth (some (depth, nexthop))
      (dlpm64bAddEntry (dlpm64bAddInner bitNum alloc ip depth nexthop left (level + 1))
        depth nexthop) := by
  refine @overlays_steps bitNum ip depth _ _
    (fun left level => dlpm64bAddEntry
      (dlpm64bAddInner bitNum alloc ip depth nexthop left (level + 1)) depth nexthop)
    masked (fun zero => by omega)
    (fun _ _ shallow => fits_cell.mpr ⟨iff_of_true rfl (by omega), shallow⟩) (fun _ _ _ => rfl)
    (fun left level state oldDepth oldNexthop => ?_)
    (fun left level nextEntrys stepped reached result => ?_) left level last shallow
  · rw [dlpm64bAddEntry]
    split <;> rfl
  · simp only [dlpm64bAddEntry, dlpm64bAddInner, if_neg (not_lt.mpr reached), result]

theorem dlpm64bMatch_split (inside : levelDepth bitNum level ≤ 32) :
    dlpm64bMatch bitNum y (left + 1) level (dlpm64bSplit (bitNum level) state oldDepth oldNexthop) =
      if state = .valid then some (oldDepth, oldNexthop) else none := by
  rw [dlpm64bMatch_succ, dlpm64bSplit]
  by_cases valid : state = .valid
  · rw [if_pos ⟨valid, entryOf_lt inside y⟩, if_pos valid, entryMatch_cell, if_pos rfl]
  · rw [if_neg fun both => valid both.1, if_neg valid, dlpm64bAllocEntry]
    split <;> rfl

theorem dlpm64bSplit_fits {bits below : Nat}
    (fits : Fits bitNum left level (cell state oldDepth oldNexthop)) (i : Nat) :
    Fits bitNum below (level + 1) (dlpm64bSplit bits state oldDepth oldNexthop i) := by
  obtain ⟨positive, bounded⟩ := fits_cell.mp fits
  rw [dlpm64bSplit]
  split
  · next both =>
    exact fits_cell.mpr ⟨iff_of_true rfl (positive.mp both.1),
      le_trans bounded (levelDepth_le (le_succ level))⟩
  rw [dlpm64bAllocEntry]
  split
  · exact fits_cell.mpr
      ⟨iff_of_false nofun fun nonzero => nonzero rfl, zero_le _⟩
  · exact Fits.zero

theorem dlpm64bMatch_update (inside : levelDepth bitNum level ≤ 32)
    (same : Meets bitNum level y ip) :
    dlpm64bMatch bitNum y (left + 1) level
        (update entrys (entryOf bitNum ip level) entry) =
      if Follows bitNum level y ip then
        entryMatch bitNum y left level entry
      else
        dlpm64bMatch bitNum y (left + 1) level entrys := by
  have index := entryIndex_eq_iff (upDepth_le_levelDepth bitNum level) inside same
  rw [dlpm64bMatch_succ, update_apply, dlpm64bMatch_succ]
  simp only [index]
  split <;> rfl

theorem update_fits {index : Nat} (fits : ∀ i, Fits bitNum left level (entrys i))
    (fitsEntry : Fits bitNum left level entry) (i : Nat) :
    Fits bitNum left level (update entrys index entry i) := by
  rw [update_apply]
  split
  · exact fitsEntry
  · exact fits i

/-- How adding a prefix to a table changes the matches of the addresses that
reach the table; where an allocation fails, it changes none. -/
def AddsPrefix (bitNum : Nat → Nat) (ip : UINT) (depth : Nat) (nexthop : UINT64)
    (left level : Nat) (entrys : Nat → Dlpm64bEntry)
    (added : (Nat → Dlpm64bEntry) × BsStatus) : Prop :=
  (∀ i, Fits bitNum left level (added.1 i)) ∧
    ∀ y, leading (upDepth bitNum level) y = leading (upDepth bitNum level) ip →
      dlpm64bMatch bitNum y (left + 1) level added.1 =
        if added.2 = .ok ∧ leading depth y = leading depth ip then
          overlay depth (some (depth, nexthop)) (dlpm64bMatch bitNum y (left + 1) level entrys)
        else
          dlpm64bMatch bitNum y (left + 1) level entrys

variable (masked : ip &&& prefix2Mask depth = ip)
  (fits : ∀ i, Fits bitNum left level (entrys i)) (last : levelDepth bitNum (level + left) = 32)
  (deep : upDepth bitNum level < depth)

include masked fits last deep in
theorem dlpm64bAddInner_reached (reached : depth ≤ levelDepth bitNum level) :
    AddsPrefix bitNum ip depth nexthop left level entrys
      (dlpm64bAddInner bitNum alloc ip depth nexthop (left + 1) level entrys) := by
  obtain ⟨added, result, stillFits, matches_⟩ := forEntrys_covered
    (dlpm64bAddEntry_overlays alloc nexthop masked (by omega) left level last reached) fits last masked deep reached
  have inner : dlpm64bAddInner bitNum alloc ip depth nexthop (left + 1) level entrys =
      (added, .ok) := by
    rw [dlpm64bAddInner, if_neg (by omega)]
    exact result
  rw [inner]
  refine ⟨stillFits, fun y same => ?_⟩
  simp [matches_ y same]

theorem AddsPrefix.update {nextEntrys : Nat → Dlpm64bEntry}
    {added : (Nat → Dlpm64bEntry) × BsStatus}
    (below : AddsPrefix bitNum ip depth nexthop left (level + 1) nextEntrys added)
    (fits : ∀ i, Fits bitNum (left + 1) level (entrys i)) (inside : levelDepth bitNum level ≤ 32)
    (further : levelDepth bitNum level < depth) (whole : depth ≤ 32)
    (kept : ∀ y, dlpm64bMatch bitNum y (left + 1) (level + 1) nextEntrys =
      entryMatch bitNum y (left + 1) level
        (entrys (entryIndex ip (upDepth bitNum level) (levelDepth bitNum level)))) :
    AddsPrefix bitNum ip depth nexthop (left + 1) level entrys
      (update entrys (entryOf bitNum ip level)
        (group added.1), added.2) := by
  obtain ⟨fitsBelow, matchesBelow⟩ := below
  refine ⟨update_fits fits fitsBelow, fun y same => ?_⟩
  rw [dlpm64bMatch_update inside same]
  split
  · next onPath =>
    have belowPath := matchesBelow y (meets_succ.mpr onPath)
    rw [kept, ← entryIndex_onPath inside onPath, ← dlpm64bMatch_succ] at belowPath
    exact belowPath
  next offPath =>
  rw [if_neg]
  rintro ⟨-, covered⟩
  exact offPath (leading_eq_of_le further.le whole covered)

include masked fits last deep in
theorem dlpm64bAddInner_deep (whole : depth ≤ 32) :
    AddsPrefix bitNum ip depth nexthop left level entrys
      (dlpm64bAddInner bitNum alloc ip depth nexthop (left + 1) level entrys) := by
  induction left generalizing level entrys with
  | zero => exact dlpm64bAddInner_reached masked fits last deep (by rw [add_zero] at last; omega)
  | succ left ih =>
    have inside := levelDepth_inside last
    rcases lt_or_ge (levelDepth bitNum level) depth with further | reached
    · have lastBelow := levelDepth_below last
      have deepBelow : upDepth bitNum (level + 1) < depth := by rwa [upDepth_succ]
      rw [dlpm64bAddInner, if_pos further]
      split
      · next nextEntrys found =>
        have fitsEntry := fits (entryOf bitNum ip level)
        rw [found] at fitsEntry
        refine (ih fitsEntry lastBelow deepBelow).update
          fits inside further whole fun y => ?_
        rw [found]
        rfl
      next state oldDepth oldNexthop found =>
      have fitsEntry := fits (entryOf bitNum ip level)
      rw [found] at fitsEntry
      split
      · refine (ih (dlpm64bSplit_fits fitsEntry) lastBelow deepBelow).update
          fits inside further whole fun y => ?_
        rw [found, entryMatch_cell, dlpm64bMatch_split (levelDepth_inside lastBelow)]
      · exact ⟨fits, fun y _ => (if_neg fun both => by cases both.1).symm⟩
    · exact dlpm64bAddInner_reached masked fits last deep reached

variable (proper : newDepth = 0 → newNexthop = 0) (shorter : newDepth ≤ depth)

include masked proper shorter in
theorem dlpm64bDelEntry_overlays
    (positive : depth = 0 → newMatch newDepth newNexthop = none) (left level : Nat)
    (last : levelDepth bitNum (level + left) = 32) (shallow : depth ≤ levelDepth bitNum level) :
    Overlays bitNum left level depth (newMatch newDepth newNexthop)
      (dlpm64bDelEntry (dlpm64bDelInner bitNum ip depth newDepth newNexthop left (level + 1))
        depth newDepth newNexthop) := by
  refine @overlays_steps bitNum ip depth _ _
    (fun left level => dlpm64bDelEntry
      (dlpm64bDelInner bitNum ip depth newDepth newNexthop left (level + 1)) depth newDepth newNexthop)
    masked positive (fun _ _ shallow => newState_fits proper (le_trans shorter shallow))
    (fun _ _ _ => entryMatch_newState) (fun left level state oldDepth oldNexthop => ?_)
    (fun left level nextEntrys stepped reached result => ?_) left level last shallow
  · rw [dlpm64bDelEntry]
    split <;> rfl
  · simp only [dlpm64bDelEntry, dlpm64bDelInner, if_neg (not_lt.mpr reached), result]

theorem depthOf_dlpm64bMatch_of_canRecycle {toState : LpmEntryState}
    (recycled : dlpm64bCanRecycle bitNum level entrys toState = true)
    (inside : levelDepth bitNum level ≤ 32) :
    depthOf (dlpm64bMatch bitNum y (left + 1) level entrys) ≤ upDepth bitNum level := by
  have single := List.all_eq_true.mp recycled _ (List.mem_range.mpr (entryOf_lt inside y))
  rw [dlpm64bMatch_succ]
  split at single
  · cases single
  next state oldDepth oldNexthop found =>
  rw [found, entryMatch_cell]
  split
  · exact of_decide_eq_true (Bool.and_eq_true_iff.mp single).1
  · exact zero_le _

/-- A table after a delete gives every address that reaches it its match in
`target`. -/
def Matches (bitNum : Nat → Nat) (ip : UINT) (left level : Nat)
    (target : UINT → Option (Nat × UINT64)) (entrys : Nat → Dlpm64bEntry) : Prop :=
  (∀ i, Fits bitNum left level (entrys i)) ∧
    ∀ y, leading (upDepth bitNum level) y = leading (upDepth bitNum level) ip →
      dlpm64bMatch bitNum y (left + 1) level entrys = target y

/-- The matches that deleting a prefix is to leave, and that a block of them no
deeper than the block itself is all the entry of the deleted prefix. -/
structure Deletes (ip : UINT) (depth : Nat) (new : Option (Nat × UINT64))
    (old target : UINT → Option (Nat × UINT64)) (bound : Nat) : Prop where
  expected : ∀ y, leading bound y = leading bound ip →
    target y = if leading depth y = leading depth ip then overlay depth new (old y) else old y
  absent : depthOf (old ip) < depth → new = old ip
  collapse : ∀ block, block < depth →
    (∀ y, leading block y = leading block ip → depthOf (target y) ≤ block) →
    ∀ y, leading block y = leading block ip → target y = new

include masked fits last deep proper shorter in
theorem dlpm64bDelInner_reached (reached : depth ≤ levelDepth bitNum level)
    (deletes : Deletes ip depth (newMatch newDepth newNexthop) (fun y => dlpm64bMatch bitNum y (left + 1) level entrys) target (upDepth bitNum level)) :
    Matches bitNum ip left level target
      (dlpm64bDelInner bitNum ip depth newDepth newNexthop (left + 1) level entrys) := by
  obtain ⟨deleted, result, stillFits, matches_⟩ := forEntrys_covered
    (dlpm64bDelEntry_overlays masked proper shorter (fun zero => by omega) left level last reached)
    fits last masked deep reached
  have inner : dlpm64bDelInner bitNum ip depth newDepth newNexthop (left + 1) level entrys =
      deleted := by
    rw [dlpm64bDelInner, if_neg (by omega), result]
  rw [inner]
  exact ⟨stillFits, fun y same => by rw [matches_ y same, deletes.expected y same]⟩

include fits in
theorem Deletes.matches_cell {new : Option (Nat × UINT64)}
    (found : entrys (entryOf bitNum ip level) = cell state oldDepth oldNexthop)
    (inside : levelDepth bitNum level ≤ 32) (further : levelDepth bitNum level < depth)
    (whole : depth ≤ 32)
    (deletes : Deletes ip depth new (fun y => dlpm64bMatch bitNum y (left + 1) level entrys) target (upDepth bitNum level)) :
    Matches bitNum ip left level target entrys := by
  have fitsEntry := fits (entryOf bitNum ip level)
  rw [found] at fitsEntry
  have onPath : ∀ y, Follows bitNum level y ip →
      dlpm64bMatch bitNum y (left + 1) level entrys =
        entryMatch bitNum ip left level (cell state oldDepth oldNexthop) := fun y same => by
    rw [dlpm64bMatch_succ, entryIndex_onPath inside same, found, entryMatch_cell, entryMatch_cell]
  have bounded := (fits_cell.mp fitsEntry).2
  have short : depthOf (dlpm64bMatch bitNum ip (left + 1) level entrys) < depth := by
    rw [onPath ip rfl, depthOf_entryMatch_cell fitsEntry]
    omega
  refine ⟨fits, fun y same => ?_⟩
  rw [deletes.expected y same]
  split
  · next covered =>
    rw [overlay, deletes.absent short, onPath y (leading_eq_of_le further.le whole covered),
      onPath ip rfl]
    split <;> rfl
  · rfl

theorem Deletes.below {new : Option (Nat × UINT64)} {nextEntrys : Nat → Dlpm64bEntry}
    (deletes : Deletes ip depth new (fun y => dlpm64bMatch bitNum y (left + 2) level entrys) target (upDepth bitNum level))
    (inside : levelDepth bitNum level ≤ 32)
    (found : entrys (entryOf bitNum ip level) = group nextEntrys) :
    Deletes ip depth new (fun y => dlpm64bMatch bitNum y (left + 1) (level + 1) nextEntrys)
      target (upDepth bitNum (level + 1)) := by
  have nested := upDepth_le_levelDepth bitNum level
  have onPath : ∀ y, Follows bitNum level y ip →
      Meets bitNum level y ip ∧
        dlpm64bMatch bitNum y (left + 2) level entrys =
          dlpm64bMatch bitNum y (left + 1) (level + 1) nextEntrys := fun y same =>
    ⟨leading_eq_of_le nested inside same, by
      rw [dlpm64bMatch_succ, entryIndex_onPath inside same, found, entryMatch]⟩
  refine ⟨fun y same => ?_, fun short => ?_, deletes.collapse⟩
  · obtain ⟨sameUp, matches_⟩ := onPath y (meets_succ.mp same)
    rw [← matches_]
    exact deletes.expected y sameUp
  · rw [← (onPath ip rfl).2] at short ⊢
    exact deletes.absent short

include fits in
theorem Deletes.matches_update {new : Option (Nat × UINT64)}
    (deletes : Deletes ip depth new (fun y => dlpm64bMatch bitNum y (left + 1) level entrys) target (upDepth bitNum level))
    (fitsEntry : Fits bitNum left level entry)
    (inside : levelDepth bitNum level ≤ 32) (further : levelDepth bitNum level < depth)
    (whole : depth ≤ 32)
    (onPath : ∀ y, Follows bitNum level y ip → entryMatch bitNum y left level entry = target y) :
    Matches bitNum ip left level target
      (update entrys (entryOf bitNum ip level) entry) := by
  refine ⟨update_fits fits fitsEntry, fun y same => ?_⟩
  rw [dlpm64bMatch_update inside same]
  split
  · next path => exact onPath y path
  next offPath =>
  rw [deletes.expected y same, if_neg]
  intro covered
  exact offPath (leading_eq_of_le further.le whole covered)

include masked fits last deep proper shorter in
theorem dlpm64bDelInner_deep (whole : depth ≤ 32)
    (deletes : Deletes ip depth (newMatch newDepth newNexthop) (fun y => dlpm64bMatch bitNum y (left + 1) level entrys) target (upDepth bitNum level)) :
    Matches bitNum ip left level target
      (dlpm64bDelInner bitNum ip depth newDepth newNexthop (left + 1) level entrys) := by
  induction left generalizing level entrys with
  | zero =>
    exact dlpm64bDelInner_reached masked fits last deep proper shorter
      (by rw [add_zero] at last; omega) deletes
  | succ left ih =>
    have inside := levelDepth_inside last
    rcases lt_or_ge (levelDepth bitNum level) depth with further | reached
    · have lastBelow := levelDepth_below last
      have deepBelow : upDepth bitNum (level + 1) < depth := by rwa [upDepth_succ]
      rw [dlpm64bDelInner, if_pos further]
      split
      · next state oldDepth oldNexthop found =>
        exact Deletes.matches_cell fits found inside further whole deletes
      next nextEntrys found =>
      have fitsEntry := fits (entryOf bitNum ip level)
      rw [found] at fitsEntry
      have deleted := ih fitsEntry lastBelow deepBelow
        (deletes.below inside found)
      simp only
      split
      · next recycled =>
        have shallow : ∀ y, Follows bitNum level y ip →
            depthOf (target y) ≤ levelDepth bitNum level := fun y same => by
          rw [← deleted.2 y (meets_succ.mpr same), ← upDepth_succ bitNum level]
          exact depthOf_dlpm64bMatch_of_canRecycle recycled (levelDepth_inside lastBelow)
        have uniform := deletes.collapse _ further shallow
        have bounded : newDepth ≤ levelDepth bitNum level := by
          rw [← depthOf_newMatch newDepth newNexthop, ← uniform ip rfl]
          exact shallow ip rfl
        exact Deletes.matches_update fits deletes (newState_fits proper bounded) inside further whole
          fun y same => entryMatch_newState.trans (uniform y same).symm
      · refine Deletes.matches_update fits deletes deleted.1 inside further whole fun y same => ?_
        exact deleted.2 y (meets_succ.mpr same)
    · exact dlpm64bDelInner_reached masked fits last deep proper shorter reached deletes

end MyCode.Lpm
