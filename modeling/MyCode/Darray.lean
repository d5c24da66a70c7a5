import MyCode.Types

/-!
# Growing arrays

`array/darray_utl.c`.  A slot that holds nothing is NULL.  Memory is there when it is asked
for, but the size of a block is a 32-bit number; `none` is a write outside the block.
-/

namespace MyCode.Darray

open List Option

variable {α : Type}

def DARRAY_INVALID_INDEX : Nat := 0xffffffff

structure DarrayCtrl (α : Type) where
  step_num : Nat
  phArray : List (Option α)

def DarrayCtrl.uiSize (ctrl : DarrayCtrl α) : Nat :=
  ctrl.phArray.length

/-- The slots of 8 bytes in a block of the size that is asked for. -/
def handleSlots (size : Nat) : Nat :=
  size * 8 % 2 ^ 32 / 8

/-- The old slots are copied, the new ones are zeroed. -/
def darrayExpand (ctrl : DarrayCtrl α) (uiNewSize : Nat) : Option (DarrayCtrl α) :=
  if ctrl.uiSize ≥ uiNewSize then
    some ctrl
  else if uiNewSize ≤ handleSlots uiNewSize then
    some { ctrl with phArray := ctrl.phArray ++ replicate (uiNewSize - ctrl.uiSize) none }
  else
    none

def darrayStore (ctrl : DarrayCtrl α) (uiIndex : Nat) (hData : Option α) : Option (DarrayCtrl α) :=
  if uiIndex < ctrl.uiSize then
    some { ctrl with phArray := ctrl.phArray.set uiIndex hData }
  else
    none

def darrayAddToSpace (ctrl : DarrayCtrl α) (hData : α) : Option (DarrayCtrl α × Nat) :=
  match ctrl.phArray.findIdx? isNone with
  | some i => some ({ ctrl with phArray := ctrl.phArray.set i (some hData) }, i)
  | none => none

def darrayExpandAndAdd (ctrl : DarrayCtrl α) (hData : α) : Option (DarrayCtrl α × Nat) := do
  let uiIndex := ctrl.uiSize
  let ctrl ← darrayExpand ctrl ((ctrl.uiSize + ctrl.step_num) % 2 ^ 32)
  let ctrl ← darrayStore ctrl uiIndex (some hData)
  some (ctrl, uiIndex)

def darrayCreate (init_num step_num : Nat) : DarrayCtrl α :=
  { step_num := if step_num = 0 then 128 else step_num
    phArray := replicate init_num none }

def darrayAdd (ctrl : DarrayCtrl α) (hData : α) : Option (DarrayCtrl α × Nat) :=
  match darrayAddToSpace ctrl hData with
  | some added => some added
  | none => darrayExpandAndAdd ctrl hData

def darraySet (ctrl : DarrayCtrl α) (uiIndex : Nat) (hData : Option α) : Option (DarrayCtrl α) :=
  if uiIndex ≥ ctrl.uiSize then do
    let ctrl ← darrayExpand ctrl ((uiIndex + 1) % 2 ^ 32)
    darrayStore ctrl uiIndex hData
  else
    darrayStore ctrl uiIndex hData

def darrayGet (ctrl : DarrayCtrl α) (uiIndex : Nat) : Option α :=
  ctrl.phArray[uiIndex]?.join

variable {ctrl : DarrayCtrl α} {elements : List α} {free i : Nat} {x : α}

/-- The elements stand in the first slots, the other slots are free. -/
def Filled (ctrl : DarrayCtrl α) (elements : List α) (free : Nat) : Prop :=
  ctrl.phArray = elements.map some ++ replicate free none

theorem Filled.uiSize (filled : Filled ctrl elements free) :
    ctrl.uiSize = elements.length + free := by
  simp [DarrayCtrl.uiSize, show ctrl.phArray = _ from filled]

theorem Filled.get (filled : Filled ctrl elements free) (i : Nat) :
    darrayGet ctrl i = elements[i]? := by
  rw [darrayGet, show ctrl.phArray = _ from filled]
  by_cases inside : i < elements.length
  · rw [getElem?_append_left (by simpa using inside)]
    simp [inside]
  rw [getElem?_append_right (by simpa using inside), getElem?_replicate]
  rw [getElem?_eq_none (by omega)]
  split <;> rfl

theorem darrayStore_inside {hData : Option α} (inside : i < ctrl.uiSize) :
    darrayStore ctrl i hData = some { ctrl with phArray := ctrl.phArray.set i hData } :=
  if_pos inside

theorem darraySet_inside {hData : Option α} (inside : i < ctrl.uiSize) :
    darraySet ctrl i hData = some { ctrl with phArray := ctrl.phArray.set i hData } := by
  rw [darraySet, if_neg (by omega)]
  exact darrayStore_inside inside

theorem Filled.set (filled : Filled ctrl elements free) (inside : i < elements.length) :
    ∃ after, darraySet ctrl i (some x) = some after ∧
      Filled after (elements.set i x) free ∧ after.step_num = ctrl.step_num := by
  have size := filled.uiSize
  refine ⟨_, darraySet_inside (by omega), ?_, rfl⟩
  rw [Filled, show ctrl.phArray = _ from filled, map_set, set_append_left]
  simpa using inside

theorem Filled.clear {last : α} (filled : Filled ctrl (elements ++ [last]) free) :
    ∃ after, darraySet ctrl elements.length none = some after ∧
      Filled after elements (free + 1) ∧ after.step_num = ctrl.step_num := by
  have size := filled.uiSize
  rw [length_append, length_singleton] at size
  refine ⟨_, darraySet_inside (by omega), ?_, rfl⟩
  rw [Filled, show ctrl.phArray = _ from filled, map_append, append_assoc,
    set_append_right _ _ (by simp)]
  simp [replicate_succ]

theorem Filled.addToSpace (filled : Filled ctrl elements (free + 1)) :
    ∃ after, darrayAdd ctrl x = some (after, elements.length) ∧
      Filled after (elements ++ [x]) free ∧ after.step_num = ctrl.step_num := by
  have found : ctrl.phArray.findIdx? isNone = some elements.length := by
    have noFree : (elements.map some).findIdx? isNone = none := by
      simp [Function.comp_def]
    rw [show ctrl.phArray = _ from filled, findIdx?_append, noFree, replicate_succ]
    simp [findIdx?_cons]
  refine ⟨{ ctrl with phArray := ctrl.phArray.set elements.length (some x) }, ?_, ?_, rfl⟩
  · simp [darrayAdd, darrayAddToSpace, found]
  · rw [Filled, show ctrl.phArray = _ from filled]
    simp [replicate_succ]

theorem Filled.full (filled : Filled ctrl elements 0) : darrayAddToSpace ctrl x = none := by
  have none : ctrl.phArray.findIdx? isNone = none := by
    rw [show ctrl.phArray = _ from filled]
    simp [findIdx?_map, Function.comp_def]
  simp [darrayAddToSpace, none]

theorem handleSlots_fits {size : Nat} (fits : size < 2 ^ 29) : handleSlots size = size := by
  rw [handleSlots]
  omega

theorem Filled.expandAndAdd (filled : Filled ctrl elements 0) (steps : 0 < ctrl.step_num)
    (fits : elements.length + ctrl.step_num < 2 ^ 29) :
    ∃ after, darrayAdd ctrl x = some (after, elements.length) ∧
      Filled after (elements ++ [x]) (ctrl.step_num - 1) ∧ after.step_num = ctrl.step_num := by
  have size := filled.uiSize
  have grown : darrayExpand ctrl ((ctrl.uiSize + ctrl.step_num) % 2 ^ 32) =
      some { ctrl with phArray := ctrl.phArray ++ replicate ctrl.step_num none } := by
    have whole : (ctrl.uiSize + ctrl.step_num) % 2 ^ 32 = ctrl.uiSize + ctrl.step_num :=
      Nat.mod_eq_of_lt (by omega)
    rw [whole, darrayExpand, if_neg (by omega), handleSlots_fits (by omega), if_pos (Nat.le_refl _),
      Nat.add_sub_cancel_left]
  obtain ⟨step, array⟩ := ctrl
  have slots : array = elements.map some ++ replicate 0 none := filled
  simp only [DarrayCtrl.uiSize] at grown size steps
  refine ⟨⟨step, (array ++ replicate step none).set array.length (some x)⟩, ?_, ?_, rfl⟩
  · have longer : (DarrayCtrl.mk step array).uiSize <
        (DarrayCtrl.mk step (array ++ replicate step none)).uiSize := by
      simpa [DarrayCtrl.uiSize] using steps
    have stored := @darrayStore_inside _ _ _ (some x) longer
    simp only [darrayAdd, filled.full, darrayExpandAndAdd, DarrayCtrl.uiSize, grown,
      bind_eq_bind, bind_some] at stored ⊢
    rw [stored, size]
    rfl
  · obtain ⟨more, rfl⟩ : ∃ more, step = more + 1 := ⟨step - 1, by omega⟩
    rw [Filled, set_append_right _ _ (Nat.le_refl _), slots]
    simp [replicate_succ]

theorem Filled.expand_fails (filled : Filled ctrl elements 0) (step : ctrl.step_num = 128)
    (top : elements.length = 2 ^ 29 - 128) : darrayAdd ctrl x = none := by
  have size := filled.uiSize
  have stuck : darrayExpand ctrl ((ctrl.uiSize + ctrl.step_num) % 2 ^ 32) = none := by
    have whole : (ctrl.uiSize + ctrl.step_num) % 2 ^ 32 = 2 ^ 29 := by omega
    have noSlot : handleSlots (2 ^ 29) = 0 := rfl
    rw [whole, darrayExpand, if_neg (by omega), noSlot, if_neg (by omega)]
  simp only [darrayAdd, filled.full, darrayExpandAndAdd, stuck, bind_eq_bind, bind_none]

end MyCode.Darray
