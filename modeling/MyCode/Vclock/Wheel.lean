import MyCode.Vclock.Instance
import MyCode.Lib.HierarchicalWheel
import Mathlib.Data.List.Nodup

/-!
# The wheel between and during steps

`Linked` ties every list to the `pstHead` of its nodes and `AtTick` ties the
six hands and the 32-bit tick counter to one unbounded count of steps.  Every
operation keeps the first; only `VCLOCK_Step` moves the second.
-/

namespace MyCode.Vclock

open Lib.HierarchicalWheel BitVec List Nat

variable {vclock : VclockInstance} {id : NodeId} {node : VclockNode} {now deadline : Nat}

/-- A node is in the list its `pstHead` names, once, and in no other. -/
def Linked (vclock : VclockInstance) : Prop :=
  ∀ id level slot,
    (vclock.stTimerLevel level slot).count id =
      if (vclock.node id).pstHead = some (level, slot) then 1 else 0

/-- The counter and the hands after `now` steps. -/
structure AtTick (vclock : VclockInstance) (now : Nat) : Prop where
  tick : vclock.uiCurrentTick = BitVec.ofNat 32 now
  hands : ∀ level, level < timerTotleLevel →
    vclock.ulCurrentLevelTick level = digit timerScalePerLevel now level

namespace VclockInstance

@[simp]
theorem setNode_node (node : VclockNode) (other : NodeId) :
    (vclock.setNode id node).node other = if other = id then node else vclock.node other := by
  simp [setNode, Function.update_apply]

theorem setNode_node_of_ne {other : NodeId} (different : other ≠ id) (node : VclockNode) :
    (vclock.setNode id node).node other = vclock.node other := by
  rw [setNode_node, if_neg different]

@[simp]
theorem setNode_stTimerLevel (node : VclockNode) :
    (vclock.setNode id node).stTimerLevel = vclock.stTimerLevel := rfl

@[simp]
theorem dllDel_node (level slot : Nat) (other : NodeId) :
    (vclock.dllDel level slot id).node other =
      if other = id then { vclock.node id with pstHead := none } else vclock.node other := by
  simp [dllDel, setList]

@[simp]
theorem dllDelIfInList_node (other : NodeId) :
    (vclock.dllDelIfInList id).node other =
      if other = id then { vclock.node id with pstHead := none } else vclock.node other := by
  unfold dllDelIfInList
  cases linked : (vclock.node id).pstHead with
  | none =>
    simp only
    split
    · next same => rw [same, ← linked]
    · rfl
  | some => simp

@[simp]
theorem dllAddToHead_node (level slot : Nat) (other : NodeId) :
    (vclock.dllAddToHead level slot id).node other =
      if other = id then { vclock.node id with pstHead := some (level, slot) }
      else vclock.node other := by
  simp [dllAddToHead, setList]

theorem dllDelIfInList_tick (vclock : VclockInstance) (id : NodeId) :
    (vclock.dllDelIfInList id).uiCurrentTick = vclock.uiCurrentTick ∧
      (vclock.dllDelIfInList id).ulCurrentLevelTick = vclock.ulCurrentLevelTick := by
  unfold dllDelIfInList
  split <;> exact ⟨rfl, rfl⟩

end VclockInstance

open VclockInstance

section

variable (linked : Linked vclock)

include linked

theorem Linked.mem_iff (level slot : Nat) :
    id ∈ vclock.stTimerLevel level slot ↔ (vclock.node id).pstHead = some (level, slot) := by
  rw [← count_pos_iff, linked id level slot]
  split <;> simp_all

theorem Linked.nodup (level slot : Nat) : (vclock.stTimerLevel level slot).Nodup := by
  rw [nodup_iff_count_le_one]
  intro id
  rw [linked id level slot]
  split <;> omega

theorem Linked.setNode (kept : node.pstHead = (vclock.node id).pstHead) :
    Linked (vclock.setNode id node) := by
  intro other level slot
  rw [setNode_stTimerLevel, linked other level slot, setNode_node]
  by_cases same : other = id
  · rw [if_pos same, kept, same]
  · rw [if_neg same]

theorem Linked.dllDel {level slot : Nat} (inList : (vclock.node id).pstHead = some (level, slot)) :
    Linked (vclock.dllDel level slot id) := by
  intro other otherLevel otherSlot
  have counted := linked other otherLevel otherSlot
  simp only [VclockInstance.dllDel, setList, setNode_stTimerLevel]
  by_cases place : otherLevel = level ∧ otherSlot = slot
  · obtain ⟨rfl, rfl⟩ := place
    rw [if_pos ⟨rfl, rfl⟩, count_erase, counted]
    by_cases same : other = id
    · subst same
      simp [inList]
    · simp [same, Ne.symm same]
  rw [if_neg place, counted]
  by_cases same : other = id
  · subst same
    have elsewhere : ¬ (level = otherLevel ∧ slot = otherSlot) := fun both =>
      place ⟨both.1.symm, both.2.symm⟩
    simp [inList, elsewhere]
  · simp [same]

theorem Linked.dllDelIfInList : Linked (vclock.dllDelIfInList id) := by
  unfold VclockInstance.dllDelIfInList
  split
  · exact linked
  · next inList => exact linked.dllDel inList

theorem Linked.dllAddToHead (unlinked : (vclock.node id).pstHead = none) (level slot : Nat) :
    Linked (vclock.dllAddToHead level slot id) := by
  intro other otherLevel otherSlot
  have counted := linked other otherLevel otherSlot
  simp only [VclockInstance.dllAddToHead, setList, setNode_stTimerLevel]
  by_cases place : otherLevel = level ∧ otherSlot = slot
  · obtain ⟨rfl, rfl⟩ := place
    rw [if_pos ⟨rfl, rfl⟩, count_cons, counted]
    by_cases same : other = id
    · subst same
      simp [unlinked]
    · simp [same, Ne.symm same]
  rw [if_neg place, counted]
  by_cases same : other = id
  · subst same
    have elsewhere : ¬ (level = otherLevel ∧ slot = otherSlot) := fun both =>
      place ⟨both.1.symm, both.2.symm⟩
    simp [unlinked, elsewhere]
  · simp [same]

end

theorem vclockTimerLevel_spec :
    ∀ (fuel level distance : Nat), distance < timerScalePerLevel ^ (fuel + 1) →
      ∃ climbed, vclockTimerLevel fuel level distance =
          (level + climbed, distance / timerScalePerLevel ^ climbed) ∧
        (climbed = 0 ∨ timerScalePerLevel ^ climbed ≤ distance) ∧
        distance < timerScalePerLevel ^ (climbed + 1) := by
  intro fuel
  induction fuel with
  | zero =>
    intro level distance bounded
    exact ⟨0, by simp [vclockTimerLevel], Or.inl rfl, bounded⟩
  | succ fuel ih =>
    intro level distance bounded
    have positive : 0 < timerScalePerLevel := by decide
    rw [vclockTimerLevel]
    split
    · next further =>
      have smaller : distance / timerScalePerLevel < timerScalePerLevel ^ (fuel + 1) := by
        rw [Nat.div_lt_iff_lt_mul positive, ← pow_succ]
        exact bounded
      obtain ⟨climbed, result, lower, upper⟩ :=
        ih (level + 1) (distance / timerScalePerLevel) smaller
      refine ⟨climbed + 1, ?_, Or.inr ?_, ?_⟩
      · rw [result, Nat.div_div_eq_div_mul, ← Nat.pow_succ', Nat.add_right_comm, Nat.add_assoc]
      · have bound : timerScalePerLevel ^ climbed ≤ distance / timerScalePerLevel := by
          rcases lower with rfl | lower
          · exact one_le_iff_ne_zero.mpr further
          · exact lower
        exact (le_div_iff_mul_le positive).mp bound
      · exact (Nat.div_lt_iff_lt_mul positive).mp upper
    · next stays =>
      refine ⟨0, by simp, Or.inl rfl, ?_⟩
      have small := Decidable.not_not.mp stays
      exact (div_eq_zero_iff_lt positive).mp small

theorem vclockTimerAdd_node_of_ne {other : NodeId} (different : other ≠ id) (uiTick : UINT) :
    (vclockTimerAdd vclock id uiTick).node other = vclock.node other := by
  simp [vclockTimerAdd, different]

theorem vclockTimerAdd_flag (vclock : VclockInstance) (id : NodeId) (uiTick : UINT)
    (other : NodeId) :
    ((vclockTimerAdd vclock id uiTick).node other).flag = (vclock.node other).flag ∧
      ((vclockTimerAdd vclock id uiTick).node other).ulTick = (vclock.node other).ulTick := by
  by_cases same : other = id
  · subst same
    simp [vclockTimerAdd]
  · rw [vclockTimerAdd_node_of_ne same]
    exact ⟨rfl, rfl⟩

theorem vclockTimerAdd_stTimerLevel (unlinked : (vclock.node id).pstHead = none) (uiTick : UINT)
    {level slot : Nat}
    (elsewhere : ((vclockTimerAdd vclock id uiTick).node id).pstHead ≠ some (level, slot)) :
    (vclockTimerAdd vclock id uiTick).stTimerLevel level slot =
      vclock.stTimerLevel level slot := by
  have detached : vclock.dllDelIfInList id = vclock := by
    rw [VclockInstance.dllDelIfInList, unlinked]
  simp only [Vclock.vclockTimerAdd, detached, dllAddToHead_node, if_true] at elsewhere ⊢
  simp only [dllAddToHead, setList, setNode_stTimerLevel]
  rw [if_neg]
  rintro ⟨rfl, rfl⟩
  exact elsewhere rfl

theorem Linked.vclockTimerAdd (linked : Linked vclock) (uiTick : UINT) :
    Linked (vclockTimerAdd vclock id uiTick) := by
  refine Linked.dllAddToHead ?_ (by simp) _ _
  exact linked.dllDelIfInList.setNode (by simp)

theorem AtTick.setNode (atTick : AtTick vclock now) (node : VclockNode) :
    AtTick (vclock.setNode id node) now :=
  ⟨atTick.tick, atTick.hands⟩

theorem AtTick.dllDelIfInList (atTick : AtTick vclock now) :
    AtTick (vclock.dllDelIfInList id) now := by
  obtain ⟨sameTick, sameHands⟩ := dllDelIfInList_tick vclock id
  exact ⟨sameTick.trans atTick.tick, fun level bounded => by
    rw [sameHands]; exact atTick.hands level bounded⟩

theorem AtTick.vclockTimerAdd (atTick : AtTick vclock now) (uiTick : UINT) :
    AtTick (vclockTimerAdd vclock id uiTick) now :=
  ⟨atTick.dllDelIfInList.tick, atTick.dllDelIfInList.hands⟩

/-- The node waits for the step `deadline`. -/
structure VclockNode.Armed (node : VclockNode) (now deadline : Nat) : Prop where
  place : ∃ level slot, level < timerTotleLevel ∧ node.pstHead = some (level, slot) ∧
    Placed timerScalePerLevel now deadline level slot
  trigger : node.uiTriggerTick = BitVec.ofNat 32 deadline
  horizon : deadline < now + 2 ^ 32

def VclockNode.Due (node : VclockNode) (now : Nat) : Prop :=
  node.pstHead = some (0, digit timerScalePerLevel now 0)

theorem VclockNode.Armed.now_lt (armed : node.Armed now deadline) : now < deadline := by
  obtain ⟨_, _, -, -, placed⟩ := armed.place
  exact placed.now_lt

theorem VclockNode.Armed.not_due (armed : node.Armed now deadline) : ¬ node.Due now := by
  obtain ⟨level, slot, -, head, placed⟩ := armed.place
  intro due
  obtain ⟨rfl, rfl⟩ : level = 0 ∧ slot = digit timerScalePerLevel now 0 := by
    simpa [VclockNode.Due, head] using due
  exact placed.slot_ne_digit rfl

theorem vclockTimerAdd_place (atTick : AtTick vclock now) (id : NodeId) (uiTick : UINT) :
    ∃ level, level < timerTotleLevel ∧
      (level = 0 ∨ timerScalePerLevel ^ level ≤ uiTick.toNat) ∧
      uiTick.toNat < timerScalePerLevel ^ (level + 1) ∧
      ((vclockTimerAdd vclock id uiTick).node id).pstHead =
        some (level, (uiTick.toNat / timerScalePerLevel ^ level +
          digit timerScalePerLevel now level) % timerScalePerLevel) := by
  have width : uiTick.toNat < timerScalePerLevel ^ timerTotleLevel :=
    lt_trans uiTick.isLt (by decide)
  obtain ⟨level, result, lower, upper⟩ := vclockTimerLevel_spec timerTotleLevel 0 uiTick.toNat
    (lt_trans width (by decide))
  rw [zero_add] at result
  have inWheel : level < timerTotleLevel := by
    rcases lower with rfl | lower
    · decide
    · exact (Nat.pow_lt_pow_iff_right (by decide)).mp (lt_of_le_of_lt lower width)
  refine ⟨level, inWheel, lower, upper, ?_⟩
  have hand : digit timerScalePerLevel now level < timerScalePerLevel := digit_lt (by decide)
  have rest : uiTick.toNat / timerScalePerLevel ^ level < timerScalePerLevel := by
    rw [Nat.div_lt_iff_lt_mul (Nat.pow_pos (by decide)), ← Nat.pow_succ']
    exact upper
  have sameHand : ((vclock.dllDelIfInList id).setNode id { (vclock.dllDelIfInList id).node id with
        uiTriggerTick := (vclock.dllDelIfInList id).uiCurrentTick + uiTick }
      ).ulCurrentLevelTick level = digit timerScalePerLevel now level :=
    (congrFun (dllDelIfInList_tick vclock id).2 level).trans (atTick.hands level inWheel)
  simp only [Vclock.vclockTimerAdd, result, sameHand, dllAddToHead_node, if_true]
  split
  · next wrapped => rw [mod_eq_sub_mod wrapped, mod_eq_of_lt (by omega)]
  · next inside => rw [mod_eq_of_lt (by omega)]

theorem vclockTimerAdd_trigger (atTick : AtTick vclock now) (uiTick : UINT) :
    ((vclockTimerAdd vclock id uiTick).node id).uiTriggerTick =
      BitVec.ofNat 32 (now + uiTick.toNat) := by
  have distance : BitVec.ofNat 32 uiTick.toNat = uiTick := by simp
  rw [ofNat_add, distance, ← atTick.tick, ← (dllDelIfInList_tick vclock id).1]
  simp [Vclock.vclockTimerAdd]

theorem vclockTimerAdd_armed (atTick : AtTick vclock now) (id : NodeId) {uiTick : UINT}
    (positive : 0 < uiTick.toNat) :
    ((vclockTimerAdd vclock id uiTick).node id).Armed now (now + uiTick.toNat) := by
  obtain ⟨level, inWheel, lower, upper, head⟩ := vclockTimerAdd_place atTick id uiTick
  have reached : timerScalePerLevel ^ level ≤ uiTick.toNat := by
    rcases lower with rfl | lower
    · exact positive
    · exact lower
  exact ⟨⟨level, _, inWheel, head, placed_of_distance reached upper⟩,
    vclockTimerAdd_trigger atTick uiTick, Nat.add_lt_add_left uiTick.isLt now⟩

theorem vclockTimerAdd_due {now : Nat} (atTick : AtTick vclock now) :
    ((vclockTimerAdd vclock id 0).node id).Due now := by
  obtain ⟨level, -, lower, -, head⟩ := vclockTimerAdd_place atTick id 0
  have bottom : level = 0 := by
    rcases lower with bottom | lower
    · exact bottom
    have positive : 0 < timerScalePerLevel ^ level := Nat.pow_pos (by decide)
    simp only [ofNat_eq_ofNat, toNat_ofNat, zero_mod] at lower
    omega
  subst bottom
  have hand : digit timerScalePerLevel now 0 < timerScalePerLevel := digit_lt (by decide)
  simpa [VclockNode.Due, mod_eq_of_lt hand] using head

end MyCode.Vclock
