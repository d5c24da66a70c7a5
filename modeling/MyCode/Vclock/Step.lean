import MyCode.Vclock.Wheel

/-!
# One step of the wheel

The hands move like the digits of a counter, every visited slot above level
zero hands its nodes down, and the firing loop then fires the nodes that are
due.  An armed node stays armed or becomes due, and it becomes due exactly at
its deadline.
-/

namespace MyCode.Vclock

open Lib.HierarchicalWheel VclockInstance Function Nat Option Prod List

variable {vclock : VclockInstance} {id : NodeId} {now deadline : Nat}

/-- The fields only the interface writes are the same. -/
def Kept (before after : VclockInstance) : Prop :=
  ∀ id, (after.node id).flag = (before.node id).flag ∧
    (after.node id).ulTick = (before.node id).ulTick

theorem Kept.trans {before between after : VclockInstance}
    (first : Kept before between) (second : Kept between after) : Kept before after :=
  fun id => ⟨(second id).1.trans (first id).1, (second id).2.trans (first id).2⟩

theorem vclockMoveHands_spec (now : Nat) :
    ∀ (levels i : Nat) (hands : Nat → Nat),
      (∀ level, level < i → hands level = digit timerScalePerLevel (now + 1) level) →
      (∀ level, i ≤ level → level < i + levels → hands level = digit timerScalePerLevel now level) →
      timerScalePerLevel ^ i ∣ now + 1 →
      (∀ level, level < i + levels → (vclockMoveHands levels i hands).1 level =
          digit timerScalePerLevel (now + 1) level) ∧
      (∀ level, level < i + levels → (timerScalePerLevel ^ level ∣ now + 1 ↔
          level ≤ (vclockMoveHands levels i hands).2)) := by
  intro levels
  induction levels with
  | zero =>
    intro i hands moved _ carried
    refine ⟨moved, fun level bounded => ?_⟩
    exact iff_of_true (pow_dvd_of_le_of_pow_dvd bounded.le carried) bounded.le
  | succ _ ih =>
    intro i hands moved unmoved carried
    have hand := unmoved i le_rfl (by omega)
    have bounded : digit timerScalePerLevel now i < timerScalePerLevel := digit_lt (by decide)
    have next := digit_succ_of_dvd carried
    have further := pow_succ_dvd_iff (show 0 < timerScalePerLevel by decide) carried
    rw [vclockMoveHands]
    split
    · next wraps =>
      have exactly : digit timerScalePerLevel now i + 1 = timerScalePerLevel := by omega
      rw [exactly, mod_self] at next
      have result := ih (i + 1) (update hands i 0) (fun level below => by
          rcases Nat.lt_succ_iff_lt_or_eq.mp below with below | rfl
          · rw [update_of_ne below.ne]
            exact moved level below
          · rw [update_self, next])
        (fun level above inside => by
          rw [update_of_ne (by omega)]
          exact unmoved level (by omega) (by omega))
        (further.mpr exactly)
      rwa [add_right_comm, add_assoc] at result
    next stays =>
    have blocked : ¬ timerScalePerLevel ^ (i + 1) ∣ now + 1 := fun divides => by
      omega
    rw [mod_eq_of_lt (by omega)] at next
    have above : ∀ level, i < level → ¬ timerScalePerLevel ^ level ∣ now + 1 :=
      fun level larger divides => blocked (pow_dvd_of_le_of_pow_dvd larger divides)
    refine ⟨fun level inside => ?_, fun level _ => ?_⟩
    · change update hands i (hands i + 1) level = _
      rcases lt_trichotomy level i with below | rfl | larger
      · rw [update_of_ne below.ne]
        exact moved level below
      · rw [update_self, hand, next]
      · rw [update_of_ne larger.ne', digit_succ_of_not_dvd (above level larger)]
        exact unmoved level larger.le inside
    · constructor
      · intro divides
        exact Nat.le_of_not_lt fun larger => above level larger divides
      · intro reached
        exact pow_dvd_of_le_of_pow_dvd reached carried

/-- The node is where it belongs while a step at `now` is under way. -/
def VclockNode.Landed (node : VclockNode) (now deadline : Nat) : Prop :=
  node.Armed now deadline ∨ (node.Due now ∧ deadline = now)

/-- The node waits in a visited slot that is still to be scanned. -/
structure VclockNode.Pending (node : VclockNode) (now deadline top : Nat) : Prop where
  place : ∃ level, 0 < level ∧ level ≤ top ∧
    node.pstHead = some (level, digit timerScalePerLevel now level)
  trigger : node.uiTriggerTick = BitVec.ofNat 32 deadline
  reached : now ≤ deadline
  horizon : deadline < now + 2 ^ 32

/-- `_vclock_timer_add` relative to the moved tick. -/
def readd (vclock : VclockInstance) (id : NodeId) : VclockInstance :=
  vclockTimerAdd vclock id ((vclock.node id).uiTriggerTick - vclock.uiCurrentTick)

theorem readd_landed (atTick : AtTick vclock now)
    (trigger : (vclock.node id).uiTriggerTick = BitVec.ofNat 32 deadline) (reached : now ≤ deadline)
    (horizon : deadline < now + 2 ^ 32) : ((readd vclock id).node id).Landed now deadline := by
  have distance : (vclock.node id).uiTriggerTick - vclock.uiCurrentTick =
      BitVec.ofNat 32 (deadline - now) := by
    rw [trigger, atTick.tick]
    apply BitVec.eq_of_toNat_eq
    simp only [BitVec.toNat_sub, BitVec.toNat_ofNat]
    omega
  rw [readd, distance]
  rcases Nat.eq_zero_or_pos (deadline - now) with none | _
  · rw [none]
    exact Or.inr ⟨vclockTimerAdd_due atTick, by omega⟩
  have size : (BitVec.ofNat 32 (deadline - now)).toNat = deadline - now := by
    rw [BitVec.toNat_ofNat, mod_eq_of_lt (by omega)]
  have armed := vclockTimerAdd_armed atTick id
    (show 0 < (BitVec.ofNat 32 (deadline - now)).toNat by omega)
  rw [size, Nat.add_sub_cancel' reached] at armed
  exact Or.inl armed

theorem foldl_readd_invariant : ∀ (ids : List NodeId) (vclock : VclockInstance),
    Linked vclock → AtTick vclock now →
    Linked (ids.foldl readd vclock) ∧ AtTick (ids.foldl readd vclock) now ∧
      Kept vclock (ids.foldl readd vclock)
  | [], vclock, linked, atTick => ⟨linked, atTick, fun _ => ⟨rfl, rfl⟩⟩
  | id :: ids, vclock, linked, atTick => by
      obtain ⟨stillLinked, stillAtTick, kept⟩ := foldl_readd_invariant ids (readd vclock id)
        (linked.vclockTimerAdd _) (atTick.vclockTimerAdd _)
      exact ⟨stillLinked, stillAtTick, Kept.trans (vclockTimerAdd_flag _ _ _) kept⟩

theorem foldl_readd_node_of_notMem : ∀ (ids : List NodeId) (vclock : VclockInstance),
    id ∉ ids → (ids.foldl readd vclock).node id = vclock.node id
  | [], _, _ => rfl
  | first :: ids, vclock, absent => by
      obtain ⟨different, absent⟩ := (not_or.mp fun either => absent (mem_cons.mpr either))
      exact (foldl_readd_node_of_notMem ids (readd vclock first) absent).trans
        (vclockTimerAdd_node_of_ne different _)

theorem foldl_readd_landed : ∀ (ids : List NodeId) (vclock : VclockInstance),
    AtTick vclock now → id ∈ ids → ids.Nodup →
    (vclock.node id).uiTriggerTick = BitVec.ofNat 32 deadline →
    now ≤ deadline → deadline < now + 2 ^ 32 →
    ((ids.foldl readd vclock).node id).Landed now deadline
  | first :: ids, vclock, atTick, present, distinct, trigger, reached, horizon => by
      obtain ⟨fresh, distinct⟩ := nodup_cons.mp distinct
      by_cases same : id = first
      · subst same
        have untouched := foldl_readd_node_of_notMem ids (readd vclock id) fresh
        rw [foldl_cons, untouched]
        exact readd_landed atTick trigger reached horizon
      have later := (mem_cons.mp present).resolve_left same
      have untouched : (readd vclock first).node id = vclock.node id :=
        vclockTimerAdd_node_of_ne same _
      exact foldl_readd_landed ids (readd vclock first) (atTick.vclockTimerAdd _) later distinct
        (untouched ▸ trigger) reached horizon

theorem vclockCascadeLevel_invariant (i : Nat) (linked : Linked vclock)
    (atTick : AtTick vclock now) :
    Linked (vclockCascadeLevel vclock i) ∧ AtTick (vclockCascadeLevel vclock i) now ∧
      Kept vclock (vclockCascadeLevel vclock i) :=
  foldl_readd_invariant _ vclock linked atTick

theorem vclockCascadeLevel_node {i : Nat} (linked : Linked vclock)
    (elsewhere : (vclock.node id).pstHead ≠ some (i, vclock.ulCurrentLevelTick i)) :
    (vclockCascadeLevel vclock i).node id = vclock.node id :=
  foldl_readd_node_of_notMem _ vclock fun present => elsewhere ((linked.mem_iff _ _).mp present)

theorem vclockCascadeLevel_waits {i : Nat} (linked : Linked vclock) (atTick : AtTick vclock now)
    (inWheel : i + 1 < timerTotleLevel)
    (waits : (vclock.node id).Landed now deadline ∨ (vclock.node id).Pending now deadline (i + 1)) :
    ((vclockCascadeLevel vclock (i + 1)).node id).Landed now deadline ∨
      ((vclockCascadeLevel vclock (i + 1)).node id).Pending now deadline i := by
  have hand := atTick.hands (i + 1) inWheel
  rcases waits with landed | pending
  · have elsewhere :
        (vclock.node id).pstHead ≠ some (i + 1, vclock.ulCurrentLevelTick (i + 1)) := by
      rw [hand]
      intro scanned
      rcases landed with armed | ⟨due, -⟩
      · obtain ⟨level, slot, -, head, placed⟩ := armed.place
        obtain ⟨rfl, rfl⟩ :
            level = i + 1 ∧ slot = digit timerScalePerLevel now (i + 1) := by
          simpa [head] using scanned
        exact placed.slot_ne_digit rfl
      · simp [VclockNode.Due, scanned] at due
    rw [vclockCascadeLevel_node linked elsewhere]
    exact Or.inl landed
  obtain ⟨level, positive, bounded, head⟩ := pending.place
  by_cases scanned : level = i + 1
  · subst scanned
    refine Or.inl (foldl_readd_landed _ vclock atTick ?_ (linked.nodup _ _)
      pending.trigger pending.reached pending.horizon)
    rw [linked.mem_iff, head, hand]
  have elsewhere :
      (vclock.node id).pstHead ≠ some (i + 1, vclock.ulCurrentLevelTick (i + 1)) := by
    rw [head]
    intro same
    exact scanned (mk.inj (some.inj same)).1
  rw [vclockCascadeLevel_node linked elsewhere]
  exact Or.inr ⟨⟨level, positive, by omega, head⟩, pending.trigger, pending.reached,
    pending.horizon⟩

theorem vclockCascade_invariant : ∀ (i : Nat) (vclock : VclockInstance),
    Linked vclock → AtTick vclock now →
    Linked (vclockCascade vclock i) ∧ AtTick (vclockCascade vclock i) now ∧
      Kept vclock (vclockCascade vclock i)
  | 0, _, linked, atTick => ⟨linked, atTick, fun _ => ⟨rfl, rfl⟩⟩
  | i + 1, vclock, linked, atTick => by
      obtain ⟨linked, atTick, kept⟩ := vclockCascadeLevel_invariant (i + 1) linked atTick
      obtain ⟨linked, atTick, keptBelow⟩ := vclockCascade_invariant i _ linked atTick
      exact ⟨linked, atTick, kept.trans keptBelow⟩

theorem vclockCascade_waits : ∀ (i : Nat) (vclock : VclockInstance),
    Linked vclock → AtTick vclock now → i < timerTotleLevel →
    (vclock.node id).Landed now deadline ∨ (vclock.node id).Pending now deadline i →
    ((vclockCascade vclock i).node id).Landed now deadline
  | 0, _, _, _, _, waits => by
      rcases waits with landed | pending
      · exact landed
      · obtain ⟨_, _, _, -⟩ := pending.place
        omega
  | i + 1, vclock, linked, atTick, inWheel, waits => by
      have scanned := vclockCascadeLevel_waits linked atTick inWheel waits
      obtain ⟨linked, atTick, -⟩ := vclockCascadeLevel_invariant (i + 1) linked atTick
      exact vclockCascade_waits i _ linked atTick (by omega) scanned

theorem vclockCascade_node_of_low : ∀ (i : Nat) (vclock : VclockInstance),
    Linked vclock → AtTick vclock now →
    (∀ level slot, (vclock.node id).pstHead ≠ some (level + 1, slot)) →
    (vclockCascade vclock i).node id = vclock.node id
  | 0, _, _, _, _ => rfl
  | i + 1, vclock, linked, atTick, low => by
      have untouched := vclockCascadeLevel_node linked (low i _)
      obtain ⟨linked, atTick, -⟩ := vclockCascadeLevel_invariant (i + 1) linked atTick
      exact (vclockCascade_node_of_low i _ linked atTick
        (by rw [untouched]; exact low)).trans untouched

section

variable (linked : Linked vclock) (atTick : AtTick vclock now)

include linked atTick

theorem vclockStepBegin_spec :
    ∃ moved top, vclockStepBegin vclock = vclockCascade moved top ∧
      Linked moved ∧ AtTick moved (now + 1) ∧ moved.node = vclock.node ∧
      top < timerTotleLevel ∧
      ∀ level, level < timerTotleLevel →
        (timerScalePerLevel ^ level ∣ now + 1 ↔ level ≤ top) := by
  obtain ⟨moved, carried⟩ := vclockMoveHands_spec now timerTotleLevel 0
    vclock.ulCurrentLevelTick (fun level impossible => absurd impossible (not_lt_zero _))
    (fun level _ bounded => atTick.hands level (by simpa using bounded)) (by simp)
  have result : vclockStepBegin vclock = vclockCascade { vclock with
        uiCurrentTick := vclock.uiCurrentTick + 1
        ulCurrentLevelTick := (vclockMoveHands timerTotleLevel 0 vclock.ulCurrentLevelTick).1 }
      (if (vclockMoveHands timerTotleLevel 0 vclock.ulCurrentLevelTick).2 ≥ timerTotleLevel then
        timerTotleLevel - 1
      else
        (vclockMoveHands timerTotleLevel 0 vclock.ulCurrentLevelTick).2) := rfl
  refine ⟨_, _, result, linked, ⟨?_, moved⟩, rfl, ?_, ?_⟩
  · rw [atTick.tick, BitVec.ofNat_add]
    rfl
  · split
    · decide
    · omega
  · intro level bounded
    rw [carried level bounded]
    split <;> omega

theorem vclockStepBegin_invariant :
    Linked (vclockStepBegin vclock) ∧ AtTick (vclockStepBegin vclock) (now + 1) ∧
      Kept vclock (vclockStepBegin vclock) := by
  obtain ⟨moved, top, result, movedLinked, movedAtTick, same, -, -⟩ :=
    vclockStepBegin_spec linked atTick
  obtain ⟨stillLinked, stillAtTick, kept⟩ :=
    vclockCascade_invariant top moved movedLinked movedAtTick
  rw [result]
  exact ⟨stillLinked, stillAtTick, fun id => by rw [← same]; exact kept id⟩

/-- An armed node is armed or due once the step has moved the hands and handed
the visited slots down. -/
theorem vclockStepBegin_landed (armed : (vclock.node id).Armed now deadline) :
    ((vclockStepBegin vclock).node id).Landed (now + 1) deadline := by
  obtain ⟨moved, top, result, movedLinked, movedAtTick, same, inWheel, carried⟩ :=
    vclockStepBegin_spec linked atTick
  rw [result]
  refine vclockCascade_waits top moved movedLinked movedAtTick inWheel ?_
  rw [same]
  obtain ⟨⟨level, slot, bounded, head, placed⟩, trigger, _⟩ := armed
  by_cases visits : Visits timerScalePerLevel (now + 1) level slot
  · obtain ⟨reached, bottom⟩ := placed.visited visits
    obtain ⟨divides, hand⟩ := visits
    rw [← hand] at head
    rcases Nat.eq_zero_or_pos level with zero | positive
    · subst zero
      exact Or.inl (Or.inr ⟨head, (bottom rfl).symm⟩)
    · exact Or.inr ⟨⟨level, positive, (carried level bounded).mp divides, head⟩, trigger,
        reached, by omega⟩
  · exact Or.inl (Or.inl ⟨⟨level, slot, bounded, head, placed.tick visits⟩, trigger, by omega⟩)

theorem vclockStepBegin_node_of_unlinked (unlinked : (vclock.node id).pstHead = none) :
    (vclockStepBegin vclock).node id = vclock.node id := by
  obtain ⟨moved, top, result, movedLinked, movedAtTick, same, -, -⟩ :=
    vclockStepBegin_spec linked atTick
  rw [result, ← same]
  exact vclockCascade_node_of_low top moved movedLinked movedAtTick (by simp [same, unlinked])

end

def VclockNode.Fired (node after : VclockNode) (now : Nat) : Prop :=
  after.flag = node.flag ∧ after.ulTick = node.ulTick ∧
    if node.flag &&& timerFlagCycle ≠ 0 then
      0 < node.ulTick.toNat → after.Armed now (now + node.ulTick.toNat)
    else
      after.pstHead = none

theorem Linked.due_iff (linked : Linked vclock) (atTick : AtTick vclock now) :
    (vclock.node id).Due now ↔ id ∈ vclock.stTimerLevel 0 (vclock.ulCurrentLevelTick 0) := by
  rw [linked.mem_iff, atTick.hands 0 (by decide), VclockNode.Due]

theorem not_due_of_vclockStepFire_eq_none (linked : Linked vclock) (atTick : AtTick vclock now)
    (finished : vclockStepFire vclock = none) : ¬ (vclock.node id).Due now := by
  rw [linked.due_iff atTick]
  unfold vclockStepFire at finished
  split at finished
  · next empty => simp [empty]
  · simp only at finished
    split at finished <;> cases finished

theorem vclockStepFire_of_cons {first : NodeId} {rest : List NodeId} (atTick : AtTick vclock now)
    (list : vclock.stTimerLevel 0 (vclock.ulCurrentLevelTick 0) = first :: rest)
    (period : 0 < (vclock.node first).ulTick.toNat) :
    ∃ fired, vclockStepFire vclock = some (first, fired) ∧
      fired.stTimerLevel 0 (fired.ulCurrentLevelTick 0) = rest := by
  have shorter : (vclock.dllDel 0 (vclock.ulCurrentLevelTick 0) first).stTimerLevel 0
      (vclock.ulCurrentLevelTick 0) = rest := by
    simp [VclockInstance.dllDel, setList, list]
  have unlinkedPeriod :
      0 < ((vclock.dllDel 0 (vclock.ulCurrentLevelTick 0) first).node first).ulTick.toNat := by
    simpa using period
  unfold vclockStepFire
  rw [list]
  simp only
  split
  · next cyclic =>
    refine ⟨_, rfl, ?_⟩
    have stillAtTick : AtTick (vclock.dllDel 0 (vclock.ulCurrentLevelTick 0) first) now :=
      ⟨atTick.tick, atTick.hands⟩
    have again := (vclockTimerAdd_armed stillAtTick first unlinkedPeriod).not_due
    rw [VclockNode.Due, ← stillAtTick.hands 0 (by decide)] at again
    rw [(stillAtTick.vclockTimerAdd _).hands 0 (by decide), ← stillAtTick.hands 0 (by decide),
      vclockTimerAdd_stTimerLevel (by simp) _ again]
    exact shorter
  · exact ⟨_, rfl, shorter⟩

theorem vclockStepFire_spec {first : NodeId} {fired : VclockInstance} (linked : Linked vclock)
    (atTick : AtTick vclock now) (fires : vclockStepFire vclock = some (first, fired)) :
    Linked fired ∧ AtTick fired now ∧ (vclock.node first).Due now ∧
      (vclock.node first).Fired (fired.node first) now ∧
      ∀ other, other ≠ first → fired.node other = vclock.node other := by
  have hand := atTick.hands 0 (by decide)
  unfold vclockStepFire at fires
  split at fires
  · cases fires
  next head rest list =>
  have inList : (vclock.node head).pstHead = some (0, vclock.ulCurrentLevelTick 0) := by
    rw [← linked.mem_iff, list]
    exact mem_cons_self ..
  have due : (vclock.node head).Due now := by rw [VclockNode.Due, inList, hand]
  have unlinked := linked.dllDel inList
  have stillAtTick : AtTick (vclock.dllDel 0 (vclock.ulCurrentLevelTick 0) head) now :=
    ⟨atTick.tick, atTick.hands⟩
  simp only at fires
  split at fires
  · next cyclic =>
    obtain ⟨rfl, rfl⟩ := mk.inj (some.inj fires)
    refine ⟨unlinked.vclockTimerAdd _, stillAtTick.vclockTimerAdd _, due, ⟨?_, ?_, ?_⟩, ?_⟩
    · simp [(vclockTimerAdd_flag _ _ _ _).1]
    · simp [(vclockTimerAdd_flag _ _ _ _).2]
    · rw [if_pos (by simpa using cyclic)]
      intro positive
      have unlinkedPeriod : 0 <
          ((vclock.dllDel 0 (vclock.ulCurrentLevelTick 0) head).node head).ulTick.toNat := by
        simpa using positive
      simpa using vclockTimerAdd_armed stillAtTick head unlinkedPeriod
    · intro other different
      rw [vclockTimerAdd_node_of_ne different]
      simp [different]
  next once =>
  obtain ⟨rfl, rfl⟩ := mk.inj (some.inj fires)
  refine ⟨unlinked, ⟨atTick.tick, atTick.hands⟩, due, ⟨by simp, by simp, ?_⟩, ?_⟩
  · rw [if_neg (by simpa using once)]
    simp
  · intro other different
    simp [different]

end MyCode.Vclock
