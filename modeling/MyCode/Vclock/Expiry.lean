import MyCode.Vclock.Step

/-!
# When a timer expires

A timer that no call touches fires exactly at its deadline, and a cyclic one
then every `ulTick` steps, whatever the calls and the callbacks do to the
other timers.
-/

namespace MyCode.Vclock

open Lib.HierarchicalWheel VclockInstance List Nat Option

variable {vclock after : VclockInstance} {id : NodeId} {now : Nat}
  {allowed : VclockCall → Prop}

theorem vclockRestartWithTick_node_of_ne {caller : NodeId} (different : id ≠ caller)
    (firstTick tick : UINT) :
    (vclockRestartWithTick vclock caller firstTick tick).node id = vclock.node id :=
  (vclockTimerAdd_node_of_ne different _).trans (setNode_node_of_ne different _)

theorem VclockCall.node_of_ne {call : VclockCall} (other : call.id ≠ id) :
    (call.apply vclock).node id = vclock.node id := by
  cases call with
  | addTimer caller =>
    have different : id ≠ caller := other.symm
    exact (vclockTimerAdd_node_of_ne different _).trans (setNode_node_of_ne different _)
  | delTimer caller =>
    have different : id ≠ caller := other.symm
    simp only [apply, vclockDelTimer]
    split
    · rfl
    · exact (dllDel_node _ _ _).trans (if_neg different)
  | pause caller =>
    have different : id ≠ caller := other.symm
    exact (setNode_node_of_ne different _).trans ((dllDelIfInList_node _).trans (if_neg different))
  | resume caller =>
    have different : id ≠ caller := other.symm
    rw [apply, vclockResume]
    split
    · rfl
    · exact (vclockTimerAdd_node_of_ne different _).trans (setNode_node_of_ne different _)
  | restartWithTick _ firstTick tick =>
    exact vclockRestartWithTick_node_of_ne other.symm firstTick tick
  | refresh =>
    rw [apply, vclockRefresh]
    split
    · rfl
    · exact vclockRestartWithTick_node_of_ne other.symm _ _

section

variable (linked : Linked vclock) (atTick : AtTick vclock now)

include linked atTick

theorem vclockRestartWithTick_invariant (firstTick tick : UINT) :
    Linked (vclockRestartWithTick vclock id firstTick tick) ∧
      AtTick (vclockRestartWithTick vclock id firstTick tick) now := by
  refine ⟨Linked.vclockTimerAdd (Linked.setNode linked ?_) _,
    AtTick.vclockTimerAdd (atTick.setNode _) _⟩
  rfl

theorem vclockInitTimer_invariant (fresh : (vclock.node id).pstHead = none) (tick flag : UINT) :
    Linked (vclockInitTimer vclock id tick flag) ∧
      AtTick (vclockInitTimer vclock id tick flag) now := by
  have initialized : Linked (vclock.setNode id
      { vclock.node id with pstHead := none, flag := flag, ulTick := tick }) :=
    linked.setNode fresh.symm
  exact ⟨initialized, atTick.tick, atTick.hands⟩

theorem vclockAddTimer_invariant
    (fresh : (vclock.node id).pstHead = none) (firstTick tick flag : UINT) :
    Linked (vclockAddTimer vclock id firstTick tick flag) ∧
      AtTick (vclockAddTimer vclock id firstTick tick flag) now := by
  obtain ⟨linked, atTick⟩ := vclockInitTimer_invariant linked atTick fresh tick flag
  exact ⟨linked.vclockTimerAdd _, atTick.vclockTimerAdd _⟩

end

theorem VclockCall.invariant {call : VclockCall} (proper : call.Proper vclock)
    (linked : Linked vclock) (atTick : AtTick vclock now) :
    Linked (call.apply vclock) ∧ AtTick (call.apply vclock) now := by
  cases call with
  | addTimer _ firstTick tick flag =>
    exact vclockAddTimer_invariant linked atTick proper firstTick tick flag
  | delTimer =>
    simp only [apply, vclockDelTimer]
    split
    · exact ⟨linked, atTick⟩
    · next inList => exact ⟨linked.dllDel inList, atTick.tick, atTick.hands⟩
  | pause =>
    refine ⟨Linked.setNode linked.dllDelIfInList ?_, AtTick.setNode atTick.dllDelIfInList _⟩
    rfl
  | resume =>
    rw [apply, vclockResume]
    split
    · exact ⟨linked, atTick⟩
    refine ⟨Linked.vclockTimerAdd (Linked.setNode linked ?_) _,
      AtTick.vclockTimerAdd (atTick.setNode _) _⟩
    rfl
  | restartWithTick _ firstTick tick =>
    exact vclockRestartWithTick_invariant linked atTick firstTick tick
  | refresh =>
    rw [apply, vclockRefresh]
    split
    · exact ⟨linked, atTick⟩
    · exact vclockRestartWithTick_invariant linked atTick _ _

variable (calls : Calls allowed vclock after)

include calls in
theorem Calls.invariant (linked : Linked vclock)
    (atTick : AtTick vclock now) : Linked after ∧ AtTick after now := by
  induction calls with
  | none => exact ⟨linked, atTick⟩
  | call _ proper _ ih =>
    obtain ⟨linked, atTick⟩ := VclockCall.invariant proper linked atTick
    exact ih linked atTick

variable (others : ∀ call, allowed call → call.id ≠ id)

include calls others in
theorem Calls.node : after.node id = vclock.node id := by
  induction calls with
  | none => rfl
  | call permitted _ _ ih => exact ih.trans (VclockCall.node_of_ne (others _ permitted))

theorem Firing.invariant {fired : List NodeId} (firing : Firing allowed vclock fired after)
    (linked : Linked vclock) (atTick : AtTick vclock now) : Linked after ∧ AtTick after now := by
  induction firing with
  | done => exact ⟨linked, atTick⟩
  | fire fires calls _ ih =>
    obtain ⟨linked, atTick, -⟩ := vclockStepFire_spec linked atTick fires
    obtain ⟨linked, atTick⟩ := calls.invariant linked atTick
    exact ih linked atTick

include others in
theorem Firing.count_of_not_due {fired : List NodeId} (firing : Firing allowed vclock fired after)
    (linked : Linked vclock) (atTick : AtTick vclock now) (waiting : ¬ (vclock.node id).Due now) :
    fired.count id = 0 ∧ after.node id = vclock.node id := by
  induction firing with
  | done => exact ⟨rfl, rfl⟩
  | @fire _ first _ _ _ _ fires calls _ ih =>
    obtain ⟨linked, atTick, due, -, frame⟩ := vclockStepFire_spec linked atTick fires
    have different : id ≠ first := by
      rintro rfl
      exact waiting due
    have untouched := (calls.node others).trans (frame id different)
    obtain ⟨linked, atTick⟩ := calls.invariant linked atTick
    obtain ⟨count, same⟩ := ih linked atTick (by rwa [untouched])
    exact ⟨by rw [count_cons_of_ne different.symm, count], same.trans untouched⟩

include others in
theorem Firing.count_of_due {fired : List NodeId} (firing : Firing allowed vclock fired after)
    (linked : Linked vclock) (atTick : AtTick vclock now) (due : (vclock.node id).Due now)
    (ticks : 0 < (vclock.node id).ulTick.toNat) :
    fired.count id = 1 ∧ (vclock.node id).Fired (after.node id) now := by
  induction firing with
  | done finished => 
    exact absurd due (not_due_of_vclockStepFire_eq_none linked atTick finished)
  | @fire _ first _ called _ _ fires calls remaining ih =>
    obtain ⟨linked, atTick, -, result, frame⟩ := vclockStepFire_spec linked atTick fires
    have untouched := calls.node others
    obtain ⟨linked, atTick⟩ := calls.invariant linked atTick
    by_cases same : id = first
    · subst same
      rw [← untouched] at result
      have waiting : ¬ (called.node id).Due now := by
        obtain ⟨-, -, result⟩ := result
        split at result
        · exact (result ticks).not_due
        · rw [VclockNode.Due, result]
          exact (some_ne_none _).symm
      obtain ⟨count, rested⟩ := remaining.count_of_not_due others linked atTick waiting
      exact ⟨by rw [count_cons_self, count], by rwa [rested]⟩
    · rw [frame id same] at untouched
      obtain ⟨count, _⟩ := ih linked atTick (by rwa [untouched])
        (by rwa [untouched])
      exact ⟨by rw [count_cons_of_ne (Ne.symm same), count], by rwa [← untouched]⟩

theorem Steps.invariant {fired : List (List NodeId)} (steps : Steps allowed vclock fired after)
    (linked : Linked vclock) (atTick : AtTick vclock now) :
    Linked after ∧ AtTick after (now + fired.length) := by
  induction steps generalizing now with
  | none calls => exact calls.invariant linked atTick
  | step calls firing _ ih =>
    obtain ⟨linked, atTick⟩ := calls.invariant linked atTick
    obtain ⟨linked, atTick, -⟩ := vclockStepBegin_invariant linked atTick
    obtain ⟨linked, atTick⟩ := firing.invariant linked atTick
    have result := ih linked atTick
    rwa [length_cons, add_comm _ 1, ← add_assoc]

theorem vclockInitInstance_invariant : Linked vclockInitInstance ∧ AtTick vclockInitInstance 0 := by
  refine ⟨fun _ _ _ => rfl, rfl, fun level _ => ?_⟩
  simp [vclockInitInstance, digit]

theorem Reachable.invariant (reachable : Reachable vclock) :
    Linked vclock ∧ ∃ now, AtTick vclock now := by
  obtain ⟨_, steps⟩ := reachable
  obtain ⟨linked, atTick⟩ :=
    steps.invariant vclockInitInstance_invariant.1 vclockInitInstance_invariant.2
  exact ⟨linked, _, atTick⟩

/-- The steps, counted from zero, in which a timer fires. -/
def Expires (first : Nat) (tick flag : UINT) (step : Nat) : Prop :=
  step = first ∨ (flag &&& timerFlagCycle ≠ 0 ∧ first < step ∧ tick.toNat ∣ step - first)

instance (first : Nat) (tick flag : UINT) (step : Nat) : Decidable (Expires first tick flag step) :=
  inferInstanceAs (Decidable (_ ∨ _))

theorem expires_succ (first : Nat) (tick flag : UINT) (step : Nat) :
    Expires (first + 1) tick flag (step + 1) ↔ Expires first tick flag step := by
  simp [Expires]

theorem expires_zero {tick flag : UINT} (ticks : 0 < tick.toNat) (step : Nat) :
    Expires 0 tick flag (step + 1) ↔
      flag &&& timerFlagCycle ≠ 0 ∧ Expires (tick.toNat - 1) tick flag step := by
  have again : tick.toNat ∣ step + 1 ↔
      step = tick.toNat - 1 ∨ (tick.toNat - 1 < step ∧ tick.toNat ∣ step - (tick.toNat - 1)) := by
    have shift : ∀ _ : tick.toNat ≤ step + 1, step + 1 = step - (tick.toNat - 1) + tick.toNat :=
      fun _ => by omega
    constructor
    · intro divides
      have reached := le_of_dvd (succ_pos _) divides
      rcases lt_or_ge (tick.toNat - 1) step with later | _
      · rw [shift reached, Nat.dvd_add_self_right] at divides
        exact Or.inr ⟨later, divides⟩
      · exact Or.inl (by omega)
    · rintro (now | ⟨_, divides⟩)
      · rw [now, Nat.sub_add_cancel ticks]
      · rw [shift (by omega), Nat.dvd_add_self_right]
        exact divides
  simp only [Expires, succ_ne_zero, succ_pos, sub_zero, false_or, true_and, again]
  tauto

include others in
theorem Steps.count_of_unlinked {fired : List (List NodeId)}
    (steps : Steps allowed vclock fired after) (linked : Linked vclock) (atTick : AtTick vclock now)
    (unlinked : (vclock.node id).pstHead = Option.none) : ∀ nodes ∈ fired, nodes.count id = 0 := by
  induction steps generalizing now with
  | none => simp
  | @step _ called _ _ _ _ calls firing _ ih =>
    have untouched := calls.node others
    obtain ⟨linked, atTick⟩ := calls.invariant linked atTick
    have stillUnlinked : (called.node id).pstHead = Option.none := by rw [untouched, unlinked]
    have begun := vclockStepBegin_node_of_unlinked linked atTick stillUnlinked
    obtain ⟨linked, atTick, -⟩ := vclockStepBegin_invariant linked atTick
    have waiting : ¬ ((vclockStepBegin called).node id).Due (now + 1) := by
      rw [begun, untouched, VclockNode.Due, unlinked]
      exact (some_ne_none _).symm
    obtain ⟨count, rested⟩ := firing.count_of_not_due others linked atTick waiting
    obtain ⟨linked, atTick⟩ := firing.invariant linked atTick
    have later := ih linked atTick (by rw [rested, begun, untouched, unlinked])
    intro fired member
    rcases mem_cons.mp member with rfl | member
    · exact count
    · exact later fired member

include others in
theorem Steps.count_of_armed {fired : List (List NodeId)} {deadline : Nat}
    (steps : Steps allowed vclock fired after) (linked : Linked vclock)
    (atTick : AtTick vclock now) (armed : (vclock.node id).Armed now (now + 1 + deadline))
    (ticks : 0 < (vclock.node id).ulTick.toNat) :
    ∀ step nodes, fired[step]? = some nodes →
      nodes.count id =
        if Expires deadline (vclock.node id).ulTick (vclock.node id).flag step then 1 else 0 := by
  induction steps generalizing now deadline with
  | none => simp
  | @step _ called fired _ _ _ calls firing remaining ih =>
    have untouched := calls.node others
    rw [← untouched] at armed ticks ⊢
    obtain ⟨linked, atTick⟩ := calls.invariant linked atTick
    have landed := vclockStepBegin_landed linked atTick armed
    obtain ⟨linked, atTick, kept⟩ := vclockStepBegin_invariant linked atTick
    have flagKept := (kept id).1
    have tickKept := (kept id).2
    have periods : 0 < ((vclockStepBegin called).node id).ulTick.toNat := by rwa [tickKept]
    have invariants := firing.invariant linked atTick
    rw [← flagKept, ← tickKept]
    rcases landed with armed | ⟨due, _⟩
    · obtain ⟨count, rested⟩ := firing.count_of_not_due others linked atTick armed.not_due
      obtain ⟨earlier, rfl⟩ : ∃ earlier, deadline = earlier + 1 := by
        have ahead := armed.now_lt
        exact ⟨deadline - 1, by omega⟩
      rw [← rested, add_comm earlier 1, ← add_assoc (now + 1)] at armed
      have later := ih invariants.1 invariants.2 armed (by rwa [rested])
      intro step nodes listed
      cases step with
      | zero =>
        obtain rfl : fired = nodes := by simpa using listed
        simp [count, Expires]
      | succ step =>
        rw [later step nodes (by simpa using listed), rested]
        simp only [expires_succ]
    obtain rfl : deadline = 0 := by omega
    obtain ⟨count, flagRested, tickRested, result⟩ :=
      firing.count_of_due others linked atTick due periods
    intro step nodes listed
    cases step with
    | zero =>
      obtain rfl : fired = nodes := by simpa using listed
      simp [count, Expires]
    | succ step =>
      simp only [expires_zero periods]
      split at result
      · next cyclic =>
        have armed := result periods
        rw [← Nat.add_sub_cancel' periods, ← add_assoc (now + 1)] at armed
        have later := ih invariants.1 invariants.2 armed (by rwa [tickRested])
        rw [later step nodes listed, tickRested, flagRested]
        simp only [cyclic, true_and, not_false_eq_true, ne_eq]
      · next once =>
        rw [remaining.count_of_unlinked others invariants.1 invariants.2 result nodes
          (mem_of_getElem? listed), if_neg fun either => once either.1]

theorem vclockAddTimer_armed (atTick : AtTick vclock now) {firstTick tick flag : UINT}
    (bounded : firstTick.toNat + 1 < 2 ^ 32) :
    ((vclockAddTimer vclock id firstTick tick flag).node id).Armed now
      (now + 1 + firstTick.toNat) := by
  have distance : (firstTick + 1).toNat = firstTick.toNat + 1 := by
    exact mod_eq_of_lt bounded
  rw [add_assoc, add_comm 1, ← distance]
  have positive : 0 < (firstTick + 1).toNat := by omega
  have initialized : AtTick (vclockInitTimer vclock id tick flag) now := ⟨atTick.tick, atTick.hands⟩
  exact vclockTimerAdd_armed initialized id positive

theorem vclockAddTimer_fields (vclock : VclockInstance) (id : NodeId) (firstTick tick flag : UINT) :
    ((vclockAddTimer vclock id firstTick tick flag).node id).flag = flag ∧
      ((vclockAddTimer vclock id firstTick tick flag).node id).ulTick = tick := by
  obtain ⟨sameFlag, sameTick⟩ :=
    vclockTimerAdd_flag (vclockInitTimer vclock id tick flag) id (firstTick + 1) id
  exact ⟨sameFlag.trans (by simp [vclockInitTimer]), sameTick.trans (by simp [vclockInitTimer])⟩

/-- A timer added between two steps fires first in the step `firstTick`,
counted from zero, and if it is cyclic every `tick` steps from then on. -/
theorem vclockAddTimer_expires (reachable : Reachable vclock)
    (fresh : (vclock.node id).pstHead = none) {firstTick tick flag : UINT}
    (firstTickBound : firstTick.toNat + 1 < 2 ^ 32) (tickPositive : 1 ≤ tick.toNat)
    {fired : List (List NodeId)}
    (steps : Steps (fun call => call.id ≠ id) (vclockAddTimer vclock id firstTick tick flag)
      fired after) :
    ∀ step nodes, fired[step]? = some nodes →
      nodes.count id = if Expires firstTick.toNat tick flag step then 1 else 0 := by
  obtain ⟨linked, _, atTick⟩ := reachable.invariant
  obtain ⟨addedLinked, addedAtTick⟩ :=
    vclockAddTimer_invariant linked atTick fresh firstTick tick flag
  obtain ⟨sameFlag, sameTick⟩ := vclockAddTimer_fields vclock id firstTick tick flag
  have counts := steps.count_of_armed (fun _ other => other) addedLinked addedAtTick
    (vclockAddTimer_armed atTick firstTickBound) (by rwa [sameTick])
  rwa [sameFlag, sameTick] at counts

/-- A cyclic timer with `firstTick` one and period two in a fresh wheel. -/
theorem vclockAddTimer_expires_cyclic :
    ∃ after, Steps (fun call => call.id ≠ 0) (vclockAddTimer vclockInitInstance 0 1 2 timerFlagCycle)
        [[], [0], [], [0]] after ∧
      ∀ step nodes, [[], [0], [], [0]][step]? = some nodes →
        nodes.count 0 = if Expires 1 2 timerFlagCycle step then 1 else 0 := by
  have run : ∃ after, Steps (fun call => call.id ≠ 0)
      (vclockAddTimer vclockInitInstance 0 1 2 timerFlagCycle) [[], [0], [], [0]] after :=
    ⟨_, .step .none (.done rfl) (.step .none (.fire rfl .none (.done rfl))
      (.step .none (.done rfl) (.step .none (.fire rfl .none (.done rfl)) (.none .none))))⟩
  obtain ⟨after, steps⟩ := run
  exact ⟨after, steps, vclockAddTimer_expires ⟨[], .none .none⟩ rfl (by decide) (by decide) steps⟩

end MyCode.Vclock
