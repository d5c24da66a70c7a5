import MyCode.Vclock.Count

/-!
# What the calls leave of one timer

The timer of a call is armed or unlinked after it, and the other ones are as before.
-/

namespace MyCode.Vclock

open VclockInstance BitVec

variable {vclock : VclockInstance} {id : NodeId} {now deadline : Nat}

theorem vclockGetTickLeft_eq (atTick : AtTick vclock now)
    (armed : (vclock.node id).Armed now deadline) :
    (vclockGetTickLeft vclock id).toNat = deadline - now := by
  have after := armed.now_lt
  have bound := armed.horizon
  rw [vclockGetTickLeft, armed.trigger, atTick.tick, toNat_sub, toNat_ofNat, toNat_ofNat]
  omega

theorem vclockRestartWithTick_armed (atTick : AtTick vclock now) {firstTick tick : UINT}
    (positive : 0 < firstTick.toNat) :
    ((vclockRestartWithTick vclock id firstTick tick).node id).Armed now
        (now + firstTick.toNat) ∧
      ((vclockRestartWithTick vclock id firstTick tick).node id).flag =
        (vclock.node id).flag ∧
      ((vclockRestartWithTick vclock id firstTick tick).node id).ulTick = tick := by
  obtain ⟨sameFlag, sameTick⟩ := vclockTimerAdd_flag
    (vclock.setNode id { vclock.node id with ulTick := tick }) id firstTick id
  exact ⟨vclockTimerAdd_armed (atTick.setNode _) id positive, sameFlag.trans (by simp),
    sameTick.trans (by simp)⟩

theorem vclockRefresh_armed (atTick : AtTick vclock now)
    (armed : (vclock.node id).Armed now deadline) (positive : 0 < (vclock.node id).ulTick.toNat) :
    ((vclockRefresh vclock id).node id).Armed now (now + (vclock.node id).ulTick.toNat) ∧
      ((vclockRefresh vclock id).node id).flag = (vclock.node id).flag ∧
      ((vclockRefresh vclock id).node id).ulTick = (vclock.node id).ulTick := by
  rw [vclockRefresh]
  split
  · next whole =>
    have left := vclockGetTickLeft_eq atTick armed
    have later := armed.now_lt
    rw [← whole] at left
    refine ⟨?_, rfl, rfl⟩
    rwa [left, Nat.add_sub_cancel' later.le]
  · exact vclockRestartWithTick_armed atTick positive

theorem vclockDelTimer_invariant (linked : Linked vclock) (atTick : AtTick vclock now) :
    Linked (vclockDelTimer vclock id) ∧ AtTick (vclockDelTimer vclock id) now ∧
      ((vclockDelTimer vclock id).node id).pstHead = none ∧
      ∀ other, other ≠ id → (vclockDelTimer vclock id).node other = vclock.node other := by
  obtain ⟨stillLinked, stillAtTick⟩ :=
    @VclockCall.invariant vclock now (.delTimer id) trivial linked atTick
  refine ⟨stillLinked, stillAtTick, ?_, fun other differs => ?_⟩
  · simpa [vclockIsRunning] using vclockDelTimer_stops vclock id
  · exact @VclockCall.node_of_ne vclock other (.delTimer id) (Ne.symm differs)

theorem vclockDelTimer_length (level slot : Nat) :
    ((vclockDelTimer vclock id).stTimerLevel level slot).length ≤
      (vclock.stTimerLevel level slot).length := by
  rw [vclockDelTimer]
  split
  · exact le_rfl
  next place _ =>
  simp only [dllDel, setList, setNode_stTimerLevel]
  split
  · next same =>
    obtain ⟨rfl, rfl⟩ := same
    exact List.length_erase_le
  · exact le_rfl

end MyCode.Vclock

/-!
## Resuming and restarting a timer

`VCLOCK_Resume` and `VCLOCK_RestartWithTick` hand the first tick on to
`_vclock_timer_add` as it is, `VCLOCK_AddTimer` hands one more.  Between two
steps the slot of the current tick has been drained already, so that a timer
put there waits for a whole turn of the lowest level.
-/

namespace MyCode.Vclock

open Lib.HierarchicalWheel VclockInstance

variable {vclock after : VclockInstance} {id : NodeId} {now deadline : Nat} {firstTick : UINT}
  {allowed : VclockCall → Prop}

/-- A call that gives a timer its first tick anew: of a paused one, or of any one. -/
inductive Starts (vclock : VclockInstance) (id : NodeId) (firstTick : UINT) : VclockCall → Prop where
  | resume (paused : (vclock.node id).flag &&& timerFlagPause ≠ 0) :
      Starts vclock id firstTick (.resume id firstTick)
  | restartWithTick (tick : UINT) : Starts vclock id firstTick (.restartWithTick id firstTick tick)

/-- In every run that leaves the timer alone it fires in the `count`-th step and in none before. -/
def NextExpiry (vclock : VclockInstance) (id : NodeId) (count : Nat) : Prop :=
  ∀ fired after, Steps (fun call => call.id ≠ id) vclock fired after →
    ∀ step nodes, fired[step]? = some nodes →
      (step + 1 < count → id ∉ nodes) ∧ (step + 1 = count → id ∈ nodes)

theorem Starts.add {call : VclockCall} (starts : Starts vclock id firstTick call) :
    ∃ node, node.pstHead = (vclock.node id).pstHead ∧
      call.apply vclock = vclockTimerAdd (vclock.setNode id node) id firstTick := by
  cases starts with
  | resume paused =>
    refine ⟨{ vclock.node id with flag := (vclock.node id).flag &&& ~~~timerFlagPause }, rfl, ?_⟩
    rw [VclockCall.apply, vclockResume, if_neg paused]
  | restartWithTick tick => exact ⟨{ vclock.node id with ulTick := tick }, rfl, rfl⟩

theorem Firing.mem_of_due {fired : List NodeId} (firing : Firing allowed vclock fired after)
    (others : ∀ call, allowed call → call.id ≠ id) (linked : Linked vclock)
    (atTick : AtTick vclock now) (due : (vclock.node id).Due now) : id ∈ fired := by
  induction firing with
  | done finished => exact absurd due (not_due_of_vclockStepFire_eq_none linked atTick finished)
  | @fire _ first _ _ _ _ fires calls _ ih =>
    obtain ⟨linked, atTick, -, -, frame⟩ := vclockStepFire_spec linked atTick fires
    by_cases same : id = first
    · exact List.mem_cons.mpr (.inl same)
    have untouched := (calls.node others).trans (frame id same)
    obtain ⟨linked, atTick⟩ := calls.invariant linked atTick
    have later := ih linked atTick (by rwa [untouched])
    exact List.mem_cons_of_mem _ later

theorem Steps.nextExpiry {fired : List (List NodeId)} (steps : Steps allowed vclock fired after)
    (others : ∀ call, allowed call → call.id ≠ id) (linked : Linked vclock)
    (atTick : AtTick vclock now) (armed : (vclock.node id).Armed now (now + 1 + deadline)) :
    ∀ step nodes, fired[step]? = some nodes →
      (step < deadline → id ∉ nodes) ∧ (step = deadline → id ∈ nodes) := by
  induction steps generalizing now deadline with
  | none => simp
  | @step _ _ fired _ _ _ calls firing _ ih =>
    have untouched := calls.node others
    rw [← untouched] at armed
    obtain ⟨linked, atTick⟩ := calls.invariant linked atTick
    have landed := vclockStepBegin_landed linked atTick armed
    obtain ⟨linked, atTick, -⟩ := vclockStepBegin_invariant linked atTick
    have invariants := firing.invariant linked atTick
    intro step nodes listed
    rcases landed with armed | ⟨due, _⟩
    · obtain ⟨count, rested⟩ := firing.count_of_not_due others linked atTick armed.not_due
      obtain ⟨earlier, rfl⟩ : ∃ earlier, deadline = earlier + 1 := by
        have ahead := armed.now_lt
        exact ⟨deadline - 1, by omega⟩
      rw [← rested, Nat.add_comm earlier 1, ← Nat.add_assoc (now + 1)] at armed
      cases step with
      | zero =>
        obtain rfl : fired = nodes := by simpa using listed
        exact ⟨fun _ => List.count_eq_zero.mp count, fun same => absurd same (Nat.succ_ne_zero _).symm⟩
      | succ step =>
        obtain ⟨before, exactly⟩ :=
          ih invariants.1 invariants.2 armed step nodes (by simpa using listed)
        exact ⟨fun less => before (Nat.lt_of_succ_lt_succ less),
          fun same => exactly (Nat.succ.inj same)⟩
    · obtain rfl : deadline = 0 := by omega
      refine ⟨fun less => absurd less (Nat.not_lt_zero _), ?_⟩
      rintro rfl
      obtain rfl : fired = nodes := by simpa using listed
      exact firing.mem_of_due others linked atTick due

section

variable (linked : Linked vclock) (atTick : AtTick vclock now)

include linked atTick

theorem vclockStepBegin_not_due
    (drained : (vclock.node id).Due now) : ¬ ((vclockStepBegin vclock).node id).Due (now + 1) := by
  obtain ⟨moved, top, result, movedLinked, movedAtTick, same, -, -⟩ :=
    vclockStepBegin_spec linked atTick
  rw [VclockNode.Due, ← same] at drained
  rw [result, VclockNode.Due, vclockCascade_node_of_low top moved movedLinked movedAtTick (by simp [drained]),
    drained, Option.some.injEq, Prod.mk.injEq, digit, digit]
  have base : timerScalePerLevel = 64 := rfl
  rw [base]
  omega

theorem Firing.ends (waiting : ¬ (vclock.node id).Due now) :
    ∃ fired after, Firing (fun call => call.id ≠ id) vclock fired after := by
  generalize size : (vclock.stTimerLevel 0 (vclock.ulCurrentLevelTick 0)).length = length
  induction length using Nat.strong_induction_on generalizing vclock with
  | _ length ih =>
    cases fires : vclockStepFire vclock with
    | none => exact ⟨[], vclock, .done fires⟩
    | some result =>
      obtain ⟨first, fired⟩ := result
      obtain ⟨firedLinked, firedAtTick, due, -, frame⟩ := vclockStepFire_spec linked atTick fires
      obtain ⟨stillLinked, stillAtTick, unlinked, others⟩ :=
        @vclockDelTimer_invariant fired first now firedLinked firedAtTick
      have different : id ≠ first := by
        rintro rfl
        exact waiting due
      have stillWaiting : ¬ ((vclockDelTimer fired first).node id).Due now := by
        rw [others id different, frame id different]
        exact waiting
      -- The slot has lost the fired timer and got no other one.
      have fewer : ((vclockDelTimer fired first).stTimerLevel 0
          ((vclockDelTimer fired first).ulCurrentLevelTick 0)).length < length := by
        have kept : first :: (vclockDelTimer fired first).stTimerLevel 0
            ((vclockDelTimer fired first).ulCurrentLevelTick 0) ⊆
            vclock.stTimerLevel 0 (vclock.ulCurrentLevelTick 0) := by
          intro other inside
          apply (linked.due_iff atTick).mp
          rcases List.mem_cons.mp inside with rfl | inside
          · exact due
          have stillDue := (stillLinked.due_iff stillAtTick).mpr inside
          have apart : other ≠ first := by
            rintro rfl
            rw [VclockNode.Due, unlinked] at stillDue
            exact Option.some_ne_none _ stillDue.symm
          rwa [others other apart, frame other apart] at stillDue
        have distinct : (first :: (vclockDelTimer fired first).stTimerLevel 0
            ((vclockDelTimer fired first).ulCurrentLevelTick 0)).Nodup := by
          refine List.nodup_cons.mpr ⟨fun inside => ?_, stillLinked.nodup _ _⟩
          have stillDue := (stillLinked.due_iff stillAtTick).mpr inside
          rw [VclockNode.Due, unlinked] at stillDue
          exact Option.some_ne_none _ stillDue.symm
        have shorter := (List.subperm_of_subset distinct kept).length_le
        rw [List.length_cons, size] at shorter
        exact shorter
      obtain ⟨rest, after, firing⟩ := ih _ fewer stillLinked stillAtTick stillWaiting rfl
      exact ⟨first :: rest, after,
        .fire fires (@Calls.call _ _ (.delTimer first) _ different.symm trivial .none) firing⟩

theorem vclockTimerAdd_zero_late : ¬ NextExpiry (vclockTimerAdd vclock id 0) id 1 := by
  intro expires
  have drained := @vclockTimerAdd_due vclock id now atTick
  have addedLinked : Linked (vclockTimerAdd vclock id 0) := linked.vclockTimerAdd _
  have addedAtTick : AtTick (vclockTimerAdd vclock id 0) now := atTick.vclockTimerAdd _
  have waiting := vclockStepBegin_not_due addedLinked addedAtTick drained
  obtain ⟨begunLinked, begunAtTick, -⟩ := vclockStepBegin_invariant addedLinked addedAtTick
  obtain ⟨fired, after, firing⟩ := Firing.ends begunLinked begunAtTick waiting
  have missed := (firing.count_of_not_due (fun _ other => other) begunLinked begunAtTick waiting).1
  have present := (expires [fired] after (.step .none firing (.none .none)) 0 fired rfl).2 rfl
  exact List.count_eq_zero.mp missed present

end

/-- A timer that is resumed or restarted between two steps expires as its first tick says exactly
where that is not zero. -/
theorem vclock_nextExpiry (reachable : Reachable vclock) {call : VclockCall}
    (starts : Starts vclock id firstTick call) :
    NextExpiry (call.apply vclock) id (if firstTick = 0 then 1 else firstTick.toNat) ↔
      firstTick ≠ 0 := by
  obtain ⟨linked, now, atTick⟩ := reachable.invariant
  obtain ⟨node, kept, added⟩ := starts.add
  have givenLinked := linked.setNode kept
  have givenAtTick : AtTick (vclock.setNode id node) now := atTick.setNode node
  rw [added]
  split
  · next zero =>
    rw [zero]
    exact iff_of_false (vclockTimerAdd_zero_late givenLinked givenAtTick) fun some => some rfl
  next some =>
  refine iff_of_true ?_ some
  intro fired after steps step nodes listed
  have positive : 0 < firstTick.toNat :=
    Nat.pos_of_ne_zero fun zero => some (BitVec.eq_of_toNat_eq zero)
  have armed := vclockTimerAdd_armed givenAtTick id positive
  rw [← Nat.sub_add_cancel positive, Nat.add_comm _ (0 + 1), ← Nat.add_assoc, Nat.zero_add] at armed
  obtain ⟨before, exactly⟩ := steps.nextExpiry (fun _ other => other)
    (givenLinked.vclockTimerAdd _) (givenAtTick.vclockTimerAdd _) armed step nodes listed
  exact ⟨fun less => before (by omega), fun same => exactly (by omega)⟩

theorem vclock_nextExpiry_three :
    NextExpiry ((VclockCall.restartWithTick 0 3 7).apply vclockInitInstance) 0
        (if (3 : UINT) = 0 then 1 else (3 : UINT).toNat) ↔ (3 : UINT) ≠ 0 :=
  vclock_nextExpiry ⟨[], .none .none⟩ (.restartWithTick 7)

/-- A timer is added, restarted with the first tick zero, and not fired by the next step. -/
theorem vclock_nextExpiry_zero :
    (∃ after, Steps (fun call => call.id ≠ 0)
        (vclockRestartWithTick (vclockAddTimer vclockInitInstance 0 4 7 0) 0 0 7) [[]] after) ∧
      ¬ ∀ vclock id firstTick call, Reachable vclock → Starts vclock id firstTick call →
        NextExpiry (call.apply vclock) id (if firstTick = 0 then 1 else firstTick.toNat) := by
  have run : ∃ after, Steps (fun call => call.id ≠ 0)
      (vclockRestartWithTick (vclockAddTimer vclockInitInstance 0 4 7 0) 0 0 7) [[]] after :=
    ⟨_, .step .none (.done rfl) (.none .none)⟩
  refine ⟨run, fun holds => ?_⟩
  obtain ⟨after, steps⟩ := run
  have reachable : Reachable (vclockAddTimer vclockInitInstance 0 4 7 0) :=
    ⟨[], .none (@Calls.call _ _ (.addTimer 0 4 7 0) _ trivial rfl .none)⟩
  have fired := (holds _ 0 0 (.restartWithTick 0 0 7) reachable (.restartWithTick 7) [[]] after steps
    0 [] rfl).2 rfl
  exact List.not_mem_nil fired

end MyCode.Vclock
