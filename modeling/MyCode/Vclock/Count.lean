import MyCode.Vclock.Expiry
import MyCode.Lib.Transition
import Mathlib.Data.Finset.Card

/-!
# The node count

A timer counts from `VCLOCK_AddTimer` until it is deleted or expires.  The
count of the instance is kept apart from that: pausing unlinks a timer that
stays counted, and restarting links one that may not be.
-/

namespace MyCode.Vclock

open Lib VclockInstance Option Finset

def vclockIsRunning (vclock : VclockInstance) (id : NodeId) : Bool :=
  (vclock.node id).pstHead.isSome

structure VclockRun where
  vclock : VclockInstance
  /-- The timers added and neither deleted nor expired. -/
  live : Finset NodeId
  /-- The calls of `VCLOCK_Step` under way: a callback may step again. -/
  stepping : Nat

inductive VclockEvent where
  | call (made : VclockCall)
  | stepBegin
  | stepFire
  | stepEnd

def VclockCall.track (live : Finset NodeId) : VclockCall → Finset NodeId
  | addTimer id _ _ _ => insert id live
  | delTimer id => live.erase id
  | _ => live

/-- What a turn of the firing loop leaves live. -/
def VclockNode.expire (node : VclockNode) (id : NodeId) (live : Finset NodeId) :
    Finset NodeId :=
  if node.flag &&& timerFlagCycle ≠ 0 then live else live.erase id

namespace VclockEvent

def Ready (run : VclockRun) : VclockEvent → Prop
  | call _ => True
  | stepBegin => True
  | stepFire => 0 < run.stepping ∧ (vclockStepFire run.vclock).isSome
  | stepEnd => 0 < run.stepping ∧ (vclockStepFire run.vclock).isNone

def next (run : VclockRun) : VclockEvent → VclockRun
  | call made => { run with vclock := made.apply run.vclock, live := made.track run.live }
  | stepBegin => { run with vclock := vclockStepBegin run.vclock, stepping := run.stepping + 1 }
  | stepFire =>
    match vclockStepFire run.vclock with
    | none => run
    | some (id, fired) =>
      { run with vclock := fired, live := (run.vclock.node id).expire id run.live }
  | stepEnd => { run with stepping := run.stepping - 1 }

end VclockEvent

def vclockRuns : System VclockRun VclockEvent where
  start run := run = ⟨vclockInitInstance, ∅, 0⟩
  step run event after := event.Ready run ∧ after = event.next run

/-- The call links its timer, which may have been unlinked before. -/
def VclockCall.Links (vclock : VclockInstance) : VclockCall → Prop
  | addTimer _ _ _ _ => True
  | delTimer _ => False
  | pause _ => False
  | resume id _ => (vclock.node id).flag &&& timerFlagPause ≠ 0
  | restartWithTick _ _ _ => True
  | refresh id => (vclock.node id).ulTick ≠ vclockGetTickLeft vclock id

/-- When a call keeps the count: a timer is added once, not deleted while it is
paused, and not restarted once it has been deleted or has expired. -/
def VclockCall.Counts (run : VclockRun) : VclockCall → Prop
  | addTimer id _ _ _ => id ∉ run.live ∧ run.live.card + 1 < 2 ^ 32
  | delTimer id => id ∈ run.live → vclockIsRunning run.vclock id
  | call => call.Links run.vclock → call.id ∈ run.live

def VclockEvent.Counts (run : VclockRun) : VclockEvent → Prop
  | call made => made.Counts run
  | _ => True

/-- The count is the number of the live timers, and no decrement can take it
below zero. -/
structure NodeCounted (run : VclockRun) : Prop where
  count : run.vclock.ulNodeCount.toNat = run.live.card
  positive : ∀ id, vclockIsRunning run.vclock id → 0 < run.vclock.ulNodeCount.toNat

variable {vclock : VclockInstance} {id : NodeId} {now : Nat} {run : VclockRun}

@[simp]
theorem dllDelIfInList_ulNodeCount :
    (vclock.dllDelIfInList id).ulNodeCount = vclock.ulNodeCount := by
  unfold dllDelIfInList
  split <;> rfl

@[simp]
theorem vclockTimerAdd_ulNodeCount (uiTick : UINT) :
    (vclockTimerAdd vclock id uiTick).ulNodeCount = vclock.ulNodeCount := by
  have same : (vclockTimerAdd vclock id uiTick).ulNodeCount =
      (vclock.dllDelIfInList id).ulNodeCount := rfl
  rw [same, dllDelIfInList_ulNodeCount]

theorem vclockRestartWithTick_ulNodeCount (firstTick tick : UINT) :
    (vclockRestartWithTick vclock id firstTick tick).ulNodeCount = vclock.ulNodeCount :=
  vclockTimerAdd_ulNodeCount firstTick

theorem foldl_readd_ulNodeCount (ids : List NodeId) (vclock : VclockInstance) :
    (ids.foldl readd vclock).ulNodeCount = vclock.ulNodeCount := by
  induction ids generalizing vclock with
  | nil => rfl
  | cons _ _ ih => rw [List.foldl_cons, ih, readd, vclockTimerAdd_ulNodeCount]

theorem vclockCascade_ulNodeCount (i : Nat) (vclock : VclockInstance) :
    (vclockCascade vclock i).ulNodeCount = vclock.ulNodeCount := by
  induction i generalizing vclock with
  | zero => rfl
  | succ _ ih =>
    rw [vclockCascade, ih]
    exact foldl_readd_ulNodeCount _ vclock

theorem vclockStepBegin_ulNodeCount (vclock : VclockInstance) :
    (vclockStepBegin vclock).ulNodeCount = vclock.ulNodeCount :=
  vclockCascade_ulNodeCount _ _

theorem vclockStepFire_ulNodeCount {fired : VclockInstance}
    (fires : vclockStepFire vclock = some (id, fired)) :
    fired.ulNodeCount =
      if (vclock.node id).flag &&& timerFlagCycle ≠ 0 then vclock.ulNodeCount
      else vclock.ulNodeCount - 1 := by
  unfold vclockStepFire at fires
  split at fires
  · cases fires
  next first rest _ =>
  simp only [dllDel_node, if_true] at fires
  split at fires
  · next cyclic =>
    obtain ⟨rfl, rfl⟩ := Prod.mk.inj (some.inj fires)
    rw [if_pos cyclic, vclockTimerAdd_ulNodeCount]
    rfl
  next once =>
  obtain ⟨rfl, rfl⟩ := Prod.mk.inj (some.inj fires)
  rw [if_neg once]
  rfl

theorem VclockCall.ulNodeCount (call : VclockCall) :
    (call.apply vclock).ulNodeCount =
      match call with
      | addTimer _ _ _ _ => vclock.ulNodeCount + 1
      | delTimer id =>
        if vclockIsRunning vclock id then vclock.ulNodeCount - 1 else vclock.ulNodeCount
      | _ => vclock.ulNodeCount := by
  cases call with
  | addTimer => exact vclockTimerAdd_ulNodeCount _
  | delTimer =>
    rw [apply, vclockDelTimer]
    split
    · next unlinked => simp [vclockIsRunning, unlinked]
    · next linked => simp [vclockIsRunning, linked, dllDel, setList, setNode]
  | pause => exact dllDelIfInList_ulNodeCount
  | resume _ firstTick =>
    rw [apply, vclockResume]
    split
    · rfl
    · exact vclockTimerAdd_ulNodeCount firstTick
  | restartWithTick _ firstTick tick => exact vclockRestartWithTick_ulNodeCount firstTick tick
  | refresh =>
    rw [apply, vclockRefresh]
    split
    · rfl
    · exact vclockRestartWithTick_ulNodeCount _ _

theorem vclockDelTimer_stops (vclock : VclockInstance) (id : NodeId) :
    ¬ vclockIsRunning (vclockDelTimer vclock id) id := by
  rw [vclockDelTimer]
  split
  · next unlinked => simp [vclockIsRunning, unlinked]
  · simp [vclockIsRunning]

theorem VclockCall.running {call : VclockCall} (runs : vclockIsRunning (call.apply vclock) id) :
    vclockIsRunning vclock id ∨ id = call.id ∧ call.Links vclock := by
  by_cases other : call.id = id
  · subst other
    cases call with
    | addTimer => exact Or.inr ⟨rfl, trivial⟩
    | delTimer =>
      left
      rw [VclockCall.apply, vclockDelTimer] at runs
      split at runs
      · exact runs
      · next linked => simp [vclockIsRunning, VclockCall.id, linked]
    | pause => simp [VclockCall.apply, vclockPause, vclockIsRunning, VclockCall.id] at runs
    | resume caller =>
      by_cases running : (vclock.node caller).flag &&& timerFlagPause = 0
      · rw [VclockCall.apply, vclockResume, if_pos running] at runs
        exact Or.inl runs
      · exact Or.inr ⟨rfl, running⟩
    | restartWithTick => exact Or.inr ⟨rfl, trivial⟩
    | refresh caller =>
      by_cases same : (vclock.node caller).ulTick = vclockGetTickLeft vclock caller
      · rw [VclockCall.apply, vclockRefresh, if_pos same] at runs
        exact Or.inl runs
      · exact Or.inr ⟨rfl, same⟩
  · rw [vclockIsRunning, VclockCall.node_of_ne other] at runs
    exact Or.inl runs

structure CountOk (run : VclockRun) : Prop where
  linked : Linked run.vclock
  atTick : ∃ now, AtTick run.vclock now
  count : run.vclock.ulNodeCount.toNat = run.live.card
  live : ∀ id, vclockIsRunning run.vclock id → id ∈ run.live

theorem CountOk.counted (ok : CountOk run) : NodeCounted run := by
  refine ⟨ok.count, fun id running => ?_⟩
  rw [ok.count]
  exact card_pos.mpr ⟨id, ok.live id running⟩

theorem card_erase_of_count {count : UINT} {live : Finset NodeId}
    (counted : count.toNat = live.card)
    (isLive : id ∈ live) : (count - 1).toNat = (live.erase id).card := by
  have positive := card_pos.mpr ⟨id, isLive⟩
  rw [card_erase_of_mem isLive, BitVec.toNat_sub, ← counted]
  have one : (1 : UINT).toNat = 1 := rfl
  omega

theorem CountOk.track_card {call : VclockCall} (ok : CountOk run) (counts : call.Counts run) :
    (call.apply run.vclock).ulNodeCount.toNat = (call.track run.live).card := by
  rw [VclockCall.ulNodeCount]
  cases call with
  | addTimer =>
    obtain ⟨notLive, bound⟩ := counts
    rw [VclockCall.track, card_insert_of_notMem notLive, BitVec.toNat_add, ok.count]
    exact Nat.mod_eq_of_lt bound
  | delTimer id =>
    simp only [VclockCall.track]
    by_cases isLive : id ∈ run.live
    · rw [if_pos (counts isLive)]
      exact card_erase_of_count ok.count isLive
    · rw [if_neg (mt (ok.live id) isLive), erase_eq_of_notMem isLive]
      exact ok.count
  | pause => exact ok.count
  | resume => exact ok.count
  | restartWithTick => exact ok.count
  | refresh => exact ok.count

theorem CountOk.track_live {call : VclockCall} (ok : CountOk run) (counts : call.Counts run)
    (runs : vclockIsRunning (call.apply run.vclock) id) : id ∈ call.track run.live := by
  have before : call.id ∈ run.live ∨ ¬ call.Links run.vclock → id ∈ run.live := by
    intro either
    rcases VclockCall.running runs with running | ⟨rfl, links⟩
    · exact ok.live id running
    · exact either.resolve_right (not_not_intro links)
  cases call with
  | addTimer =>
    rcases VclockCall.running runs with running | ⟨rfl, -⟩
    · exact mem_insert_of_mem (ok.live id running)
    · exact mem_insert_self _ _
  | delTimer =>
    refine mem_erase.mpr ⟨?_, before (Or.inr not_false)⟩
    rintro rfl
    exact vclockDelTimer_stops run.vclock id runs
  | pause => exact before (Or.inr not_false)
  | resume => exact before (or_not_of_imp counts)
  | restartWithTick => exact before (Or.inl (counts trivial))
  | refresh => exact before (or_not_of_imp counts)

theorem CountOk.call {call : VclockCall} (ok : CountOk run) (counts : call.Counts run) :
    CountOk ((VclockEvent.call call).next run) := by
  obtain ⟨now, atTick⟩ := ok.atTick
  have proper : call.Proper run.vclock := by
    cases call with
    | addTimer id =>
      by_contra linked
      exact counts.1 (ok.live id (isSome_iff_ne_none.mpr linked))
    | _ => trivial
  obtain ⟨linked, stillAtTick⟩ := VclockCall.invariant proper ok.linked atTick
  exact ⟨linked, ⟨now, stillAtTick⟩, ok.track_card counts, fun _ => ok.track_live counts⟩

theorem CountOk.stepBegin (ok : CountOk run) : CountOk (VclockEvent.stepBegin.next run) := by
  obtain ⟨now, atTick⟩ := ok.atTick
  obtain ⟨linked, stillAtTick, -⟩ := vclockStepBegin_invariant ok.linked atTick
  refine ⟨linked, ⟨now + 1, stillAtTick⟩, ?_, fun id runs => ok.live id ?_⟩
  · exact (congrArg BitVec.toNat (vclockStepBegin_ulNodeCount run.vclock)).trans ok.count
  by_contra stopped
  have unlinked := not_isSome_iff_eq_none.mp stopped
  have same := vclockStepBegin_node_of_unlinked ok.linked atTick unlinked
  rw [VclockEvent.next, vclockIsRunning, same] at runs
  exact stopped runs

theorem CountOk.stepFire (ok : CountOk run) : CountOk (VclockEvent.stepFire.next run) := by
  rw [VclockEvent.next]
  split
  · exact ok
  next first fired fires =>
  obtain ⟨now, atTick⟩ := ok.atTick
  obtain ⟨linked, stillAtTick, due, left, others⟩ := vclockStepFire_spec ok.linked atTick fires
  have count := vclockStepFire_ulNodeCount fires
  have isLive := ok.live first (by rw [vclockIsRunning, due]; rfl)
  refine ⟨linked, ⟨now, stillAtTick⟩, ?_, fun id runs => ?_⟩
  · simp only [count, VclockNode.expire]
    split
    · exact ok.count
    · exact card_erase_of_count ok.count isLive
  have cyclicOrOther : (run.vclock.node first).flag &&& timerFlagCycle = 0 → id ≠ first := by
    rintro once rfl
    have unlinked := left.2.2
    rw [if_neg (not_not_intro once)] at unlinked
    rw [vclockIsRunning, unlinked] at runs
    cases runs
  have stays : id ∈ run.live := by
    by_cases same : id = first
    · exact same ▸ isLive
    · rw [vclockIsRunning, others id same] at runs
      exact ok.live id runs
  rw [VclockNode.expire]
  split
  · exact stays
  · next once => exact mem_erase.mpr ⟨cyclicOrOther (not_not.mp once), stays⟩

theorem CountOk.next {event : VclockEvent} (ok : CountOk run) (counts : event.Counts run) :
    CountOk (event.next run) := by
  cases event with
  | call => exact ok.call counts
  | stepBegin => exact ok.stepBegin
  | stepFire => exact ok.stepFire
  | stepEnd => exact { ok with }

theorem countOk_init : CountOk ⟨vclockInitInstance, ∅, 0⟩ := by
  obtain ⟨linked, atTick⟩ := vclockInitInstance_invariant
  exact ⟨linked, ⟨0, atTick⟩, rfl, nofun⟩

/-- In a run whose calls add no counted timer, delete no paused one and
restart no deleted or expired one, the count is that of the timers added and
neither deleted nor expired. -/
theorem vclock_nodeCount
    (reached : vclockRuns.ReachableWhen (fun run event => event.Counts run) run) :
    NodeCounted run := by
  have ok : CountOk run := by
    apply reached.invariant
    · rintro _ rfl
      exact countOk_init
    · rintro _ _ _ ok counts ⟨-, rfl⟩
      exact ok.next counts
  exact ok.counted

instance (run : VclockRun) (event : VclockEvent) : Decidable (event.Ready run) :=
  match event with
  | .call _ => isTrue trivial
  | .stepBegin => isTrue trivial
  | .stepFire => inferInstanceAs (Decidable (0 < run.stepping ∧ (vclockStepFire run.vclock).isSome))
  | .stepEnd => inferInstanceAs (Decidable (0 < run.stepping ∧ (vclockStepFire run.vclock).isNone))

instance (run : VclockRun) (event : VclockEvent) : Decidable (event.Counts run) :=
  match event with
  | .call (.addTimer id _ _ _) =>
    inferInstanceAs (Decidable (id ∉ run.live ∧ run.live.card + 1 < 2 ^ 32))
  | .call (.delTimer id) =>
    inferInstanceAs (Decidable (id ∈ run.live → vclockIsRunning run.vclock id))
  | .call (.pause id) => inferInstanceAs (Decidable (False → id ∈ run.live))
  | .call (.resume id _) =>
    inferInstanceAs (Decidable ((run.vclock.node id).flag &&& timerFlagPause ≠ 0 → id ∈ run.live))
  | .call (.restartWithTick id _ _) => inferInstanceAs (Decidable (True → id ∈ run.live))
  | .call (.refresh id) =>
    inferInstanceAs (Decidable
      ((run.vclock.node id).ulTick ≠ vclockGetTickLeft run.vclock id → id ∈ run.live))
  | .stepBegin => isTrue trivial
  | .stepFire => isTrue trivial
  | .stepEnd => isTrue trivial

def vclockRunOf (events : List VclockEvent) : VclockRun :=
  events.foldl VclockEvent.next ⟨vclockInitInstance, ∅, 0⟩

/-- A paused timer is resumed and expires in a step whose callback adds it
again. -/
def expiring : List VclockEvent :=
  [.call (.addTimer 0 4 7 0), .call (.pause 0), .call (.resume 0 1), .stepBegin, .stepFire,
    .call (.addTimer 0 2 7 timerFlagCycle), .stepEnd]

theorem vclock_nodeCount_expiring : NodeCounted (vclockRunOf expiring) := by
  have admitted : System.Admitted (fun run event => event.Ready run ∧ event.Counts run)
      VclockEvent.next ⟨vclockInitInstance, ∅, 0⟩ expiring := by decide +kernel
  apply vclock_nodeCount
  apply System.ReachableWhen.foldl _ (.start rfl) admitted
  exact fun run event both => ⟨both.2, both.1, rfl⟩

theorem vclockRunOf_reachable {events : List VclockEvent}
    (ready : System.Admitted VclockEvent.Ready VclockEvent.next ⟨vclockInitInstance, ∅, 0⟩ events) :
    vclockRuns.Reachable (vclockRunOf events) := by
  apply System.ReachableWhen.foldl _ (.start rfl) ready
  exact fun run event isReady => ⟨trivial, isReady, rfl⟩

/-- Deleting a paused timer leaves it counted. -/
theorem vclock_nodeCount_paused : ¬ ∀ run, vclockRuns.Reachable run → NodeCounted run := by
  intro holds
  have counted := holds _ (@vclockRunOf_reachable
    [.call (.addTimer 0 4 7 0), .call (.pause 0), .call (.delTimer 0)] (by decide +kernel))
  exact absurd counted.count (by decide +kernel)

end MyCode.Vclock
