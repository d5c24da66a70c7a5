import MyCode.KeepAlive
import MyCode.Vclock.Resume

/-!
# Keep-alives on the timer wheel

The calls that `ka_utl.c` makes to the clock, in runs where the keep-alive is reset between
steps and other timers are called at any time.  A timer that is restarted with the period
zero goes back into the slot that is being emptied, and its callback moves it on.
-/

namespace MyCode.KeepAlive

open Vclock BitVec Nat

structure KaRun where
  ka : Ka
  clock : VclockInstance

/-- `KA_Start`, where `VCLOCK_AddTimer` does not fail. -/
def kaStartTimer (id : NodeId) (run : KaRun) : KaRun :=
  let clock := run.clock.setNode id ⟨none, 0, 0, 0⟩
  let tick := run.ka.usIdle.setWidth 32
  ⟨(kaStart run.ka true).1,
    if run.ka.usIdle = 0 then clock else vclockAddTimer clock id tick tick timerFlagCycle⟩

def kaResetTimer (id : NodeId) (run : KaRun) : KaRun :=
  let tick := run.ka.usIdle.setWidth 32
  ⟨kaReset run.ka,
    if run.ka.usIdle ≠ 0 then vclockRestartWithTick run.clock id tick 0
    else vclockDelTimer run.clock id⟩

inductive KaReport where
  | sendKeepAlive
  | keepAliveFailed
  deriving DecidableEq, Repr

/-- `ka_TimeOut`, up to the function of the user that it calls last. -/
def kaTimeOut (id : NodeId) (run : KaRun) : KaRun × KaReport :=
  match kaKeepAlive run.ka with
  | (ka, true) => (⟨ka, vclockPause run.clock id⟩, .keepAliveFailed)
  | (ka, false) =>
    (⟨ka, vclockRestartWithTick run.clock id (ka.usIntval.setWidth 32) 0⟩, .sendKeepAlive)

/-- Calls that leave the timer of the keep-alive alone. -/
abbrev OtherCalls (id : NodeId) : VclockInstance → VclockInstance → Prop :=
  Calls fun call => call.id ≠ id

/-- The firing loop, and what it reports to the user of the keep-alive. -/
inductive KaFiring (id : NodeId) : KaRun → List KaReport → KaRun → Prop where
  | done {run} : vclockStepFire run.clock = none → KaFiring id run [] run
  | other {run first fired called reports after} :
      vclockStepFire run.clock = some (first, fired) →
      first ≠ id →
      OtherCalls id fired called →
      KaFiring id { run with clock := called } reports after →
      KaFiring id run reports after
  | timeOut {run fired called reports after} :
      vclockStepFire run.clock = some (id, fired) →
      OtherCalls id (kaTimeOut id { run with clock := fired }).1.clock called →
      KaFiring id ⟨(kaTimeOut id { run with clock := fired }).1.ka, called⟩ reports after →
      KaFiring id run ((kaTimeOut id { run with clock := fired }).2 :: reports) after

/-- Completed steps, and what each reports. -/
inductive KaSteps (id : NodeId) : KaRun → List (List KaReport) → KaRun → Prop where
  | done {run called} :
      OtherCalls id run.clock called → KaSteps id run [] { run with clock := called }
  | step {run called made stepped reports after} :
      OtherCalls id run.clock called →
      KaFiring id { run with clock := vclockStepBegin called } made stepped →
      KaSteps id stepped reports after →
      KaSteps id run (made :: reports) after

/-- A keep-alive that was started with an unlinked timer, and reset any number of times. -/
inductive KaStarted (id : NodeId) : KaRun → Prop where
  | start {run} :
      Reachable run.clock → (run.clock.node id).pstHead = none → KaStarted id (kaStartTimer id run)
  | reset {run} : KaStarted id run → KaStarted id (kaResetTimer id run)
  | steps {run reports after} : KaStarted id run → KaSteps id run reports after → KaStarted id after

/-- What the step reports that ends `elapsed` ticks after a reset, for a first probe after
`first` ticks. -/
def kaReports (first probes intval elapsed : Nat) : List KaReport :=
  if elapsed = first + probes * intval then [.keepAliveFailed]
  else if ∃ probe < probes, elapsed = first + probe * intval then [.sendKeepAlive]
  else []

theorem kaReports_succ (first probes intval elapsed : Nat) :
    kaReports (first + 1) probes intval (elapsed + 1) = kaReports first probes intval elapsed := by
  simp only [kaReports, add_right_comm first 1, add_right_cancel_iff]

theorem kaReports_early {first elapsed : Nat} (early : elapsed < first) (probes intval : Nat) :
    kaReports first probes intval elapsed = [] := by
  have apart (probe : Nat) : elapsed ≠ first + probe * intval :=
    (early.trans_le (le_add_right _ _)).ne
  rw [kaReports, if_neg (apart probes), if_neg]
  rintro ⟨probe, -, same⟩
  exact apart probe same

theorem kaReports_now (probes : Nat) {intval : Nat} (positive : 1 ≤ intval) :
    kaReports 0 (probes + 1) intval 0 = [.sendKeepAlive] := by
  have later : 0 ≠ 0 + (probes + 1) * intval := by
    rw [zero_add]
    exact (mul_pos probes.succ_pos positive).ne
  rw [kaReports, if_neg later, if_pos ⟨0, probes.succ_pos, by rw [Nat.zero_mul]⟩]

theorem kaReports_zero {probes intval elapsed : Nat} (later : 0 < elapsed) :
    kaReports 0 (probes + 1) intval elapsed = kaReports intval probes intval elapsed := by
  have next (probe : Nat) : 0 + (probe + 1) * intval = intval + probe * intval := by ring
  have probing : (∃ probe < probes + 1, elapsed = 0 + probe * intval) ↔
      ∃ probe < probes, elapsed = intval + probe * intval := by
    constructor
    · rintro ⟨_ | probe, below, rfl⟩
      · simp at later
      · exact ⟨probe, lt_of_succ_lt_succ below, next probe⟩
    · rintro ⟨probe, below, rfl⟩
      exact ⟨probe + 1, succ_lt_succ below, (next probe).symm⟩
  simp only [kaReports, next, probing]

variable {id : NodeId} {run after : KaRun} {made : List KaReport} {now first probes : Nat}

structure KaOk (run : KaRun) (now : Nat) : Prop where
  linked : Linked run.clock
  atTick : AtTick run.clock now

/-- The timer and the settings are as before. -/
structure KaSame (id : NodeId) (run after : KaRun) : Prop where
  ka : after.ka = run.ka
  node : after.clock.node id = run.clock.node id

section

variable (ok : KaOk run now)

include ok in
theorem KaOk.calls {called : VclockInstance} (calls : OtherCalls id run.clock called) :
    KaOk { run with clock := called } now ∧ KaSame id run { run with clock := called } := by
  obtain ⟨linked, atTick⟩ := calls.invariant ok.linked ok.atTick
  exact ⟨⟨linked, atTick⟩, rfl, calls.node fun _ other => other⟩

include ok in
theorem KaOk.fire (id : NodeId) {caller : NodeId} {fired : VclockInstance}
    (fires : vclockStepFire run.clock = some (caller, fired)) :
    KaOk { run with clock := fired } now ∧ (run.clock.node caller).Due now ∧
      (caller ≠ id → KaSame id run { run with clock := fired }) := by
  obtain ⟨linked, atTick, due, -, others⟩ := vclockStepFire_spec ok.linked ok.atTick fires
  exact ⟨⟨linked, atTick⟩, due, fun other => ⟨rfl, others id other.symm⟩⟩

include ok in
theorem KaOk.begin :
    KaOk { run with clock := vclockStepBegin run.clock } (now + 1) ∧
      ∀ id, (run.clock.node id).pstHead = none →
        (vclockStepBegin run.clock).node id = run.clock.node id := by
  obtain ⟨linked, atTick, -⟩ := vclockStepBegin_invariant ok.linked ok.atTick
  exact ⟨⟨linked, atTick⟩, fun _ => vclockStepBegin_node_of_unlinked ok.linked ok.atTick⟩

theorem KaSame.trans {between : KaRun} (same : KaSame id run between)
    (further : KaSame id between after) : KaSame id run after :=
  ⟨further.ka.trans same.ka, further.node.trans same.node⟩

include ok in
theorem KaOk.call (ka : Ka) (call : VclockCall)
    (proper : call.Proper run.clock) : KaOk ⟨ka, call.apply run.clock⟩ now := by
  obtain ⟨linked, atTick⟩ := VclockCall.invariant proper ok.linked ok.atTick
  exact ⟨linked, atTick⟩

include ok in
theorem KaOk.timeOut (id : NodeId) : KaOk (kaTimeOut id run).1 now := by
  rw [kaTimeOut]
  split
  · exact ok.call _ (.pause id) trivial
  · exact ok.call _ (.restartWithTick id _ 0) trivial

theorem kaTimeOut_failed (id : NodeId)
    (spent : run.ka.usProbeCount.toNat = run.ka.usMaxProbeCount.toNat) :
    (kaTimeOut id run).2 = .keepAliveFailed ∧
      ((kaTimeOut id run).1.clock.node id).pstHead = none := by
  have result : kaTimeOut id run =
      (⟨{ run.ka with vclock := none }, vclockPause run.clock id⟩, .keepAliveFailed) := by
    rw [kaTimeOut, kaKeepAlive, if_pos (le_def.mpr spent.ge)]
  rw [result]
  exact ⟨rfl, by simp [vclockPause]⟩

/-- The keep-alive times out `first` ticks after `now`, with `probes` probes left. -/
structure KaWaits (id : NodeId) (run : KaRun) (now first probes : Nat) : Prop extends
    KaOk run now where
  armed : (run.clock.node id).Armed now (now + first)
  left : run.ka.usProbeCount.toNat + probes = run.ka.usMaxProbeCount.toNat
  intval : 1 ≤ run.ka.usIntval.toNat

include ok in
theorem KaOk.restart (id : NodeId) {tick : USHORT} (positive : 1 ≤ tick.toNat) :
    Linked (vclockRestartWithTick run.clock id (tick.setWidth 32) 0) ∧
      AtTick (vclockRestartWithTick run.clock id (tick.setWidth 32) 0) now ∧
      ((vclockRestartWithTick run.clock id (tick.setWidth 32) 0).node id).Armed now
        (now + tick.toNat) := by
  have size : (tick.setWidth 32).toNat = tick.toNat := toNat_setWidth_of_le (by decide)
  obtain ⟨linked, atTick⟩ :=
    @vclockRestartWithTick_invariant _ id _ ok.linked ok.atTick (tick.setWidth 32) 0
  obtain ⟨armed, -⟩ :=
    @vclockRestartWithTick_armed _ id _ ok.atTick (tick.setWidth 32) 0 (by rwa [size])
  exact ⟨linked, atTick, armed⟩

variable (intval : 1 ≤ run.ka.usIntval.toNat)

include ok intval in
theorem kaTimeOut_sent (id : NodeId)
    (left : run.ka.usProbeCount.toNat + (probes + 1) = run.ka.usMaxProbeCount.toNat) :
    KaWaits id (kaTimeOut id run).1 now run.ka.usIntval.toNat probes ∧
      (kaTimeOut id run).2 = .sendKeepAlive ∧
      (kaTimeOut id run).1.ka.usIntval = run.ka.usIntval := by
  have more : ¬ run.ka.usMaxProbeCount ≤ run.ka.usProbeCount := by
    rw [le_def]
    omega
  have result : kaTimeOut id run = (⟨{ run.ka with
          usProbeCount := run.ka.usProbeCount + 1
          vclock := some (run.ka.usIntval.setWidth 32) },
        vclockRestartWithTick run.clock id (run.ka.usIntval.setWidth 32) 0⟩, .sendKeepAlive) := by
    rw [kaTimeOut, kaKeepAlive, if_neg more]
  obtain ⟨linked, atTick, armed⟩ := ok.restart id intval
  rw [result]
  have count : (run.ka.usProbeCount + 1).toNat = run.ka.usProbeCount.toNat + 1 := by
    exact mod_eq_of_lt (show run.ka.usProbeCount.toNat + 1 < 2 ^ 16 by omega)
  exact ⟨⟨⟨linked, atTick⟩, armed, by simp only [count]; omega, intval⟩, rfl, rfl⟩

variable (firing : KaFiring id run made after)

include firing ok in
theorem KaFiring.of_not_due
    (waiting : ¬ (run.clock.node id).Due now) :
    made = [] ∧ KaOk after now ∧ KaSame id run after := by
  induction firing with
  | done => exact ⟨rfl, ok, rfl, rfl⟩
  | other fires other calls _ ih =>
    obtain ⟨ok, -, same⟩ := ok.fire id fires
    obtain ⟨ok, called⟩ := ok.calls calls
    have same := (same other).trans called
    obtain ⟨empty, ok, rested⟩ := ih ok (by rwa [same.node])
    exact ⟨empty, ok, same.trans rested⟩
  | timeOut fires => exact absurd (ok.fire id fires).2.1 waiting

variable (left : run.ka.usProbeCount.toNat + probes = run.ka.usMaxProbeCount.toNat)

include ok intval left in
theorem kaTimeOut_not_due (id : NodeId) :
    ¬ ((kaTimeOut id run).1.clock.node id).Due now := by
  cases probes with
  | zero =>
    rw [VclockNode.Due, (kaTimeOut_failed id left).2]
    exact (Option.some_ne_none _).symm
  | succ => exact (kaTimeOut_sent ok intval id left).1.armed.not_due

include firing ok intval left in
/-- A step in which the timer is due calls its callback once. -/
theorem KaFiring.of_due
    (due : (run.clock.node id).Due now) :
    ∃ fired, fired.ka = run.ka ∧ KaOk fired now ∧ made = [(kaTimeOut id fired).2] ∧
      KaOk after now ∧ KaSame id (kaTimeOut id fired).1 after := by
  induction firing with
  | done finished =>
    exact absurd due (not_due_of_vclockStepFire_eq_none ok.linked ok.atTick finished)
  | other fires other calls _ ih =>
    obtain ⟨ok, -, same⟩ := ok.fire id fires
    obtain ⟨ok, called⟩ := ok.calls calls
    have same := (same other).trans called
    exact ih ok intval left (by rwa [same.node])
  | @timeOut run clock _ _ _ fires calls rest =>
    obtain ⟨ok, -⟩ := ok.fire id fires
    have waiting := kaTimeOut_not_due ok intval left id
    obtain ⟨quiet, same⟩ := (ok.timeOut id).calls calls
    obtain ⟨rfl, rested, further⟩ := rest.of_not_due quiet (by rwa [same.node])
    exact ⟨{ run with clock := clock }, rfl, ok, rfl, rested, same.trans further⟩

include ok in
theorem KaSteps.of_unlinked {reports : List (List KaReport)} (steps : KaSteps id run reports after)
    (unlinked : (run.clock.node id).pstHead = none) :
    ∀ made ∈ reports, made = [] := by
  induction steps generalizing now with
  | done => simp
  | step calls firing _ ih =>
    obtain ⟨ok, same⟩ := ok.calls calls
    obtain ⟨begun, kept⟩ := ok.begin
    have node := (kept id (by rwa [same.node])).trans same.node
    obtain ⟨empty, rested, further⟩ := firing.of_not_due begun (by
      rw [node, VclockNode.Due, unlinked]
      exact (Option.some_ne_none _).symm)
    have quiet := ih rested (by rwa [further.node, node])
    intro made member
    rcases List.mem_cons.mp member with rfl | member
    · exact empty
    · exact quiet made member

end

/-- The steps count down to the time-out, which restarts the count or stops the timer. -/
theorem KaWaits.reports {reports : List (List KaReport)} (waits : KaWaits id run now first probes)
    (steps : KaSteps id run reports after) :
    ∀ step made, reports[step]? = some made →
      made = kaReports first probes run.ka.usIntval.toNat (step + 1) := by
  induction steps generalizing now first probes with
  | done => simp
  | @step run called made stepped reports after calls firing steps ih =>
    obtain ⟨ok, same⟩ := waits.calls calls
    have armed := waits.armed
    rw [← same.node] at armed
    have landed := vclockStepBegin_landed ok.linked ok.atTick armed
    obtain ⟨begun, -⟩ := ok.begin
    intro step reported listed
    rcases landed with armed | ⟨due, _⟩
    · obtain ⟨empty, rested, further⟩ := firing.of_not_due begun armed.not_due
      obtain ⟨first, rfl⟩ : ∃ rest, first = rest + 1 := by
        have ahead := armed.now_lt
        exact ⟨first - 1, by omega⟩
      have ahead := armed.now_lt
      rw [← further.node, add_comm first 1, ← add_assoc] at armed
      rw [kaReports_succ]
      cases step with
      | zero =>
        obtain rfl : made = reported := by simpa using listed
        rw [empty, kaReports_early (by omega)]
      | succ step =>
        have later := ih ⟨rested, armed, by rw [further.ka]; exact waits.left,
          by rw [further.ka]; exact waits.intval⟩ step reported (by simpa using listed)
        rwa [further.ka] at later
    obtain rfl : first = 1 := by omega
    obtain ⟨fired, ka, firedOk, rfl, rested, further⟩ :=
      firing.of_due begun waits.intval waits.left due
    have left := waits.left
    have intval := waits.intval
    rw [← ka] at left intval ⊢
    rw [kaReports_succ 0]
    cases probes with
    | zero =>
      obtain ⟨failed, unlinked⟩ := kaTimeOut_failed id left
      cases step with
      | zero =>
        obtain rfl : [(kaTimeOut id fired).2] = reported := by simpa using listed
        simp [kaReports, failed]
      | succ _ =>
        have quiet := steps.of_unlinked rested (by rw [further.node]; exact unlinked)
        rw [quiet reported (List.mem_of_getElem? (by simpa using listed))]
        simp [kaReports]
    | succ probes =>
      obtain ⟨again, sent, sameIntval⟩ := kaTimeOut_sent firedOk intval id left
      cases step with
      | zero =>
        obtain rfl : [(kaTimeOut id fired).2] = reported := by simpa using listed
        rw [sent, kaReports_now probes intval]
      | succ step =>
        rw [kaReports_zero step.succ_pos, ← sameIntval, ← further.ka]
        have armed := again.armed
        rw [← further.node] at armed
        have later := ih ⟨rested, armed, by rw [further.ka]; exact again.left,
          by rw [further.ka]; exact again.intval⟩ step reported (by simpa using listed)
        rw [later, further.ka, sameIntval]

theorem KaFiring.ok (firing : KaFiring id run made after) (ok : KaOk run now) : KaOk after now := by
  induction firing with
  | done => exact ok
  | other fires _ calls _ ih => exact ih ((ok.fire id fires).1.calls calls).1
  | timeOut fires calls _ ih => exact ih (((ok.fire id fires).1.timeOut id).calls calls).1

theorem KaSteps.ok {reports : List (List KaReport)} (steps : KaSteps id run reports after)
    (ok : KaOk run now) : ∃ now, KaOk after now := by
  induction steps generalizing now with
  | done calls => exact ⟨now, (ok.calls calls).1⟩
  | step calls firing _ ih => exact ih (firing.ok (ok.calls calls).1.begin.1)

theorem KaStarted.ok (started : KaStarted id run) : ∃ now, KaOk run now := by
  induction started with
  | @start run reachable unlinked =>
    obtain ⟨linked, now, atTick⟩ := reachable.invariant
    have zeroed : KaOk ⟨run.ka, run.clock.setNode id ⟨none, 0, 0, 0⟩⟩ now :=
      ⟨linked.setNode unlinked.symm, atTick.setNode _⟩
    refine ⟨now, ?_⟩
    rw [kaStartTimer]
    split
    · exact ⟨zeroed.linked, zeroed.atTick⟩
    · exact zeroed.call _ (.addTimer id _ _ timerFlagCycle) (by simp [VclockCall.Proper])
  | reset _ ih =>
    obtain ⟨now, ok⟩ := ih
    refine ⟨now, ?_⟩
    rw [kaResetTimer]
    split
    · exact ok.call _ (.restartWithTick id _ 0) trivial
    · exact ok.call _ (.delTimer id) trivial
  | steps _ steps ih =>
    obtain ⟨_, ok⟩ := ih
    exact steps.ok ok

theorem kaResetTimer_waits (ok : KaOk run now) (idle : 1 ≤ run.ka.usIdle.toNat)
    (intval : 1 ≤ run.ka.usIntval.toNat) :
    KaWaits id (kaResetTimer id run) now run.ka.usIdle.toNat run.ka.usMaxProbeCount.toNat ∧
      (kaResetTimer id run).ka.usIntval = run.ka.usIntval := by
  have idles : run.ka.usIdle ≠ 0 := by
    rintro zero
    rw [zero] at idle
    cases idle
  obtain ⟨linked, atTick, armed⟩ := ok.restart id idle
  rw [kaResetTimer, kaReset, if_pos idles, if_pos idles]
  exact ⟨⟨⟨linked, atTick⟩, armed, zero_add _, intval⟩, rfl⟩

end MyCode.KeepAlive
