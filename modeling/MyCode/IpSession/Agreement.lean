import MyCode.Cuckoo.Contents
import MyCode.IpSession.Table
import MyCode.Vclock.Resume

/-!
# Sessions are found and timed out

Runs of the calls on a session table, kept beside the set of the sessions that were
added and neither deleted nor timed out.
-/

namespace MyCode.IpSession

open MyCode.Cuckoo MyCode.Vclock VclockInstance Function List Option

inductive IpSessionCall where
  | cacheEnable (allocated : Bool)
  /-- The caller fills the memory of the session first. -/
  | add (RAND_Get : Nat → UINT) (session : NodeId) (memory : IpSessionS)
  | findSession (key : IpTupKey)
  | del (key : IpTupKey)
  | delByIndex (index : Nat)
  | refresh (session : NodeId)
  | setState (session : NodeId) (state : BitVec 4)
  | timeStep

structure IpSessionRun where
  ctrl : IpSessionCtrl
  /-- The sessions added and neither deleted nor timed out. -/
  live : Finset NodeId
  steps : Nat
  timeouts : NodeId → Nat

/-- Sessions with new keys are added, and live ones refreshed. -/
def IpSessionCall.Enabled (run : IpSessionRun) : IpSessionCall → Prop
  | add _ session memory => session ∉ run.live ∧ memory.state.toNat < ipSessionStateMax ∧
      ∀ other ∈ run.live, (run.ctrl.session other).key ≠ memory.key
  | refresh session => session ∈ run.live
  | setState session state => session ∈ run.live ∧ state.toNat < ipSessionStateMax
  | _ => True

section

variable (JHASH_GeneralBuffer : IpTupKey → UINT)

def ipSessionNext (run : IpSessionRun) : IpSessionCall → IpSessionRun
  | .cacheEnable allocated => { run with ctrl := ipSessionCacheEnable run.ctrl allocated }
  | .add RAND_Get session memory =>
    let added := ipSessionAdd JHASH_GeneralBuffer (run.ctrl.write session memory) RAND_Get session
    { run with
      ctrl := added.1
      live := if added.2.isSome then insert session run.live else run.live }
  | .findSession key =>
    { run with ctrl := (ipSessionFindSession JHASH_GeneralBuffer run.ctrl key).1 }
  | .del key =>
    { run with
      ctrl := (ipSessionDel JHASH_GeneralBuffer run.ctrl key).1
      live := run.live.filter fun session => (run.ctrl.session session).key ≠ key }
  | .delByIndex index =>
    { run with
      ctrl := (ipSessionDelByIndex run.ctrl index).1
      live :=
        match (cuckooHashGetData run.ctrl.ip_tup_box index).bind IpTupPtr.owner with
        | some session => run.live.erase session
        | none => run.live }
  | .refresh session => { run with ctrl := ipSessionRefresh run.ctrl session }
  | .setState session state => { run with ctrl := ipSessionSetState run.ctrl session state }
  | .timeStep =>
    let stepped := ipSessionTimeStep JHASH_GeneralBuffer run.ctrl
    { ctrl := stepped.1
      live := run.live.filter fun session => session ∉ stepped.2
      steps := run.steps + 1
      timeouts := fun session => run.timeouts session + stepped.2.count session }

def ipSessionSystem (bucket_num bucket_depth : UINT) : Lib.System IpSessionRun IpSessionCall where
  start run := ∃ NUM_IS2N hash_table session,
    (ipSessionInit NUM_IS2N hash_table session bucket_num bucket_depth).map
      (⟨·, ∅, 0, fun _ => 0⟩) = some run
  step run call after := call.Enabled run ∧ after = ipSessionNext JHASH_GeneralBuffer run call

end

/-- The call adds, refreshes or deletes the session. -/
def IpSessionCall.Touches (run : IpSessionRun) (session : NodeId) : IpSessionCall → Prop
  | add _ other _ => other = session
  | del key => session ∈ run.live ∧ (run.ctrl.session session).key = key
  | delByIndex index =>
    (cuckooHashGetData run.ctrl.ip_tup_box index).bind IpTupPtr.owner = some session
  | refresh other => other = session
  | setState other _ => other = session
  | _ => False

/-- The cache finds what the box has, and the box has the live sessions. -/
structure IpSessionFinds (JHASH_GeneralBuffer : IpTupKey → UINT) (run : IpSessionRun) : Prop where
  cache : ∀ key, (ipSessionFindSession JHASH_GeneralBuffer run.ctrl key).2 =
    boxFindData JHASH_GeneralBuffer run.ctrl key
  box : ∀ key session, boxFindData JHASH_GeneralBuffer run.ctrl key = some session ↔
    session ∈ run.live ∧ (run.ctrl.session session).key = key

/-- In every run that does not touch it from here on, a live session is timed out once,
in the step that its timer waits for. -/
def IpSessionTimesOut (JHASH_GeneralBuffer : IpTupKey → UINT) (bucket_num bucket_depth : UINT)
    (run : IpSessionRun) : Prop :=
  ∀ session ∈ run.live, ∃ left, left = (vclockGetTickLeft run.ctrl.vclock session).toNat ∧ 0 < left ∧
    ∀ after, ((ipSessionSystem JHASH_GeneralBuffer bucket_num bucket_depth).startingAt run).ReachableWhen
      (fun run call => ¬ call.Touches run session) after →
      after.timeouts session =
        run.timeouts session + (if run.steps + left ≤ after.steps then 1 else 0) ∧
      (session ∈ after.live ↔ after.steps < run.steps + left)

def sessionPtrs (live : Finset NodeId) : Finset IpTupPtr :=
  live.map ⟨IpTupPtr.session, fun _ _ same => IpTupPtr.session.inj same⟩

structure IpSessionOk (JHASH_GeneralBuffer : IpTupKey → UINT) (ctrl : IpSessionCtrl)
    (live : Finset NodeId) (now a b : Nat) : Prop where
  box : CuckooRunOk (ctrl.funcs JHASH_GeneralBuffer) ⟨ctrl.ip_tup_box, sessionPtrs live⟩ a b
  linked : Linked ctrl.vclock
  atTick : AtTick ctrl.vclock now
  landed : ∀ session ∈ live, ∃ deadline, (ctrl.vclock.node session).Landed now deadline
  once : ∀ session ∈ live, (ctrl.vclock.node session).flag = 0 ∧
    0 < (ctrl.vclock.node session).ulTick.toNat
  stopped : ∀ session ∉ live, (ctrl.vclock.node session).pstHead = none
  cached : ∀ cache, ctrl.find_cache = some cache → ∀ index session, cache index = some session →
    session ∈ live ∧ cacheIndex (ctrl.session session).key = index
  ticks : ctrl.timeout_tick = ipSessionDftTimeoutSteps

variable {jhash : IpTupKey → UINT} {ctrl : IpSessionCtrl} {live : Finset NodeId}
  {now a b : Nat} {session : NodeId} {key : IpTupKey} {run : IpSessionRun}

theorem mem_sessionPtrs {ptr : IpTupPtr} :
    ptr ∈ sessionPtrs live ↔ ∃ session ∈ live, IpTupPtr.session session = ptr :=
  Finset.mem_map

theorem session_mem_sessionPtrs : IpTupPtr.session session ∈ sessionPtrs live ↔ session ∈ live := by
  rw [mem_sessionPtrs]
  constructor
  · rintro ⟨_, inside, same⟩
    exact IpTupPtr.session.inj same ▸ inside
  · exact fun inside => ⟨session, inside, rfl⟩

theorem sessionPtrs_erase : (sessionPtrs live).erase (.session session) = sessionPtrs
    (live.erase session) := by
  ext ptr
  cases ptr with
  | session =>
    rw [Finset.mem_erase, session_mem_sessionPtrs, session_mem_sessionPtrs, Finset.mem_erase]
    simp
  | key => simp [sessionPtrs]

theorem funcs_cmp {first second : IpTupPtr} :
    (ctrl.funcs jhash).cmp_func first second = 0 ↔
      first.read ctrl.session = second.read ctrl.session := by
  simp [IpSessionCtrl.funcs, ipTupFuncs]

theorem funcs_agree : (ctrl.funcs jhash).Agree where
  refl _ := funcs_cmp.mpr rfl
  symm _ _ same := funcs_cmp.mpr (funcs_cmp.mp same).symm
  trans _ _ _ same next := funcs_cmp.mpr ((funcs_cmp.mp same).trans (funcs_cmp.mp next))
  factor _ _ same := congrArg jhash (funcs_cmp.mp same)

section

variable
  (box : CuckooRunOk (ctrl.funcs jhash) ⟨ctrl.ip_tup_box, sessionPtrs live⟩ a b)

include box

theorem box_apart {first second : NodeId} (isFirst : first ∈ live) (isSecond : second ∈ live)
    (same : (ctrl.session first).key = (ctrl.session second).key) : first = second :=
  IpTupPtr.session.inj (box.apart _ (session_mem_sessionPtrs.mpr isFirst) _
    (session_mem_sessionPtrs.mpr isSecond) (funcs_cmp.mpr same))

theorem ipSessionFind_some
    {index : Nat} (found : ipSessionFind jhash ctrl key = some index) :
    ∃ session ∈ live, (ctrl.session session).key = key ∧ index < ctrl.ip_tup_box.size ∧
      (ctrl.ip_tup_box.table index).used = true ∧
      (ctrl.ip_tup_box.table index).data = .session session := by
  obtain ⟨bounded, used, same⟩ := cuckooHashFind_sound box.sized found
  have inside : (ctrl.ip_tup_box.table index).data ∈ sessionPtrs live := by
    rw [← Finset.mem_val, ← box.contents]
    exact mem_contents.mpr ⟨index, bounded, used, rfl⟩
  obtain ⟨session, isLive, isData⟩ := mem_sessionPtrs.mp inside
  rw [← isData] at same
  exact ⟨session, isLive, funcs_cmp.mp same, bounded, used, isData.symm⟩

theorem ipSessionFind_isSome (isLive : session ∈ live) :
    ∃ index, ipSessionFind jhash ctrl (ctrl.session session).key = some index := by
  refine isSome_iff_exists.mp ((cuckooHashFind_iff box.sized box.placed funcs_agree).mpr ?_)
  refine ⟨.session session, ?_, funcs_cmp.mpr rfl⟩
  rw [box.contents]
  exact session_mem_sessionPtrs.mpr isLive

theorem boxFindData_eq_some :
    boxFindData jhash ctrl key = some session ↔
      session ∈ live ∧ (ctrl.session session).key = key := by
  have data : boxFindData jhash ctrl key =
      (ipSessionFind jhash ctrl key).bind fun index =>
        (ctrl.ip_tup_box.table index).data.owner := by
    rw [boxFindData, cuckooHashFindData, bind_map]
    rfl
  rw [data]
  constructor
  · intro found
    obtain ⟨_, isFound, owner⟩ := bind_eq_some_iff.mp found
    obtain ⟨_, isLive, same, -, -, isData⟩ := ipSessionFind_some box isFound
    rw [isData] at owner
    cases owner
    exact ⟨isLive, same⟩
  · rintro ⟨isLive, rfl⟩
    obtain ⟨_, isFound⟩ := ipSessionFind_isSome box isLive
    obtain ⟨_, otherLive, same, -, -, isData⟩ := ipSessionFind_some box isFound
    rw [isFound, bind_some, isData, box_apart box otherLive isLive same]
    rfl

end

/-- The table without the session at a place of the box. -/
def ipSessionRemoved (ctrl : IpSessionCtrl) (index : Nat) (session : NodeId) : IpSessionCtrl :=
  { ctrl with
    find_cache := ctrl.find_cache.map fun cache =>
      update cache (cacheIndex (ctrl.session session).key) none
    ip_tup_box := (cuckooHashDelIndex ctrl.ip_tup_box index).1
    vclock := vclockDelTimer ctrl.vclock session }

theorem ipSessionDelByIndex_eq {index : Nat}
    (owner : (cuckooHashGetData ctrl.ip_tup_box index).bind IpTupPtr.owner = some session) :
    ipSessionDelByIndex ctrl index = (ipSessionRemoved ctrl index session, some session) := by
  rw [ipSessionDelByIndex, owner]
  rfl

variable
  (box : CuckooRunOk (ctrl.funcs jhash) ⟨ctrl.ip_tup_box, sessionPtrs live⟩ a b)

include box in
theorem ipSessionDel_eq (isLive : session ∈ live) :
    ∃ index, (cuckooHashGetData ctrl.ip_tup_box index).bind IpTupPtr.owner = some session ∧
      ipSessionDel jhash ctrl (ctrl.session session).key =
        (ipSessionRemoved ctrl index session, some session) := by
  obtain ⟨index, isFound⟩ := ipSessionFind_isSome box isLive
  obtain ⟨_, otherLive, same, _, used, isData⟩ := ipSessionFind_some box isFound
  have isSession := box_apart box otherLive isLive same
  have owner : (cuckooHashGetData ctrl.ip_tup_box index).bind IpTupPtr.owner = some session := by
    have inside : ¬ (index : Int) ≥ (ctrl.ip_tup_box.size : Int) := by omega
    rw [cuckooHashGetData, box.sized.size_cast, if_neg inside, used, isData, isSession]
    rfl
  refine ⟨index, owner, ?_⟩
  rw [ipSessionDel, isFound]
  exact ipSessionDelByIndex_eq owner

include box in
theorem box_removed {index : Nat}
    (owner : (cuckooHashGetData ctrl.ip_tup_box index).bind IpTupPtr.owner = some session) :
    CuckooRunOk (ctrl.funcs jhash)
      ⟨(cuckooHashDelIndex ctrl.ip_tup_box index).1, sessionPtrs (live.erase session)⟩ a b := by
  obtain ⟨ptr, isData, isOwner⟩ := bind_eq_some_iff.mp owner
  have isPtr : ptr = .session session := by
    cases ptr with
    | session => exact congrArg IpTupPtr.session (some.inj isOwner)
    | key => cases isOwner
  have removed := @CuckooRunOk.delIndex _ _ _ _ index _ _ box
  simp only [cuckooRunNext, CuckooCall.run, CuckooCall.leaves, isData, isPtr,
    sessionPtrs_erase] at removed
  exact removed

theorem IpSessionOk.removed (ok : IpSessionOk jhash ctrl live now a b)
    {vclock : VclockInstance} {index : Nat}
    (owner : (cuckooHashGetData ctrl.ip_tup_box index).bind IpTupPtr.owner = some session)
    (linked : Linked vclock) (atTick : AtTick vclock now)
    (others : ∀ other, other ≠ session → vclock.node other = ctrl.vclock.node other) :
    IpSessionOk jhash (ipSessionRemoved { ctrl with vclock := vclock } index session)
      (live.erase session) now a b := by
  obtain ⟨stillLinked, stillAtTick, unlinked, kept⟩ := vclockDelTimer_invariant linked atTick
  have node (other : NodeId) (differs : other ≠ session) :
      (vclockDelTimer vclock session).node other = ctrl.vclock.node other :=
    (kept other differs).trans (others other differs)
  refine ⟨box_removed ok.box owner, stillLinked, stillAtTick, fun other inside => ?_,
    fun other inside => ?_, fun other outside => ?_, fun cache isCache index other isOther => ?_,
    ok.ticks⟩
  · obtain ⟨differs, isLive⟩ := Finset.mem_erase.mp inside
    obtain ⟨deadline, landed⟩ := ok.landed other isLive
    exact ⟨deadline, (node other differs).symm ▸ landed⟩
  · obtain ⟨differs, isLive⟩ := Finset.mem_erase.mp inside
    exact (node other differs).symm ▸ ok.once other isLive
  · by_cases same : other = session
    · rw [same]
      exact unlinked
    · have isDead : other ∉ live := fun isLive => outside (Finset.mem_erase.mpr ⟨same, isLive⟩)
      exact (node other same).symm ▸ ok.stopped other isDead
  obtain ⟨before, isBefore, rfl⟩ := map_eq_some_iff.mp isCache
  by_cases slot : index = cacheIndex (ctrl.session session).key
  · rw [slot, update_self] at isOther
    cases isOther
  rw [update_of_ne slot] at isOther
  obtain ⟨isLive, isIndex⟩ := ok.cached before isBefore index other isOther
  refine ⟨Finset.mem_erase.mpr ⟨?_, isLive⟩, isIndex⟩
  rintro rfl
  exact slot isIndex.symm

/-- What the firing loop does: it times out the sessions that are due, each once. -/
structure IpSessionFired (JHASH_GeneralBuffer : IpTupKey → UINT) (ctrl : IpSessionCtrl)
    (live : Finset NodeId) (now a b : Nat) (after : IpSessionCtrl × List NodeId) : Prop where
  distinct : after.2.Nodup
  fired : ∀ session, session ∈ after.2 ↔ session ∈ live ∧ (ctrl.vclock.node session).Due now
  ok : IpSessionOk JHASH_GeneralBuffer after.1 (live.filter fun session => session ∉ after.2) now a b
  node : ∀ session ∉ after.2, after.1.vclock.node session = ctrl.vclock.node session
  settled : ∀ session, ¬ (after.1.vclock.node session).Due now

theorem IpSessionOk.live_of_due (ok : IpSessionOk jhash ctrl live now a b)
    (due : (ctrl.vclock.node session).Due now) : session ∈ live := by
  by_contra isDead
  rw [VclockNode.Due, ok.stopped session isDead] at due
  cases due

theorem IpSessionOk.finished (ok : IpSessionOk jhash ctrl live now a b)
    (none : vclockStepFire ctrl.vclock = none) :
    IpSessionFired jhash ctrl live now a b (ctrl, []) := by
  have settled (session : NodeId) : ¬ (ctrl.vclock.node session).Due now :=
    not_due_of_vclockStepFire_eq_none ok.linked ok.atTick none
  refine ⟨nodup_nil, fun session => ?_, ?_, fun _ _ => rfl, settled⟩
  · simp [settled session]
  · simpa using ok

theorem ipSessionFiring_fired (turns : Nat) (ok : IpSessionOk jhash ctrl live now a b)
    (enough : (ctrl.vclock.stTimerLevel 0 (ctrl.vclock.ulCurrentLevelTick 0)).length ≤ turns) :
    IpSessionFired jhash ctrl live now a b
      (ipSessionFiring jhash turns ctrl) := by
  induction turns generalizing ctrl live with
  | zero =>
    apply ok.finished
    rw [vclockStepFire, length_eq_zero_iff.mp (Nat.le_zero.mp enough)]
  | succ turns ih =>
    rw [ipSessionFiring]
    cases fires : vclockStepFire ctrl.vclock with
    | none => exact ok.finished fires
    | some turn =>
      obtain ⟨timer, vclock⟩ := turn
      obtain ⟨linked, atTick, due, fired, others⟩ := vclockStepFire_spec ok.linked ok.atTick fires
      have isLive := ok.live_of_due due
      obtain ⟨isOnce, -⟩ := ok.once timer isLive
      have unlinked : (vclock.node timer).pstHead = none := by
        have stays := fired.2.2
        rw [isOnce] at stays
        simpa using stays
      have shorter : (vclock.stTimerLevel 0 (vclock.ulCurrentLevelTick 0)).length ≤ turns := by
        cases list : ctrl.vclock.stTimerLevel 0 (ctrl.vclock.ulCurrentLevelTick 0) with
        | nil =>
          rw [vclockStepFire, list] at fires
          cases fires
        | cons first =>
          have firstDue : (ctrl.vclock.node first).Due now := by
            rw [ok.linked.due_iff ok.atTick, list]
            exact mem_cons_self
          obtain ⟨_, firesFirst, left⟩ := vclockStepFire_of_cons ok.atTick list
            (ok.once first (ok.live_of_due firstDue)).2
          cases fires.symm.trans firesFirst
          rw [left]
          rw [list, length_cons] at enough
          omega
      obtain ⟨index, owner, deleted⟩ :=
        @ipSessionDel_eq jhash { ctrl with vclock := vclock } live a b timer
          ok.box isLive
      have timeout : ipSessionTimeout jhash { ctrl with vclock := vclock } timer =
          ipSessionRemoved { ctrl with vclock := vclock } index timer :=
        congrArg Prod.fst deleted
      -- The timer was taken out of its list before its callback deletes it.
      have untouched : (ipSessionRemoved { ctrl with vclock := vclock } index timer).vclock =
          vclock := by
        change vclockDelTimer vclock timer = vclock
        rw [vclockDelTimer, unlinked]
      have removed := ok.removed owner linked atTick others
      have rest := ih removed (by rw [untouched]; exact shorter)
      simp only [timeout]
      have gone : timer ∉ (ipSessionFiring jhash turns
          (ipSessionRemoved { ctrl with vclock := vclock } index timer)).2 :=
        fun inside => Finset.notMem_erase timer live ((rest.fired timer).mp inside).1
      refine ⟨nodup_cons.mpr ⟨gone, rest.distinct⟩, fun session => ?_, ?_,
        fun session outside => ?_, rest.settled⟩
      · rw [mem_cons, rest.fired, untouched, Finset.mem_erase]
        by_cases same : session = timer
        · rw [same]
          exact ⟨fun _ => ⟨isLive, due⟩, fun _ => .inl rfl⟩
        · rw [others session same]
          simp [same]
      · have sameLive : (live.filter fun session => session ∉ timer :: (ipSessionFiring
            jhash turns
              (ipSessionRemoved { ctrl with vclock := vclock } index timer)).2) =
            (live.erase timer).filter fun session => session ∉ (ipSessionFiring
              jhash turns
                (ipSessionRemoved { ctrl with vclock := vclock } index timer)).2 := by
          ext session
          simp only [Finset.mem_filter, Finset.mem_erase, mem_cons, not_or]
          tauto
        rw [sameLive]
        exact rest.ok
      · obtain ⟨differs, outside⟩ := not_or.mp (fun inside => outside (mem_cons.mpr inside))
        rw [rest.node session outside, untouched]
        exact others session differs

structure IpSessionRunOk (JHASH_GeneralBuffer : IpTupKey → UINT) (run : IpSessionRun) (a b : Nat) :
    Prop where
  ok : IpSessionOk JHASH_GeneralBuffer run.ctrl run.live run.steps a b
  settled : ∀ session, ¬ (run.ctrl.vclock.node session).Due run.steps

theorem IpSessionRunOk.armed (runOk : IpSessionRunOk jhash run a b)
    (isLive : session ∈ run.live) :
    ∃ deadline, (run.ctrl.vclock.node session).Armed run.steps deadline := by
  obtain ⟨deadline, armed | ⟨due, -⟩⟩ := runOk.ok.landed session isLive
  · exact ⟨deadline, armed⟩
  · exact absurd due (runOk.settled session)

structure IpSessionStepped (run after : IpSessionRun) (session : NodeId) : Prop where
  steps : after.steps = run.steps + 1
  dead : session ∉ run.live → session ∉ after.live ∧ after.timeouts session = run.timeouts session
  due : ∀ deadline, session ∈ run.live →
    (run.ctrl.vclock.node session).Armed run.steps deadline →
      (deadline = run.steps + 1 ∧ session ∉ after.live ∧
        after.timeouts session = run.timeouts session + 1) ∨
      (deadline ≠ run.steps + 1 ∧ session ∈ after.live ∧
        after.timeouts session = run.timeouts session ∧
        (after.ctrl.vclock.node session).Armed after.steps deadline)

theorem IpSessionRunOk.timeStep (runOk : IpSessionRunOk jhash run a b) :
    IpSessionRunOk jhash (ipSessionNext jhash run .timeStep) a b ∧
      ∀ session,
        IpSessionStepped run (ipSessionNext jhash run .timeStep) session := by
  have ok := runOk.ok
  obtain ⟨linked, atTick, kept⟩ := vclockStepBegin_invariant ok.linked ok.atTick
  have begun : IpSessionOk jhash
      { run.ctrl with vclock := vclockStepBegin run.ctrl.vclock } run.live (run.steps + 1) a b := by
    refine { ok with linked := linked, atTick := atTick, landed := ?_, once := ?_, stopped := ?_ }
    · intro session isLive
      obtain ⟨deadline, armed⟩ := runOk.armed isLive
      exact ⟨deadline, vclockStepBegin_landed ok.linked ok.atTick armed⟩
    · intro session isLive
      obtain ⟨sameFlag, sameTick⟩ := kept session
      exact sameFlag.symm ▸ sameTick.symm ▸ ok.once session isLive
    · intro session isDead
      have stays := vclockStepBegin_node_of_unlinked ok.linked ok.atTick (ok.stopped session isDead)
      exact stays.symm ▸ ok.stopped session isDead
  have fired := ipSessionFiring_fired _ begun le_rfl
  have count (session : NodeId) (inside : session ∈ (ipSessionTimeStep jhash run.ctrl).2) :
      (ipSessionNext jhash run .timeStep).timeouts session =
        run.timeouts session + 1 :=
    congrArg (run.timeouts session + ·) (count_eq_one_of_mem fired.distinct inside)
  have noCount (session : NodeId)
      (absent : session ∉ (ipSessionTimeStep jhash run.ctrl).2) :
      (ipSessionNext jhash run .timeStep).timeouts session = run.timeouts session :=
    congrArg (run.timeouts session + ·) (count_eq_zero.mpr absent)
  refine ⟨⟨fired.ok, fired.settled⟩, fun session => ⟨rfl, fun isDead => ⟨?_, ?_⟩, ?_⟩⟩
  · exact fun isLive => isDead (Finset.mem_filter.mp isLive).1
  · exact noCount session fun inside => isDead ((fired.fired session).mp inside).1
  intro deadline isLive armed
  rcases vclockStepBegin_landed ok.linked ok.atTick armed with waits | ⟨due, isDeadline⟩
  · have absent :=  fun inside => waits.not_due ((fired.fired session).mp inside).2
    refine .inr ⟨Nat.ne_of_gt waits.now_lt, Finset.mem_filter.mpr ⟨isLive, absent⟩,
      noCount session absent, ?_⟩
    have node : (ipSessionNext jhash run .timeStep).ctrl.vclock.node session =
        (vclockStepBegin run.ctrl.vclock).node session := fired.node session absent
    rw [node]
    exact waits
  · have inside := (fired.fired session).mpr ⟨isLive, due⟩
    exact .inl ⟨isDeadline, fun stays => (Finset.mem_filter.mp stays).2 inside,
      count session inside⟩

structure IpSessionKept (run after : IpSessionRun) (session : NodeId) : Prop where
  steps : after.steps = run.steps
  live : session ∈ after.live ↔ session ∈ run.live
  timeouts : after.timeouts session = run.timeouts session
  node : after.ctrl.vclock.node session = run.ctrl.vclock.node session

/-- The call keeps the invariant and the sessions that it does not touch. -/
def IpSessionCall.Keeps (JHASH_GeneralBuffer : IpTupKey → UINT) (run : IpSessionRun) (a b : Nat)
    (call : IpSessionCall) : Prop :=
  IpSessionRunOk JHASH_GeneralBuffer (ipSessionNext JHASH_GeneralBuffer run call) a b ∧
    ∀ other, ¬ call.Touches run other →
      IpSessionKept run (ipSessionNext JHASH_GeneralBuffer run call) other

section

variable (ok : IpSessionOk jhash ctrl live now a b)

include ok

theorem IpSessionOk.withCache {find_cache : Option (USHORT → Option NodeId)}
    (cached : ∀ cache, find_cache = some cache → ∀ index session, cache index = some session →
      session ∈ live ∧ cacheIndex (ctrl.session session).key = index) :
    IpSessionOk jhash { ctrl with find_cache := find_cache } live now a b :=
  { ok with cached := cached }

theorem IpSessionOk.cacheEnable (allocated : Bool) :
    IpSessionOk jhash (ipSessionCacheEnable ctrl allocated) live now a b ∧
      (ipSessionCacheEnable ctrl allocated).vclock = ctrl.vclock := by
  rw [ipSessionCacheEnable]
  split
  · exact ⟨ok, rfl⟩
  split
  · refine ⟨ok.withCache fun cache isCache index session isSession => ?_, rfl⟩
    cases isCache
    cases isSession
  · exact ⟨ok, rfl⟩

theorem IpSessionOk.cached_eq (isCached : ipSessionCached ctrl key = some session) :
    boxFindData jhash ctrl key = some session := by
  rw [ipSessionCached] at isCached
  split at isCached
  · cases isCached
  next cache isCache =>
  obtain ⟨inSlot, same⟩ := filter_eq_some_iff.mp isCached
  exact (boxFindData_eq_some ok.box).mpr
    ⟨(ok.cached cache isCache _ session inSlot).1, of_decide_eq_true same⟩

theorem IpSessionOk.findSession_eq :
    (ipSessionFindSession jhash ctrl key).2 =
      boxFindData jhash ctrl key := by
  rw [ipSessionFindSession]
  split
  · next sess isCached => exact (ok.cached_eq isCached).symm
  split
  · next found => exact found.symm
  · rfl

theorem IpSessionOk.findSession :
    IpSessionOk jhash (ipSessionFindSession jhash ctrl key).1 live now a b ∧
      (ipSessionFindSession jhash ctrl key).1.vclock = ctrl.vclock := by
  rw [ipSessionFindSession]
  split
  · exact ⟨ok, rfl⟩
  split
  · next cache sess isCache found =>
    refine ⟨ok.withCache fun after isAfter index other isOther => ?_, rfl⟩
    cases isAfter
    by_cases slot : index = cacheIndex key
    · rw [slot, update_self] at isOther
      cases isOther
      obtain ⟨isLive, same⟩ := (boxFindData_eq_some ok.box).mp found
      exact ⟨isLive, by rw [same, slot]⟩
    · rw [update_of_ne slot] at isOther
      exact ok.cached cache isCache index other isOther
  · exact ⟨ok, rfl⟩

end

section

variable (runOk : IpSessionRunOk jhash run a b)

include runOk

theorem IpSessionRunOk.of_vclock {after : IpSessionCtrl}
    (ok : IpSessionOk jhash after run.live run.steps a b)
    (same : after.vclock = run.ctrl.vclock) :
    IpSessionRunOk jhash { run with ctrl := after } a b ∧
      ∀ session, ¬ False → IpSessionKept run { run with ctrl := after } session :=
  ⟨⟨ok, fun session => by rw [same]; exact runOk.settled session⟩,
    fun session _ => ⟨rfl, Iff.rfl, rfl, by rw [same]⟩⟩

theorem IpSessionRunOk.removed {index : Nat}
    (owner : (cuckooHashGetData run.ctrl.ip_tup_box index).bind IpTupPtr.owner = some session) :
    IpSessionRunOk jhash
        { run with
          ctrl := ipSessionRemoved run.ctrl index session, live := run.live.erase session } a b ∧
      ∀ other, other ≠ session →
        IpSessionKept run
          { run with
            ctrl := ipSessionRemoved run.ctrl index session, live := run.live.erase session }
          other := by
  have ok := runOk.ok
  obtain ⟨-, -, unlinked, kept⟩ := @vclockDelTimer_invariant _ session _ ok.linked ok.atTick
  refine ⟨⟨ok.removed owner ok.linked ok.atTick fun _ _ => rfl, fun other => ?_⟩,
    fun other differs => ⟨rfl, ?_, rfl, kept other differs⟩⟩
  · change ¬ ((vclockDelTimer run.ctrl.vclock session).node other).Due run.steps
    by_cases same : other = session
    · rw [same, VclockNode.Due, unlinked]
      rintro ⟨⟩
    · rw [kept other same]
      exact runOk.settled other
  · simp [differs]

theorem IpSessionRunOk.del : (IpSessionCall.del key).Keeps jhash run a b := by
  by_cases present : ∃ session ∈ run.live, (run.ctrl.session session).key = key
  · obtain ⟨session, isLive, rfl⟩ := present
    obtain ⟨_, owner, deleted⟩ := ipSessionDel_eq runOk.ok.box isLive
    have erased : (run.live.filter fun other =>
        (run.ctrl.session other).key ≠ (run.ctrl.session session).key) = run.live.erase session := by
      ext other
      rw [Finset.mem_filter, Finset.mem_erase, and_comm]
      refine and_congr_left fun otherLive => not_congr ⟨fun same => ?_, fun same => by rw [same]⟩
      exact box_apart runOk.ok.box otherLive isLive same
    obtain ⟨removed, kept⟩ := runOk.removed owner
    simp only [IpSessionCall.Keeps, ipSessionNext, deleted, erased]
    refine ⟨removed, fun other untouched => kept other ?_⟩
    rintro rfl
    exact untouched ⟨isLive, rfl⟩
  have absent : ipSessionFind jhash run.ctrl key = none := by
    cases found : ipSessionFind jhash run.ctrl key with
    | none => rfl
    | some =>
      obtain ⟨session, isLive, same, -⟩ := ipSessionFind_some runOk.ok.box found
      exact absurd ⟨session, isLive, same⟩ present
  have kept : (run.live.filter fun other => (run.ctrl.session other).key ≠ key) = run.live :=
    Finset.filter_true_of_mem fun other otherLive same => present ⟨other, otherLive, same⟩
  simp only [IpSessionCall.Keeps, ipSessionNext, ipSessionDel, absent, kept]
  exact ⟨runOk, fun _ _ => ⟨rfl, Iff.rfl, rfl, rfl⟩⟩

theorem IpSessionRunOk.delByIndex {index : Nat} :
    (IpSessionCall.delByIndex index).Keeps jhash run a b := by
  cases owner : (cuckooHashGetData run.ctrl.ip_tup_box index).bind IpTupPtr.owner with
  | none =>
    simp only [IpSessionCall.Keeps, ipSessionNext, ipSessionDelByIndex, owner]
    exact ⟨runOk, fun _ _ => ⟨rfl, Iff.rfl, rfl, rfl⟩⟩
  | some =>
    obtain ⟨removed, kept⟩ := runOk.removed owner
    simp only [IpSessionCall.Keeps, ipSessionNext, ipSessionDelByIndex_eq owner, owner]
    refine ⟨removed, fun other untouched => kept other ?_⟩
    rintro rfl
    exact untouched owner

theorem IpSessionRunOk.rearm {after : IpSessionCtrl} {deadline : Nat}
    (box : CuckooRunOk (after.funcs jhash)
      ⟨after.ip_tup_box, sessionPtrs (insert session run.live)⟩ a b)
    (linked : Linked after.vclock) (atTick : AtTick after.vclock run.steps)
    (armed : (after.vclock.node session).Armed run.steps deadline)
    (once : (after.vclock.node session).flag = 0 ∧ 0 < (after.vclock.node session).ulTick.toNat)
    (others : ∀ other, other ≠ session → after.vclock.node other = run.ctrl.vclock.node other)
    (cache : after.find_cache = run.ctrl.find_cache)
    (keys : ∀ other ∈ run.live, (after.session other).key = (run.ctrl.session other).key)
    (ticks : after.timeout_tick = run.ctrl.timeout_tick) :
    IpSessionRunOk jhash { run with ctrl := after, live := insert session run.live } a b ∧
      ∀ other, session ≠ other →
        IpSessionKept run { run with ctrl := after, live := insert session run.live } other := by
  have ok := runOk.ok
  have older (other : NodeId) (inside : other ∈ insert session run.live)
      (differs : other ≠ session) : other ∈ run.live :=
    (Finset.mem_insert.mp inside).resolve_left differs
  refine ⟨⟨⟨box, linked, atTick, fun other inside => ?_, fun other inside => ?_,
    fun other outside => ?_, fun slots isCache index other isOther => ?_, ticks.trans ok.ticks⟩,
    fun other => ?_⟩, fun other differs => ⟨rfl, ?_, rfl, others other differs.symm⟩⟩
  · by_cases same : other = session
    · exact ⟨deadline, .inl (same ▸ armed)⟩
    · rw [others other same]
      exact ok.landed other (older other inside same)
  · by_cases same : other = session
    · exact same ▸ once
    · rw [others other same]
      exact ok.once other (older other inside same)
  · obtain ⟨differs, isDead⟩ := not_or.mp (fun inside => outside (Finset.mem_insert.mpr inside))
    rw [others other differs]
    exact ok.stopped other isDead
  · obtain ⟨isLive, isIndex⟩ := ok.cached slots (cache ▸ isCache) index other isOther
    exact ⟨Finset.mem_insert_of_mem isLive, by rw [keys other isLive, isIndex]⟩
  · by_cases same : other = session
    · exact same ▸ armed.not_due
    rw [others other same]
    exact runOk.settled other
  · simp [differs.symm]

end

@[simp]
theorem write_self {memory : IpSessionS} : (ctrl.write session memory).session session = memory :=
  update_self ..

@[simp]
theorem write_of_ne {memory : IpSessionS} {other : NodeId} (differs : other ≠ session) :
    (ctrl.write session memory).session other = ctrl.session other :=
  update_of_ne differs ..

theorem funcs_congr {session other : NodeId → IpSessionS}
    (same : ∀ id, (session id).key = (other id).key) :
    ipTupFuncs jhash session = ipTupFuncs jhash other := by
  have read (ptr : IpTupPtr) : ptr.read session = ptr.read other := by
    cases ptr with
    | session id => exact same id
    | key => rfl
  simp [ipTupFuncs, read]

theorem funcs_write {memory : IpSessionS} (same : memory.key = (ctrl.session session).key) :
    (ctrl.write session memory).funcs jhash = ctrl.funcs jhash := by
  apply funcs_congr
  intro id
  by_cases isSession : id = session
  · rw [isSession, write_self, same]
  · rw [write_of_ne isSession]

theorem IpSessionOk.tick (ok : IpSessionOk jhash ctrl live now a b) {state : BitVec 4}
    (valid : state.toNat < ipSessionStateMax) :
    0 < (ctrl.tick state).toNat ∧ (ctrl.tick state).toNat + 1 < 2 ^ 32 := by
  have each : ∀ state : BitVec 4, state.toNat < ipSessionStateMax →
      0 < (ipSessionDftTimeoutSteps.getD state.toNat 0).toNat ∧
        (ipSessionDftTimeoutSteps.getD state.toNat 0).toNat + 1 < 2 ^ 32 := by
    decide
  rw [IpSessionCtrl.tick, ok.ticks]
  exact each state valid

variable (runOk : IpSessionRunOk jhash run a b)

include runOk in
theorem IpSessionRunOk.refresh (isLive : session ∈ run.live) :
    (IpSessionCall.refresh session).Keeps jhash run a b := by
  have ok := runOk.ok
  obtain ⟨isOnce, period⟩ := ok.once session isLive
  simp only [IpSessionCall.Keeps, ipSessionNext, ipSessionRefresh, vclockRefresh]
  split
  · exact ⟨runOk, fun _ _ => ⟨rfl, Iff.rfl, rfl, rfl⟩⟩
  obtain ⟨linked, atTick⟩ := @vclockRestartWithTick_invariant _ session _ ok.linked ok.atTick
    (run.ctrl.vclock.node session).ulTick (run.ctrl.vclock.node session).ulTick
  obtain ⟨armed, sameFlag, sameTick⟩ := @vclockRestartWithTick_armed _ session _ ok.atTick
    (run.ctrl.vclock.node session).ulTick (run.ctrl.vclock.node session).ulTick period
  have box : CuckooRunOk (run.ctrl.funcs jhash)
      ⟨run.ctrl.ip_tup_box, sessionPtrs (insert session run.live)⟩ a b := by
    rw [Finset.insert_eq_self.mpr isLive]
    exact ok.box
  have rearmed := @IpSessionRunOk.rearm _ _ _ session _ runOk
    { run.ctrl with vclock := (vclockRestartWithTick run.ctrl.vclock session
        (run.ctrl.vclock.node session).ulTick (run.ctrl.vclock.node session).ulTick) }
    _ box linked atTick armed ⟨sameFlag.trans isOnce, by rw [← sameTick] at period; exact period⟩
    (fun other differs => vclockRestartWithTick_node_of_ne differs _ _) rfl (fun _ _ => rfl) rfl
  rw [Finset.insert_eq_self.mpr isLive] at rearmed
  exact rearmed

include runOk in
theorem IpSessionRunOk.setState
    (isLive : session ∈ run.live) {state : BitVec 4} (valid : state.toNat < ipSessionStateMax) :
    (IpSessionCall.setState session state).Keeps jhash run a b := by
  have ok := runOk.ok
  have period := (ok.tick valid).1
  obtain ⟨linked, atTick⟩ := @vclockRestartWithTick_invariant _ session _ ok.linked ok.atTick
    (run.ctrl.tick state) (run.ctrl.tick state)
  obtain ⟨armed, sameFlag, sameTick⟩ := @vclockRestartWithTick_armed _ session _ ok.atTick
    (run.ctrl.tick state) (run.ctrl.tick state) period
  have box : CuckooRunOk ((ipSessionSetState run.ctrl session state).funcs jhash)
      ⟨run.ctrl.ip_tup_box, sessionPtrs (insert session run.live)⟩ a b := by
    have same : (ipSessionSetState run.ctrl session state).funcs jhash =
        run.ctrl.funcs jhash := funcs_write rfl
    rw [same, Finset.insert_eq_self.mpr isLive]
    exact ok.box
  have rearmed := @IpSessionRunOk.rearm _ _ _ session _ runOk
    (ipSessionSetState run.ctrl session state) _ box linked atTick armed
    ⟨sameFlag.trans (ok.once session isLive).1, by rw [← sameTick] at period; exact period⟩
    (fun other differs => vclockRestartWithTick_node_of_ne differs _ _) rfl
    (fun other _ => ?_) rfl
  · rw [Finset.insert_eq_self.mpr isLive] at rearmed
    exact rearmed
  change ((run.ctrl.write session { run.ctrl.session session with state := state }).session
    other).key = _
  by_cases same : other = session
  · rw [same, write_self]
  · rw [write_of_ne same]

@[simp]
theorem write_write {memory other : IpSessionS} :
    (ctrl.write session memory).write session other = ctrl.write session other := by
  simp [IpSessionCtrl.write, update_idem]

theorem ipSessionAdd_some {RAND_Get : Nat → UINT} {box : CuckooHashS IpTupPtr} {index : Nat}
    (isAdded : cuckooHashAdd (ctrl.funcs jhash) ctrl.ip_tup_box RAND_Get
      (.session session) = (box, some index)) :
    ∃ memory, memory.key = (ctrl.session session).key ∧
      ipSessionAdd jhash ctrl RAND_Get session =
        ({ ctrl.write session memory with
            ip_tup_box := box
            vclock := vclockAddTimer ctrl.vclock session (ctrl.tick (ctrl.session session).state)
              (ctrl.tick (ctrl.session session).state) 0 }, some index) := by
  refine ⟨{ ctrl.session session with key_hash := cuckooHashGetKeyFactor box index }, rfl, ?_⟩
  simp only [ipSessionAdd, isAdded, write_self]
  rfl

include runOk in
theorem IpSessionRunOk.add {RAND_Get : Nat → UINT} {memory : IpSessionS}
    (enabled : (IpSessionCall.add RAND_Get session memory).Enabled run) :
    (IpSessionCall.add RAND_Get session memory).Keeps jhash run a b := by
  obtain ⟨isDead, valid, fresh⟩ := enabled
  have ok := runOk.ok
  have notSession (other : NodeId) (isLive : other ∈ run.live) : other ≠ session := by
    rintro rfl
    exact isDead isLive
  -- Writing the memory of a session that is not live changes no key of the box.
  have read (ptr : IpTupPtr) (inside : ptr ∈ sessionPtrs run.live) :
      ptr.read (run.ctrl.write session memory).session = ptr.read run.ctrl.session := by
    obtain ⟨other, isLive, rfl⟩ := mem_sessionPtrs.mp inside
    exact congrArg IpSessionS.key (write_of_ne (notSession other isLive))
  have written : CuckooRunOk ((run.ctrl.write session memory).funcs jhash)
      ⟨run.ctrl.ip_tup_box, sessionPtrs run.live⟩ a b := by
    refine ok.box.congr (fun ptr inside => ?_) fun first isFirst second isSecond => ?_
    · exact congrArg jhash (read ptr inside)
    · simp [IpSessionCtrl.funcs, ipTupFuncs, read first isFirst, read second isSecond]
  have absent : ∀ other ∈ sessionPtrs run.live,
      ((run.ctrl.write session memory).funcs jhash).cmp_func other
        (.session session) ≠ 0 := by
    intro ptr inside same
    have keys := funcs_cmp.mp same
    rw [read ptr inside, IpTupPtr.read, write_self] at keys
    obtain ⟨other, isLive, rfl⟩ := mem_sessionPtrs.mp inside
    exact fresh other isLive keys
  have added := @CuckooRunOk.add _ _ _ _ _ RAND_Get funcs_agree _ _ written absent
  simp only [cuckooRunNext, CuckooCall.run, CuckooCall.leaves] at added
  generalize isResult : cuckooHashAdd ((run.ctrl.write session memory).funcs jhash)
    run.ctrl.ip_tup_box RAND_Get (.session session) = result at added
  obtain ⟨after, index⟩ := result
  have isResult' : cuckooHashAdd ((run.ctrl.write session memory).funcs jhash)
    (run.ctrl.write session memory).ip_tup_box RAND_Get (.session session) = (after, index) := isResult
  cases index with
  | none =>
    simp only [IpSessionCall.Keeps, ipSessionNext, ipSessionAdd, isResult']
    refine ⟨⟨?_, runOk.settled⟩, fun _ _ => ⟨rfl, Iff.rfl, rfl, rfl⟩⟩
    refine ⟨added, ok.linked, ok.atTick, ok.landed, ok.once, ok.stopped,
      fun cache isCache slot other isOther => ?_, ok.ticks⟩
    obtain ⟨isLive, isSlot⟩ := ok.cached cache isCache slot other isOther
    refine ⟨isLive, ?_⟩
    rw [write_of_ne (notSession other isLive), isSlot]
  | some =>
    obtain ⟨final, sameKey, isAdd⟩ := ipSessionAdd_some isResult'
    rw [write_self] at sameKey
    simp only [IpSessionCall.Keeps, ipSessionNext, isAdd, write_self, write_write, isSome_some,
      if_true] at added ⊢
    obtain ⟨period, bounded⟩ := ok.tick valid
    generalize isTick : run.ctrl.tick memory.state = tick at period bounded
    have sameTick : (run.ctrl.write session memory).tick memory.state = tick := isTick
    have unlinked := ok.stopped session isDead
    obtain ⟨linked, atTick⟩ := vclockAddTimer_invariant ok.linked ok.atTick unlinked tick tick 0
    obtain ⟨isOnce, isPeriod⟩ := vclockAddTimer_fields run.ctrl.vclock session tick tick 0
    have inserted : sessionPtrs (insert session run.live) =
        insert (.session session) (sessionPtrs run.live) := Finset.map_insert ..
    have funcs : (run.ctrl.write session final).funcs jhash =
        (run.ctrl.write session memory).funcs jhash := by
      rw [← @write_write run.ctrl session memory final]
      exact funcs_write (by rw [write_self, sameKey])
    rw [sameTick]
    refine runOk.rearm ?_ linked atTick (vclockAddTimer_armed ok.atTick bounded) ⟨isOnce, ?_⟩
      (fun other differs => ?_) rfl (fun other isLive => ?_) rfl
    · rw [inserted]
      exact funcs ▸ added
    · rw [← isPeriod] at period
      exact period
    · exact @VclockCall.node_of_ne run.ctrl.vclock other (.addTimer session tick tick 0)
        (Ne.symm differs)
    · exact congrArg IpSessionS.key (write_of_ne (notSession other isLive))

include runOk in
theorem IpSessionRunOk.next {call : IpSessionCall} (enabled : call.Enabled run) :
    IpSessionRunOk jhash (ipSessionNext jhash run call) a b ∧
      ∀ session, ¬ call.Touches run session →
        IpSessionKept run (ipSessionNext jhash run call) session ∨
          IpSessionStepped run (ipSessionNext jhash run call) session := by
  have keep {call : IpSessionCall} (keeps : call.Keeps jhash run a b) :=
    And.intro keeps.1 fun session untouched =>
      Or.intro_left (IpSessionStepped run (ipSessionNext jhash run call) session)
        (keeps.2 session untouched)
  cases call with
  | cacheEnable allocated =>
    obtain ⟨ok, same⟩ := runOk.ok.cacheEnable allocated
    exact keep (runOk.of_vclock ok same)
  | add => exact keep (runOk.add enabled)
  | findSession key =>
    obtain ⟨ok, same⟩ := @IpSessionOk.findSession _ _ _ _ _ _ key runOk.ok
    exact keep (runOk.of_vclock ok same)
  | del => exact keep runOk.del
  | delByIndex => exact keep runOk.delByIndex
  | refresh => exact keep (runOk.refresh enabled)
  | setState => exact keep (runOk.setState enabled.1 enabled.2)
  | timeStep =>
    obtain ⟨after, stepped⟩ := runOk.timeStep
    exact ⟨after, fun session _ => .inr (stepped session)⟩

theorem ipSessionSystem_ok (fits : a + b < 31)
    (reached : (ipSessionSystem jhash (BitVec.ofNat 32 (2 ^ a))
      (BitVec.ofNat 32 (2 ^ b))).Reachable run) :
    IpSessionRunOk jhash run a b := by
  apply reached.invariant
  · rintro _ ⟨NUM_IS2N, hash_table, session, isRun⟩
    obtain ⟨_, isCtrl, rfl⟩ := map_eq_some_iff.mp isRun
    obtain ⟨box, isBox, rfl⟩ := map_eq_some_iff.mp isCtrl
    obtain ⟨linked, atTick⟩ := vclockInitInstance_invariant
    have started : CuckooRunOk (ipTupFuncs jhash session) ⟨box, sessionPtrs ∅⟩ a b := by
      refine cuckooSystem_ok ?_ fits (.start ⟨NUM_IS2N, hash_table, ?_⟩)
      · exact @funcs_agree jhash ⟨box, vclockInitInstance, [], none, session⟩
      · rw [isBox]
        rfl
    refine ⟨⟨started, linked, atTick, fun session isLive => ?_, fun session isLive => ?_,
      fun _ _ => rfl, nofun, rfl⟩, nofun⟩
    · exact absurd isLive (Finset.notMem_empty session)
    · exact absurd isLive (Finset.notMem_empty session)
  · rintro _ _ _ runOk ⟨enabled, rfl⟩
    exact (runOk.next enabled).1

/-- The session waits for its step or has been timed out in it. -/
def Awaits (session : NodeId) (deadline timeouts : Nat) (run : IpSessionRun) : Prop :=
  (session ∈ run.live ∧ (run.ctrl.vclock.node session).Armed run.steps deadline ∧
    run.timeouts session = timeouts) ∨
  (session ∉ run.live ∧ deadline ≤ run.steps ∧ run.timeouts session = timeouts + 1)

theorem Awaits.next {deadline timeouts : Nat} {after : IpSessionRun}
    (awaits : Awaits session deadline timeouts run)
    (effect : IpSessionKept run after session ∨ IpSessionStepped run after session) :
    Awaits session deadline timeouts after := by
  rcases effect with kept | stepped
  · rw [Awaits, kept.live, kept.steps, kept.timeouts, kept.node]
    exact awaits
  rcases awaits with ⟨isLive, armed, count⟩ | ⟨isDead, _, count⟩
  · rcases stepped.due deadline isLive armed with
      ⟨isDeadline, gone, counted⟩ | ⟨-, stays, counted, later⟩
    · exact .inr ⟨gone, by rw [stepped.steps, isDeadline], by rw [counted, count]⟩
    · exact .inl ⟨stays, later, counted.trans count⟩
  obtain ⟨gone, counted⟩ := stepped.dead isDead
  refine .inr ⟨gone, ?_, counted.trans count⟩
  rw [stepped.steps]
  omega

variable {JHASH_GeneralBuffer : IpTupKey → UINT} {a b : Nat} {run : IpSessionRun}

/-- A session table of a size that an `int` counts finds exactly its live sessions, with
and without the cache, and times out every session that is left alone once. -/
theorem ipSession_agrees (fits : a + b < 31)
    (reached : (ipSessionSystem JHASH_GeneralBuffer (BitVec.ofNat 32 (2 ^ a))
      (BitVec.ofNat 32 (2 ^ b))).Reachable run) :
    IpSessionFinds JHASH_GeneralBuffer run ∧
      IpSessionTimesOut JHASH_GeneralBuffer (BitVec.ofNat 32 (2 ^ a)) (BitVec.ofNat 32 (2 ^ b)) run := by
  have runOk := ipSessionSystem_ok fits reached
  refine ⟨⟨fun key => runOk.ok.findSession_eq, fun key session => boxFindData_eq_some runOk.ok.box⟩,
    fun session isLive => ?_⟩
  obtain ⟨deadline, armed⟩ := runOk.armed isLive
  have left := vclockGetTickLeft_eq runOk.ok.atTick armed
  have later := armed.now_lt
  refine ⟨deadline - run.steps, left.symm, by omega, fun after following => ?_⟩
  have awaits : IpSessionRunOk JHASH_GeneralBuffer after a b ∧
      Awaits session deadline (run.timeouts session) after := by
    apply following.invariant
    · rintro _ rfl
      exact ⟨runOk, .inl ⟨isLive, armed, rfl⟩⟩
    rintro _ _ _ ⟨runOk, awaits⟩ untouched ⟨enabled, rfl⟩
    obtain ⟨afterOk, effect⟩ := runOk.next enabled
    exact ⟨afterOk, awaits.next (effect session untouched)⟩
  have due : run.steps + (deadline - run.steps) = deadline := by omega
  rw [due]
  rcases awaits.2 with ⟨stays, armed, count⟩ | ⟨gone, past, count⟩
  · have before := armed.now_lt
    rw [if_neg (by omega), count]
    exact ⟨rfl, fun _ => before, fun _ => stays⟩
  · rw [if_pos past, count]
    exact ⟨rfl, fun isLive => absurd isLive gone, fun before => absurd past (by omega)⟩

def webKey : IpTupKey :=
  ⟨2, 6, 0, 0, #v[#v[0x0a000001, 0, 0, 0], #v[0x0a000002, 0, 0, 0]], #v[40000, 80], 0⟩

def portsHash (key : IpTupKey) : UINT :=
  (cacheIndex key).setWidth 32

instance (run : IpSessionRun) : (call : IpSessionCall) → Decidable (call.Enabled run)
  | .cacheEnable _ => isTrue trivial
  | .add _ session memory => inferInstanceAs (Decidable (session ∉ run.live ∧
      memory.state.toNat < ipSessionStateMax ∧
        ∀ other ∈ run.live, (run.ctrl.session other).key ≠ memory.key))
  | .findSession _ => isTrue trivial
  | .del _ => isTrue trivial
  | .delByIndex _ => isTrue trivial
  | .refresh session => inferInstanceAs (Decidable (session ∈ run.live))
  | .setState session state => inferInstanceAs (Decidable (session ∈ run.live ∧
      state.toNat < ipSessionStateMax))
  | .timeStep => isTrue trivial

def webRun (bucket_num bucket_depth : UINT) (calls : List IpSessionCall) : IpSessionRun :=
  calls.foldl (ipSessionNext portsHash)
    ⟨⟨⟨bucket_num - 1, bucket_depth - 1, bucket_num.toInt, bucket_depth.toInt, 0,
        fun _ => ⟨false, 0, .session 0⟩⟩, vclockInitInstance, ipSessionDftTimeoutSteps, none,
      fun _ => ⟨webKey, 0, 0⟩⟩, ∅, 0, fun _ => 0⟩

theorem webRun_reachable (bucket_num bucket_depth : UINT) (calls : List IpSessionCall)
    (admitted : Lib.System.Admitted (fun run call => IpSessionCall.Enabled run call)
      (ipSessionNext portsHash) (webRun bucket_num bucket_depth []) calls) :
    (ipSessionSystem portsHash bucket_num bucket_depth).Reachable
      (webRun bucket_num bucket_depth calls) := by
  have steps (run : IpSessionRun) (call : IpSessionCall) (enabled : call.Enabled run) :
      True ∧ (ipSessionSystem portsHash bucket_num bucket_depth).step run call
        (ipSessionNext portsHash run call) :=
    ⟨trivial, enabled, rfl⟩
  exact .foldl steps
    (.start ⟨fun _ => true, fun _ => ⟨false, 0, .session 0⟩, fun _ => ⟨webKey, 0, 0⟩, rfl⟩) admitted

def webCalls : List IpSessionCall :=
  [.cacheEnable true, .add (fun _ => 0) 7 ⟨webKey, 0, 1⟩, .findSession webKey, .timeStep, .refresh 7]

theorem ipSession_agrees_web :
    (webRun 2 1 webCalls).live = {7} ∧ IpSessionFinds portsHash (webRun 2 1 webCalls) ∧
      IpSessionTimesOut portsHash 2 1 (webRun 2 1 webCalls) :=
  ⟨by decide +kernel, @ipSession_agrees portsHash 1 0 _ (by decide)
    (webRun_reachable 2 1 webCalls (by decide +kernel))⟩

/-- In a box of `2 ^ 31` buckets a session is still found after it was deleted. -/
theorem ipSession_keeps_deleted :
    (∃ run, (ipSessionSystem portsHash (BitVec.ofNat 32 (2 ^ 31)) (BitVec.ofNat 32 (2 ^ 0))).Reachable
      run ∧ run.live = ∅ ∧ (ipSessionFindSession portsHash run.ctrl webKey).2 = some 7) ∧
    ¬ ∀ (JHASH_GeneralBuffer : IpTupKey → UINT) (a b : Nat) (run : IpSessionRun), a < 32 → b < 32 →
      (ipSessionSystem JHASH_GeneralBuffer (BitVec.ofNat 32 (2 ^ a))
        (BitVec.ofNat 32 (2 ^ b))).Reachable run →
      IpSessionFinds JHASH_GeneralBuffer run ∧
        IpSessionTimesOut JHASH_GeneralBuffer (BitVec.ofNat 32 (2 ^ a)) (BitVec.ofNat 32 (2 ^ b)) run := by
  have reached := webRun_reachable (BitVec.ofNat 32 (2 ^ 31)) (BitVec.ofNat 32 (2 ^ 0))
    [.add (fun _ => 0) 7 ⟨webKey, 0, 1⟩, .del webKey] (by decide +kernel)
  have gone : (webRun (BitVec.ofNat 32 (2 ^ 31)) (BitVec.ofNat 32 (2 ^ 0))
      [.add (fun _ => 0) 7 ⟨webKey, 0, 1⟩, .del webKey]).live = ∅ := by
    decide +kernel
  have found : (ipSessionFindSession portsHash (webRun (BitVec.ofNat 32 (2 ^ 31))
      (BitVec.ofNat 32 (2 ^ 0)) [.add (fun _ => 0) 7 ⟨webKey, 0, 1⟩, .del webKey]).ctrl
        webKey).2 = some 7 := by
    decide +kernel
  refine ⟨⟨_, reached, gone, found⟩, fun holds => ?_⟩
  obtain ⟨finds, -⟩ := holds portsHash 31 0 _ (by decide) (by decide) reached
  have inside := ((finds.box webKey 7).mp found).1
  exact absurd inside (Finset.notMem_empty _)

end MyCode.IpSession
