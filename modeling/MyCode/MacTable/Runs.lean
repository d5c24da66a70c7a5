import MyCode.MacTable.Invariant

/-!
# Finding and ageing

Runs of the calls on a MAC table, kept beside what was last added for every address.
-/

namespace MyCode.MacTable

open Hash Vclock Function Option Nat

variable {Data : Type} {result : MacTbl Data × BsStatus} {old_tick : UINT}

/-- What the accepted additions of an address left, and the steps since it was last added. -/
structure MacEntry (Data : Type) where
  node : MacNode
  userData : Option Data
  since : Nat
  deriving DecidableEq

def MacEntry.later (entry : MacEntry Data) : MacEntry Data :=
  { entry with since := entry.since + 1 }

def accepts (entry : Option (MacEntry Data)) (pstMacNode : MacNode) (eMode : MacNodeMode) : Bool :=
  match entry with
  | none => true
  | some entry => eMode = .set ∨ entry.node.uiPRI ≤ pstMacNode.uiPRI

def recordAdd (entry : Option (MacEntry Data)) (pstMacNode : MacNode) (pUserData : Option Data)
    (eMode : MacNodeMode) : MacEntry Data :=
  match entry with
  | none => ⟨pstMacNode, pUserData, 0⟩
  | some old =>
    if accepts entry pstMacNode eMode then ⟨pstMacNode, pUserData <|> old.userData, 0⟩
    else { old with since := 0 }

inductive MactblCall (Data : Type) where
  | add (memory : MacTblMemory) (pstMacNode : MacNode) (pUserData : Option Data)
      (eMode : MacNodeMode)
  | del (pstMacNode : MacNode)
  | tickStep

structure MactblRun (Data : Type) where
  mactbl : MacTbl Data
  recorded : MacAddr → Option (MacEntry Data)
  /-- The entry that a step removed last. -/
  aged : MacAddr → Option (MacEntry Data)

/-- An allocated timer is not one that is in use. -/
def MactblCall.Enabled (mactbl : MacTbl Data) : MactblCall Data → Prop
  | add memory _ _ _ =>
    memory.timer = none ∨ ∀ node ∈ hashWalk mactbl.hHashId, node.hVclock ≠ memory.timer
  | _ => True

/-- Whether a step removed the dynamic entry of an address. -/
def MactblRun.ages (run : MactblRun Data) (after : MacTbl Data) (stMac : MacAddr) : Bool :=
  match run.recorded stMac with
  | none => false
  | some entry => !entry.node.isStatic && (mactblFind after stMac).isNone

/-- An addition that fails leaves the address absent. -/
def MactblRun.next (run : MactblRun Data) : MactblCall Data → MactblRun Data
  | .add memory pstMacNode pUserData eMode =>
    let (mactbl, status) := mactblAdd run.mactbl memory pstMacNode pUserData eMode
    { run with
      mactbl := mactbl
      recorded := update run.recorded pstMacNode.stMac
        (if status = .ok then
          some (recordAdd (run.recorded pstMacNode.stMac) pstMacNode pUserData eMode)
        else none) }
  | .del pstMacNode =>
    { run with
      mactbl := mactblDel run.mactbl pstMacNode
      recorded := update run.recorded pstMacNode.stMac none }
  | .tickStep =>
    let after := mactblTickStep run.mactbl
    { mactbl := after
      recorded := fun stMac =>
        if run.ages after stMac then none else (run.recorded stMac).map MacEntry.later
      aged := fun stMac =>
        if run.ages after stMac then (run.recorded stMac).map MacEntry.later
        else run.aged stMac }

def mactblRunStart (uiUserDataSize old_tick : UINT) : MactblRun Data :=
  ⟨mactblSetOldTick (mactblCreateInstance uiUserDataSize) old_tick, fun _ => none, fun _ => none⟩

def mactblSystem (uiUserDataSize old_tick : UINT) :
    Lib.System (MactblRun Data) (MactblCall Data) where
  start run := run = mactblRunStart uiUserDataSize old_tick
  step run call after := call.Enabled run.mactbl ∧ after = run.next call

/-- What is found is what was added, and only dynamic entries age, in their time. -/
structure MactblAgrees (run : MactblRun Data) : Prop where
  find : ∀ pstMacNode pUserData, mactblGet run.mactbl pstMacNode pUserData =
    match run.recorded pstMacNode.stMac with
    | none => (.noSuch, pstMacNode, pUserData)
    | some entry => (.ok, entry.node, pUserData.map fun old => entry.userData.getD old)
  ages : ∀ stMac entry, run.recorded stMac = some entry → entry.node.isStatic = false →
    entry.since ≤ run.mactbl.uiOldTick.toNat
  aged : ∀ stMac entry, run.aged stMac = some entry → entry.node.isStatic = false ∧
    (entry.since = run.mactbl.uiOldTick.toNat ∨ entry.since = run.mactbl.uiOldTick.toNat + 1)

/-- User data comes to an entry that was added with user data, and a started timer
does not wrap. -/
structure AddFits (run : MactblRun Data) (pstMacNode : MacNode) (pUserData : Option Data)
    (eMode : MacNodeMode) : Prop where
  userData : ∀ entry ∈ run.recorded pstMacNode.stMac,
    accepts (some entry) pstMacNode eMode = true → pUserData.isSome = true →
      entry.userData.isSome = true
  timer : pstMacNode.isStatic = false →
    accepts (run.recorded pstMacNode.stMac) pstMacNode eMode = true →
      (∀ entry ∈ run.recorded pstMacNode.stMac, entry.node.isStatic = true) →
        run.mactbl.uiOldTick.toNat + 1 < 2 ^ 32

def MactblFits (run : MactblRun Data) : MactblCall Data → Prop
  | .add _ pstMacNode pUserData eMode => AddFits run pstMacNode pUserData eMode
  | _ => True

variable {mactbl after : MacTbl Data} {run : MactblRun Data} {now : Nat} {stMac other : MacAddr}
  {node : MacTblNode Data} {entry : MacEntry Data} {hVclock : NodeId}

/-- The timer of a node was last refreshed as long ago as the node was added. -/
structure Timed (mactbl : MacTbl Data) (now since : Nat) (node : MacTblNode Data) : Prop where
  static : node.hVclock = none ↔ node.stMacNode.isStatic = true
  armed : ∀ hVclock, node.hVclock = some hVclock →
    ∃ deadline, (mactbl.hVclockInstance.node hVclock).Armed now deadline ∧
      (since + deadline = now + mactbl.uiOldTick.toNat ∨
        since + deadline = now + mactbl.uiOldTick.toNat + 1)

structure Matches (mactbl : MacTbl Data) (now : Nat) (node : MacTblNode Data)
    (entry : MacEntry Data) : Prop where
  macNode : node.stMacNode = entry.node
  userData : node.pUserData = entry.userData
  timed : Timed mactbl now entry.since node

structure MactblRunOk (run : MactblRun Data) (now : Nat) : Prop where
  ok : MactblOk run.mactbl now
  uiUserDataSize : run.mactbl.uiUserDataSize ≠ 0
  entries : ∀ stMac,
    Rel (Matches run.mactbl now) (mactblFind run.mactbl stMac) (run.recorded stMac)
  aged : ∀ stMac entry, run.aged stMac = some entry → entry.node.isStatic = false ∧
    (entry.since = run.mactbl.uiOldTick.toNat ∨ entry.since = run.mactbl.uiOldTick.toNat + 1)

section

variable (runOk : MactblRunOk run now)

include runOk

theorem MactblRunOk.found (found : mactblFind run.mactbl stMac = some node) :
    ∃ entry, run.recorded stMac = some entry ∧ Matches run.mactbl now node entry := by
  have related := runOk.entries stMac
  rw [found] at related
  cases isEntry : run.recorded stMac with
  | none =>
    rw [isEntry] at related
    cases related
  | some entry =>
    rw [isEntry] at related
    cases related with
    | some isMatch => exact ⟨entry, rfl, isMatch⟩

theorem MactblRunOk.absent
    (absent : mactblFind run.mactbl stMac = none) : run.recorded stMac = none := by
  have related := runOk.entries stMac
  rw [absent] at related
  cases isEntry : run.recorded stMac with
  | none => rfl
  | some =>
    rw [isEntry] at related
    cases related

theorem MactblRunOk.settled : Settled run.mactbl now := by
  intro stMac hVclock owned
  obtain ⟨_, found, isTimer⟩ := bind_eq_some_iff.mp owned
  obtain ⟨_, -, isMatch⟩ := runOk.found found
  obtain ⟨deadline, armed, -⟩ := isMatch.timed.armed hVclock isTimer
  exact ⟨deadline, armed⟩

theorem MactblRunOk.replace (ok : MactblOk after now)
    (frame : Frame run.mactbl after stMac) {recorded : Option (MacEntry Data)}
    (self : Rel (Matches after now) (mactblFind after stMac) recorded) :
    MactblRunOk { run with
      mactbl := after, recorded := update run.recorded stMac recorded } now := by
  refine ⟨ok, ?_, fun other => ?_, fun other entry isAged => ?_⟩
  · rw [frame.uiUserDataSize]
    exact runOk.uiUserDataSize
  · simp only
    by_cases same : other = stMac
    · rw [same, update_self]
      exact self
    rw [update_of_ne same, frame.find other same]
    cases found : mactblFind run.mactbl other with
    | none =>
      rw [runOk.absent found]
      exact .none
    | some node =>
      obtain ⟨_, isEntry, isMatch⟩ := runOk.found found
      rw [isEntry]
      refine .some ⟨isMatch.macNode, isMatch.userData, isMatch.timed.static, ?_⟩
      intro hVclock isTimer
      have owned : mactblTimer run.mactbl other = some hVclock := by
        rw [mactblTimer, found]
        exact isTimer
      rw [frame.node other hVclock same owned, frame.uiOldTick]
      exact isMatch.timed.armed hVclock isTimer
  · rw [frame.uiOldTick]
    exact runOk.aged other entry isAged

end

structure Added (mactbl : MacTbl Data) (result : MacTbl Data × BsStatus) (now : Nat)
    (stMac : MacAddr) (pstMacNode : MacNode) (pUserData : Option Data) : Prop where
  ok : MactblOk result.1 now
  frame : Frame mactbl result.1 stMac
  succeeds : result.2 = .ok → ∃ left, mactblFind result.1 stMac = some left ∧
    left.stMacNode = pstMacNode ∧ left.pUserData = pUserData ∧ Timed result.1 now 0 left
  fails : result.2 ≠ .ok → mactblFind result.1 stMac = none

theorem Added.of_frame {between : MacTbl Data} {pstMacNode : MacNode} {pUserData : Option Data}
    (frame : Frame mactbl between stMac)
    (added : Added between result now stMac pstMacNode pUserData) :
    Added mactbl result now stMac pstMacNode pUserData :=
  { added with frame := frame.trans added.frame }

theorem mactblAddTimer_added (ok : MactblOk mactbl now)
    (found : mactblFind mactbl stMac = some node)
    (armed : ∀ hVclock, node.hVclock = some hVclock →
      ∃ deadline, (mactbl.hVclockInstance.node hVclock).Armed now deadline)
    {timer : Option NodeId}
    (unused : ∀ hVclock stMac, timer = some hVclock → mactblTimer mactbl stMac ≠ some hVclock)
    (fits : node.stMacNode.isStatic = false → node.hVclock = none →
      mactbl.uiOldTick.toNat + 1 < 2 ^ 32) :
    Added mactbl (mactblAddTimer mactbl timer node) now stMac node.stMacNode node.pUserData := by
  have key := ok.find_key found
  unfold mactblAddTimer
  simp only [key]
  split
  · next dynamic =>
    cases isTimer : node.hVclock with
    | none =>
      cases timer with
      | none =>
        have freed := ok.freeNode found ok.linked ok.atTick fun _ _ => rfl
        exact ⟨freed.ok ok, freed.frame ok, nofun, fun _ => freed.find_self⟩
      | some hVclock =>
        have started := ok.startTimer found isTimer (fun stMac => unused hVclock stMac rfl)
          (fits dynamic isTimer)
        refine ⟨started.ok ok, started.frame ok, fun _ => ⟨_, started.find_self, rfl, rfl, ?_, ?_⟩,
          fun notOk => absurd rfl notOk⟩
        · simp [dynamic]
        intro other isOther
        obtain rfl : hVclock = other := some.inj isOther
        refine ⟨_, vclockAddTimer_armed ok.atTick (fits dynamic isTimer), .inr ?_⟩
        exact (zero_add _).trans (add_right_comm ..)
    | some hVclock =>
      obtain ⟨_, isArmed⟩ := armed hVclock isTimer
      have refreshed := ok.refreshTimer found isTimer isArmed
      have owned : mactblTimer mactbl stMac = some hVclock := by
        rw [mactblTimer, found]
        exact isTimer
      have period := (ok.ages stMac hVclock owned).period
      refine ⟨refreshed.ok ok, refreshed.frame ok,
        fun _ => ⟨_, refreshed.find_self, rfl, rfl, ?_, ?_⟩, fun notOk => absurd rfl notOk⟩
      · simp [dynamic, isTimer]
      intro other isOther
      obtain rfl : hVclock = other := some.inj (isTimer.symm.trans isOther)
      obtain ⟨rearmed, -⟩ := vclockRefresh_armed ok.atTick isArmed
        (by rw [period]; exact ok.uiOldTick)
      rw [period] at rearmed
      exact ⟨_, rearmed, .inl (zero_add _)⟩
  next static =>
  cases isTimer : node.hVclock with
  | none =>
    refine ⟨ok, .refl, fun _ => ⟨node, found, rfl, rfl, ?_, ?_⟩, fun notOk => absurd rfl notOk⟩
    · simpa [isTimer] using static
    · intro hVclock isOther
      cases isTimer.symm.trans isOther
  | some hVclock =>
    have stopped := ok.stopTimer found isTimer
    refine ⟨stopped.ok ok, stopped.frame ok, fun _ => ⟨_, stopped.find_self, rfl, rfl, ?_, ?_⟩,
      fun notOk => absurd rfl notOk⟩
    · simpa using static
    · intro hVclock isOther
      cases isOther

theorem mactblLearn_pUserData {pstMacNode : MacNode} {pUserData : Option Data}
    (room : pUserData.isSome = true → node.pUserData.isSome = true) :
    (mactblLearn pstMacNode pUserData node).pUserData = (pUserData <|> node.pUserData) := by
  cases pUserData with
  | none => simp [mactblLearn, mactblCopyMacNode]
  | some =>
    obtain ⟨_, isOld⟩ := isSome_iff_exists.mp (room rfl)
    simp [mactblLearn, mactblCopyMacNode, isOld]

theorem mactblAddTo_added (ok : MactblOk mactbl now) {pstMacNode : MacNode}
    {pUserData : Option Data} (found : mactblFind mactbl pstMacNode.stMac = some node)
    (armed : ∀ hVclock, node.hVclock = some hVclock →
      ∃ deadline, (mactbl.hVclockInstance.node hVclock).Armed now deadline)
    {timer : Option NodeId}
    (unused : ∀ hVclock stMac, timer = some hVclock → mactblTimer mactbl stMac ≠ some hVclock)
    (room : pUserData.isSome = true → node.pUserData.isSome = true)
    (fits : pstMacNode.isStatic = false → node.hVclock = none →
      mactbl.uiOldTick.toNat + 1 < 2 ^ 32) :
    Added mactbl (mactblAddTo mactbl timer pstMacNode pUserData true node) now pstMacNode.stMac
      pstMacNode (pUserData <|> node.pUserData) := by
  have learned : Replaces mactbl
      (mactblWrite mactbl pstMacNode.stMac (mactblLearn pstMacNode pUserData)) now
      pstMacNode.stMac (some (mactblLearn pstMacNode pUserData node)) :=
    ok.write (fun _ _ => rfl) (fun _ => rfl) found
  have sameTimer := learned.timer (by rw [mactblTimer, found]; rfl)
  rw [← sameTimer] at unused
  have added := mactblAddTimer_added (learned.ok ok) learned.find_self armed unused fits
  rw [mactblLearn_pUserData room] at added
  exact added.of_frame (learned.frame ok)

theorem recordAdd_since (entry : Option (MacEntry Data)) (pstMacNode : MacNode)
    (pUserData : Option Data) (eMode : MacNodeMode) :
    (recordAdd entry pstMacNode pUserData eMode).since = 0 := by
  unfold recordAdd
  split
  · rfl
  · split <;> rfl

theorem Added.recorded (added : Added mactbl result now stMac entry.node entry.userData)
    (first : entry.since = 0) :
    Rel (Matches result.1 now) (mactblFind result.1 stMac)
      (if result.2 = .ok then some entry else none) := by
  split
  · next isOk =>
    obtain ⟨_, found, macNode, userData, timed⟩ := added.succeeds isOk
    rw [found]
    exact .some ⟨macNode, userData, first ▸ timed⟩
  · next notOk =>
    rw [added.fails notOk]
    exact .none

variable {memory : MacTblMemory} {pstMacNode : MacNode} {pUserData : Option Data}
  {eMode : MacNodeMode}

theorem MactblOk.unused (ok : MactblOk mactbl now)
    (enabled : (MactblCall.add memory pstMacNode pUserData eMode).Enabled mactbl) :
    ∀ hVclock stMac, memory.timer = some hVclock → mactblTimer mactbl stMac ≠ some hVclock := by
  intro hVclock stMac isTimer owned
  obtain ⟨node, found, isOwn⟩ := bind_eq_some_iff.mp owned
  have inside := ((hashFind_eq_some_iff mactblHashFuncs_lawful ok.hash).mp found).1
  rcases enabled with without | apart
  · cases without.symm.trans isTimer
  · exact apart node inside (isOwn.trans isTimer.symm)

variable (runOk : MactblRunOk run now)

section

variable (enabled : (MactblCall.add memory pstMacNode pUserData eMode).Enabled run.mactbl)
  (fits : AddFits run pstMacNode pUserData eMode)

include runOk enabled fits

theorem MactblRunOk.addAbsent (absent : mactblFind run.mactbl pstMacNode.stMac = none) :
    Added run.mactbl (mactblAdd run.mactbl memory pstMacNode pUserData eMode) now
      pstMacNode.stMac pstMacNode pUserData := by
  have ok := runOk.ok
  have noEntry := runOk.absent absent
  have noMemory : Added run.mactbl (run.mactbl, .noMemory) now pstMacNode.stMac pstMacNode
      pUserData := ⟨ok, .refl, by simp, fun _ => absent⟩
  simp only [mactblAdd, absent, if_pos runOk.uiUserDataSize]
  split
  · exact noMemory
  split
  · exact noMemory
  have between := @MactblOk.add _ _ _ ⟨none, pstMacNode, pUserData⟩ ok absent rfl
  have sameTimer := between.timer (by rw [mactblTimer, absent]; rfl)
  have unused := ok.unused enabled
  rw [← sameTimer] at unused
  have added := mactblAddTo_added (between.ok ok) between.find_self (by simp) unused id
    (fun dynamic _ => fits.timer dynamic (by rw [noEntry]; rfl) (by simp [noEntry]))
  have sameData : (pUserData <|> pUserData) = pUserData := by cases pUserData <;> rfl
  simp only [sameData] at added
  exact added.of_frame (between.frame ok)

theorem MactblRunOk.addPresent (found : mactblFind run.mactbl pstMacNode.stMac = some node)
    (isEntry : run.recorded pstMacNode.stMac = some entry)
    (isMatch : Matches run.mactbl now node entry) :
    Added run.mactbl (mactblAdd run.mactbl memory pstMacNode pUserData eMode) now
      pstMacNode.stMac (recordAdd (some entry) pstMacNode pUserData eMode).node
      (recordAdd (some entry) pstMacNode pUserData eMode).userData := by
  have ok := runOk.ok
  have unused := ok.unused enabled
  have armed (hVclock : NodeId) (isTimer : node.hVclock = some hVclock) :
      ∃ deadline, (run.mactbl.hVclockInstance.node hVclock).Armed now deadline :=
    (isMatch.timed.armed hVclock isTimer).imp fun _ both => both.1
  have learns : decide (eMode = .set ∨ node.stMacNode.uiPRI ≤ pstMacNode.uiPRI) =
      accepts (some entry) pstMacNode eMode := by
    rw [accepts, isMatch.macNode]
  simp only [mactblAdd, found, learns, recordAdd]
  cases accepted : accepts (some entry) pstMacNode eMode with
  | true =>
    have room := fits.userData entry isEntry accepted
    rw [← isMatch.userData] at room
    have added := mactblAddTo_added ok found armed unused room fun dynamic without => by
      apply fits.timer dynamic (isEntry ▸ accepted)
      intro other isOther
      cases isEntry.symm.trans isOther
      rw [← isMatch.macNode]
      exact isMatch.timed.static.mp without
    simpa [isMatch.userData] using added
  | false =>
    have added := mactblAddTimer_added ok found armed unused fun dynamic without => by
      have static := isMatch.timed.static.mp without
      rw [dynamic] at static
      cases static
    rw [isMatch.macNode, isMatch.userData] at added
    exact added

theorem MactblRunOk.add : MactblRunOk (run.next (.add memory pstMacNode pUserData eMode)) now := by
  have added : Added run.mactbl (mactblAdd run.mactbl memory pstMacNode pUserData eMode) now
      pstMacNode.stMac (recordAdd (run.recorded pstMacNode.stMac) pstMacNode pUserData eMode).node
      (recordAdd (run.recorded pstMacNode.stMac) pstMacNode pUserData eMode).userData := by
    cases found : mactblFind run.mactbl pstMacNode.stMac with
    | none =>
      rw [runOk.absent found]
      exact runOk.addAbsent enabled fits found
    | some =>
      obtain ⟨_, isEntry, isMatch⟩ := runOk.found found
      rw [isEntry]
      exact runOk.addPresent enabled fits found isEntry isMatch
  exact runOk.replace added.ok added.frame (added.recorded (recordAdd_since ..))

end

include runOk in
theorem MactblRunOk.del (pstMacNode : MacNode) : MactblRunOk (run.next (.del pstMacNode)) now := by
  have ok := runOk.ok
  cases found : mactblFind run.mactbl pstMacNode.stMac with
  | none =>
    have same : mactblDel run.mactbl pstMacNode = run.mactbl := by rw [mactblDel, found]
    rw [MactblRun.next, same]
    apply runOk.replace ok .refl
    rw [found]
    exact .none
  | some node =>
    have freed := ok.freeNode found ok.linked ok.atTick fun _ _ => rfl
    have result : mactblDel run.mactbl pstMacNode = mactblFree run.mactbl node := by
      rw [mactblDel, found]
    rw [MactblRun.next, result]
    apply runOk.replace (freed.ok ok) (freed.frame ok)
    rw [show mactblFind (mactblFree run.mactbl node) pstMacNode.stMac = none from freed.find_self]
    exact .none

theorem Matches.ticked (isMatch : Matches mactbl now node entry) (ticked : Ticked mactbl after now)
    (found : mactblFind mactbl stMac = some node) :
    (mactblFind after stMac = some node ∧ Matches after (now + 1) node entry.later) ∨
      (mactblFind after stMac = none ∧ entry.node.isStatic = false ∧
        (entry.later.since = after.uiOldTick.toNat ∨
          entry.later.since = after.uiOldTick.toNat + 1)) := by
  cases isTimer : node.hVclock with
  | none =>
    have without : mactblTimer mactbl stMac = none := by
      rw [mactblTimer, found]
      exact isTimer
    refine .inl ⟨(ticked.without stMac without).trans found, isMatch.macNode, isMatch.userData,
      isMatch.timed.static, fun hVclock isOther => ?_⟩
    cases isTimer.symm.trans isOther
  | some hVclock =>
    have owned : mactblTimer mactbl stMac = some hVclock := by
      rw [mactblTimer, found]
      exact isTimer
    obtain ⟨deadline, armed, time⟩ := isMatch.timed.armed hVclock isTimer
    rw [← ticked.uiOldTick] at time
    rcases ticked.timed stMac hVclock deadline owned armed with ⟨_, gone⟩ | ⟨stays, waits⟩
    · refine .inr ⟨gone, ?_, ?_⟩
      · cases static : entry.node.isStatic with
        | false => rfl
        | true =>
          rw [← isMatch.macNode] at static
          cases isTimer.symm.trans (isMatch.timed.static.mpr static)
      · simp only [MacEntry.later]
        omega
    · refine .inl ⟨stays.trans found, isMatch.macNode, isMatch.userData, isMatch.timed.static,
        fun other isOther => ?_⟩
      cases isTimer.symm.trans isOther
      refine ⟨deadline, waits, ?_⟩
      simp only [MacEntry.later]
      omega

include runOk in
theorem MactblRunOk.tickStep : MactblRunOk (run.next .tickStep) (now + 1) := by
  have ticked := runOk.ok.tickStep runOk.settled
  rw [MactblRun.next]
  generalize mactblTickStep run.mactbl = after at ticked
  refine ⟨ticked.ok, ?_, fun stMac => ?_, fun stMac entry isAged => ?_⟩
  · rw [ticked.uiUserDataSize]
    exact runOk.uiUserDataSize
  · simp only
    cases found : mactblFind run.mactbl stMac with
    | none =>
      have noEntry := runOk.absent found
      have without : mactblTimer run.mactbl stMac = none := by
        rw [mactblTimer, found]
        rfl
      rw [ticked.without stMac without, found, noEntry]
      split <;> exact .none
    | some =>
      obtain ⟨_, isEntry, isMatch⟩ := runOk.found found
      rcases isMatch.ticked ticked found with ⟨stays, stillMatch⟩ | ⟨gone, dynamic, -⟩
      · have keeps : run.ages after stMac = false := by simp [MactblRun.ages, isEntry, stays]
        simp only [keeps, stays, isEntry]
        exact .some stillMatch
      have removes : run.ages after stMac = true := by
        simp [MactblRun.ages, isEntry, gone, dynamic]
      simp only [removes, gone]
      exact .none
  simp only at isAged
  split at isAged
  · next removes =>
    obtain ⟨_, isEntry, rfl⟩ := map_eq_some_iff.mp isAged
    simp only [MactblRun.ages, isEntry, Bool.and_eq_true, isNone_iff_eq_none] at removes
    cases found : mactblFind run.mactbl stMac with
    | none => cases isEntry.symm.trans (runOk.absent found)
    | some =>
      obtain ⟨_, isOther, isMatch⟩ := runOk.found found
      cases isEntry.symm.trans isOther
      rcases isMatch.ticked ticked found with ⟨stays, -⟩ | ⟨-, dynamic, time⟩
      · cases stays.symm.trans removes.2
      · exact ⟨dynamic, time⟩
  · rw [ticked.uiOldTick]
    exact runOk.aged stMac entry isAged

include runOk in
theorem MactblRunOk.next {call : MactblCall Data} (enabled : call.Enabled run.mactbl)
    (fits : MactblFits run call) : ∃ later, MactblRunOk (run.next call) later := by
  cases call with
  | add => exact ⟨now, runOk.add enabled fits⟩
  | del pstMacNode => exact ⟨now, runOk.del pstMacNode⟩
  | tickStep => exact ⟨now + 1, runOk.tickStep⟩

theorem mactblRunStart_ok {uiUserDataSize : UINT} (sized : uiUserDataSize ≠ 0)
    (ticks : old_tick ≠ 0) :
    MactblRunOk (mactblRunStart uiUserDataSize old_tick : MactblRun Data) 0 := by
  obtain ⟨linked, atTick⟩ := vclockInitInstance_invariant
  have positive : 0 < old_tick.toNat := by
    apply pos_of_ne_zero
    intro zero
    exact ticks (BitVec.eq_of_toNat_eq zero)
  have noTimer (stMac : MacAddr) :
      mactblTimer (mactblRunStart uiUserDataSize old_tick : MactblRun Data).mactbl stMac = none := rfl
  refine ⟨⟨hashInit_ok _, linked, atTick, positive, fun stMac hVclock owned => ?_, fun _ _ => rfl⟩,
    sized, fun _ => .none, nofun⟩
  cases (noTimer stMac).symm.trans owned

include runOk in
theorem MactblRunOk.agrees : MactblAgrees run := by
  refine ⟨fun pstMacNode pUserData => ?_, fun stMac entry isEntry dynamic => ?_, runOk.aged⟩
  · cases found : mactblFind run.mactbl pstMacNode.stMac with
    | none => simp only [mactblGet, found, runOk.absent found]
    | some =>
      obtain ⟨_, isEntry, isMatch⟩ := runOk.found found
      simp [mactblGet, found, isEntry, mactblCopyMacNode, isMatch.macNode, isMatch.userData]
  cases found : mactblFind run.mactbl stMac with
  | none => cases isEntry.symm.trans (runOk.absent found)
  | some node =>
    obtain ⟨_, isOther, isMatch⟩ := runOk.found found
    cases isEntry.symm.trans isOther
    cases isTimer : node.hVclock with
    | none =>
      have static := isMatch.timed.static.mp isTimer
      rw [isMatch.macNode, dynamic] at static
      cases static
    | some hVclock =>
      obtain ⟨_, armed, _⟩ := isMatch.timed.armed hVclock isTimer
      have later := armed.now_lt
      omega

/-- With user data for every entry that gets some later, a table finds what was added last
and ages dynamic entries in their time. -/
theorem mactbl_agrees {uiUserDataSize old_tick : UINT} (sized : uiUserDataSize ≠ 0)
    (ticks : old_tick ≠ 0)
    (reached : (mactblSystem uiUserDataSize old_tick).ReachableWhen MactblFits run) :
    MactblAgrees run := by
  have runOk : ∃ now, MactblRunOk run now := by
    apply reached.invariant
    · rintro _ rfl
      exact ⟨0, mactblRunStart_ok sized ticks⟩
    · rintro _ _ _ ⟨_, runOk⟩ fits ⟨enabled, rfl⟩
      exact runOk.next enabled fits
  obtain ⟨_, runOk⟩ := runOk
  exact runOk.agrees

instance (run : MactblRun Data) (pstMacNode : MacNode) (pUserData : Option Data)
    (eMode : MacNodeMode) : Decidable (AddFits run pstMacNode pUserData eMode) :=
  decidable_of_iff (_ ∧ _)
    ⟨fun ⟨userData, timer⟩ => ⟨userData, timer⟩, fun fits => ⟨fits.userData, fits.timer⟩⟩

instance (mactbl : MacTbl Data) (call : MactblCall Data) : Decidable (call.Enabled mactbl) :=
  match call with
  | .add _ _ _ _ => inferInstanceAs (Decidable (_ ∨ _))
  | .del _ => isTrue trivial
  | .tickStep => isTrue trivial

instance (run : MactblRun Data) (call : MactblCall Data) : Decidable (MactblFits run call) :=
  match call with
  | .add _ pstMacNode pUserData eMode =>
    inferInstanceAs (Decidable (AddFits run pstMacNode pUserData eMode))
  | .del _ => isTrue trivial
  | .tickStep => isTrue trivial

def host (last : UCHAR) (uiFlag uiPRI : UINT) : MacNode :=
  ⟨⟨#v[2, 0, 0, 0, 0, last]⟩, uiFlag, uiPRI⟩

def addHost (timer : Option NodeId) (pstMacNode : MacNode) (pUserData : Option UCHAR) :
    MactblCall UCHAR :=
  .add ⟨true, true, timer⟩ pstMacNode pUserData .learn

/-- A host that ages after a refused addition, and one that stays. -/
def hostCalls : List (MactblCall UCHAR) :=
  [addHost (some 0) (host 1 0 5) (some 7), addHost none (host 1 0 3) (some 9),
    addHost none (host 2 MAC_NODE_FLAG_STATIC 1) (some 4), .tickStep,
    addHost none (host 2 MAC_NODE_FLAG_STATIC 1) none, .tickStep, .tickStep]

theorem mactbl_agrees_hosts :
    ∃ run : MactblRun UCHAR, (mactblSystem 1 2).ReachableWhen MactblFits run ∧
      run.aged (host 1 0 5).stMac = some ⟨host 1 0 5, some 7, 2⟩ ∧
      mactblGet run.mactbl (host 2 0 0) (some 0) = (.ok, host 2 MAC_NODE_FLAG_STATIC 1, some 4) ∧
      MactblAgrees run := by
  have steps (run : MactblRun UCHAR) (call : MactblCall UCHAR)
      (both : call.Enabled run.mactbl ∧ MactblFits run call) :
      MactblFits run call ∧ (mactblSystem 1 2).step run call (run.next call) :=
    ⟨both.2, both.1, rfl⟩
  have reached : (mactblSystem 1 2).ReachableWhen MactblFits
      (hostCalls.foldl MactblRun.next (mactblRunStart 1 2)) :=
    .foldl steps (.start rfl) (by decide +kernel)
  exact ⟨_, reached, by decide +kernel, by decide +kernel,
    mactbl_agrees (by decide) (by decide) reached⟩

/-- A host without user data gets some later, which is not kept. -/
def lateCalls : List (MactblCall UCHAR) :=
  [addHost (some 0) (host 1 0 5) none, addHost none (host 1 0 5) (some 7)]

/-- A timer of `2 ^ 32 - 1` ticks is due after one turn of the lowest wheel. -/
def longCalls : List (MactblCall UCHAR) :=
  addHost (some 0) (host 1 0 5) none :: List.replicate 64 .tickStep

theorem mactblSystem_runs {uiUserDataSize : UINT} {calls : List (MactblCall UCHAR)}
    (admitted : Lib.System.Admitted (fun run call => call.Enabled run.mactbl) MactblRun.next (mactblRunStart uiUserDataSize old_tick) calls) :
    (mactblSystem uiUserDataSize old_tick).Reachable
      (calls.foldl MactblRun.next (mactblRunStart uiUserDataSize old_tick)) := by
  have steps (run : MactblRun UCHAR) (call : MactblCall UCHAR) (enabled : call.Enabled run.mactbl) :
      True ∧ (mactblSystem uiUserDataSize old_tick).step run call (run.next call) :=
    ⟨trivial, enabled, rfl⟩
  exact .foldl steps (.start rfl) admitted

theorem mactbl_disagrees :
    (∃ run : MactblRun UCHAR, (mactblSystem 1 2).Reachable run ∧
      run.recorded (host 1 0 5).stMac = some ⟨host 1 0 5, some 7, 0⟩ ∧
      mactblGet run.mactbl (host 1 0 5) (some 0) = (.ok, host 1 0 5, some 0) ∧
      ¬ MactblAgrees run) ∧
    ∃ run : MactblRun UCHAR, (mactblSystem 1 0xffffffff).Reachable run ∧
      run.aged (host 1 0 5).stMac = some ⟨host 1 0 5, none, 64⟩ ∧ ¬ MactblAgrees run := by
  constructor
  · have reached : (mactblSystem 1 2).Reachable
        (lateCalls.foldl MactblRun.next (mactblRunStart 1 2)) :=
      mactblSystem_runs (by decide +kernel)
    have recorded : (lateCalls.foldl MactblRun.next (mactblRunStart 1 2)).recorded
        (host 1 0 5).stMac = some ⟨host 1 0 5, some 7, 0⟩ := by decide +kernel
    have kept : mactblGet (lateCalls.foldl MactblRun.next (mactblRunStart 1 2)).mactbl (host 1 0 5)
        (some 0) = (.ok, host 1 0 5, some 0) := by decide +kernel
    refine ⟨_, reached, recorded, kept, fun agrees => ?_⟩
    have found := agrees.find (host 1 0 5) (some 0)
    cases found
  · have reached : (mactblSystem 1 0xffffffff).Reachable
        (longCalls.foldl MactblRun.next (mactblRunStart 1 0xffffffff)) :=
      mactblSystem_runs (by decide +kernel)
    have aged : (longCalls.foldl MactblRun.next (mactblRunStart 1 0xffffffff)).aged
        (host 1 0 5).stMac = some ⟨host 1 0 5, none, 64⟩ := by decide +kernel
    have ticks : (longCalls.foldl MactblRun.next
        (mactblRunStart 1 0xffffffff)).mactbl.uiOldTick.toNat = 0xffffffff := by decide +kernel
    refine ⟨_, reached, aged, fun agrees => ?_⟩
    obtain ⟨-, time⟩ := agrees.aged _ _ aged
    rw [ticks] at time
    exact absurd time (by decide)

end MyCode.MacTable
