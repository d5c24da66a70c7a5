import MyCode.Dhcps

/-!
# The tables of the DHCP server

What the operations on the leases and on the signed addresses do to what a table holds for
each client.
-/

namespace MyCode.Dhcps

open Hash IpPool MacTable Vclock Function Option

variable {mactbl : MacTbl UINT} {now : Nat} {stMac : MacAddr} {pstMacNode : MacNode} {uiIp : UINT}

/-- The address that a table holds for a client. -/
def holds (mactbl : MacTbl UINT) (stMac : MacAddr) : Option UINT :=
  (mactblFind mactbl stMac).bind MacTblNode.pUserData

structure SignedOk (mactbl : MacTbl UINT) : Prop where
  hash : HashOk mactblHashFuncs mactbl.hHashId
  sized : mactbl.uiUserDataSize ≠ 0
  node : ∀ stMac node, mactblFind mactbl stMac = some node →
    node.hVclock = none ∧ node.pUserData.isSome = true

theorem signedOk_create : SignedOk (mactblCreateInstance dhcpsDataSize) := by
  refine ⟨hashInit_ok _, by decide, fun stMac node found => ?_⟩
  have absent : mactblFind (mactblCreateInstance dhcpsDataSize : MacTbl UINT) stMac = none := rfl
  cases absent.symm.trans found

theorem SignedOk.find_none (ok : SignedOk mactbl) (missing : holds mactbl stMac = none) :
    mactblFind mactbl stMac = none := by
  cases found : mactblFind mactbl stMac with
  | none => rfl
  | some node =>
    have data := (ok.node stMac node found).2
    rw [holds, found, bind_some] at missing
    rw [missing] at data
    cases data

theorem SignedOk.replace (ok : SignedOk mactbl) {hHashId : HashS (MacTblNode UINT)}
    {entry : Option (MacTblNode UINT)} (hash : HashOk mactblHashFuncs hHashId)
    (find : hashFind mactblHashFuncs hHashId = update (mactblFind mactbl) stMac entry)
    (sound : ∀ node, entry = some node → node.hVclock = none ∧ node.pUserData.isSome = true) :
    SignedOk { mactbl with hHashId := hHashId } ∧
      holds { mactbl with hHashId := hHashId } =
        update (holds mactbl) stMac (entry.bind MacTblNode.pUserData) := by
  refine ⟨⟨hash, ok.sized, fun other node found => ?_⟩, funext fun other => ?_⟩
  · rw [mactblFind, find] at found
    by_cases same : other = stMac
    · rw [same, update_self] at found
      exact sound node found
    · rw [update_of_ne same] at found
      exact ok.node other node found
  · rw [holds, mactblFind, find]
    by_cases same : other = stMac
    · rw [same, update_self, update_self]
    · rw [update_of_ne same, update_of_ne same, holds]

theorem SignedOk.del (ok : SignedOk mactbl) (pstMacNode : MacNode) :
    SignedOk (mactblDel mactbl pstMacNode) ∧
      holds (mactblDel mactbl pstMacNode) = update (holds mactbl) pstMacNode.stMac none := by
  rw [mactblDel]
  cases found : mactblFind mactbl pstMacNode.stMac with
  | none =>
    have nothing : holds mactbl pstMacNode.stMac = none := by
      rw [holds, found]
      rfl
    rw [← nothing, update_eq_self]
    exact ⟨ok, rfl⟩
  | some node =>
    have key : node.stMacNode.stMac = pstMacNode.stMac :=
      ((hashFind_eq_some_iff mactblHashFuncs_lawful ok.hash).mp found).2
    have without := (ok.node _ node found).1
    simp only [mactblFree, without, key]
    exact ok.replace (ok.hash.del mactblHashFuncs_lawful)
      (hashFind_del mactblHashFuncs_lawful ok.hash) (by simp)

theorem SignedOk.add (ok : SignedOk mactbl) (missing : holds mactbl pstMacNode.stMac = none)
    (isStatic : pstMacNode.isStatic = true) (memory : MacTblMemory) (uiIp : UINT) :
    let result := mactblAdd mactbl memory pstMacNode (some uiIp) .set
    result.2 = .ok ∧ SignedOk result.1 ∧
        holds result.1 = update (holds mactbl) pstMacNode.stMac (some uiIp) ∨
      result.2 ≠ .ok ∧ result.1 = mactbl := by
  have absent := ok.find_none missing
  obtain ⟨new, isNew⟩ : ∃ new : MacTblNode UINT, new = ⟨none, pstMacNode, some uiIp⟩ := ⟨_, rfl⟩
  have key : mactblHashFuncs.key new = pstMacNode.stMac := by
    rw [isNew]
    rfl
  have learned : mactblLearn pstMacNode (some uiIp) new = new := by
    rw [isNew]
    rfl
  have absentKey : hashFind mactblHashFuncs mactbl.hHashId (mactblHashFuncs.key new) = none := by
    rw [key]
    exact absent
  have added := ok.hash.add mactblHashFuncs_lawful absentKey
  have keeps : ∀ node : MacTblNode UINT, mactblHashFuncs.key node = pstMacNode.stMac →
      mactblHashFuncs.key (mactblLearn pstMacNode (some uiIp) node) = pstMacNode.stMac :=
    fun _ _ => rfl
  have find : hashFind mactblHashFuncs (hashUpdate mactblHashFuncs (hashAdd mactblHashFuncs
      mactbl.hHashId new) pstMacNode.stMac (mactblLearn pstMacNode (some uiIp))) =
      update (mactblFind mactbl) pstMacNode.stMac (some new) := by
    rw [hashFind_updateAt mactblHashFuncs_lawful added keeps,
      hashFind_add mactblHashFuncs_lawful ok.hash absentKey, key, update_self,
      update_idem, map_some, learned]
    rfl
  have stored := ok.replace (added.updateAt mactblHashFuncs_lawful keeps) find fun node isNode => by
    rw [← some.inj isNode, isNew]
    exact ⟨rfl, rfl⟩
  have data : (some new).bind MacTblNode.pUserData = some uiIp := by
    rw [isNew]
    rfl
  rw [data] at stored
  simp only [mactblAdd, absent, ok.sized, ne_eq, not_false_eq_true, if_true, ← isNew]
  split
  · exact .inr ⟨by simp, rfl⟩
  split
  · exact .inr ⟨by simp, rfl⟩
  left
  simp only [mactblAddTo, if_true, learned, mactblAddTimer]
  simp only [isNew, isStatic, Bool.true_eq_false, if_false]
  rw [← isNew]
  exact ⟨trivial, stored⟩

structure Leases (run : MactblRun UINT) (now : Nat) : Prop where
  runOk : MactblRunOk run now
  uiOldTick : run.mactbl.uiOldTick = dhcpsMacOldTime
  entries : ∀ stMac entry, run.recorded stMac = some entry →
    entry.node.isStatic = false ∧ ∃ uiIp, uiIp ≠ 0 ∧ entry.userData = some uiIp

def LeasesOk (mactbl : MacTbl UINT) (now : Nat) : Prop :=
  ∃ run : MactblRun UINT, run.mactbl = mactbl ∧ Leases run now

/-- The lease of the client ends in the next tick step. -/
def Ageing (mactbl : MacTbl UINT) (stMac : MacAddr) : Prop :=
  ∃ hVclock, mactblTimer mactbl stMac = some hVclock ∧
    vclockGetTickLeft mactbl.hVclockInstance hVclock = 1

variable {run : MactblRun UINT}

theorem leasesOk_create :
    LeasesOk (mactblSetOldTick (mactblCreateInstance dhcpsDataSize) dhcpsMacOldTime) 0 :=
  ⟨mactblRunStart dhcpsDataSize dhcpsMacOldTime, rfl, mactblRunStart_ok (by decide) (by decide), rfl,
    nofun⟩

theorem Leases.holds_eq (leases : Leases run now) (stMac : MacAddr) :
    holds run.mactbl stMac = (run.recorded stMac).bind MacEntry.userData := by
  rw [holds]
  cases found : mactblFind run.mactbl stMac with
  | none =>
    rw [leases.runOk.absent found]
    rfl
  | some =>
    obtain ⟨_, isEntry, isMatch⟩ := leases.runOk.found found
    rw [isEntry]
    exact isMatch.userData

theorem LeasesOk.nonzero (ok : LeasesOk mactbl now) (held : holds mactbl stMac = some uiIp) :
    uiIp ≠ 0 := by
  obtain ⟨_, rfl, leases⟩ := ok
  rw [leases.holds_eq] at held
  obtain ⟨entry, isEntry, isData⟩ := bind_eq_some_iff.mp held
  obtain ⟨-, _, nonzero, isIp⟩ := leases.entries stMac entry isEntry
  rw [← some.inj (isIp.symm.trans isData)]
  exact nonzero

theorem LeasesOk.find_none (ok : LeasesOk mactbl now) (missing : holds mactbl stMac = none) :
    mactblFind mactbl stMac = none := by
  obtain ⟨run, rfl, leases⟩ := ok
  cases found : mactblFind run.mactbl stMac with
  | none => rfl
  | some =>
    obtain ⟨entry, isEntry, -⟩ := leases.runOk.found found
    obtain ⟨-, _, -, isIp⟩ := leases.entries stMac entry isEntry
    rw [leases.holds_eq, isEntry, bind_some, isIp] at missing
    cases missing

theorem Leases.replace (leases : Leases run now) {next : MactblRun UINT}
    {entry : Option (MacEntry UINT)} (runOk : MactblRunOk next now)
    (uiOldTick : next.mactbl.uiOldTick = run.mactbl.uiOldTick)
    (recorded : next.recorded = update run.recorded stMac entry)
    (sound : ∀ new, entry = some new →
      new.node.isStatic = false ∧ ∃ uiIp, uiIp ≠ 0 ∧ new.userData = some uiIp) :
    LeasesOk next.mactbl now ∧ holds next.mactbl =
      update (holds run.mactbl) stMac (entry.bind MacEntry.userData) := by
  have nextLeases : Leases next now := by
    refine ⟨runOk, uiOldTick.trans leases.uiOldTick, fun other new isNew => ?_⟩
    rw [recorded] at isNew
    by_cases same : other = stMac
    · rw [same, update_self] at isNew
      exact sound new isNew
    · rw [update_of_ne same] at isNew
      exact leases.entries other new isNew
  refine ⟨⟨next, rfl, nextLeases⟩, funext fun other => ?_⟩
  rw [nextLeases.holds_eq, recorded]
  by_cases same : other = stMac
  · rw [same, update_self, update_self]
  · rw [update_of_ne same, update_of_ne same, leases.holds_eq]

theorem LeasesOk.add (ok : LeasesOk mactbl now) (missing : holds mactbl pstMacNode.stMac = none)
    (dynamic : pstMacNode.isStatic = false) {memory : MacTblMemory} {uiIp : UINT} (nonzero : uiIp ≠ 0)
    (enabled : (MactblCall.add memory pstMacNode (some uiIp) .set).Enabled mactbl) :
    let result := mactblAdd mactbl memory pstMacNode (some uiIp) .set
    LeasesOk result.1 now ∧ holds result.1 = update (holds mactbl) pstMacNode.stMac
      (if result.2 = .ok then some uiIp else none) := by
  have absent := ok.find_none missing
  obtain ⟨run, rfl, leases⟩ := ok
  have noEntry := leases.runOk.absent absent
  have fits : AddFits run pstMacNode (some uiIp) .set := by
    constructor
    · intro entry isEntry
      cases noEntry.symm.trans isEntry
    intro _ _ _
    rw [leases.uiOldTick]
    decide
  have added := leases.runOk.addAbsent enabled fits absent
  have isEntry : recordAdd (run.recorded pstMacNode.stMac) pstMacNode (some uiIp) .set =
      ⟨pstMacNode, some uiIp, 0⟩ := by
    rw [noEntry]
    rfl
  have recorded : (run.next (.add memory pstMacNode (some uiIp) .set)).recorded =
      update run.recorded pstMacNode.stMac
        (if (mactblAdd run.mactbl memory pstMacNode (some uiIp) .set).2 = .ok then
          some ⟨pstMacNode, some uiIp, 0⟩ else none) := by
    rw [← isEntry]
    rfl
  have replaced := leases.replace (leases.runOk.add enabled fits) added.frame.uiOldTick recorded ?_
  · refine ⟨replaced.1, replaced.2.trans ?_⟩
    split
    · rfl
    · rfl
  intro new isNew
  split at isNew
  · rw [← some.inj isNew]
    exact ⟨dynamic, uiIp, nonzero, rfl⟩
  · cases isNew

theorem LeasesOk.del (ok : LeasesOk mactbl now) (pstMacNode : MacNode) :
    LeasesOk (mactblDel mactbl pstMacNode) now ∧
      holds (mactblDel mactbl pstMacNode) = update (holds mactbl) pstMacNode.stMac none := by
  obtain ⟨run, rfl, leases⟩ := ok
  have uiOldTick : (mactblDel run.mactbl pstMacNode).uiOldTick = run.mactbl.uiOldTick := by
    rw [mactblDel]
    split
    · rfl
    rw [mactblFree]
    split
    · rfl
    · rfl
  exact leases.replace (leases.runOk.del pstMacNode) uiOldTick rfl (by simp)

theorem Leases.armed (leases : Leases run now) {node : MacTblNode UINT}
    (found : mactblFind run.mactbl stMac = some node) :
    ∃ hVclock deadline, mactblTimer run.mactbl stMac = some hVclock ∧
      (run.mactbl.hVclockInstance.node hVclock).Armed now deadline ∧
      (Ageing run.mactbl stMac ↔ deadline = now + 1) := by
  obtain ⟨entry, isEntry, isMatch⟩ := leases.runOk.found found
  have dynamic := (leases.entries stMac entry isEntry).1
  cases isTimer : node.hVclock with
  | none =>
    have static := isMatch.timed.static.mp isTimer
    rw [isMatch.macNode, dynamic] at static
    cases static
  | some hVclock =>
    obtain ⟨deadline, armed, -⟩ := isMatch.timed.armed hVclock isTimer
    have owned : mactblTimer run.mactbl stMac = some hVclock := by
      rw [mactblTimer, found]
      exact isTimer
    have left := vclockGetTickLeft_eq leases.runOk.ok.atTick armed
    refine ⟨hVclock, deadline, owned, armed, ?_⟩
    constructor
    · rintro ⟨_, isOther, one⟩
      cases owned.symm.trans isOther
      rw [one] at left
      have single : (1 : UINT).toNat = 1 := rfl
      omega
    · intro isNext
      refine ⟨hVclock, owned, BitVec.eq_of_toNat_eq ?_⟩
      rw [left, isNext, Nat.add_sub_cancel_left]
      rfl

theorem LeasesOk.tickStep (ok : LeasesOk mactbl now) :
    LeasesOk (mactblTickStep mactbl) (now + 1) ∧
      (∀ stMac, Ageing mactbl stMac → holds (mactblTickStep mactbl) stMac = none) ∧
      ∀ stMac, ¬Ageing mactbl stMac → holds (mactblTickStep mactbl) stMac = holds mactbl stMac := by
  obtain ⟨run, rfl, leases⟩ := ok
  have ticked := leases.runOk.ok.tickStep leases.runOk.settled
  refine ⟨⟨run.next .tickStep, rfl, leases.runOk.tickStep,
    ticked.uiOldTick.trans leases.uiOldTick, fun stMac entry isEntry => ?_⟩, fun stMac ageing => ?_,
    fun stMac waits => ?_⟩
  · simp only [MactblRun.next] at isEntry
    split at isEntry
    · cases isEntry
    · obtain ⟨before, isBefore, rfl⟩ := map_eq_some_iff.mp isEntry
      exact leases.entries stMac before isBefore
  · cases found : mactblFind run.mactbl stMac with
    | none =>
      obtain ⟨_, owned, -⟩ := ageing
      rw [mactblTimer, found] at owned
      cases owned
    | some =>
      obtain ⟨hVclock, deadline, owned, armed, ageing_iff⟩ := leases.armed found
      rcases ticked.timed stMac hVclock deadline owned armed with ⟨-, gone⟩ | ⟨-, waits⟩
      · rw [holds, gone]
        rfl
      have later := waits.now_lt
      have isNext := ageing_iff.mp ageing
      omega
  cases found : mactblFind run.mactbl stMac with
  | none =>
    have without : mactblTimer run.mactbl stMac = none := by
      rw [mactblTimer, found]
      rfl
    rw [holds, holds, ticked.without stMac without]
  | some =>
    obtain ⟨hVclock, deadline, owned, armed, ageing_iff⟩ := leases.armed found
    rcases ticked.timed stMac hVclock deadline owned armed with ⟨isNext, -⟩ | ⟨stays, -⟩
    · exact absurd (ageing_iff.mpr isNext) waits
    · rw [holds, holds, stays]

variable {dhcps : DhcpsInstance}

theorem dhcpsOld_hMacTbl (dhcps : DhcpsInstance) (hTimerHandle : NodeId) :
    (dhcpsOld dhcps hTimerHandle).hMacTbl = mactblOld dhcps.hMacTbl hTimerHandle := by
  unfold dhcpsOld mactblOld
  split
  · next missing => rw [missing]
  · next found => rw [found]; rfl

theorem dhcpsFiring_hMacTbl (turns : Nat) (dhcps : DhcpsInstance) :
    (dhcpsFiring turns dhcps).hMacTbl = mactblFiring turns dhcps.hMacTbl := by
  induction turns generalizing dhcps with
  | zero => rfl
  | succ _ ih =>
    rw [dhcpsFiring, mactblFiring]
    cases vclockStepFire dhcps.hMacTbl.hVclockInstance with
    | none => rfl
    | some => simp only [ih, dhcpsOld_hMacTbl]

structure OnlyFrees (dhcps after : DhcpsInstance) : Prop where
  hSignedMacTbl : after.hSignedMacTbl = dhcps.hSignedMacTbl
  uiDeclineTick : after.uiDeclineTick = dhcps.uiDeclineTick
  stIpList : after.hIpPool.stIpList = dhcps.hIpPool.stIpList
  hDenyBitmap : after.hIpPool.hDenyBitmap = dhcps.hIpPool.hDenyBitmap

theorem OnlyFrees.refl : OnlyFrees dhcps dhcps :=
  ⟨rfl, rfl, rfl, rfl⟩

theorem OnlyFrees.trans {between after : DhcpsInstance} (first : OnlyFrees dhcps between)
    (second : OnlyFrees between after) : OnlyFrees dhcps after :=
  ⟨second.hSignedMacTbl.trans first.hSignedMacTbl, second.uiDeclineTick.trans first.uiDeclineTick,
    second.stIpList.trans first.stIpList, second.hDenyBitmap.trans first.hDenyBitmap⟩

theorem dhcpsFreeLease_onlyFrees (dhcps : DhcpsInstance) (node : MacTblNode UINT) :
    OnlyFrees dhcps (dhcpsFreeLease dhcps node) := by
  unfold dhcpsFreeLease dhcpsMacDel
  split
  · exact ⟨rfl, rfl, rfl, rfl⟩
  split
  · exact ⟨rfl, rfl, rfl, rfl⟩
  · exact ⟨rfl, rfl, rfl, rfl⟩

theorem dhcpsFiring_onlyFrees (turns : Nat) (dhcps : DhcpsInstance) :
    OnlyFrees dhcps (dhcpsFiring turns dhcps) := by
  induction turns generalizing dhcps with
  | zero => exact .refl
  | succ _ ih =>
    rw [dhcpsFiring]
    split
    · exact .refl
    refine OnlyFrees.trans ?_ (ih _)
    unfold dhcpsOld
    split
    · exact ⟨rfl, rfl, rfl, rfl⟩
    next node _ =>
    obtain ⟨signed, tick, ranges, denied⟩ := dhcpsFreeLease_onlyFrees { dhcps with
      hMacTbl := { dhcps.hMacTbl with hVclockInstance := _ } } node
    exact ⟨signed, tick, ranges, denied⟩

theorem dhcpsFreeLease_busy {node : MacTblNode UINT} {y : UINT}
    (busy : ippoolIsBusy dhcps.hIpPool y = true)
    (other : ∀ uiIp, node.pUserData = some uiIp → ntohl uiIp ≠ y) :
    ippoolIsBusy (dhcpsFreeLease dhcps node).hIpPool y = true := by
  unfold dhcpsFreeLease dhcpsMacDel
  split
  · exact busy
  next uiIp isIp =>
  split
  · exact busy
  · exact ippoolIsBusy_freeIp.mpr ⟨(other uiIp isIp).symm, busy⟩

theorem dhcpsFiring_busy (turns : Nat) (ok : MactblOk dhcps.hMacTbl now) {y : UINT}
    (busy : ippoolIsBusy dhcps.hIpPool y = true)
    (other : ∀ stMac uiIp, IsDue dhcps.hMacTbl now stMac → holds dhcps.hMacTbl stMac = some uiIp →
      ntohl uiIp ≠ y) :
    ippoolIsBusy (dhcpsFiring turns dhcps).hIpPool y = true := by
  induction turns generalizing dhcps with
  | zero => exact busy
  | succ _ ih =>
    rw [dhcpsFiring]
    split
    · exact busy
    next hTimerHandle vclock fires =>
    obtain ⟨owned, due, replaces⟩ := ok.fire fires
    rw [← dhcpsOld_hMacTbl { dhcps with
      hMacTbl := { dhcps.hMacTbl with hVclockInstance := vclock } }] at replaces
    apply ih (replaces.ok ok)
    · rw [dhcpsOld]
      split
      · exact busy
      next node found =>
      apply dhcpsFreeLease_busy busy
      intro uiIp isIp
      apply other _ uiIp ⟨hTimerHandle, owned, due⟩
      exact (congrArg (fun entry => bind entry _) found).trans isIp
    intro stMac uiIp isDue held
    have differs : stMac ≠ dhcps.hMacTbl.stUserHandle hTimerHandle := by
      rintro rfl
      rw [holds, replaces.find_self] at held
      cases held
    apply other stMac uiIp ((replaces.isDue_iff ok differs).mp isDue)
    rw [holds, ← replaces.find_of_ne differs]
    exact held

theorem LeasesOk.ageLeases (ok : LeasesOk dhcps.hMacTbl now) :
    (dhcpsAgeLeases dhcps).hMacTbl = mactblTickStep dhcps.hMacTbl ∧
      OnlyFrees dhcps (dhcpsAgeLeases dhcps) ∧
      ∀ y, ippoolIsBusy dhcps.hIpPool y = true →
        (∀ stMac uiIp, Ageing dhcps.hMacTbl stMac → holds dhcps.hMacTbl stMac = some uiIp →
          ntohl uiIp ≠ y) →
          ippoolIsBusy (dhcpsAgeLeases dhcps).hIpPool y = true := by
  obtain ⟨_, isRun, leases⟩ := ok
  have begun := leases.runOk.ok.begin leases.runOk.settled
  rw [isRun] at begun
  refine ⟨dhcpsFiring_hMacTbl _ _, ?_, fun y busy other => ?_⟩
  · obtain ⟨signed, tick, ranges, denied⟩ := dhcpsFiring_onlyFrees _ { dhcps with
      hMacTbl := { dhcps.hMacTbl with
        hVclockInstance := vclockStepBegin dhcps.hMacTbl.hVclockInstance } }
    exact ⟨signed, tick, ranges, denied⟩
  refine @dhcpsFiring_busy _ { dhcps with
    hMacTbl := { dhcps.hMacTbl with
      hVclockInstance := vclockStepBegin dhcps.hMacTbl.hVclockInstance } } _ begun y busy ?_
  rintro stMac uiIp ⟨hVclock, isTimer, due⟩ held
  refine other stMac uiIp ?_ held
  rw [← isRun] at isTimer due ⊢
  obtain ⟨_, found, -⟩ := bind_eq_some_iff.mp isTimer
  obtain ⟨timer, _, owned, armed, ageing_iff⟩ := leases.armed found
  have same := some.inj (owned.symm.trans isTimer)
  rw [same] at armed
  apply ageing_iff.mpr
  rcases vclockStepBegin_landed leases.runOk.ok.linked leases.runOk.ok.atTick armed with
    waits | ⟨-, reached⟩
  · exact absurd due waits.not_due
  · exact reached

end MyCode.Dhcps
