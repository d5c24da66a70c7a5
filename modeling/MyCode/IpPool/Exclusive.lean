import MyCode.IpPool.Pool
import MyCode.LBitMap.Busy

/-!
# Addresses that an IP pool hands out

As long as every held and every denied address is busy, no address is handed
out twice and no denied one at all.  Freeing a denied address and permitting a
held one clear the shared bit.
-/

namespace MyCode.IpPool

open LBitMap Function BitVec Bool

variable {pool : IpPoolS} {use : IpPoolUse} {uiIp y : UINT} {alloc : NodeAlloc}
  {held denied : UINT → Bool}

/-- An address of a range that is neither denied nor held. -/
def IsFree (use : IpPoolUse) (uiIp : UINT) : Prop :=
  ipListIsIpInTheList use.pool.stIpList uiIp = true ∧ use.denied uiIp = false ∧
    use.held uiIp = false

/-- The busy bits cover the held and the denied addresses. -/
def BusyOk (use : IpPoolUse) : Prop :=
  ∀ y, use.held y = true ∨ use.denied y = true → ippoolIsBusy use.pool y = true

/-- The address that a caller asks for can be granted. -/
def CanGrant (pool : IpPoolS) (uiIp : UINT) : Prop :=
  uiIp ≠ 0 ∧ ipListIsIpInTheList pool.stIpList uiIp = true ∧ ippoolIsBusy pool uiIp = false

/-- The nodes for the busy bit of an address are there or can be allocated. -/
def BusyRoom (pool : IpPoolS) (alloc : NodeAlloc) (uiIp : UINT) : Prop :=
  HasRoom 3 alloc pool.hUsedOrDenyBitmap uiIp.toNat = true

/-- A call that can mark what it takes, does not free a denied address, and
does not permit one that is denied and held. -/
def BusyKept (use : IpPoolUse) : IpPoolCall → Prop
  | .addRange _ _ _ => True
  | .deny alloc _ uiDenyIp => BusyRoom use.pool alloc uiDenyIp
  | .permit uiIp => ippoolIsDenied use.pool uiIp = true → use.held uiIp = false
  | .allocIp requestAlloc _ uiRequestIp =>
    CanGrant use.pool uiRequestIp → BusyRoom use.pool requestAlloc uiRequestIp
  | .allocSpecIp alloc uiSpecIp => CanGrant use.pool uiSpecIp → BusyRoom use.pool alloc uiSpecIp
  | .freeIp uiIp => use.denied uiIp = false

theorem toNat_lt_unit (y : UINT) : y.toNat < lbitmapUnit 3 := y.isLt

theorem ippoolIsBusy_setBusy (room : BusyRoom pool alloc uiIp) (y : UINT) :
    ippoolIsBusy (ippoolSetBusy pool alloc uiIp) y = (decide (y = uiIp) || ippoolIsBusy pool y) := by
  have set := lBitMapIsBitSetted_setIndexBit (toNat_lt_unit uiIp) (toNat_lt_unit y) room
  simp only [BitVec.toNat_inj] at set
  exact set

theorem ippoolIsBusy_clrBusy (uiIp y : UINT) :
    ippoolIsBusy (ippoolClrBusy pool uiIp) y = (!decide (y = uiIp) && ippoolIsBusy pool y) := by
  have cleared := @lBitMapIsBitSetted_clearBit 3 _ _ pool.hUsedOrDenyBitmap
    (toNat_lt_unit uiIp) (toNat_lt_unit y)
  simp only [BitVec.toNat_inj] at cleared
  exact cleared

theorem ippoolIsBusy_setBusy_of_busy (alloc : NodeAlloc) (uiIp : UINT)
    (busy : ippoolIsBusy pool y = true) :
    ippoolIsBusy (ippoolSetBusy pool alloc uiIp) y = true := by
  by_cases room : BusyRoom pool alloc uiIp
  · rw [ippoolIsBusy_setBusy room, busy, Bool.or_true]
  · have failed := mt lbitmapSetIndexBit_ok_iff.mp room
    exact (lBitMapIsBitSetted_setIndexBit_of_failed failed y.toNat).trans busy

theorem ippoolGetFreeIp_spec (alloc : Nat → NodeAlloc) (nodes : List IpListNode)
    (bitmap : LBitMapCtrl) :
    (∀ y : UINT, lBitMapIsBitSetted 3 bitmap y.toNat = true →
      lBitMapIsBitSetted 3 (ippoolGetFreeIp alloc nodes bitmap).1 y.toNat = true) ∧
    ((ippoolGetFreeIp alloc nodes bitmap).2 ≠ 0 →
      ipListIsIpInTheList nodes (ippoolGetFreeIp alloc nodes bitmap).2 = true ∧
      lBitMapIsBitSetted 3 bitmap (ippoolGetFreeIp alloc nodes bitmap).2.toNat = false ∧
      lBitMapIsBitSetted 3 (ippoolGetFreeIp alloc nodes bitmap).1
        (ippoolGetFreeIp alloc nodes bitmap).2.toNat = true) := by
  induction nodes generalizing alloc bitmap with
  | nil => exact ⟨fun _ busy => busy, fun taken => absurd rfl taken⟩
  | cons node _ ih =>
    have attempted : Attempted 3 bitmap node.uiBeginIp.toNat node.uiEndIp.toNat
        (lBitMapAllocByRange (alloc 0) bitmap node.uiBeginIp.toNat node.uiEndIp.toNat) :=
      attempted_get (toNat_lt_unit _) (toNat_lt_unit _)
    rw [ippoolGetFreeIp]
    split
    · next after uiBitIndex same =>
      rw [same] at attempted
      obtain ⟨lower, upper, clear, set⟩ := attempted
      have low := Nat.lt_of_le_of_lt upper node.uiEndIp.isLt
      have value : (BitVec.ofNat 32 uiBitIndex).toNat = uiBitIndex := by
        rw [toNat_ofNat, Nat.mod_eq_of_lt low]
      refine ⟨fun y busy => ?_, fun _ => ⟨?_, ?_, ?_⟩⟩
      · rw [set _ (toNat_lt_unit y), busy, Bool.or_true]
      · rw [ipListIsIpInTheList, List.any_cons, or_eq_true, Bool.and_eq_true]
        refine .inl ⟨decide_eq_true ?_, decide_eq_true ?_⟩
        · rw [le_def, value]
          exact lower
        · rw [le_def, value]
          exact upper
      · rw [value]
        exact clear
      · rw [value, set _ low, decide_eq_true rfl, Bool.true_or]
    next after eRet same =>
    rw [same] at attempted
    obtain ⟨kept, taken⟩ := ih (fun k => alloc (k + 1)) after
    refine ⟨fun y busy => kept y ((attempted _).trans busy), fun nonzero => ?_⟩
    obtain ⟨inside, clear, set⟩ := taken nonzero
    refine ⟨?_, (attempted _).symm.trans clear, set⟩
    exact or_eq_true_iff.mpr (.inr inside)

theorem ippoolAllocIp_free (requestAlloc : NodeAlloc) (alloc : Nat → NodeAlloc) (uiRequestIp : UINT)
    (taken : (ippoolAllocIp pool requestAlloc alloc uiRequestIp).2 ≠ 0) :
    ipListIsIpInTheList pool.stIpList (ippoolAllocIp pool requestAlloc alloc uiRequestIp).2 = true ∧
      ippoolIsBusy pool (ippoolAllocIp pool requestAlloc alloc uiRequestIp).2 = false := by
  unfold ippoolAllocIp at taken ⊢
  split
  · next granted => exact granted.2
  next refused =>
  rw [if_neg refused] at taken
  obtain ⟨inside, clear, -⟩ := (ippoolGetFreeIp_spec alloc _ _).2 taken
  exact ⟨inside, clear⟩

theorem ippoolAllocSpecIp_ok (uiSpecIp : UINT)
    (granted : (ippoolAllocSpecIp pool alloc uiSpecIp).2 = .ok) : CanGrant pool uiSpecIp := by
  unfold ippoolAllocSpecIp at granted
  split at granted
  · cases granted
  next nonzero =>
  split at granted
  · cases granted
  next inside =>
  split at granted
  · cases granted
  · next clear => exact ⟨nonzero, not_not.mp inside, eq_false_iff.mpr clear⟩

theorem ippoolAllocSpecIp_refused {eRet : BsStatus}
    (refused : (ippoolAllocSpecIp pool alloc uiIp).2 = eRet) (error : eRet ≠ .ok) :
    (ippoolAllocSpecIp pool alloc uiIp).1 = pool := by
  unfold ippoolAllocSpecIp at refused ⊢
  split
  · rfl
  next nonzero =>
  rw [if_neg nonzero] at refused
  split
  · rfl
  next inside =>
  rw [if_neg inside] at refused
  split
  · rfl
  next clear =>
  rw [if_neg clear] at refused
  exact absurd refused.symm error

theorem CanGrant.allocSpecIp (granted : CanGrant pool uiIp) (alloc : NodeAlloc) :
    ippoolAllocSpecIp pool alloc uiIp = (ippoolSetBusy pool alloc uiIp, .ok) := by
  obtain ⟨nonzero, inside, clear⟩ := granted
  rw [ippoolAllocSpecIp, if_neg nonzero, if_neg (not_not.mpr inside), clear,
    if_neg Bool.false_ne_true]

theorem BusyOk.mark (ok : BusyOk use) (room : BusyRoom use.pool alloc uiIp)
    (used : ∀ y, held y = true ∨ denied y = true → y = uiIp ∨ use.held y = true ∨ use.denied y = true) :
    BusyOk ⟨ippoolSetBusy use.pool alloc uiIp, held, denied⟩ := by
  intro y usedNow
  rw [ippoolIsBusy_setBusy room]
  rcases used y usedNow with same | usedBefore
  · rw [decide_eq_true same, Bool.true_or]
  · rw [ok y usedBefore, Bool.or_true]

theorem BusyOk.unmark (ok : BusyOk use) (uiIp : UINT)
    (used : ∀ y, held y = true ∨ denied y = true → y ≠ uiIp ∧ (use.held y = true ∨ use.denied y = true)) :
    BusyOk ⟨ippoolClrBusy use.pool uiIp, held, denied⟩ := by
  intro y usedNow
  obtain ⟨other, usedBefore⟩ := used y usedNow
  rw [ippoolIsBusy_clrBusy, decide_eq_false other, ok y usedBefore]
  rfl

theorem ippoolAllocIp_busy {requestAlloc : NodeAlloc} {alloc : Nat → NodeAlloc} {uiRequestIp : UINT}
    (room : CanGrant pool uiRequestIp → BusyRoom pool requestAlloc uiRequestIp) :
    (∀ y, ippoolIsBusy pool y = true →
      ippoolIsBusy (ippoolAllocIp pool requestAlloc alloc uiRequestIp).1 y = true) ∧
    ((ippoolAllocIp pool requestAlloc alloc uiRequestIp).2 ≠ 0 →
      ippoolIsBusy (ippoolAllocIp pool requestAlloc alloc uiRequestIp).1
        (ippoolAllocIp pool requestAlloc alloc uiRequestIp).2 = true) := by
  unfold ippoolAllocIp
  split
  · next granted =>
    refine ⟨fun y busy => ippoolIsBusy_setBusy_of_busy requestAlloc uiRequestIp busy, fun _ => ?_⟩
    rw [ippoolIsBusy_setBusy (room granted), decide_eq_true rfl, Bool.true_or]
  · obtain ⟨busyKept, taken⟩ := ippoolGetFreeIp_spec alloc pool.stIpList pool.hUsedOrDenyBitmap
    exact ⟨busyKept, fun nonzero => (taken nonzero).2.2⟩

theorem BusyOk.allocIp (ok : BusyOk use) {requestAlloc : NodeAlloc} {alloc : Nat → NodeAlloc}
    {uiRequestIp : UINT} (kept : BusyKept use (.allocIp requestAlloc alloc uiRequestIp)) :
    BusyOk ((IpPoolCall.allocIp requestAlloc alloc uiRequestIp).run use) := by
  have marks := @ippoolAllocIp_busy _ _ alloc _ kept
  intro y used
  simp only [IpPoolCall.run] at used ⊢
  split at used
  · next failed =>
    rw [if_pos failed]
    exact marks.1 y (ok y used)
  next nonzero =>
  rw [if_neg nonzero]
  by_cases same : y = (ippoolAllocIp use.pool requestAlloc alloc uiRequestIp).2
  · rw [same]
    exact marks.2 nonzero
  · simp only [update_of_ne same] at used
    exact marks.1 y (ok y used)

theorem BusyOk.allocSpecIp (ok : BusyOk use) {uiSpecIp : UINT}
    (kept : BusyKept use (.allocSpecIp alloc uiSpecIp)) :
    BusyOk ((IpPoolCall.allocSpecIp alloc uiSpecIp).run use) := by
  simp only [IpPoolCall.run]
  split
  · next taken =>
    have granted := ippoolAllocSpecIp_ok uiSpecIp taken
    rw [granted.allocSpecIp alloc]
    exact ok.mark (kept granted) fun y used => by
      by_cases same : y = uiSpecIp
      · exact .inl same
      · rw [update_of_ne same] at used
        exact .inr used
  · next refused =>
    rw [ippoolAllocSpecIp_refused rfl refused]
    exact ok

theorem BusyOk.permit (ok : BusyOk use) (kept : BusyKept use (.permit uiIp)) :
    BusyOk ((IpPoolCall.permit uiIp).run use) := by
  simp only [IpPoolCall.run, ippoolPermit]
  split
  · next denied =>
    refine ok.unmark uiIp fun y used => ?_
    by_cases same : y = uiIp
    · rw [same, kept denied, update_self] at used
      exact absurd used (by decide)
    · rw [update_of_ne same] at used
      exact ⟨same, used⟩
  · intro y used
    by_cases same : y = uiIp
    · simp only [same, update_self] at used ⊢
      exact ok uiIp (.inl (used.resolve_right Bool.false_ne_true))
    · simp only [update_of_ne same] at used
      exact ok y used

theorem BusyOk.run (ok : BusyOk use) {call : IpPoolCall} (kept : BusyKept use call) :
    BusyOk (call.run use) := by
  cases call with
  | addRange => exact ok
  | deny _ _ uiDenyIp =>
    refine ok.mark kept fun y used => ?_
    by_cases same : y = uiDenyIp
    · exact .inl same
    · simp only [IpPoolCall.run, update_of_ne same] at used
      exact .inr used
  | permit => exact ok.permit kept
  | allocIp => exact ok.allocIp kept
  | allocSpecIp => exact ok.allocSpecIp kept
  | freeIp uiIp =>
    have permitted := kept
    refine ok.unmark uiIp fun y used => ?_
    by_cases same : y = uiIp
    · rw [same, update_self, permitted] at used
      exact absurd used (by decide)
    · rw [update_of_ne same] at used
      exact ⟨same, used⟩

theorem BusyOk.isFree (ok : BusyOk use)
    (taken : ipListIsIpInTheList use.pool.stIpList uiIp = true ∧
      ippoolIsBusy use.pool uiIp = false) : IsFree use uiIp := by
  obtain ⟨inside, clear⟩ := taken
  refine ⟨inside, eq_false_iff.mpr fun denied => ?_, eq_false_iff.mpr fun held => ?_⟩
  · rw [ok uiIp (.inr denied)] at clear
    cases clear
  · rw [ok uiIp (.inl held)] at clear
    cases clear

/-- In runs whose calls all keep the marks, the addresses that are handed out
are free. -/
theorem ippoolAlloc_free (reached : ippool.ReachableWhen BusyKept use) :
    (∀ requestAlloc alloc uiRequestIp,
      (ippoolAllocIp use.pool requestAlloc alloc uiRequestIp).2 ≠ 0 →
        IsFree use (ippoolAllocIp use.pool requestAlloc alloc uiRequestIp).2) ∧
    ∀ alloc uiSpecIp, (ippoolAllocSpecIp use.pool alloc uiSpecIp).2 = .ok → IsFree use uiSpecIp := by
  have ok : BusyOk use := by
    refine reached.invariant ?_ ?_
    · rintro _ rfl _ used
      exact used.elim (nofun) nofun
    · rintro _ _ _ ok kept rfl
      exact ok.run kept
  constructor
  · intro requestAlloc alloc uiRequestIp taken
    exact ok.isFree (ippoolAllocIp_free requestAlloc alloc uiRequestIp taken)
  · intro alloc uiSpecIp granted
    exact ok.isFree (ippoolAllocSpecIp_ok uiSpecIp granted).2

/-- A pool of one range from which 10 is denied. -/
theorem ippoolAlloc_free_denied :
    IsFree ((IpPoolCall.deny (fun _ => true) (fun _ => true) 10).run
        ((IpPoolCall.addRange true 10 20).run ippoolStart))
      (ippoolAllocIp ((IpPoolCall.deny (fun _ => true) (fun _ => true) 10).run
        ((IpPoolCall.addRange true 10 20).run ippoolStart)).pool (fun _ => true)
        (fun _ _ => true) 0).2 := by
  have room : BusyRoom ((IpPoolCall.addRange true 10 20).run ippoolStart).pool (fun _ => true)
      10 := by
    unfold BusyRoom
    decide +kernel
  have reached : ippool.ReachableWhen BusyKept
      ((IpPoolCall.deny (fun _ => true) (fun _ => true) 10).run
        ((IpPoolCall.addRange true 10 20).run ippoolStart)) := by
    refine .step (.step (.start rfl) ?_ rfl) ?_ rfl
    · exact trivial
    · exact room
  exact (ippoolAlloc_free reached).1 _ _ _ (by decide +kernel)

/-- 10 is allocated, denied, permitted and allocated again. -/
theorem ippoolAlloc_not_exclusive :
    ¬ ∀ use, ippool.Reachable use →
      (∀ requestAlloc alloc uiRequestIp,
        (ippoolAllocIp use.pool requestAlloc alloc uiRequestIp).2 ≠ 0 →
          IsFree use (ippoolAllocIp use.pool requestAlloc alloc uiRequestIp).2) ∧
      ∀ alloc uiSpecIp, (ippoolAllocSpecIp use.pool alloc uiSpecIp).2 = .ok →
        IsFree use uiSpecIp := by
  intro holds
  have reached : ippool.Reachable ((IpPoolCall.permit 10).run
      ((IpPoolCall.deny (fun _ => true) (fun _ => true) 10).run
        ((IpPoolCall.allocSpecIp (fun _ => true) 10).run
          ((IpPoolCall.addRange true 10 20).run ippoolStart)))) :=
    .step (.step (.step (.step (.start rfl) trivial rfl) trivial rfl) trivial rfl) trivial rfl
  obtain ⟨-, -, held⟩ := (holds _ reached).2 (fun _ => true) 10 (by decide +kernel)
  exact absurd held (by decide +kernel)

end MyCode.IpPool

/-!
## Permitting all addresses

`IPPOOL_PermitAll` follows the denied bits.  It clears the busy bits of denied addresses only.
-/

namespace MyCode.IpPool

open LBitMap

/-- The loop of `IPPOOL_PermitAll`, for at most `turns` turns. -/
def ippoolPermitNext : Nat → IpPoolS → UINT → IpPoolS
  | 0, pstIpPool, _ => pstIpPool
  | turns + 1, pstIpPool, uiIp =>
    match lBitMapGetNextBusyBit pstIpPool.hDenyBitmap uiIp with
    | none => pstIpPool
    | some uiIp =>
      ippoolPermitNext turns
        { ippoolClrBusy pstIpPool uiIp with
          hDenyBitmap := lBitMapClrBit pstIpPool.hDenyBitmap uiIp.toNat } uiIp

def ippoolPermitAll (pstIpPool : IpPoolS) : IpPoolS :=
  ippoolPermitNext (2 ^ 32) pstIpPool 0

variable {pool : IpPoolS} {uiIp y : UINT} {alloc : NodeAlloc}

theorem lBitMapGetNextBusyBit_denied {uiCurrentBitIndex : UINT}
    (isNext : lBitMapGetNextBusyBit pool.hDenyBitmap uiCurrentBitIndex = some uiIp) :
    ippoolIsDenied pool uiIp = true :=
  (@lBitMapNextBusyBit_some _ _ (some uiCurrentBitIndex) isNext).2.1

theorem lBitMapIsBitSetted_clrBit (bitmap : LBitMapCtrl) (uiIp y : UINT) :
    lBitMapIsBitSetted 3 (lBitMapClrBit bitmap uiIp.toNat) y.toNat =
      (!decide (y = uiIp) && lBitMapIsBitSetted 3 bitmap y.toNat) := by
  have cleared := @lBitMapIsBitSetted_clearBit 3 _ _ bitmap (toNat_lt_unit uiIp) (toNat_lt_unit y)
  simp only [BitVec.toNat_inj] at cleared
  exact cleared

theorem ippoolPermitNext_busy (turns : Nat) (uiIp : UINT)
    (permitted : ippoolIsDenied pool y = false) (busy : ippoolIsBusy pool y = true) :
    ippoolIsBusy (ippoolPermitNext turns pool uiIp) y = true := by
  induction turns generalizing pool uiIp with
  | zero => exact busy
  | succ _ ih =>
    rw [ippoolPermitNext]
    split
    · exact busy
    next found isNext =>
    have differs : y ≠ found := by
      rintro rfl
      exact Bool.false_ne_true (permitted.symm.trans (lBitMapGetNextBusyBit_denied isNext))
    apply ih
    · rw [ippoolIsDenied, lBitMapIsBitSetted_clrBit, decide_eq_false differs]
      exact permitted
    have cleared : ippoolIsBusy (ippoolClrBusy pool found) y = true := by
      rw [ippoolIsBusy_clrBusy, decide_eq_false differs, busy]
      rfl
    exact cleared

theorem ippoolPermitAll_busy (permitted : ippoolIsDenied pool y = false)
    (busy : ippoolIsBusy pool y = true) : ippoolIsBusy (ippoolPermitAll pool) y = true :=
  ippoolPermitNext_busy _ 0 permitted busy

theorem ippoolIsBusy_freeIp : ippoolIsBusy (ippoolFreeIp pool uiIp) y = true ↔
    y ≠ uiIp ∧ ippoolIsBusy pool y = true := by
  rw [ippoolFreeIp, ippoolIsBusy_clrBusy, Bool.and_eq_true, Bool.not_eq_true', decide_eq_false_iff_not]

theorem ippoolAllocSpecIp_busy {uiSpecIp : UINT} (nonzero : uiSpecIp ≠ 0)
    (inside : ipListIsIpInTheList pool.stIpList uiSpecIp = true)
    (room : CanGrant pool uiSpecIp → BusyRoom pool alloc uiSpecIp) :
    (∀ y, ippoolIsBusy pool y = true →
      ippoolIsBusy (ippoolAllocSpecIp pool alloc uiSpecIp).1 y = true) ∧
    ippoolIsBusy (ippoolAllocSpecIp pool alloc uiSpecIp).1 uiSpecIp = true := by
  cases busy : ippoolIsBusy pool uiSpecIp with
  | true =>
    have same : (ippoolAllocSpecIp pool alloc uiSpecIp).1 = pool := by
      rw [ippoolAllocSpecIp, if_neg nonzero, if_neg (not_not.mpr inside), if_pos busy]
    rw [same]
    exact ⟨fun _ busy => busy, busy⟩
  | false =>
    have granted : CanGrant pool uiSpecIp := ⟨nonzero, inside, busy⟩
    rw [granted.allocSpecIp alloc]
    refine ⟨fun y busy => ippoolIsBusy_setBusy_of_busy alloc uiSpecIp busy, ?_⟩
    rw [ippoolIsBusy_setBusy (room granted), decide_eq_true rfl, Bool.true_or]

end MyCode.IpPool
