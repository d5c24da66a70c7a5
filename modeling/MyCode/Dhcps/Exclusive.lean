import MyCode.Dhcps.Leases
import MyCode.Lib.Holdings

/-!
# Every address has one client

The leases, the signed addresses and the busy bits describe the same holdings, as long as no
call gives back an address that is still held in another way.
-/

namespace MyCode.Dhcps

open IpPool LBitMap Lib MacTable Vclock Function Option

variable {mactbl : MacTbl UINT} {node : MacTblNode UINT}

inductive DhcpsCall where
  | pktInput (ucOp : UCHAR) (iDhcpMsgType : Int) (aucClientHaddr : MacAddr) (ulRequestIp : UINT)
      (memory : DhcpsMemory)
  | signIp (pstMacAddr : MacAddr) (uiIp : UINT) (memory : MacTblMemory) (alloc : NodeAlloc)
  | unSignIp (pstMacAddr : MacAddr)
  | delClient (pstClientMac : MacAddr)
  | tickStep

def DhcpsCall.run (dhcps : DhcpsInstance) : DhcpsCall → DhcpsInstance × Option DhcpsReply
  | pktInput ucOp iDhcpMsgType aucClientHaddr ulRequestIp memory =>
    dhcpsPktInput dhcps ucOp iDhcpMsgType aucClientHaddr ulRequestIp memory
  | signIp pstMacAddr uiIp memory alloc => ((dhcpsSignIp dhcps pstMacAddr uiIp memory alloc).1, none)
  | unSignIp pstMacAddr => (dhcpsUnSignIp dhcps pstMacAddr, none)
  | delClient pstClientMac => (dhcpsDelClient dhcps pstClientMac, none)
  | tickStep => (dhcpsTickStep dhcps, none)

/-- The address of a range is not denied, and no other client has it. -/
structure MaySign (dhcps : DhcpsInstance) (pstMacAddr : MacAddr) (uiIp : UINT) : Prop where
  inside : ipListIsIpInTheList dhcps.hIpPool.stIpList (ntohl uiIp) = true
  permitted : ippoolIsDenied dhcps.hIpPool (ntohl uiIp) = false
  unleased : ∀ other, holds dhcps.hMacTbl other ≠ some uiIp
  unsigned : ∀ other, holds dhcps.hSignedMacTbl other = some uiIp → other = pstMacAddr

/-- An allocated timer is not one that is in use. -/
def DhcpsCall.Enabled (dhcps : DhcpsInstance) : DhcpsCall → Prop
  | pktInput _ _ aucClientHaddr _ memory =>
    (MactblCall.add memory.mac (macNodeOf aucClientHaddr) none .set).Enabled dhcps.hMacTbl
  | signIp pstMacAddr uiIp _ _ => MaySign dhcps pstMacAddr uiIp
  | _ => True

def dhcpsSystem (uiStartIp uiEndIp : UINT) : System DhcpsInstance DhcpsCall where
  start dhcps := ∃ nodeAlloc, dhcps = dhcpsCreateInstance nodeAlloc uiStartIp uiEndIp
  step dhcps call after := call.Enabled dhcps ∧ after = (call.run dhcps).1

/-- Who holds which address, and what the pool knows of it. -/
def dhcpsHoldings (dhcps : DhcpsInstance) : Holdings MacAddr UINT where
  leased := holds dhcps.hMacTbl
  signed := holds dhcps.hSignedMacTbl
  busy uiIp := ippoolIsBusy dhcps.hIpPool (ntohl uiIp) = true

section Conditions

variable (dhcps : DhcpsInstance) (stMac : MacAddr) (uiIp : UINT)

/-- There is memory for the mark of the address that is asked for. -/
def GrantKeeps (request : NodeAlloc) : Prop :=
  holds dhcps.hMacTbl stMac = none → holds dhcps.hSignedMacTbl stMac = none →
    CanGrant dhcps.hIpPool (ntohl uiIp) → BusyRoom dhcps.hIpPool request (ntohl uiIp)

/-- The lease is not of a signed address, if it is not the one that is marked again. -/
def DeclineKeeps (request : NodeAlloc) : Prop :=
  ∀ leased, holds dhcps.hMacTbl stMac = some leased →
    (∀ other, holds dhcps.hSignedMacTbl other ≠ some leased) ∨
      leased = uiIp ∧ BusyRoom (ippoolFreeIp dhcps.hIpPool (ntohl uiIp)) request (ntohl uiIp)

def DelKeeps : Prop :=
  ∀ leased, holds dhcps.hMacTbl stMac = some leased →
    ∀ other, holds dhcps.hSignedMacTbl other ≠ some leased

def UnSignKeeps : Prop :=
  ∀ signed, holds dhcps.hSignedMacTbl stMac = some signed →
    ∀ other, holds dhcps.hMacTbl other ≠ some signed

/-- The pool without the mark of the signed address. -/
def poolUnSigned : IpPoolS :=
  match holds dhcps.hSignedMacTbl stMac with
  | none => dhcps.hIpPool
  | some signed => ippoolFreeIp dhcps.hIpPool (ntohl signed)

structure SignKeeps (alloc : NodeAlloc) : Prop where
  nonzero : uiIp ≠ 0
  before : UnSignKeeps dhcps stMac
  room : CanGrant (poolUnSigned dhcps stMac) (ntohl uiIp) →
    BusyRoom (poolUnSigned dhcps stMac) alloc (ntohl uiIp)

/-- No lease that ends is of a signed address, and no address that is permitted again is held. -/
structure TickKeeps : Prop where
  ageing : ∀ stMac, Ageing dhcps.hMacTbl stMac → DelKeeps dhcps stMac
  permitted : dhcps.uiDeclineTick + 1 ≥ dhcpsDeclineMaxTick →
    ∀ uiIp, ippoolIsDenied dhcps.hIpPool (ntohl uiIp) = true →
      (∀ other, holds dhcps.hSignedMacTbl other ≠ some uiIp) ∧
        ∀ stMac, holds dhcps.hMacTbl stMac = some uiIp → Ageing dhcps.hMacTbl stMac

end Conditions

def DhcpsKeeps (dhcps : DhcpsInstance) : DhcpsCall → Prop
  | .pktInput ucOp iDhcpMsgType aucClientHaddr ulRequestIp memory =>
    ucOp = dhcpOpRequest →
      (iDhcpMsgType = dhcpDiscover ∨ iDhcpMsgType = dhcpRequest →
        GrantKeeps dhcps aucClientHaddr ulRequestIp memory.request) ∧
      (iDhcpMsgType = dhcpDecline → DeclineKeeps dhcps aucClientHaddr ulRequestIp memory.request)
  | .signIp pstMacAddr uiIp _ alloc => SignKeeps dhcps pstMacAddr uiIp alloc
  | .unSignIp pstMacAddr => UnSignKeeps dhcps pstMacAddr
  | .delClient pstClientMac => DelKeeps dhcps pstClientMac
  | .tickStep => TickKeeps dhcps

variable {dhcps after : DhcpsInstance} {now : Nat} {stMac other : MacAddr} {uiIp : UINT}
  {stMacTbl : MacNode}

structure DhcpsOk (dhcps : DhcpsInstance) (now : Nat) : Prop where
  leases : LeasesOk dhcps.hMacTbl now
  signed : SignedOk dhcps.hSignedMacTbl
  exclusive : (dhcpsHoldings dhcps).Exclusive

theorem DhcpsOk.start (nodeAlloc : Bool) (uiStartIp uiEndIp : UINT) :
    DhcpsOk (dhcpsCreateInstance nodeAlloc uiStartIp uiEndIp) 0 := by
  refine ⟨leasesOk_create, signedOk_create, .of_nothing (fun _ => ?_) fun _ => ?_⟩
  · rfl
  · rfl

theorem dhcpsFind_none (absent : mactblFind mactbl stMacTbl.stMac = none) (stData : UINT) :
    dhcpsFind mactbl stMacTbl stData = (.noSuch, stMacTbl, stData) := by
  simp [dhcpsFind, mactblGet, absent]

theorem dhcpsFind_some (found : mactblFind mactbl stMacTbl.stMac = some node)
    (isData : node.pUserData = some uiIp) (stData : UINT) :
    dhcpsFind mactbl stMacTbl stData = (.ok, node.stMacNode, uiIp) := by
  simp [dhcpsFind, mactblGet, found, mactblCopyMacNode, isData]

variable (ok : DhcpsOk dhcps now)

include ok in
theorem DhcpsOk.mark {hIpPool : IpPoolS}
    (busy : ∀ y, ippoolIsBusy dhcps.hIpPool y = true → ippoolIsBusy hIpPool y = true) :
    DhcpsOk { dhcps with hIpPool := hIpPool } now :=
  ⟨ok.leases, ok.signed, ok.exclusive.shrink (fun _ _ held => held) (fun _ _ held => held)
    fun uiIp _ isBusy => busy (ntohl uiIp) isBusy⟩

structure Leased (dhcps : DhcpsInstance) (stMac : MacAddr) (result : DhcpsInstance × UINT)
    (now : Nat) : Prop where
  ok : DhcpsOk result.1 now
  found : result.2 ≠ 0 → holds result.1.hMacTbl stMac = some result.2
  signed : result.1.hSignedMacTbl = dhcps.hSignedMacTbl

include ok in
theorem DhcpsOk.addLease {memory : MacTblMemory} {bAllocIp : Bool}
    {hIpPool : IpPoolS} (missing : holds dhcps.hMacTbl stMacTbl.stMac = none)
    (enabled : (MactblCall.add memory stMacTbl none .set).Enabled dhcps.hMacTbl)
    (marked : ∀ y, ippoolIsBusy dhcps.hIpPool y = true → ippoolIsBusy hIpPool y = true)
    (taken : uiIp ≠ 0 → ippoolIsBusy hIpPool (ntohl uiIp) = true)
    (free : uiIp ≠ 0 → ∀ other, holds dhcps.hMacTbl other ≠ some uiIp)
    (unsigned : uiIp ≠ 0 → ∀ other, holds dhcps.hSignedMacTbl other = some uiIp →
      other = stMacTbl.stMac)
    (fresh : uiIp ≠ 0 → bAllocIp = true → ippoolIsBusy dhcps.hIpPool (ntohl uiIp) = false) :
    Leased dhcps stMacTbl.stMac
      (dhcpsAddLease { dhcps with hIpPool := hIpPool } stMacTbl uiIp bAllocIp memory) now := by
  have markedOk := ok.mark marked
  rw [dhcpsAddLease]
  split
  · exact ⟨markedOk, fun nonzero => absurd rfl nonzero, rfl⟩
  next nonzero =>
  have dynamic : ({ stMacTbl with uiFlag := 0 } : MacNode).isStatic = false := by
    simp [MacNode.isStatic]
  obtain ⟨leases, held⟩ := @LeasesOk.add _ _ { stMacTbl with uiFlag := 0 } ok.leases missing dynamic
    memory uiIp nonzero enabled
  generalize mactblAdd dhcps.hMacTbl memory { stMacTbl with uiFlag := 0 } (some uiIp) .set = result
    at leases held
  obtain ⟨hMacTbl, _⟩ := result
  simp only at leases held ⊢
  split
  · next isOk =>
    rw [if_pos isOk] at held
    have exclusive : (dhcpsHoldings { dhcps with
        hMacTbl := hMacTbl, hIpPool := hIpPool }).Exclusive :=
      markedOk.exclusive.lease (fun other leased => absurd leased (free nonzero other))
        (unsigned nonzero) held rfl (fun _ busy => busy) (taken nonzero)
    refine ⟨⟨leases, ok.signed, exclusive⟩, fun _ => ?_, rfl⟩
    rw [held, update_self]
  next failed =>
  rw [if_neg failed, ← missing, update_eq_self] at held
  have leased (other : MacAddr) (ip : UINT) (isHeld : holds hMacTbl other = some ip) :
      holds dhcps.hMacTbl other = some ip := by
    rwa [held] at isHeld
  split
  · next isNew =>
    have exclusive : (dhcpsHoldings { dhcps with
        hMacTbl := hMacTbl, hIpPool := ippoolFreeIp hIpPool (ntohl uiIp) }).Exclusive := by
      refine ok.exclusive.shrink leased (fun _ _ isHeld => isHeld) fun ip _ busy => ?_
      have differs : ntohl ip ≠ ntohl uiIp := by
        intro same
        have clear := fresh nonzero isNew
        rw [← same] at clear
        exact Bool.false_ne_true (clear.symm.trans busy)
      exact ippoolIsBusy_freeIp.mpr ⟨differs, marked _ busy⟩
    exact ⟨⟨leases, ok.signed, exclusive⟩, fun nonzero => absurd rfl nonzero, rfl⟩
  · have exclusive : (dhcpsHoldings { dhcps with
        hMacTbl := hMacTbl, hIpPool := hIpPool }).Exclusive :=
      markedOk.exclusive.shrink leased (fun _ _ isHeld => isHeld) fun _ _ busy => busy
    exact ⟨⟨leases, ok.signed, exclusive⟩, fun nonzero => absurd rfl nonzero, rfl⟩

theorem SignedOk.key (ok : SignedOk mactbl) (found : mactblFind mactbl stMac = some node) :
    node.stMacNode.stMac = stMac :=
  ((Hash.hashFind_eq_some_iff mactblHashFuncs_lawful ok.hash).mp found).2

include ok in
theorem DhcpsOk.getIp {memory : DhcpsMemory} (keeps : GrantKeeps dhcps stMac uiIp memory.request)
    (enabled : (MactblCall.add memory.mac (macNodeOf stMac) none .set).Enabled dhcps.hMacTbl) :
    Leased dhcps stMac (dhcpsGetIp dhcps stMac uiIp memory) now := by
  rw [dhcpsGetIp]
  cases held : holds dhcps.hMacTbl stMac with
  | some leased =>
    obtain ⟨node, found, isData⟩ := bind_eq_some_iff.mp held
    have nonzero := ok.leases.nonzero held
    have isFound : dhcpsFind dhcps.hMacTbl (macNodeOf stMac) 0 = (.ok, node.stMacNode, leased) :=
      dhcpsFind_some found isData 0
    simp only [isFound, nonzero, ne_eq, not_false_eq_true, and_self, if_true]
    exact ⟨ok, fun _ => held, rfl⟩
  | none =>
    have isMissing : dhcpsFind dhcps.hMacTbl (macNodeOf stMac) 0 = (.noSuch, macNodeOf stMac, 0) :=
      dhcpsFind_none (ok.leases.find_none held) 0
    simp only [isMissing, reduceCtorEq, false_and, if_false]
    cases signed : holds dhcps.hSignedMacTbl stMac with
    | some uiIp =>
      obtain ⟨node, found, isData⟩ := bind_eq_some_iff.mp signed
      have key := ok.signed.key found
      have isFound : dhcpsFind dhcps.hSignedMacTbl (macNodeOf stMac) 0 =
          (.ok, node.stMacNode, uiIp) := dhcpsFind_some found isData 0
      have taken := ok.exclusive.signedBusy stMac uiIp signed
      have free (other : MacAddr) : holds dhcps.hMacTbl other ≠ some uiIp := by
        intro leased
        have same := ok.exclusive.apart other stMac uiIp leased signed
        rw [same] at leased
        cases held.symm.trans leased
      have unsigned (other : MacAddr) (isSigned : holds dhcps.hSignedMacTbl other = some uiIp) :
          other = stMac := ok.exclusive.signedOnce other stMac uiIp isSigned signed
      simp only [isFound, if_true]
      rw [← key] at held unsigned ⊢
      exact ok.addLease held enabled (fun _ busy => busy) (fun _ => taken) (fun _ => free)
        (fun _ => unsigned) fun _ impossible => absurd impossible Bool.false_ne_true
    | none =>
      have isMissing : dhcpsFind dhcps.hSignedMacTbl (macNodeOf stMac) 0 =
          (.noSuch, macNodeOf stMac, 0) := dhcpsFind_none (ok.signed.find_none signed) 0
      obtain ⟨marked, taken⟩ := @ippoolAllocIp_busy _ _ memory.range _ (keeps held signed)
      have clear := @ippoolAllocIp_free dhcps.hIpPool memory.request memory.range (ntohl uiIp)
      simp only [isMissing, reduceCtorEq, if_false]
      generalize ippoolAllocIp dhcps.hIpPool memory.request memory.range (ntohl uiIp) = result
        at marked taken clear
      obtain ⟨hIpPool, granted⟩ := result
      have hostOrder : ntohl (htonl granted) = granted := htonl_htonl granted
      have nonzero (isIp : htonl granted ≠ 0) : granted ≠ 0 := by
        rintro rfl
        exact isIp rfl
      have fresh (isIp : htonl granted ≠ 0) :
          ippoolIsBusy dhcps.hIpPool (ntohl (htonl granted)) = false := by
        rw [hostOrder]
        exact (clear (nonzero isIp)).2
      refine ok.addLease held enabled marked (fun isIp => ?_) (fun isIp other leased => ?_)
        (fun isIp other isSigned => ?_) fun isIp _ => fresh isIp
      · rw [hostOrder]
        exact taken (nonzero isIp)
      · have busy := ok.exclusive.leasedBusy other _ leased
        exact absurd ((fresh isIp).symm.trans busy) Bool.false_ne_true
      · have busy := ok.exclusive.signedBusy other _ isSigned
        exact absurd ((fresh isIp).symm.trans busy) Bool.false_ne_true

structure LeaseGone (dhcps after : DhcpsInstance) (stMac : MacAddr) (now : Nat) : Prop where
  leases : LeasesOk after.hMacTbl now
  held : holds after.hMacTbl = update (holds dhcps.hMacTbl) stMac none
  onlyFrees : OnlyFrees dhcps after
  busy : ∀ uiIp, ippoolIsBusy dhcps.hIpPool (ntohl uiIp) = true →
    holds dhcps.hMacTbl stMac ≠ some uiIp → ippoolIsBusy after.hIpPool (ntohl uiIp) = true

theorem dhcpsDelLease_hMacTbl (dhcps : DhcpsInstance) (stMac : MacAddr) :
    (dhcpsDelLease dhcps stMac).hMacTbl = mactblDel dhcps.hMacTbl (macNodeOf stMac) := by
  unfold dhcpsDelLease mactblDel
  split
  · next missing => rw [macNodeOf, missing]
  next found =>
  rw [macNodeOf, found]
  rfl

theorem LeasesOk.delLease (leases : LeasesOk dhcps.hMacTbl now) (stMac : MacAddr) :
    LeaseGone dhcps (dhcpsDelLease dhcps stMac) stMac now := by
  obtain ⟨leasesAfter, held⟩ := leases.del (macNodeOf stMac)
  rw [← dhcpsDelLease_hMacTbl] at leasesAfter held
  refine ⟨leasesAfter, held, ?_, fun uiIp busy differs => ?_⟩
  · unfold dhcpsDelLease
    split
    · exact .refl
    · exact dhcpsFreeLease_onlyFrees dhcps _
  unfold dhcpsDelLease
  split
  · exact busy
  next node found =>
  apply dhcpsFreeLease_busy busy
  intro leased isLeased same
  apply differs
  rw [holds, found, ← ntohl_inj.mp same]
  exact isLeased

theorem LeaseGone.leased (gone : LeaseGone dhcps after stMac now)
    (isHeld : holds after.hMacTbl other = some uiIp) :
    other ≠ stMac ∧ holds dhcps.hMacTbl other = some uiIp := by
  rw [gone.held] at isHeld
  by_cases same : other = stMac
  · rw [same, update_self] at isHeld
    cases isHeld
  · rw [update_of_ne same] at isHeld
    exact ⟨same, isHeld⟩

include ok in
theorem DhcpsOk.delClient (keeps : DelKeeps dhcps stMac) :
    DhcpsOk (dhcpsDelClient dhcps stMac) now := by
  have gone := ok.leases.delLease stMac
  have signed := gone.onlyFrees.hSignedMacTbl
  refine ⟨gone.leases, signed ▸ ok.signed, ok.exclusive.shrink
    (fun _ _ isHeld => (gone.leased isHeld).2) (fun owner ip isHeld => ?_) fun uiIp isHeld busy => ?_⟩
  · exact (congrArg (holds · owner) signed).symm.trans isHeld
  refine gone.busy uiIp busy fun leased => ?_
  rcases isHeld with ⟨owner, isLeased⟩ | ⟨owner, isSigned⟩
  · obtain ⟨differs, before⟩ := gone.leased isLeased
    exact differs (ok.exclusive.leasedOnce owner stMac uiIp before leased)
  · exact keeps uiIp leased owner ((congrArg (holds · owner) signed).symm.trans isSigned)

theorem dhcpsDelLease_hIpPool (leases : LeasesOk dhcps.hMacTbl now)
    (leased : holds dhcps.hMacTbl stMac = some uiIp) :
    (dhcpsDelLease dhcps stMac).hIpPool = ippoolFreeIp dhcps.hIpPool (ntohl uiIp) := by
  obtain ⟨_, found, isData⟩ := bind_eq_some_iff.mp leased
  simp only [dhcpsDelLease, found, dhcpsFreeLease, dhcpsMacDel, isData,
    if_neg (leases.nonzero leased)]

include ok in
theorem DhcpsOk.decline {memory : DhcpsMemory}
    (keeps : DeclineKeeps dhcps stMac uiIp memory.request) :
    DhcpsOk (dhcpsDealDecline dhcps stMac uiIp memory) now := by
  rw [dhcpsDealDecline]
  split
  · exact ok
  have gone := ok.leases.delLease stMac
  have signed := gone.onlyFrees.hSignedMacTbl
  refine ⟨gone.leases, signed ▸ ok.signed, ok.exclusive.shrink
    (fun _ _ isHeld => (gone.leased isHeld).2) (fun owner ip isHeld => ?_) fun ip isHeld busy => ?_⟩
  · exact (congrArg (holds · owner) signed).symm.trans isHeld
  by_cases leased : holds dhcps.hMacTbl stMac = some ip
  · rcases isHeld with ⟨owner, isLeased⟩ | ⟨owner, isSigned⟩
    · obtain ⟨differs, before⟩ := gone.leased isLeased
      exact absurd (ok.exclusive.leasedOnce owner stMac ip before leased) differs
    have before := (congrArg (holds · owner) signed).symm.trans isSigned
    rcases keeps ip leased with unsigned | ⟨rfl, room⟩
    · exact absurd before (unsigned owner)
    -- The mark of the declined address is set again.
    have isPool := dhcpsDelLease_hIpPool ok.leases leased
    rw [← isPool] at room
    have again := ippoolIsBusy_setBusy room (ntohl ip)
    rw [decide_eq_true rfl, Bool.true_or] at again
    exact again
  · exact ippoolIsBusy_setBusy_of_busy memory.request (ntohl uiIp) (gone.busy ip busy leased)

structure UnSigned (dhcps after : DhcpsInstance) (stMac : MacAddr) : Prop where
  hMacTbl : after.hMacTbl = dhcps.hMacTbl
  hIpPool : after.hIpPool = poolUnSigned dhcps stMac
  signed : SignedOk after.hSignedMacTbl
  held : holds after.hSignedMacTbl = update (holds dhcps.hSignedMacTbl) stMac none

theorem SignedOk.unSign (signed : SignedOk dhcps.hSignedMacTbl) (stMac : MacAddr) :
    UnSigned dhcps (dhcpsUnSignIp dhcps stMac) stMac := by
  rw [dhcpsUnSignIp]
  cases isSigned : holds dhcps.hSignedMacTbl stMac with
  | none =>
    have isMissing : dhcpsFind dhcps.hSignedMacTbl (macNodeOf stMac) 0 =
        (.noSuch, macNodeOf stMac, 0) := dhcpsFind_none (signed.find_none isSigned) 0
    simp only [isMissing, reduceCtorEq, if_false]
    refine ⟨rfl, ?_, signed, ?_⟩
    · rw [poolUnSigned, isSigned]
    · rw [← isSigned, update_eq_self]
  | some uiIp =>
    obtain ⟨node, found, isData⟩ := bind_eq_some_iff.mp isSigned
    have isFound : dhcpsFind dhcps.hSignedMacTbl (macNodeOf stMac) 0 =
        (.ok, node.stMacNode, uiIp) := dhcpsFind_some found isData 0
    obtain ⟨signedAfter, held⟩ := signed.del node.stMacNode
    rw [signed.key found] at held
    simp only [isFound, if_true]
    refine ⟨rfl, ?_, signedAfter, held⟩
    simp [poolUnSigned, isSigned]

theorem UnSigned.before (unSigned : UnSigned dhcps after stMac)
    (isHeld : holds after.hSignedMacTbl other = some uiIp) :
    other ≠ stMac ∧ holds dhcps.hSignedMacTbl other = some uiIp := by
  rw [unSigned.held] at isHeld
  by_cases same : other = stMac
  · rw [same, update_self] at isHeld
    cases isHeld
  · rw [update_of_ne same] at isHeld
    exact ⟨same, isHeld⟩

include ok in
theorem DhcpsOk.unSign (keeps : UnSignKeeps dhcps stMac) :
    DhcpsOk (dhcpsUnSignIp dhcps stMac) now := by
  have unSigned := ok.signed.unSign stMac
  refine ⟨unSigned.hMacTbl ▸ ok.leases, unSigned.signed, ok.exclusive.shrink
    (fun owner ip isHeld => ?_) (fun _ _ isHeld => (unSigned.before isHeld).2)
    fun ip isHeld busy => ?_⟩
  · exact (congrArg (holds · owner) unSigned.hMacTbl).symm.trans isHeld
  have isPool := unSigned.hIpPool
  rw [poolUnSigned] at isPool
  cases signed : holds dhcps.hSignedMacTbl stMac with
  | none =>
    rw [signed] at isPool
    exact (congrArg (ippoolIsBusy · (ntohl ip)) isPool).trans busy
  | some uiIp =>
    rw [signed] at isPool
    refine (congrArg (ippoolIsBusy · (ntohl ip)) isPool).trans
      (ippoolIsBusy_freeIp.mpr ⟨fun same => ?_, busy⟩)
    rw [ntohl_inj.mp same] at isHeld
    rcases isHeld with ⟨owner, isLeased⟩ | ⟨owner, isSigned⟩
    · exact keeps uiIp signed owner
        ((congrArg (holds · owner) unSigned.hMacTbl).symm.trans isLeased)
    · obtain ⟨differs, before⟩ := unSigned.before isSigned
      exact differs (ok.exclusive.signedOnce owner stMac uiIp before signed)

theorem ntohl_ne_zero (nonzero : uiIp ≠ 0) : ntohl uiIp ≠ 0 := by
  intro zero
  exact nonzero (ntohl_inj.mp zero)

theorem poolUnSigned_stIpList (dhcps : DhcpsInstance) (stMac : MacAddr) :
    (poolUnSigned dhcps stMac).stIpList = dhcps.hIpPool.stIpList := by
  rw [poolUnSigned]
  split
  · rfl
  · rfl

include ok in
theorem DhcpsOk.addSigned {stMacNode : MacNode} {memory : MacTblMemory}
    {alloc : NodeAlloc} (missing : holds dhcps.hSignedMacTbl stMacNode.stMac = none)
    (inside : ipListIsIpInTheList dhcps.hIpPool.stIpList (ntohl uiIp) = true) (nonzero : uiIp ≠ 0)
    (free : ∀ other, holds dhcps.hMacTbl other ≠ some uiIp)
    (unsigned : ∀ other, holds dhcps.hSignedMacTbl other ≠ some uiIp)
    (room : CanGrant dhcps.hIpPool (ntohl uiIp) → BusyRoom dhcps.hIpPool alloc (ntohl uiIp)) :
    DhcpsOk (dhcpsAddSigned dhcps stMacNode uiIp memory alloc).1 now := by
  obtain ⟨marked, taken⟩ := ippoolAllocSpecIp_busy (ntohl_ne_zero nonzero) inside room
  have static : ({ stMacNode with uiFlag := MAC_NODE_FLAG_STATIC } : MacNode).isStatic = true := by
    simp [MacNode.isStatic, MAC_NODE_FLAG_STATIC]
  have added := @SignedOk.add _ { stMacNode with uiFlag := MAC_NODE_FLAG_STATIC } ok.signed missing
    static memory uiIp
  rw [dhcpsAddSigned]
  simp only at added ⊢
  rcases added with ⟨isOk, signed, held⟩ | ⟨failed, same⟩
  · rw [if_pos isOk]
    refine ⟨ok.leases, signed, ok.exclusive.sign ?_ ?_ rfl held (fun ip busy => marked _ busy) taken⟩
    · exact fun other isLeased => absurd isLeased (free other)
    · exact fun other isSigned => absurd isSigned (unsigned other)
  rw [if_neg failed, same]
  refine ⟨ok.leases, ok.signed, ok.exclusive.shrink (fun _ _ isHeld => isHeld)
    (fun _ _ isHeld => isHeld) fun ip isHeld busy => ?_⟩
  refine ippoolIsBusy_freeIp.mpr ⟨fun equal => ?_, marked _ busy⟩
  rw [ntohl_inj.mp equal] at isHeld
  rcases isHeld with ⟨owner, isLeased⟩ | ⟨owner, isSigned⟩
  · exact free owner isLeased
  · exact unsigned owner isSigned

include ok in
theorem DhcpsOk.sign {memory : MacTblMemory} {alloc : NodeAlloc}
    (may : MaySign dhcps stMac uiIp) (keeps : SignKeeps dhcps stMac uiIp alloc) :
    DhcpsOk (dhcpsSignIp dhcps stMac uiIp memory alloc).1 now := by
  have midOk := ok.unSign keeps.before
  have unSigned := ok.signed.unSign stMac
  have key : (dhcpsFind dhcps.hSignedMacTbl (macNodeOf stMac) 0).2.1.stMac = stMac := by
    cases found : mactblFind dhcps.hSignedMacTbl stMac with
    | none => simp only [dhcpsFind, mactblGet, macNodeOf, found]
    | some =>
      simp only [dhcpsFind, mactblGet, macNodeOf, found, mactblCopyMacNode]
      exact ok.signed.key found
  rw [dhcpsSignIp]
  generalize dhcpsFind dhcps.hSignedMacTbl (macNodeOf stMac) 0 = result at key
  apply midOk.addSigned
  · rw [key, unSigned.held, update_self]
  · rw [unSigned.hIpPool, poolUnSigned_stIpList]
    exact may.inside
  · exact keeps.nonzero
  · rw [unSigned.hMacTbl]
    exact may.unleased
  · intro other isSigned
    obtain ⟨differs, before⟩ := unSigned.before isSigned
    exact differs (may.unsigned other before)
  · rw [unSigned.hIpPool]
    exact keeps.room

include ok in
theorem DhcpsOk.ageLeases (keeps : TickKeeps dhcps) :
    DhcpsOk (dhcpsAgeLeases dhcps) (now + 1) ∧
      ∀ stMac, Ageing dhcps.hMacTbl stMac → holds (dhcpsAgeLeases dhcps).hMacTbl stMac = none := by
  obtain ⟨isTable, onlyFrees, kept⟩ := ok.leases.ageLeases
  obtain ⟨leases, gone, stays⟩ := ok.leases.tickStep
  rw [← isTable] at leases gone stays
  have signed := onlyFrees.hSignedMacTbl
  have before (owner : MacAddr) (ip : UINT)
      (isHeld : holds (dhcpsAgeLeases dhcps).hMacTbl owner = some ip) :
      ¬Ageing dhcps.hMacTbl owner ∧ holds dhcps.hMacTbl owner = some ip := by
    have waits : ¬Ageing dhcps.hMacTbl owner := by
      intro ageing
      cases isHeld.symm.trans (gone owner ageing)
    exact ⟨waits, (stays owner waits).symm.trans isHeld⟩
  refine ⟨⟨leases, signed ▸ ok.signed, ok.exclusive.shrink
    (fun owner ip isHeld => (before owner ip isHeld).2) (fun owner ip isHeld => ?_)
    fun ip isHeld busy => kept (ntohl ip) busy fun stMac uiIp ageing leased same => ?_⟩, gone⟩
  · exact (congrArg (holds · owner) signed).symm.trans isHeld
  rw [ntohl_inj.mp same] at leased
  rcases isHeld with ⟨owner, isLeased⟩ | ⟨owner, isSigned⟩
  · obtain ⟨waits, stillLeased⟩ := before owner ip isLeased
    rw [ok.exclusive.leasedOnce owner stMac ip stillLeased leased] at waits
    exact waits ageing
  · exact keeps.ageing stMac ageing ip leased owner
      ((congrArg (holds · owner) signed).symm.trans isSigned)

include ok in
theorem DhcpsOk.tickStep (keeps : TickKeeps dhcps) : DhcpsOk (dhcpsTickStep dhcps) (now + 1) := by
  obtain ⟨agedOk, gone⟩ := ok.ageLeases keeps
  obtain ⟨isTable, onlyFrees, -⟩ := ok.leases.ageLeases
  obtain ⟨-, -, stays⟩ := ok.leases.tickStep
  rw [← isTable] at stays
  rw [dhcpsTickStep]
  split
  · next isTime =>
    rw [onlyFrees.uiDeclineTick] at isTime
    refine ⟨agedOk.leases, agedOk.signed, agedOk.exclusive.shrink (fun _ _ isHeld => isHeld)
      (fun _ _ isHeld => isHeld) fun ip isHeld busy => ippoolPermitAll_busy ?_ busy⟩
    rw [ippoolIsDenied, onlyFrees.hDenyBitmap]
    apply Bool.eq_false_iff.mpr
    intro denied
    obtain ⟨unsigned, leased⟩ := keeps.permitted isTime ip denied
    rcases isHeld with ⟨owner, isLeased⟩ | ⟨owner, isSigned⟩
    · have waits : ¬Ageing dhcps.hMacTbl owner := by
        intro ageing
        cases isLeased.symm.trans (gone owner ageing)
      exact waits (leased owner ((stays owner waits).symm.trans isLeased))
    · exact unsigned owner ((congrArg (holds · owner) onlyFrees.hSignedMacTbl).symm.trans isSigned)
  · exact ⟨agedOk.leases, agedOk.signed, agedOk.exclusive⟩

structure Answered (dhcps : DhcpsInstance) (result : DhcpsInstance × Option DhcpsReply)
    (now : Nat) : Prop where
  ok : DhcpsOk result.1 now
  leased : ∀ reply, result.2 = some reply →
    holds result.1.hMacTbl reply.aucClientHaddr = some reply.ulYourIp ∧
      result.1.hSignedMacTbl = dhcps.hSignedMacTbl

theorem Answered.silent (ok : DhcpsOk after now) : Answered dhcps (after, none) now :=
  ⟨ok, nofun⟩

include ok in
theorem DhcpsOk.pktInput {ucOp : UCHAR} {iDhcpMsgType : Int} {memory : DhcpsMemory}
    (enabled : (DhcpsCall.pktInput ucOp iDhcpMsgType stMac uiIp memory).Enabled dhcps)
    (keeps : DhcpsKeeps dhcps (.pktInput ucOp iDhcpMsgType stMac uiIp memory)) :
    Answered dhcps (dhcpsPktInput dhcps ucOp iDhcpMsgType stMac uiIp memory) now := by
  rw [dhcpsPktInput]
  split
  · exact .silent ok
  split
  · exact .silent ok
  next isRequest =>
  obtain ⟨grants, declines⟩ := keeps (not_not.mp isRequest)
  split
  · next isDiscover =>
    have leased := ok.getIp (grants (.inl isDiscover)) enabled
    rw [dhcpsSendDhcpOffer]
    simp only at leased ⊢
    split
    · exact .silent leased.ok
    next nonzero =>
    refine ⟨leased.ok, fun reply isReply => ?_⟩
    obtain rfl := some.inj isReply
    exact ⟨leased.found nonzero, leased.signed⟩
  split
  · next isRequest =>
    have leased := ok.getIp (grants (.inr isRequest)) enabled
    rw [dhcpsSendDhcpAck]
    simp only at leased ⊢
    split
    · exact .silent leased.ok
    next nonzero =>
    split
    · refine ⟨leased.ok, fun reply isReply => ?_⟩
      obtain rfl := some.inj isReply
      exact ⟨leased.found nonzero, leased.signed⟩
    · refine ⟨leased.ok, fun reply isReply => ?_⟩
      obtain rfl := some.inj isReply
      exact ⟨leased.found nonzero, leased.signed⟩
  split
  · next isDecline => exact .silent (ok.decline (declines isDecline))
  · exact .silent ok

include ok in
theorem DhcpsOk.run {call : DhcpsCall} (enabled : call.Enabled dhcps)
    (keeps : DhcpsKeeps dhcps call) : ∃ later, Answered dhcps (call.run dhcps) later := by
  cases call with
  | pktInput => exact ⟨now, ok.pktInput enabled keeps⟩
  | signIp => exact ⟨now, .silent (ok.sign enabled keeps)⟩
  | unSignIp => exact ⟨now, .silent (ok.unSign keeps)⟩
  | delClient => exact ⟨now, .silent (ok.delClient keeps)⟩
  | tickStep => exact ⟨now + 1, .silent (ok.tickStep keeps)⟩

/-- In runs whose calls all keep the holdings apart, every held address is busy and has one
client, and a client is only told of the lease that it then has. -/
theorem dhcps_exclusive {uiStartIp uiEndIp : UINT}
    (reached : (dhcpsSystem uiStartIp uiEndIp).ReachableWhen DhcpsKeeps dhcps) :
    (dhcpsHoldings dhcps).Exclusive ∧
      ∀ call reply, call.Enabled dhcps → DhcpsKeeps dhcps call → (call.run dhcps).2 = some reply →
        holds (call.run dhcps).1.hMacTbl reply.aucClientHaddr = some reply.ulYourIp ∧
          ∀ other, holds dhcps.hSignedMacTbl other = some reply.ulYourIp →
            other = reply.aucClientHaddr := by
  have invariant : ∃ now, DhcpsOk dhcps now := by
    apply reached.invariant
    · rintro _ ⟨nodeAlloc, rfl⟩
      exact ⟨0, .start nodeAlloc uiStartIp uiEndIp⟩
    rintro _ _ _ ⟨_, ok⟩ keeps ⟨enabled, rfl⟩
    obtain ⟨later, answered⟩ := ok.run enabled keeps
    exact ⟨later, answered.ok⟩
  obtain ⟨_, ok⟩ := invariant
  refine ⟨ok.exclusive, fun call reply enabled keeps isReply => ?_⟩
  obtain ⟨_, answered⟩ := ok.run enabled keeps
  obtain ⟨leased, signed⟩ := answered.leased reply isReply
  refine ⟨leased, fun other isSigned => ?_⟩
  rw [← signed] at isSigned
  exact (answered.ok.exclusive.apart reply.aucClientHaddr other reply.ulYourIp leased isSigned).symm

def client (last : UCHAR) : MacAddr :=
  ⟨Vector.replicate 6 last⟩

def fullMemory (timer : NodeId) : DhcpsMemory :=
  ⟨⟨true, true, some timer⟩, fun _ => true, fun _ _ => true, fun _ => true⟩

def discovers (last : UCHAR) (uiIp : UINT) (timer : NodeId) : DhcpsCall :=
  .pktInput dhcpOpRequest dhcpDiscover (client last) (htonl uiIp) (fullMemory timer)

def signs (last : UCHAR) (uiIp : UINT) : DhcpsCall :=
  .signIp (client last) (htonl uiIp) ⟨true, true, none⟩ fun _ => true

def dhcpsStart : DhcpsInstance :=
  dhcpsCreateInstance true 0x0a000001 0x0a000064

theorem signs_enabled : (signs 1 0x0a000005).Enabled dhcpsStart := by
  refine ⟨by decide +kernel, by decide +kernel, fun other isLeased => ?_, fun other isSigned => ?_⟩
  · cases isLeased
  · cases isSigned

theorem signs_keeps : DhcpsKeeps dhcpsStart (signs 1 0x0a000005) := by
  refine ⟨by decide +kernel, fun signed isSigned => ?_, fun _ => ?_⟩
  · cases isSigned
  · unfold BusyRoom
    decide +kernel

theorem discovers_enabled :
    (discovers 2 0x0a000007 0).Enabled ((signs 1 0x0a000005).run dhcpsStart).1 := by
  unfold DhcpsCall.Enabled discovers
  decide +kernel

theorem discovers_keeps :
    DhcpsKeeps ((signs 1 0x0a000005).run dhcpsStart).1 (discovers 2 0x0a000007 0) := by
  intro _
  refine ⟨fun _ _ _ _ => ?_, fun impossible => absurd impossible (by decide)⟩
  unfold BusyRoom
  decide +kernel

theorem dhcps_exclusive_two : (dhcpsHoldings ((discovers 2 0x0a000007 0).run
    ((signs 1 0x0a000005).run dhcpsStart).1).1).Exclusive := by
  have first : (dhcpsSystem 0x0a000001 0x0a000064).ReachableWhen DhcpsKeeps
      ((signs 1 0x0a000005).run dhcpsStart).1 :=
    .step (.start ⟨true, rfl⟩) signs_keeps ⟨signs_enabled, rfl⟩
  have second : (dhcpsSystem 0x0a000001 0x0a000064).ReachableWhen DhcpsKeeps
      ((discovers 2 0x0a000007 0).run ((signs 1 0x0a000005).run dhcpsStart).1).1 :=
    .step first discovers_keeps ⟨discovers_enabled, rfl⟩
  exact (dhcps_exclusive second).1

/-- The end of a lease frees the pool's mark of an address that is signed to the client, and the
address is offered to another client. -/
theorem dhcps_not_exclusive :
    ∃ dhcps freed, (dhcpsSystem 0x0a000001 0x0a000064).Reachable dhcps ∧
      freed = ((DhcpsCall.delClient (client 1)).run dhcps).1 ∧
      holds freed.hSignedMacTbl (client 1) = some (htonl 0x0a000005) ∧
      (discovers 2 0x0a000005 1).Enabled freed ∧
      ((discovers 2 0x0a000005 1).run freed).2 =
        some ⟨dhcpOffer, client 2, htonl 0x0a000005⟩ ∧
      (discovers 1 0x0a000005 2).Enabled ((discovers 2 0x0a000005 1).run freed).1 ∧
      ¬(dhcpsHoldings ((discovers 1 0x0a000005 2).run
        ((discovers 2 0x0a000005 1).run freed).1).1).Exclusive := by
  have signed : (dhcpsSystem 0x0a000001 0x0a000064).Reachable
      ((signs 1 0x0a000005).run dhcpsStart).1 :=
    .step (.start ⟨true, rfl⟩) trivial ⟨signs_enabled, rfl⟩
  have enabled : (discovers 1 0x0a000005 0).Enabled ((signs 1 0x0a000005).run dhcpsStart).1 := by
    unfold DhcpsCall.Enabled discovers
    decide +kernel
  have leased : (dhcpsSystem 0x0a000001 0x0a000064).Reachable
      ((discovers 1 0x0a000005 0).run ((signs 1 0x0a000005).run dhcpsStart).1).1 :=
    .step signed trivial ⟨enabled, rfl⟩
  refine ⟨_, _, leased, rfl, by decide +kernel, ?_, by decide +kernel, ?_, fun exclusive => ?_⟩
  · unfold DhcpsCall.Enabled discovers
    decide +kernel
  · unfold DhcpsCall.Enabled discovers
    decide +kernel
  have same : client 1 = client 2 := exclusive.leasedOnce _ _ (htonl 0x0a000005)
    (by decide +kernel) (by decide +kernel)
  revert same
  decide

end MyCode.Dhcps
