import MyCode.NatTable.Mapping

/-!
# Ports and mappings

Runs of the calls on a NAT context: packets from both sides, time-outs and changes of
the public addresses.  The bit that is set for a port is the one of the next port, so
that the busy ports are those of the live mappings only before the first port is taken,
or after the mappings of the only port are gone.
-/

namespace MyCode.NatTable

open MyCode.Hash MyCode.Bitmap Function Nat Option Prod Finset List

variable {Status : Type}

inductive NatCall where
  | privatePkt (alloc : Option Nat) (timer : Bool) (uiIp : UINT) (usPort : USHORT)
      (uiDomainId : UINT) (ucFlag : UCHAR)
  | pubPkt (uiIp : UINT) (usPort : USHORT) (uiDomainId : UINT) (ucFlag : UCHAR)
  | timeOut (node : NatMapNode)
  | setPubIp (auiPubIp : Nat → UINT)

structure NatRun (Status : Type) where
  ctrl : NatCtrl Status
  /-- Some packet took a port. -/
  taken : Bool

/-- New memory is not that of a live node, and only a live node has a timer. -/
def NatCall.Enabled (ctrl : NatCtrl Status) : NatCall → Prop
  | privatePkt alloc _ _ _ _ _ => ∀ node ∈ ctrl.allocated, alloc ≠ some node.address
  | timeOut node => node ∈ ctrl.allocated
  | _ => True

section

variable (proto : NatProto Status)

def NatCall.run (ctrl : NatCtrl Status) : NatCall → Option (NatCtrl Status)
  | privatePkt alloc timer uiIp usPort uiDomainId ucFlag =>
    (natPrivatePktIn proto ctrl alloc timer uiIp usPort uiDomainId ucFlag).map fst
  | pubPkt uiIp usPort uiDomainId ucFlag =>
    (natPubPktIn proto ctrl uiIp usPort uiDomainId ucFlag).map fst
  | timeOut node => natTimeOut ctrl node
  | setPubIp auiPubIp => some (natSetPubIp ctrl auiPubIp)

def NatCall.takes (ctrl : NatCtrl Status) : NatCall → Option Nat
  | privatePkt _ _ uiIp usPort uiDomainId ucFlag =>
    if natPrivateGetMapNode ctrl uiIp usPort uiDomainId = none ∧ proto.permitAdd ucFlag ∧
        ctrl.auiPubIp 0 ≠ 0 then
      bitmapFreeCycle ctrl.portBitMap
    else
      none
  | _ => none

def natSystem (usMinPort usMaxPort : USHORT) : Lib.System (NatRun Status) NatCall where
  start run := ∃ ctrl, natInit proto usMinPort usMaxPort = some ctrl ∧ run = ⟨ctrl, false⟩
  step run call after := call.Enabled run.ctrl ∧ call.run proto run.ctrl = some after.ctrl ∧
    after.taken = (run.taken || (call.takes proto run.ctrl).isSome)

structure NatBusy (ctrl : NatCtrl Status) : Prop where
  busy : ∀ index, index < ctrl.portBitMap.ulBitNum.toNat →
    (bitmapIsSet ctrl.portBitMap index = true ↔ ∃ node ∈ ctrl.allocated,
      (ntohs node.usPubPort).toNat = ctrl.usMinPort.toNat + index)
  inRange : ∀ node ∈ ctrl.allocated,
    ctrl.usMinPort ≤ ntohs node.usPubPort ∧ ntohs node.usPubPort ≤ ctrl.usMaxPort

structure NatApart (ctrl : NatCtrl Status) : Prop where
  pubKeys : ∀ node ∈ ctrl.allocated, ∀ other ∈ ctrl.allocated, node.pubKey = other.pubKey →
    node = other
  privateKeys : ∀ node ∈ ctrl.allocated, ∀ other ∈ ctrl.allocated,
    node.privateKey = other.privateKey → node = other

/-- A packet leaves from the public endpoint of a mapping of its source, and what is sent
to the public endpoint of a live mapping comes to its private one. -/
structure NatReturns (ctrl : NatCtrl Status) : Prop where
  outbound : ∀ alloc timer uiIp usPort uiDomainId ucFlag after uiPubIp usPubPort,
    natPrivatePktIn proto ctrl alloc timer uiIp usPort uiDomainId ucFlag =
      some (after, .ok, uiPubIp, usPubPort) →
    ∃ node : NatMapNode, node.privateKey = ⟨uiIp, usPort, uiDomainId⟩ ∧
      node.pubKey = ⟨uiPubIp, usPubPort⟩ ∧
      (node ∈ after.allocated ∨ proto.closes (after.ucStatus node.address) = true)
  reply : ∀ node ∈ ctrl.allocated, ∀ uiDomainId ucFlag, ∃ after,
    natPubPktIn proto ctrl node.uiPubIp node.usPubPort uiDomainId ucFlag =
      some (after, .ok, node.uiPrivateIp, node.usPrivatePort, node.uiDomainId)

structure NatHolds (ctrl : NatCtrl Status) : Prop where
  busy : NatBusy ctrl
  apart : NatApart ctrl
  returns : NatReturns proto ctrl

/-- The port taken is not that of a live mapping, and the public addresses are changed
when there is no live mapping. -/
def NatFits (run : NatRun Status) (call : NatCall) : Prop :=
  (∀ index, call.takes proto run.ctrl = some index → ∀ node ∈ run.ctrl.allocated,
    (ntohs node.usPubPort).toNat ≠ run.ctrl.usMinPort.toNat + index) ∧
  ∀ auiPubIp, call = .setPubIp auiPubIp → run.ctrl.allocated = ∅

end

structure NatBitsOk (bitmap : BitmapS) (usMinPort usMaxPort : USHORT) (taken : Bool) : Prop where
  ordered : usMinPort ≤ usMaxPort
  bitNum : bitmap.ulBitNum.toNat = usMaxPort.toNat - usMinPort.toNat + 1
  words : bitmap.uiUintNum = (bitmap.ulBitNum + 31) / 32
  scan : bitmap.uiScanIndex.toNat ≤ bitmap.ulBitNum.toNat
  untouched : taken = false → bitmap = bitmapCreate bitmap.ulBitNum
  /-- The bit of the second port is set with the first port. -/
  skipped : taken = true → usMinPort < usMaxPort → bitmapIsSet bitmap 1 = true
  single : usMinPort = usMaxPort → bitmapIsSet bitmap 0 = false

structure NatPortOk (usMinPort usMaxPort usPort : USHORT) : Prop where
  lower : usMinPort ≤ ntohs usPort
  upper : ntohs usPort ≤ usMaxPort
  skipped : usMinPort < usMaxPort → (ntohs usPort).toNat ≠ usMinPort.toNat + 1

variable {proto : NatProto Status} {usMinPort usMaxPort usPort : USHORT} {taken : Bool}
  {bitmap after : BitmapS} {index : Nat}

theorem NatBitsOk.words_toNat (bits : NatBitsOk bitmap usMinPort usMaxPort taken) :
    bitmap.uiUintNum.toNat = (bitmap.ulBitNum.toNat + 31) / 32 := by
  have bitNum := bits.bitNum
  rw [bits.words, BitVec.toNat_udiv, BitVec.toNat_add, mod_eq_of_lt]
  · rfl
  · change _ + 31 < _
    omega

theorem NatBitsOk.create (ordered : usMinPort ≤ usMaxPort) :
    NatBitsOk (bitmapCreate (usMaxPort.setWidth 32 - usMinPort.setWidth 32 + 1)) usMinPort usMaxPort
      false where
  ordered := ordered
  bitNum := by
    change (usMaxPort.setWidth 32 - usMinPort.setWidth 32 + 1 : UINT).toNat = _
    bv_omega
  words := rfl
  scan := zero_le _
  untouched _ := rfl
  skipped isTaken := nomatch isTaken
  single _ := bitmapCreate_isSet _ 0

theorem NatBitsOk.take (bits : NatBitsOk bitmap usMinPort usMaxPort taken)
    (found : bitmapFreeCycle bitmap = some index) {uiScanIndex : UINT}
    (scan : uiScanIndex.toNat ≤ bitmap.ulBitNum.toNat)
    (isSet : bitmapSet { bitmap with uiScanIndex := uiScanIndex } (BitVec.ofNat 32 (index + 1)) =
      some after) :
    NatBitsOk after usMinPort usMaxPort true ∧ index ≤ usMaxPort.toNat - usMinPort.toNat ∧
      (usMinPort < usMaxPort → index ≠ 1) := by
  obtain ⟨_, free⟩ := bitmapFreeCycle_free bits.scan found
  have bitNum := bits.bitNum
  have position : (BitVec.ofNat 32 (index + 1)).toNat = index + 1 := by
    rw [BitVec.toNat_ofNat, mod_eq_of_lt]
    omega
  have isSetAt (j : Nat) : bitmapIsSet after j = (decide (j = index + 1) || bitmapIsSet bitmap j) := by
    rw [bitmapSet_isSet isSet, position]
    rfl
  obtain ⟨sameNum, sameWords, sameScan⟩ := bitmapWrite_sizes isSet
  -- The first port taken is the first one.
  have first (fresh : taken = false) : index = 0 := by
    rw [bits.untouched fresh, bitmapFreeCycle_create] at found
    · exact (some.inj found).symm
    intro zero
    rw [zero] at bitNum
    simp at bitNum
  refine ⟨⟨bits.ordered, by rw [sameNum, ← bitNum], by rw [sameWords, sameNum, ← bits.words], ?_,
    nofun, fun _ several => ?_, fun only => ?_⟩, by omega, fun several => ?_⟩
  · rw [sameNum, sameScan]
    exact scan
  · rw [isSetAt, Bool.or_eq_true, decide_eq_true_eq]
    cases isTaken : taken with
    | false => exact .inl (by rw [first isTaken])
    | true => exact .inr (bits.skipped isTaken several)
  · rw [isSetAt, bits.single only]
    simp
  cases isTaken : taken with
  | false =>
    rw [first isTaken]
    decide
  | true =>
    rintro rfl
    rw [bits.skipped isTaken several] at free
    cases free

theorem NatPortOk.position (port : NatPortOk usMinPort usMaxPort usPort) :
    ((ntohs usPort).setWidth 32 - usMinPort.setWidth 32 + 1 - 1 : UINT).toNat =
      (ntohs usPort).toNat - usMinPort.toNat := by
  have lower := port.lower
  bv_omega

section Release

variable (bits : NatBitsOk bitmap usMinPort usMaxPort true) (port : NatPortOk usMinPort usMaxPort usPort)

include bits port

theorem NatBitsOk.release
    (isClr : bitmap1Clr bitmap ((ntohs usPort).setWidth 32 - usMinPort.setWidth 32 + 1) = some after) :
    NatBitsOk after usMinPort usMaxPort true := by
  have isSetAt (j : Nat) : bitmapIsSet after j =
      (!decide (j = (ntohs usPort).toNat - usMinPort.toNat) && bitmapIsSet bitmap j) := by
    rw [bitmapClr_isSet isClr, port.position]
  rw [bitmap1Clr, bitmapClr] at isClr
  obtain ⟨sameNum, sameWords, sameScan⟩ := bitmapWrite_sizes isClr
  refine ⟨bits.ordered, by rw [sameNum, ← bits.bitNum], by rw [sameWords, sameNum, ← bits.words],
    by rw [sameNum, sameScan]; exact bits.scan, by simp,
    fun _ several => ?_, fun only => ?_⟩
  · have skipped := port.skipped several
    have differs : ¬ 1 = (ntohs usPort).toNat - usMinPort.toNat := by bv_omega
    rw [isSetAt, bits.skipped rfl several, decide_eq_false differs]
    rfl
  · rw [isSetAt, bits.single only, Bool.and_false]

theorem NatBitsOk.released :
    ∃ after, bitmap1Clr bitmap ((ntohs usPort).setWidth 32 - usMinPort.setWidth 32 + 1) = some after := by
  have bitNum := bits.bitNum
  have upper := port.upper
  have inside : ((ntohs usPort).toNat - usMinPort.toNat) / 32 < bitmap.uiUintNum.toNat := by
    rw [bits.words_toNat]
    bv_omega
  rw [← port.position] at inside
  exact ⟨_, if_pos inside⟩

end Release

theorem natCmp_eq_zero {uiIp1 uiIp2 : UINT} {usPort1 usPort2 : USHORT} :
    natCmp uiIp1 usPort1 uiIp2 usPort2 = 0 ↔ uiIp1 = uiIp2 ∧ usPort1 = usPort2 := by
  rw [natCmp]
  split
  · next differs =>
    have other : uiIp1 ≠ uiIp2 := by
      rintro rfl
      exact differs (BitVec.sub_self _)
    simp only [other, false_and, iff_false]
    exact differs
  · next same =>
    have same : uiIp1 = uiIp2 := by bv_omega
    have ports : usPort1.setWidth 32 - usPort2.setWidth 32 = 0 ↔ usPort1 = usPort2 := by bv_omega
    rw [ports]
    simp [same]

theorem natPubFuncs_lawful : natPubFuncs.Lawful := by
  intro first second
  change natCmp _ _ _ _ = 0 ↔ _
  rw [natCmp_eq_zero, NatPubKey.mk.injEq]

theorem natPrivateFuncs_lawful : natPrivateFuncs.Lawful := by
  intro first second
  change (if natCmp _ _ _ _ ≠ 0 then _ else _) = (0 : UINT) ↔ _
  have domains : first.uiDomainId - second.uiDomainId = 0 ↔ first.uiDomainId = second.uiDomainId := by
    bv_omega
  split
  · next differs =>
    simp only [differs, false_iff]
    rintro rfl
    exact differs (natCmp_eq_zero.mpr ⟨rfl, rfl⟩)
  next same =>
  obtain ⟨_, _⟩ := natCmp_eq_zero.mp (not_not.mp same)
  cases first
  cases second
  simp_all

structure NatOk (usMinPort usMaxPort : USHORT) (ctrl : NatCtrl Status) (taken : Bool) : Prop where
  minPort : ctrl.usMinPort = usMinPort
  maxPort : ctrl.usMaxPort = usMaxPort
  bits : NatBitsOk ctrl.portBitMap usMinPort usMaxPort taken
  stores : HashStores natPrivateFuncs ctrl.hPrivateHashHandle ctrl.allocated
  ports : ∀ node ∈ ctrl.allocated, NatPortOk usMinPort usMaxPort node.usPubPort
  fresh : taken = false → ctrl.allocated = ∅

/-- Holds as long as no live mapping's port is taken again. -/
def NatPubOk (ctrl : NatCtrl Status) : Prop :=
  HashStores natPubFuncs ctrl.hPubHashHandle ctrl.allocated

variable {ctrl ctrlAfter : NatCtrl Status} {node : NatMapNode} {result : Option NatMapNode}
  {alloc : Option Nat} {timer : Bool} {uiIp uiDomainId : UINT} {usPubPort : USHORT} {ucFlag : UCHAR}

variable (ok : NatOk usMinPort usMaxPort ctrl taken) (inside : node ∈ ctrl.allocated)

include ok inside in
theorem NatOk.taken_of_mem : taken = true := by
  cases isTaken : taken with
  | false =>
    rw [ok.fresh isTaken] at inside
    exact absurd inside (notMem_empty node)
  | true => rfl

theorem natGetPort_takes (bits : NatBitsOk ctrl.portBitMap ctrl.usMinPort usMaxPort taken)
    (got : natGetPort ctrl = some (ctrlAfter, usPubPort)) :
    (bitmapFreeCycle ctrl.portBitMap = none ∧ ctrlAfter = ctrl ∧ usPubPort = 0) ∨
    ∃ index bitmap, bitmapFreeCycle ctrl.portBitMap = some index ∧
      ctrlAfter = { ctrl with portBitMap := bitmap } ∧
      NatBitsOk bitmap ctrl.usMinPort usMaxPort true ∧
      NatPortOk ctrl.usMinPort usMaxPort usPubPort ∧
      (ntohs usPubPort).toNat = ctrl.usMinPort.toNat + index := by
  rw [natGetPort] at got
  cases found : bitmapFreeCycle ctrl.portBitMap with
  | none =>
    rw [bitmap1GetFreeCycle_none found] at got
    cases got
    exact .inl ⟨rfl, rfl, rfl⟩
  | some index =>
    rw [bitmap1GetFreeCycle_some found] at got
    have bounded := (bitmapFreeCycle_free bits.scan found).1
    have bitNum := bits.bitNum
    have ordered := bits.ordered
    have position : (BitVec.ofNat 32 (index + 1)).toNat = index + 1 := by
      rw [BitVec.toNat_ofNat, mod_eq_of_lt]
      omega
    have some : BitVec.ofNat 32 (index + 1) ≠ 0 := by
      intro zero
      rw [zero] at position
      simp at position
    simp only [if_neg some] at got
    obtain ⟨bitmap, isSet, result⟩ := map_eq_some_iff.mp got
    obtain ⟨rfl, rfl⟩ := mk.inj result
    have scan : (if BitVec.ofNat 32 (index + 1) ≥ ctrl.portBitMap.ulBitNum then 0
        else BitVec.ofNat 32 (index + 1)).toNat ≤ ctrl.portBitMap.ulBitNum.toNat := by
      split
      · exact zero_le _
      · bv_omega
    obtain ⟨bitsAfter, -, skipped⟩ := bits.take found scan isSet
    have port : (ntohs (htons ((ctrl.usMinPort.setWidth 32 + BitVec.ofNat 32 (index + 1) -
        1).setWidth 16))).toNat = ctrl.usMinPort.toNat + index := by
      rw [ntohs_htons]
      bv_omega
    refine .inr ⟨index, bitmap, rfl, rfl, bitsAfter, ⟨?_, ?_, fun several => ?_⟩, port⟩
    · rw [BitVec.le_def, port]
      exact le_add_right _ _
    · bv_omega
    have differs := skipped several
    omega

theorem natFreePort_releases (ctrl : NatCtrl Status)
    (bits : NatBitsOk ctrl.portBitMap ctrl.usMinPort usMaxPort true)
    (port : NatPortOk ctrl.usMinPort usMaxPort usPubPort) :
    ∃ bitmap, natFreePort ctrl usPubPort = some { ctrl with portBitMap := bitmap } ∧
      NatBitsOk bitmap ctrl.usMinPort usMaxPort true := by
  obtain ⟨bitmap, isClr⟩ := bits.released port
  refine ⟨bitmap, ?_, bits.release port isClr⟩
  rw [natFreePort, isClr]
  rfl

/-- What a port search on the current bitmap takes. -/
def natTakenPort (ctrl : NatCtrl Status) : Option Nat :=
  if ctrl.auiPubIp 0 = 0 then none else bitmapFreeCycle ctrl.portBitMap

include ok in
theorem NatOk.withBits (bits : NatBitsOk bitmap ctrl.usMinPort usMaxPort true) :
    NatOk usMinPort usMaxPort { ctrl with portBitMap := bitmap } true :=
  ⟨ok.minPort, ok.maxPort, ok.minPort ▸ bits, ok.stores, ok.ports, nofun⟩

section Add

variable (ok : NatOk usMinPort usMaxPort ctrl taken)
  (absent : ∀ other ∈ ctrl.allocated, other.privateKey ≠ ⟨uiIp, usPort, uiDomainId⟩)
  (added : natAddMapNode proto ctrl alloc timer uiIp usPort uiDomainId = some (ctrlAfter, result))

include ok absent added

theorem NatOk.addMapNode :
    NatOk usMinPort usMaxPort ctrlAfter (taken || (natTakenPort ctrl).isSome) ∧
      (∀ node, result = some node →
        node ∈ ctrlAfter.allocated ∧ node.privateKey = ⟨uiIp, usPort, uiDomainId⟩) ∧
      (NatPubOk ctrl → (∀ index, natTakenPort ctrl = some index → ∀ other ∈ ctrl.allocated,
        (ntohs other.usPubPort).toNat ≠ ctrl.usMinPort.toNat + index) → NatPubOk ctrlAfter) := by
  obtain rfl := ok.minPort
  rw [natAddMapNode] at added
  rw [natTakenPort]
  split at added
  · next noPubIp =>
    cases added
    rw [if_pos noPubIp, isSome_none, Bool.or_false]
    exact ⟨ok, nofun, fun pub _ => pub⟩
  next pubIp =>
  rw [if_neg pubIp]
  cases got : natGetPort ctrl with
  | none =>
    rw [got] at added
    cases added
  | some port =>
    obtain ⟨_, usPubPort⟩ := port
    simp only [got] at added
    rcases natGetPort_takes ok.bits got with
      ⟨missed, rfl, rfl⟩ | ⟨index, bitmap, found, rfl, bits, portOk, port⟩
    · cases added
      rw [missed, isSome_none, Bool.or_false]
      exact ⟨ok, nofun, fun pub _ => pub⟩
    rw [found, isSome_some, Bool.or_true]
    have failed {after : NatCtrl Status}
        (freed : (natFreePort { ctrl with portBitMap := bitmap } usPubPort).map (·, none) =
          some (after, result)) :
        NatOk ctrl.usMinPort usMaxPort after true ∧
          (∀ node, result = some node →
            node ∈ after.allocated ∧ node.privateKey = ⟨uiIp, usPort, uiDomainId⟩) ∧
          (NatPubOk ctrl → NatPubOk after) := by
      obtain ⟨_, isReleased, bitsReleased⟩ :=
        natFreePort_releases { ctrl with portBitMap := bitmap } bits portOk
      rw [isReleased] at freed
      cases freed
      exact ⟨ok.withBits bitsReleased, nofun, id⟩
    split at added
    · cases added
      exact ⟨ok.withBits bits, nofun, fun pub _ => pub⟩
    split at added
    · split at added
      · cases added
        refine ⟨⟨rfl, ok.maxPort, bits, ok.stores.add natPrivateFuncs_lawful absent,
          fun node inside => ?_, nofun⟩, fun node isNode => ?_,
          fun pub apart => ?_⟩
        · rcases mem_insert.mp inside with rfl | old
          · exact portOk
          · exact ok.ports node old
        · cases isNode
          exact ⟨mem_insert_self _ _, rfl⟩
        apply HashStores.add natPubFuncs_lawful pub
        intro other inside same
        have ports : other.usPubPort = usPubPort := congrArg NatPubKey.usPort same
        apply apart index rfl other inside
        rw [ports]
        exact port
      · cases added
    · obtain ⟨okAfter, isResult, pubAfter⟩ := failed added
      exact ⟨okAfter, isResult, fun pub _ => pubAfter pub⟩

end Add

include ok inside in
theorem NatOk.freeMapNode (freed : natFreeMapNode ctrl node = some ctrlAfter) :
    NatOk usMinPort usMaxPort ctrlAfter taken ∧ ctrlAfter.ucStatus = ctrl.ucStatus ∧
      (NatPubOk ctrl → NatPubOk ctrlAfter) := by
  obtain rfl := ok.minPort
  obtain rfl := ok.taken_of_mem inside
  rw [natFreeMapNode] at freed
  split at freed
  · obtain ⟨_, released, bits⟩ := natFreePort_releases { ctrl with
        hPrivateHashHandle := hashDelNode natPrivateFuncs ctrl.hPrivateHashHandle node
        hPubHashHandle := hashDelNode natPubFuncs ctrl.hPubHashHandle node
        allocated := ctrl.allocated.erase node } ok.bits (ok.ports node inside)
    rw [released] at freed
    cases freed
    refine ⟨⟨rfl, ok.maxPort, bits, ok.stores.del natPrivateFuncs_lawful inside, fun other isOther => ?_,
      nofun⟩, rfl, fun pub => HashStores.del natPubFuncs_lawful pub inside⟩
    exact ok.ports other (mem_of_mem_erase isOther)
  · cases freed

include ok in
theorem NatOk.setPubIp (auiPubIp : Nat → UINT) :
    NatOk usMinPort usMaxPort (natSetPubIp ctrl auiPubIp) taken := by
  by_cases zero : ctrl.hPrivateHashHandle.uiNodeCount = 0
  · have kept : hashDelAllWith ctrl.hPrivateHashHandle true = ctrl.hPrivateHashHandle := if_pos zero
    rw [natSetPubIp, kept, if_pos zero]
    exact { ok with }
  have none : (ctrl.allocated.filter fun node => node ∉ hashWalk ctrl.hPrivateHashHandle) = ∅ := by
    apply filter_eq_empty_iff.mpr
    intro node inside outside
    exact outside ((ok.stores.mem node).mpr inside)
  rw [natSetPubIp, if_neg zero, none]
  exact ⟨ok.minPort, ok.maxPort, ok.bits, ok.stores.delAll zero,
    fun node inside => absurd inside (notMem_empty node), fun _ => rfl⟩

structure NatKeeps (usMinPort usMaxPort : USHORT) (ctrl ctrlAfter : NatCtrl Status)
    (node : NatMapNode) (taken : Bool) (proto : NatProto Status) : Prop where
  ok : NatOk usMinPort usMaxPort ctrlAfter taken
  live : node ∈ ctrlAfter.allocated ∨ proto.closes (ctrlAfter.ucStatus node.address) = true
  pub : NatPubOk ctrl → NatPubOk ctrlAfter

include ok inside in
theorem NatOk.processPkt
    {ucStatus : Status} (processed : natProcessPkt proto ctrl node ucStatus = some ctrlAfter) :
    NatKeeps usMinPort usMaxPort ctrl ctrlAfter node taken proto := by
  rw [natProcessPkt] at processed
  have written : NatOk usMinPort usMaxPort
      { ctrl with ucStatus := update ctrl.ucStatus node.address ucStatus } taken :=
    { ok with }
  split at processed
  · next closes =>
    obtain ⟨okAfter, status, pub⟩ := written.freeMapNode inside processed
    refine ⟨okAfter, .inr ?_, pub⟩
    rw [status]
    change proto.closes (update ctrl.ucStatus node.address ucStatus node.address) = true
    rw [update_self]
    exact closes
  · cases processed
    exact ⟨written, .inl inside, id⟩

include ok inside in
theorem NatOk.processes (usable : natPubUsable ctrl node.pubKey = true) (ucStatus : Status) :
    ∃ ctrlAfter, natProcessPkt proto ctrl node ucStatus = some ctrlAfter := by
  obtain rfl := ok.minPort
  obtain rfl := ok.taken_of_mem inside
  rw [natProcessPkt]
  split
  · obtain ⟨_, released, -⟩ := natFreePort_releases { ctrl with
        ucStatus := update ctrl.ucStatus node.address ucStatus
        hPrivateHashHandle := hashDelNode natPrivateFuncs ctrl.hPrivateHashHandle node
        hPubHashHandle := hashDelNode natPubFuncs ctrl.hPubHashHandle node
        allocated := ctrl.allocated.erase node } ok.bits (ok.ports node inside)
    have usable : natPubUsable
        { ctrl with ucStatus := update ctrl.ucStatus node.address ucStatus } node.pubKey =
          true := usable
    rw [natFreeMapNode, if_pos usable]
    exact ⟨_, released⟩
  · exact ⟨_, rfl⟩

theorem NatCall.takes_privatePkt :
    (NatCall.privatePkt alloc timer uiIp usPort uiDomainId ucFlag).takes proto ctrl =
      if natPrivateGetMapNode ctrl uiIp usPort uiDomainId = none ∧ proto.permitAdd ucFlag then
        natTakenPort ctrl
      else
        none := by
  rw [NatCall.takes, natTakenPort]
  by_cases pubIp : ctrl.auiPubIp 0 = 0
  · simp [pubIp]
  · simp only [pubIp, ne_eq, not_false_eq_true, and_true, if_false]

include ok in
theorem NatOk.privateMapNode
    (mapped : natPrivateMapNode proto ctrl alloc timer uiIp usPort uiDomainId ucFlag =
      some (ctrlAfter, result)) :
    NatOk usMinPort usMaxPort ctrlAfter (taken ||
        ((NatCall.privatePkt alloc timer uiIp usPort uiDomainId ucFlag).takes proto ctrl).isSome) ∧
      (∀ node, result = some node →
        node ∈ ctrlAfter.allocated ∧ node.privateKey = ⟨uiIp, usPort, uiDomainId⟩) ∧
      (NatPubOk ctrl → (∀ index,
        (NatCall.privatePkt alloc timer uiIp usPort uiDomainId ucFlag).takes proto ctrl = some index →
          ∀ other ∈ ctrl.allocated,
            (ntohs other.usPubPort).toNat ≠ ctrl.usMinPort.toNat + index) →
        NatPubOk ctrlAfter) := by
  rw [natPrivateMapNode] at mapped
  rw [NatCall.takes_privatePkt]
  cases got : natPrivateGetMapNode ctrl uiIp usPort uiDomainId with
  | some node =>
    rw [got] at mapped
    cases mapped
    simp only [reduceCtorEq, false_and, if_false, isSome_none, Bool.or_false]
    refine ⟨ok, fun node isNode => ?_, fun pub _ => pub⟩
    cases isNode
    exact (ok.stores.find_eq_some_iff natPrivateFuncs_lawful).mp got
  | none =>
    rw [got] at mapped
    have absent : ∀ other ∈ ctrl.allocated, other.privateKey ≠ ⟨uiIp, usPort, uiDomainId⟩ := by
      intro other inside same
      have found := (ok.stores.find_eq_some_iff natPrivateFuncs_lawful).mpr ⟨inside, same⟩
      exact nomatch got.symm.trans found
    by_cases permitted : proto.permitAdd ucFlag = true
    · simp only [permitted, and_self, if_true] at mapped ⊢
      exact ok.addMapNode absent mapped
    simp only [permitted, and_false, Bool.false_eq_true, if_false, isSome_none,
      Bool.or_false] at mapped ⊢
    cases mapped
    exact ⟨ok, nofun, fun pub _ => pub⟩

theorem mem_of_usable {key : NatPubKey} (usable : natPubUsable ctrl key = true)
    (found : hashFind natPubFuncs ctrl.hPubHashHandle key = some node) : node ∈ ctrl.allocated := by
  obtain ⟨hashNode, isFound, rfl⟩ := map_eq_some_iff.mp found
  exact of_decide_eq_true (all_eq_true.mp usable hashNode (mem_of_find?_eq_some isFound))

include ok in
theorem NatOk.pubPktIn {answer : BsStatus × UINT × USHORT × UINT}
    (received : natPubPktIn proto ctrl uiIp usPort uiDomainId ucFlag = some (ctrlAfter, answer)) :
    NatOk usMinPort usMaxPort ctrlAfter taken ∧ (NatPubOk ctrl → NatPubOk ctrlAfter) := by
  simp only [natPubPktIn] at received
  split at received
  · cases received
    exact ⟨ok, id⟩
  split at received
  · cases received
  next usable =>
  split at received
  · cases received
    exact ⟨ok, id⟩
  next node found =>
  obtain ⟨_, isProcessed, isAfter⟩ := map_eq_some_iff.mp received
  cases isAfter
  have keeps := ok.processPkt (mem_of_usable (by simpa using usable) found) isProcessed
  exact ⟨keeps.ok, keeps.pub⟩

include ok in
theorem NatOk.privatePktIn {answer : BsStatus × UINT × USHORT}
    (received : natPrivatePktIn proto ctrl alloc timer uiIp usPort uiDomainId ucFlag =
      some (ctrlAfter, answer)) :
    NatOk usMinPort usMaxPort ctrlAfter (taken ||
        ((NatCall.privatePkt alloc timer uiIp usPort uiDomainId ucFlag).takes proto ctrl).isSome) ∧
      (answer.1 = .ok → ∃ node : NatMapNode, node.privateKey = ⟨uiIp, usPort, uiDomainId⟩ ∧
        node.pubKey = ⟨answer.2.1, answer.2.2⟩ ∧
        (node ∈ ctrlAfter.allocated ∨ proto.closes (ctrlAfter.ucStatus node.address) = true)) ∧
      (NatPubOk ctrl → (∀ index,
        (NatCall.privatePkt alloc timer uiIp usPort uiDomainId ucFlag).takes proto ctrl = some index →
          ∀ other ∈ ctrl.allocated,
            (ntohs other.usPubPort).toNat ≠ ctrl.usMinPort.toNat + index) →
        NatPubOk ctrlAfter) := by
  rw [natPrivatePktIn] at received
  split at received
  · cases received
  · next ctrlMapped mapped =>
    obtain ⟨okMapped, -, pub⟩ := ok.privateMapNode mapped
    cases received
    exact ⟨okMapped, nofun, pub⟩
  next ctrlMapped node mapped =>
  obtain ⟨okMapped, isNode, pub⟩ := ok.privateMapNode mapped
  obtain ⟨inside, key⟩ := isNode node rfl
  obtain ⟨_, isProcessed, isAfter⟩ := map_eq_some_iff.mp received
  cases isAfter
  have keeps := okMapped.processPkt inside isProcessed
  exact ⟨keeps.ok, fun _ => ⟨node, key, rfl, keeps.live⟩,
    fun pubBefore fits => keeps.pub (pub pubBefore fits)⟩

variable {run runAfter : NatRun Status} {call : NatCall}

theorem NatOk.init (started : natInit proto usMinPort usMaxPort = some ctrl) :
    NatOk usMinPort usMaxPort ctrl false ∧ NatPubOk ctrl := by
  rw [natInit] at started
  split at started
  · cases started
  next ordered =>
  cases started
  have ordered : usMinPort ≤ usMaxPort := by bv_omega
  exact ⟨⟨rfl, rfl, .create ordered, hashInit_stores 1023,
    fun node inside => absurd inside (notMem_empty node), fun _ => rfl⟩, hashInit_stores 1023⟩

theorem NatOk.step (ok : NatOk usMinPort usMaxPort run.ctrl run.taken)
    (stepped : (natSystem proto usMinPort usMaxPort).step run call runAfter) :
    NatOk usMinPort usMaxPort runAfter.ctrl runAfter.taken ∧
      (NatPubOk run.ctrl → NatFits proto run call → NatPubOk runAfter.ctrl) := by
  obtain ⟨enabled, ran, isTaken⟩ := stepped
  rw [isTaken]
  cases call with
  | privatePkt =>
    obtain ⟨⟨_, _⟩, received, rfl⟩ := map_eq_some_iff.mp ran
    obtain ⟨okAfter, -, pub⟩ := ok.privatePktIn received
    exact ⟨okAfter, fun pubBefore fits => pub pubBefore fits.1⟩
  | pubPkt =>
    obtain ⟨⟨_, _⟩, received, rfl⟩ := map_eq_some_iff.mp ran
    obtain ⟨okAfter, pub⟩ := ok.pubPktIn received
    simp only [NatCall.takes, isSome_none, Bool.or_false]
    exact ⟨okAfter, fun pubBefore _ => pub pubBefore⟩
  | timeOut =>
    obtain ⟨okAfter, -, pub⟩ := ok.freeMapNode enabled ran
    simp only [NatCall.takes, isSome_none, Bool.or_false]
    exact ⟨okAfter, fun pubBefore _ => pub pubBefore⟩
  | setPubIp auiPubIp =>
    simp only [NatCall.takes, isSome_none, Bool.or_false, ← some.inj ran]
    refine ⟨ok.setPubIp auiPubIp, fun pubBefore fits => ?_⟩
    have none : (natSetPubIp run.ctrl auiPubIp).allocated = ∅ := by
      rw [natSetPubIp, fits.2 auiPubIp rfl, filter_empty, ite_self]
    rw [NatPubOk, none, ← fits.2 auiPubIp rfl]
    exact HashStores.delAllWithout pubBefore

theorem natSystem_ok (reached : (natSystem proto usMinPort usMaxPort).Reachable run) :
    NatOk usMinPort usMaxPort run.ctrl run.taken := by
  apply reached.invariant
  · rintro _ ⟨_, started, rfl⟩
    exact (NatOk.init started).1
  · intro run call runAfter ok stepped
    exact (ok.step stepped).1

theorem natSystem_pubOk (reached : (natSystem proto usMinPort usMaxPort).ReachableWhen
    (NatFits proto) run) : NatOk usMinPort usMaxPort run.ctrl run.taken ∧ NatPubOk run.ctrl := by
  apply reached.invariant
  · rintro _ ⟨_, started, rfl⟩
    exact NatOk.init started
  intro run call runAfter holds fits stepped
  obtain ⟨okAfter, pubAfter⟩ := holds.1.step stepped
  exact ⟨okAfter, pubAfter holds.2 fits⟩

include ok in
theorem NatOk.range :
    ∀ node ∈ ctrl.allocated,
      ctrl.usMinPort ≤ ntohs node.usPubPort ∧ ntohs node.usPubPort ≤ ctrl.usMaxPort := by
  intro node inside
  rw [ok.minPort, ok.maxPort]
  exact ⟨(ok.ports node inside).lower, (ok.ports node inside).upper⟩

include ok in
theorem NatOk.outbound {uiPubIp : UINT}
    (received : natPrivatePktIn proto ctrl alloc timer uiIp usPort uiDomainId ucFlag =
      some (ctrlAfter, .ok, uiPubIp, usPubPort)) :
    ∃ node : NatMapNode, node.privateKey = ⟨uiIp, usPort, uiDomainId⟩ ∧
      node.pubKey = ⟨uiPubIp, usPubPort⟩ ∧
      (node ∈ ctrlAfter.allocated ∨ proto.closes (ctrlAfter.ucStatus node.address) = true) :=
  (ok.privatePktIn received).2.1 rfl

theorem NatPubOk.usable (pub : NatPubOk ctrl) (key : NatPubKey) : natPubUsable ctrl key = true := by
  apply all_eq_true.mpr
  intro hashNode inside
  apply decide_eq_true
  apply (pub.mem hashNode.node).mp
  exact (mem_hashWalk pub.ok).mpr ⟨_, hashNode, inside, rfl⟩

section

variable (ok : NatOk usMinPort usMaxPort ctrl taken)

include ok

theorem NatOk.apart (pub : NatPubOk ctrl) : NatApart ctrl where
  pubKeys _ isFirst _ isSecond same := HashStores.apart natPubFuncs_lawful pub isFirst isSecond same
  privateKeys _ isFirst _ isSecond same := ok.stores.apart natPrivateFuncs_lawful isFirst isSecond same

theorem NatOk.returns (pub : NatPubOk ctrl) :
    NatReturns proto ctrl where
  outbound _ _ _ _ _ _ _ _ _ received := ok.outbound received
  reply node inside uiDomainId ucFlag := by
    obtain ⟨_, _⟩ := ok.range node inside
    have permitted : ¬ (ntohs node.usPubPort < ctrl.usMinPort ∨
        ntohs node.usPubPort > ctrl.usMaxPort) := by
      bv_omega
    have usable := pub.usable ⟨node.uiPubIp, node.usPubPort⟩
    have found : hashFind natPubFuncs ctrl.hPubHashHandle ⟨node.uiPubIp, node.usPubPort⟩ = some node :=
      (HashStores.find_eq_some_iff natPubFuncs_lawful pub).mpr ⟨inside, rfl⟩
    obtain ⟨ctrlAfter, processed⟩ : ∃ ctrlAfter, natProcessPkt proto ctrl node
        (proto.stepPub (ctrl.ucStatus node.address) ucFlag) = some ctrlAfter :=
      ok.processes inside usable _
    refine ⟨ctrlAfter, ?_⟩
    simp [natPubPktIn, if_neg permitted, usable, found, natProcessPubPkt, processed]

theorem NatOk.busy_iff :
    NatBusy ctrl ↔ taken = false ∨ usMinPort = usMaxPort ∧ ctrl.allocated = ∅ := by
  have bitNum := ok.bits.bitNum
  have isEmpty (none : ctrl.allocated = ∅) (free : ∀ index, index < ctrl.portBitMap.ulBitNum.toNat →
      bitmapIsSet ctrl.portBitMap index = false) : NatBusy ctrl := by
    refine ⟨fun index bounded => ?_, ok.range⟩
    simp [free index bounded, none]
  constructor
  · intro busy
    cases isTaken : taken with
    | false => exact .inl rfl
    | true =>
      right
      rcases lt_or_ge usMinPort.toNat usMaxPort.toNat with several | _
      · -- The bit of the second port is set, and no mapping has that port.
        have skipped := ok.bits.skipped isTaken several
        obtain ⟨node, inside, port⟩ := (busy.busy 1 (by omega)).mp skipped
        rw [ok.minPort] at port
        exact absurd port ((ok.ports node inside).skipped several)
      have ordered := ok.bits.ordered
      have only : usMinPort = usMaxPort := by bv_omega
      refine ⟨only, eq_empty_of_forall_notMem fun node inside => ?_⟩
      obtain ⟨_, _⟩ := ok.ports node inside
      have port : (ntohs node.usPubPort).toNat = ctrl.usMinPort.toNat + 0 := by
        rw [ok.minPort]
        bv_omega
      have isSet := (busy.busy 0 (by omega)).mpr ⟨node, inside, port⟩
      rw [ok.bits.single only] at isSet
      cases isSet
  rintro (untaken | ⟨only, none⟩)
  · refine isEmpty (ok.fresh untaken) fun index _ => ?_
    rw [ok.bits.untouched untaken]
    exact bitmapCreate_isSet _ index
  refine isEmpty none fun index bounded => ?_
  have first : index = 0 := by
    rw [only] at bitNum
    omega
  rw [first]
  exact ok.bits.single only

end

/-- The tables describe one set of mappings exactly as long as no port is taken, or there
is one port only and no mapping; the endpoints are distinct and lead back as long as no
live mapping's port is taken again and no mapping is dropped with the public addresses. -/
theorem nat_agrees (proto : NatProto Status) (usMinPort usMaxPort : USHORT) :
    (∀ run, (natSystem proto usMinPort usMaxPort).Reachable run → (NatHolds proto run.ctrl ↔
        run.taken = false ∨ usMinPort = usMaxPort ∧ run.ctrl.allocated = ∅)) ∧
    ∀ run, (natSystem proto usMinPort usMaxPort).ReachableWhen (NatFits proto) run →
      NatApart run.ctrl ∧ NatReturns proto run.ctrl := by
  constructor
  · intro run reached
    have ok := natSystem_ok reached
    constructor
    · exact fun holds => ok.busy_iff.mp holds.busy
    intro condition
    have none : run.ctrl.allocated = ∅ := condition.elim ok.fresh And.right
    have vacuous {P : NatMapNode → Prop} : ∀ node ∈ run.ctrl.allocated, P node := by
      intro node inside
      rw [none] at inside
      exact absurd inside (notMem_empty node)
    exact ⟨ok.busy_iff.mpr condition, ⟨vacuous, vacuous⟩,
      ⟨fun _ _ _ _ _ _ _ _ _ received => ok.outbound received, vacuous⟩⟩
  · intro run reached
    obtain ⟨ok, pub⟩ := natSystem_pubOk reached
    exact ⟨ok.apart pub, ok.returns pub⟩

def natNext (run : NatRun NatTcpStatus) (call : NatCall) : NatRun NatTcpStatus :=
  ⟨(call.run natTcp run.ctrl).getD run.ctrl, run.taken || (call.takes natTcp run.ctrl).isSome⟩

def natTwoPorts (calls : List NatCall) : NatRun NatTcpStatus :=
  calls.foldl natNext ⟨(natInit natTcp 1024 1025).get rfl, false⟩

instance NatCall.decidableEnabled (ctrl : NatCtrl NatTcpStatus) :
    (call : NatCall) → Decidable (call.Enabled ctrl)
  | .privatePkt alloc _ _ _ _ _ =>
    inferInstanceAs (Decidable (∀ node ∈ ctrl.allocated, alloc ≠ some node.address))
  | .timeOut node => inferInstanceAs (Decidable (node ∈ ctrl.allocated))
  | .pubPkt _ _ _ _ => isTrue trivial
  | .setPubIp _ => isTrue trivial

def natSetPub : NatCall :=
  .setPubIp fun _ => 0x0a0b0c0d

def natSyn (address : Nat) (uiIp : UINT) : NatCall :=
  .privatePkt (some address) true uiIp 80 0 tcpFlagSyn

def natTwoSyns : List NatCall :=
  [natSetPub, natSyn 1 0x01000a0a, natSyn 2 0x02000a0a]

theorem natTwoPorts_reachable (calls : List NatCall)
    (admitted : Lib.System.Admitted
      (fun run call => call.Enabled run.ctrl ∧ (NatCall.run natTcp run.ctrl call).isSome = true)
      natNext (natTwoPorts []) calls) :
    (natSystem natTcp 1024 1025).Reachable (natTwoPorts calls) := by
  have steps (run : NatRun NatTcpStatus) (call : NatCall)
      (admits : call.Enabled run.ctrl ∧ (call.run natTcp run.ctrl).isSome = true) :
      True ∧ (natSystem natTcp 1024 1025).step run call (natNext run call) := by
    obtain ⟨_, ran⟩ := isSome_iff_exists.mp admits.2
    exact ⟨trivial, admits.1, by rw [natNext, ran]; rfl, rfl⟩
  exact .foldl steps (.start ⟨_, rfl, rfl⟩) admitted

theorem natOneSyn_fits :
    (natSystem natTcp 1024 1025).ReachableWhen (NatFits natTcp)
      (natTwoPorts [natSetPub, natSyn 1 0x01000a0a]) := by
  have started : (natSystem natTcp 1024 1025).ReachableWhen (NatFits natTcp) (natTwoPorts []) :=
    .start ⟨_, rfl, rfl⟩
  have fits : NatFits natTcp (natTwoPorts []) natSetPub := ⟨nofun, fun _ _ => rfl⟩
  have stepped : (natSystem natTcp 1024 1025).step (natTwoPorts []) natSetPub
      (natTwoPorts [natSetPub]) :=
    ⟨trivial, rfl, rfl⟩
  have fitsSyn : NatFits natTcp (natTwoPorts [natSetPub]) (natSyn 1 0x01000a0a) := by
    refine ⟨fun index _ node inside => ?_, nofun⟩
    exact absurd inside (notMem_empty node)
  have steppedSyn : (natSystem natTcp 1024 1025).step (natTwoPorts [natSetPub])
      (natSyn 1 0x01000a0a) (natTwoPorts [natSetPub, natSyn 1 0x01000a0a]) := by
    refine ⟨fun node inside => ?_, ?_, rfl⟩
    · exact absurd inside (notMem_empty node)
    rfl
  exact .step (.step started fits stepped) fitsSyn steppedSyn

theorem nat_agrees_two :
    NatHolds natTcp (natTwoPorts [natSetPub]).ctrl ∧ ¬ NatHolds natTcp (natTwoPorts natTwoSyns).ctrl ∧
      NatApart (natTwoPorts [natSetPub, natSyn 1 0x01000a0a]).ctrl ∧
      NatReturns natTcp (natTwoPorts [natSetPub, natSyn 1 0x01000a0a]).ctrl := by
  obtain ⟨holds, apart⟩ := nat_agrees natTcp 1024 1025
  refine ⟨(holds _ (natTwoPorts_reachable [natSetPub] (by decide +kernel))).mpr (.inl (by decide +kernel)),
    fun both => ?_, apart _ natOneSyn_fits⟩
  have condition := (holds _ (natTwoPorts_reachable natTwoSyns (by decide +kernel))).mp both
  revert condition
  decide +kernel

/-- Two sources get the same public endpoint, and the busy port is one that nobody has. -/
theorem nat_assigns_twice :
    (∃ run, (natSystem natTcp 1024 1025).Reachable run ∧
      (∃ first ∈ run.ctrl.allocated, ∃ second ∈ run.ctrl.allocated,
        first.privateKey ≠ second.privateKey ∧ first.pubKey = second.pubKey ∧
        ntohs first.usPubPort = 1024) ∧
      bitmapIsSet run.ctrl.portBitMap 0 = false ∧ bitmapIsSet run.ctrl.portBitMap 1 = true) ∧
    ¬ ∀ run, (natSystem natTcp 1024 1025).Reachable run → NatHolds natTcp run.ctrl := by
  have reached := natTwoPorts_reachable natTwoSyns (by decide +kernel)
  have twice : ∃ first ∈ (natTwoPorts natTwoSyns).ctrl.allocated,
      ∃ second ∈ (natTwoPorts natTwoSyns).ctrl.allocated,
        first.privateKey ≠ second.privateKey ∧ first.pubKey = second.pubKey ∧
        ntohs first.usPubPort = 1024 := by
    decide +kernel
  refine ⟨⟨_, reached, twice, by decide +kernel, by decide +kernel⟩, fun holds => ?_⟩
  obtain ⟨first, isFirst, second, isSecond, differ, same, -⟩ := twice
  exact differ (by rw [(holds _ reached).apart.pubKeys first isFirst second isSecond same])

end MyCode.NatTable
