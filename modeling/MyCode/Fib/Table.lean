import Mathlib.Data.BitVec
import MyCode.Hash
import MyCode.Lib.Transition
import MyCode.Net

/-!
# Forwarding tables

The table of `fib_utl.c`: one hash node for a destination and mask, with one
next hop that is not static and up to eight static ones.  Addresses and masks
are in network order.  Every reachable table has its nodes in the buckets of
their keys, no key twice, and no destination with bits outside its mask.
-/

namespace MyCode.Fib

open Hash

def ifInvalidIndex : UINT := 0

def fibMaxNextHopNum : Nat := 8

def fibFlagDirect : UINT := 0x2

def fibFlagStatic : UINT := 0x4

def fibFlagAutoIf : UINT := 0x8

structure FibKey where
  uiDstOrStartIp : UINT
  uiMaskOrEndIp : UINT
  deriving DecidableEq, Repr

structure FibNextHop where
  uiNextHop : UINT
  uiOutIfIndex : UINT
  uiFlag : UINT
  deriving DecidableEq, Repr

structure FibNode where
  stFibKey : FibKey
  uiNextHop : UINT
  uiOutIfIndex : UINT
  uiFlag : UINT
  deriving DecidableEq, Repr

def FibNode.nextHop (fibNode : FibNode) : FibNextHop :=
  ⟨fibNode.uiNextHop, fibNode.uiOutIfIndex, fibNode.uiFlag⟩

def FibNextHop.route (hop : FibNextHop) (key : FibKey) : FibNode :=
  ⟨key, hop.uiNextHop, hop.uiOutIfIndex, hop.uiFlag⟩

/-- `astStaticNextHop` up to `uiStaticNextHopCount`. -/
structure FibHashNode where
  stFibKey : FibKey
  stNextHop : FibNextHop
  astStaticNextHop : List FibNextHop
  deriving DecidableEq, Repr

def fibHashIndex (key : FibKey) : UINT :=
  ntohl key.uiDstOrStartIp

def fibHashCmp (key toFind : FibKey) : UINT :=
  let iCmpRet := key.uiDstOrStartIp - toFind.uiDstOrStartIp
  if iCmpRet ≠ 0 then
    iCmpRet
  else
    key.uiMaskOrEndIp - toFind.uiMaskOrEndIp

def fibHashFuncs : HashFuncs FibHashNode FibKey where
  key := FibHashNode.stFibKey
  pfHashIndexFunc := fibHashIndex
  pfCmpFunc := fibHashCmp

/-- `_FIB_CTRL_S` without its lock. -/
structure FibCtrl where
  hHash : HashS FibHashNode

def fibCreate : FibCtrl :=
  ⟨hashInit 1023⟩

/-- The key that is probed for a prefix length of `32 - i`. -/
def fibProbeKey (uiIp : UINT) (i : Nat) : FibKey :=
  let uiMask := htonl (prefix2Mask (32 - i))
  ⟨uiIp &&& uiMask, uiMask⟩

section Operations

variable (ctrl : FibCtrl)

def fibFind (key : FibKey) : Option FibHashNode :=
  hashFind fibHashFuncs ctrl.hHash key

def fibUpdate (key : FibKey) (change : FibHashNode → FibHashNode) : FibCtrl :=
  ⟨hashUpdate fibHashFuncs ctrl.hHash key change⟩

/-- What `_fib_ClearAutoIFEach` does to a static next hop. -/
def fibClearAutoIfHop (hop : FibNextHop) : FibNextHop :=
  if hasFlag hop.uiFlag fibFlagAutoIf then { hop with uiOutIfIndex := ifInvalidIndex } else hop

def fibClearAutoIfEach (node : FibHashNode) : FibHashNode :=
  { node with astStaticNextHop := node.astStaticNextHop.map fibClearAutoIfHop }

def fibClearAutoIf : FibCtrl :=
  ⟨hashUpdateAll ctrl.hHash fibClearAutoIfEach⟩

/-- The interface of the longest direct route to a next hop. -/
def fibDirectIf (uiNextHop : UINT) : Option UINT :=
  (List.range 33).findSome? fun i =>
    match fibFind ctrl (fibProbeKey uiNextHop i) with
    | none => none
    | some found =>
      if hasFlag found.stNextHop.uiFlag fibFlagDirect then
        some found.stNextHop.uiOutIfIndex
      else
        none

def fibAutoFindIf (fibNode : FibNode) : FibNode :=
  if hasFlag fibNode.uiFlag fibFlagAutoIf then
    match fibDirectIf ctrl fibNode.uiNextHop with
    | some uiOutIfIndex => { fibNode with uiOutIfIndex := uiOutIfIndex }
    | none => fibNode
  else
    fibNode

/-- `_fib_Add` from where the hash node is there. -/
def fibAddNextHop (fibNode : FibNode) (node : FibHashNode) : FibCtrl × BsStatus :=
  let key := fibNode.stFibKey
  if !hasFlag fibNode.uiFlag fibFlagStatic then
    let ctrl := fibUpdate ctrl key fun node => { node with stNextHop := fibNode.nextHop }
    if hasFlag fibNode.uiFlag fibFlagDirect then (fibClearAutoIf ctrl, .ok) else (ctrl, .ok)
  else if fibMaxNextHopNum ≤ node.astStaticNextHop.length then
    (ctrl, .full)
  else
    (fibUpdate ctrl key fun node =>
      { node with astStaticNextHop := node.astStaticNextHop ++ [fibNode.nextHop] }, .ok)

/-- `_fib_Add`. -/
def fibAddRoute (nodeAlloc : Bool) (fibNode : FibNode) : FibCtrl × BsStatus :=
  match fibFind ctrl fibNode.stFibKey with
  | some node => fibAddNextHop ctrl fibNode node
  | none =>
    if !nodeAlloc then
      (ctrl, .noMemory)
    else
      let node := ⟨fibNode.stFibKey, ⟨0, 0, 0⟩, []⟩
      fibAddNextHop ⟨hashAdd fibHashFuncs ctrl.hHash node⟩ fibNode node

/-- The mask that `FIB_Add` and `FIB_Del` apply to the destination. -/
def FibNode.masked (fibNode : FibNode) : FibNode :=
  { fibNode with stFibKey :=
      { fibNode.stFibKey with uiDstOrStartIp :=
          fibNode.stFibKey.uiDstOrStartIp &&& fibNode.stFibKey.uiMaskOrEndIp } }

def fibAdd (nodeAlloc : Bool) (fibNode : FibNode) : FibCtrl × BsStatus :=
  fibAddRoute ctrl nodeAlloc (fibAutoFindIf ctrl fibNode.masked)

/-- The next hop of the last static route moves to the place of the deleted
one. -/
def fibDelStaticHop (uiNextHop : UINT) (hops : List FibNextHop) : List FibNextHop :=
  if uiNextHop = 0 then
    []
  else
    match hops.findIdx? fun hop => hop.uiNextHop == uiNextHop, hops.getLast? with
    | some i, some last =>
      (hops.modify i fun hop => { hop with uiNextHop := last.uiNextHop }).dropLast
    | _, _ => hops

def fibDelStaticFib (fibNode : FibNode) : FibCtrl :=
  fibUpdate ctrl fibNode.stFibKey fun node =>
    { node with astStaticNextHop := fibDelStaticHop fibNode.uiNextHop node.astStaticNextHop }

def fibDelNormalFib (node : FibHashNode) (fibNode : FibNode) : FibCtrl :=
  let uiFlag := node.stNextHop.uiFlag
  let ctrl := fibUpdate ctrl fibNode.stFibKey fun node =>
    { node with stNextHop := ⟨0, ifInvalidIndex, 0⟩ }
  if hasFlag uiFlag fibFlagDirect then fibClearAutoIf ctrl else ctrl

/-- The end of `_fib_Del`: a node without next hops is deleted. -/
def fibDelUnused (key : FibKey) : FibCtrl :=
  match fibFind ctrl key with
  | none => ctrl
  | some node =>
    if node.astStaticNextHop = [] ∧ node.stNextHop.uiOutIfIndex = ifInvalidIndex then
      ⟨hashDel fibHashFuncs ctrl.hHash key⟩
    else
      ctrl

/-- `_fib_Del`. -/
def fibDelRoute (fibNode : FibNode) : FibCtrl :=
  match fibFind ctrl fibNode.stFibKey with
  | none => ctrl
  | some node =>
    let ctrl :=
      if hasFlag fibNode.uiFlag fibFlagStatic then
        fibDelStaticFib ctrl fibNode
      else
        fibDelNormalFib ctrl node fibNode
    fibDelUnused ctrl fibNode.stFibKey

def fibDel (fibNode : FibNode) : FibCtrl :=
  fibDelRoute ctrl fibNode.masked

def fibDelAll : FibCtrl :=
  ⟨hashDelAll ctrl.hHash⟩

/-- The loop over the static next hops: the first one with an interface, which
is stored with it. -/
def fibMatchStatic (key : FibKey) : List FibNextHop → Option (List FibNextHop × FibNode)
  | [] => none
  | hop :: hops =>
    let fibNode := hop.route key
    let fibNode :=
      if fibNode.uiOutIfIndex = ifInvalidIndex then fibAutoFindIf ctrl fibNode else fibNode
    if fibNode.uiOutIfIndex ≠ ifInvalidIndex then
      some ({ hop with uiOutIfIndex := fibNode.uiOutIfIndex } :: hops, fibNode)
    else
      match fibMatchStatic key hops with
      | none => none
      | some (hops, fibNode) => some (hop :: hops, fibNode)

/-- The node with the longest mask that is probed and found. -/
def fibFindLongest (uiDstIp : UINT) : Option FibHashNode :=
  (List.range 33).findSome? fun i => fibFind ctrl (fibProbeKey uiDstIp i)

def fibPrefixMatch (uiDstIp : UINT) : FibCtrl × Except BsStatus FibNode :=
  match fibFindLongest ctrl uiDstIp with
  | none => (ctrl, .error .notFound)
  | some found =>
    if found.stNextHop.uiOutIfIndex ≠ ifInvalidIndex then
      (ctrl, .ok (found.stNextHop.route found.stFibKey))
    else
      match fibMatchStatic ctrl found.stFibKey found.astStaticNextHop with
      | none => (ctrl, .error .notFound)
      | some (hops, fibNode) =>
        (fibUpdate ctrl found.stFibKey fun node => { node with astStaticNextHop := hops },
          .ok fibNode)

def fibWalkEach (node : FibHashNode) : List FibNode :=
  (if node.stNextHop.uiOutIfIndex ≠ ifInvalidIndex then
    [node.stNextHop.route node.stFibKey]
  else
    []) ++ node.astStaticNextHop.map fun hop => hop.route node.stFibKey

/-- The routes in the order in which `FIB_Walk` visits them. -/
def fibWalk : List FibNode :=
  (hashWalk ctrl.hHash).flatMap fibWalkEach

section GetNext

variable (numCmp : UINT → UINT → Int)

def fibGetNextCmp (node1 node2 : FibNode) : Int :=
  let iCmpRet := numCmp (ntohl node1.stFibKey.uiDstOrStartIp) (ntohl node2.stFibKey.uiDstOrStartIp)
  if iCmpRet ≠ 0 then
    iCmpRet
  else
    let iCmpRet := numCmp node1.stFibKey.uiMaskOrEndIp node2.stFibKey.uiMaskOrEndIp
    if iCmpRet ≠ 0 then
      iCmpRet
    else
      let iCmpRet := numCmp node1.uiNextHop node2.uiNextHop
      if iCmpRet ≠ 0 then
        iCmpRet
      else
        numCmp node1.uiFlag node2.uiFlag

/-- `_fib_GetNextEach` on the best node so far and whether there is one. -/
def fibGetNextEach (current : Option FibNode) (found : FibNode × Bool) (fibNode : FibNode) :
    FibNode × Bool :=
  if current.any fun current => 0 ≤ fibGetNextCmp numCmp fibNode current then
    found
  else if fibGetNextCmp numCmp fibNode found.1 ≤ 0 then
    found
  else
    (fibNode, true)

def fibGetNext (current : Option FibNode) : Option FibNode :=
  let found := (fibWalk ctrl).foldl (fibGetNextEach numCmp current) (⟨⟨0, 0⟩, 0, 0, 0⟩, false)
  if found.2 then some found.1 else none

end GetNext

end Operations

inductive FibCall where
  | add (nodeAlloc : Bool) (fibNode : FibNode)
  | del (fibNode : FibNode)
  | delAll
  | prefixMatch (uiDstIp : UINT)

def FibCall.run (ctrl : FibCtrl) : FibCall → FibCtrl
  | add nodeAlloc fibNode => (fibAdd ctrl nodeAlloc fibNode).1
  | del fibNode => fibDel ctrl fibNode
  | delAll => fibDelAll ctrl
  | prefixMatch uiDstIp => (fibPrefixMatch ctrl uiDstIp).1

def fib : Lib.System FibCtrl FibCall where
  start ctrl := ctrl = fibCreate
  step ctrl call after := after = call.run ctrl

open Option

variable {ctrl : FibCtrl} {key : FibKey} {node : FibHashNode} {fibNode : FibNode}

theorem fibHashFuncs_lawful : fibHashFuncs.Lawful := by
  intro first second
  obtain ⟨-, -⟩ := first
  obtain ⟨-, -⟩ := second
  simp only [fibHashFuncs, fibHashCmp, FibKey.mk.injEq]
  split
  · next different =>
    exact iff_of_false different fun same => different (sub_eq_zero.mpr same.1)
  next same =>
  rw [and_iff_right (sub_eq_zero.mp (not_not.mp same))]
  exact sub_eq_zero

def FibKey.Masked (key : FibKey) : Prop :=
  key.uiDstOrStartIp &&& key.uiMaskOrEndIp = key.uiDstOrStartIp

theorem FibNode.masked_masked (fibNode : FibNode) : fibNode.masked.stFibKey.Masked := by
  simp [FibKey.Masked, FibNode.masked, BitVec.and_assoc]

structure FibOk (ctrl : FibCtrl) : Prop where
  hash : HashOk fibHashFuncs ctrl.hHash
  masked : ∀ node ∈ hashWalk ctrl.hHash, node.stFibKey.Masked

theorem fibFind_eq_some_iff (ok : FibOk ctrl) :
    fibFind ctrl key = some node ↔ node ∈ hashWalk ctrl.hHash ∧ node.stFibKey = key :=
  hashFind_eq_some_iff fibHashFuncs_lawful ok.hash

theorem fibFind_eq_none_iff (ok : FibOk ctrl) :
    fibFind ctrl key = none ↔ ∀ node ∈ hashWalk ctrl.hHash, node.stFibKey ≠ key :=
  hashFind_eq_none_iff fibHashFuncs_lawful ok.hash

section Update

variable {change : FibHashNode → FibHashNode}

theorem mem_fibUpdate (ok : FibOk ctrl) (keeps : ∀ node, (change node).stFibKey = node.stFibKey) :
    node ∈ hashWalk (fibUpdate ctrl key change).hHash ↔
      (∃ old ∈ hashWalk ctrl.hHash, old.stFibKey = key ∧ node = change old) ∨
        node ∈ hashWalk ctrl.hHash ∧ node.stFibKey ≠ key :=
  mem_hashWalk_update fibHashFuncs_lawful ok.hash keeps

theorem FibOk.update (ok : FibOk ctrl) (keeps : ∀ node, (change node).stFibKey = node.stFibKey) :
    FibOk (fibUpdate ctrl key change) := by
  refine ⟨ok.hash.update fibHashFuncs_lawful keeps, fun node inside => ?_⟩
  rcases (mem_fibUpdate ok keeps).mp inside with ⟨old, oldInside, -, rfl⟩ | ⟨kept, -⟩
  · rw [FibKey.Masked, keeps]
    exact ok.masked old oldInside
  · exact ok.masked node kept

end Update

theorem fibClearAutoIfEach_key (node : FibHashNode) :
    (fibClearAutoIfEach node).stFibKey = node.stFibKey := rfl

theorem mem_fibClearAutoIf (ok : FibOk ctrl) :
    node ∈ hashWalk (fibClearAutoIf ctrl).hHash ↔
      ∃ old ∈ hashWalk ctrl.hHash, node = fibClearAutoIfEach old :=
  @mem_hashWalk_updateAll _ _ _ _ fibClearAutoIfEach ok.hash fibClearAutoIfEach_key _

theorem FibOk.clearAutoIf (ok : FibOk ctrl) : FibOk (fibClearAutoIf ctrl) := by
  refine ⟨@HashOk.updateAll _ _ _ _ fibClearAutoIfEach ok.hash fibClearAutoIfEach_key, fun node inside => ?_⟩
  obtain ⟨old, oldInside, rfl⟩ := (mem_fibClearAutoIf ok).mp inside
  exact ok.masked old oldInside

theorem FibOk.addNode (ok : FibOk ctrl) (masked : node.stFibKey.Masked)
    (absent : fibFind ctrl node.stFibKey = none) :
    FibOk ⟨hashAdd fibHashFuncs ctrl.hHash node⟩ := by
  refine ⟨ok.hash.add fibHashFuncs_lawful absent, fun other inside => ?_⟩
  rcases (mem_hashWalk_add ok.hash).mp inside with rfl | old
  · exact masked
  · exact ok.masked other old

theorem FibOk.addNextHop (ok : FibOk ctrl) (fibNode : FibNode) (node : FibHashNode) :
    FibOk (fibAddNextHop ctrl fibNode node).1 := by
  unfold fibAddNextHop
  split
  · split
    · exact (ok.update (by intro _; rfl)).clearAutoIf
    · exact ok.update (by intro _; rfl)
  · split
    · exact ok
    · exact ok.update (by intro _; rfl)

theorem FibOk.addRoute (ok : FibOk ctrl) (nodeAlloc : Bool) (masked : fibNode.stFibKey.Masked) :
    FibOk (fibAddRoute ctrl nodeAlloc fibNode).1 := by
  unfold fibAddRoute
  split
  · exact ok.addNextHop _ _
  next absent =>
  split
  · exact ok
  have added : FibOk ⟨hashAdd fibHashFuncs ctrl.hHash ⟨fibNode.stFibKey, ⟨0, 0, 0⟩, []⟩⟩ :=
    ok.addNode masked absent
  exact added.addNextHop _ _

theorem fibAutoFindIf_key (ctrl : FibCtrl) (fibNode : FibNode) :
    (fibAutoFindIf ctrl fibNode).stFibKey = fibNode.stFibKey := by
  unfold fibAutoFindIf
  split
  · split <;> rfl
  · rfl

section

variable (ok : FibOk ctrl)

include ok

theorem FibOk.add (nodeAlloc : Bool) (fibNode : FibNode) :
    FibOk (fibAdd ctrl nodeAlloc fibNode).1 := by
  refine ok.addRoute nodeAlloc ?_
  rw [fibAutoFindIf_key]
  exact fibNode.masked_masked

theorem FibOk.delUnused (key : FibKey) : FibOk (fibDelUnused ctrl key) := by
  unfold fibDelUnused
  split
  · exact ok
  split
  · refine ⟨ok.hash.del fibHashFuncs_lawful, fun node inside => ?_⟩
    exact ok.masked node ((mem_hashWalk_del fibHashFuncs_lawful ok.hash).mp inside).1
  · exact ok

theorem FibOk.delNormalFib (node : FibHashNode) (fibNode : FibNode) :
    FibOk (fibDelNormalFib ctrl node fibNode) := by
  unfold fibDelNormalFib
  simp only
  split
  · exact (ok.update (by intro _; rfl)).clearAutoIf
  · exact ok.update (by intro _; rfl)

theorem FibOk.delRoute (fibNode : FibNode) : FibOk (fibDelRoute ctrl fibNode) := by
  unfold fibDelRoute
  split
  · exact ok
  next node _ =>
  apply FibOk.delUnused
  split
  · exact ok.update (by intro _; rfl)
  · exact ok.delNormalFib node fibNode

theorem FibOk.delAll : FibOk (fibDelAll ctrl) :=
  ⟨ok.hash.delAll, fun node inside => ok.masked node (mem_of_mem_hashWalk_delAll ok.hash inside)⟩

theorem FibOk.prefixMatch (uiDstIp : UINT) : FibOk (fibPrefixMatch ctrl uiDstIp).1 := by
  unfold fibPrefixMatch
  split
  · exact ok
  split
  · exact ok
  split
  · exact ok
  · exact ok.update (by intro _; rfl)

theorem FibOk.run (call : FibCall) : FibOk (call.run ctrl) := by
  cases call with
  | add nodeAlloc fibNode => exact ok.add nodeAlloc fibNode
  | del fibNode => exact ok.delRoute fibNode.masked
  | delAll => exact ok.delAll
  | prefixMatch uiDstIp => exact ok.prefixMatch uiDstIp

end

theorem fibCreate_ok : FibOk fibCreate := by
  have ok : HashOk fibHashFuncs fibCreate.hHash := hashInit_ok 1023
  refine ⟨ok, fun node inside => ?_⟩
  obtain ⟨_, _, inBucket, -⟩ := (mem_hashWalk ok).mp inside
  nomatch inBucket

theorem fib_ok (reached : fib.Reachable ctrl) : FibOk ctrl := by
  refine reached.invariant ?_ ?_
  · rintro _ rfl
    exact fibCreate_ok
  · rintro _ call _ ok rfl
    exact ok.run call

theorem fibFind_update (ok : FibOk ctrl) {change : FibHashNode → FibHashNode}
    (keeps : ∀ node, (change node).stFibKey = node.stFibKey) (other : FibKey) :
    fibFind (fibUpdate ctrl key change) other =
      if other = key then (fibFind ctrl key).map change else fibFind ctrl other := by
  apply ext
  intro node
  rw [fibFind_eq_some_iff (ok.update keeps), mem_fibUpdate ok keeps]
  split
  · next same =>
    subst same
    rw [map_eq_some_iff]
    simp only [fibFind_eq_some_iff ok]
    constructor
    · rintro ⟨⟨old, inside, oldKey, rfl⟩ | ⟨-, different⟩, same⟩
      · exact ⟨old, ⟨inside, oldKey⟩, rfl⟩
      · exact absurd same different
    · rintro ⟨old, ⟨inside, oldKey⟩, rfl⟩
      exact ⟨.inl ⟨old, inside, oldKey, rfl⟩, (keeps old).trans oldKey⟩
  next different =>
  rw [fibFind_eq_some_iff ok]
  constructor
  · rintro ⟨⟨old, -, oldKey, rfl⟩ | ⟨inside, -⟩, same⟩
    · exact absurd (same.symm.trans ((keeps old).trans oldKey)) different
    · exact ⟨inside, same⟩
  · rintro ⟨inside, same⟩
    exact ⟨.inr ⟨inside, fun equal => different (same.symm.trans equal)⟩, same⟩

theorem fibFind_clearAutoIf (ok : FibOk ctrl) (key : FibKey) :
    fibFind (fibClearAutoIf ctrl) key = (fibFind ctrl key).map fibClearAutoIfEach := by
  apply ext
  intro node
  rw [fibFind_eq_some_iff ok.clearAutoIf, mem_fibClearAutoIf ok, map_eq_some_iff]
  simp only [fibFind_eq_some_iff ok]
  constructor
  · rintro ⟨⟨old, inside, rfl⟩, same⟩
    exact ⟨old, ⟨inside, same⟩, rfl⟩
  · rintro ⟨old, ⟨inside, same⟩, rfl⟩
    exact ⟨⟨old, inside, rfl⟩, same⟩

theorem fibFind_addNode (ok : FibOk ctrl) (masked : node.stFibKey.Masked)
    (absent : fibFind ctrl node.stFibKey = none) (key : FibKey) :
    fibFind ⟨hashAdd fibHashFuncs ctrl.hHash node⟩ key =
      if key = node.stFibKey then some node else fibFind ctrl key := by
  apply ext
  intro other
  rw [fibFind_eq_some_iff (ok.addNode masked absent), mem_hashWalk_add ok.hash]
  split
  · next same =>
    rw [some.injEq]
    constructor
    · rintro ⟨rfl | inside, equal⟩
      · rfl
      · exact absurd (equal.trans same) ((fibFind_eq_none_iff ok).mp absent other inside)
    · rintro rfl
      exact ⟨.inl rfl, same.symm⟩
  next different =>
  rw [fibFind_eq_some_iff ok]
  constructor
  · rintro ⟨rfl | inside, equal⟩
    · exact absurd equal.symm different
    · exact ⟨inside, equal⟩
  · rintro ⟨inside, equal⟩
    exact ⟨.inr inside, equal⟩

theorem mem_fibDelUnused (ok : FibOk ctrl)
    (inside : node ∈ hashWalk (fibDelUnused ctrl key).hHash) : node ∈ hashWalk ctrl.hHash := by
  unfold fibDelUnused at inside
  split at inside
  · exact inside
  split at inside
  · exact ((mem_hashWalk_del fibHashFuncs_lawful ok.hash).mp inside).1
  · exact inside

theorem fibFind_delUnused (ok : FibOk ctrl) (key other : FibKey) :
    fibFind (fibDelUnused ctrl key) other = fibFind ctrl other ∨
      fibFind (fibDelUnused ctrl key) other = none ∧
        ∃ node, fibFind ctrl other = some node ∧ node.stNextHop.uiOutIfIndex = ifInvalidIndex := by
  unfold fibDelUnused
  split
  · exact .inl rfl
  next node found =>
  split
  · next unused =>
    have after : FibOk ⟨hashDel fibHashFuncs ctrl.hHash key⟩ := by
      have deleted := ok.delUnused key
      simpa only [fibDelUnused, found, if_pos unused] using deleted
    by_cases same : other = key
    · subst same
      refine .inr ⟨(fibFind_eq_none_iff after).mpr fun node inside => ?_, node, found, unused.2⟩
      exact ((mem_hashWalk_del fibHashFuncs_lawful ok.hash).mp inside).2
    left
    apply ext
    intro kept
    rw [fibFind_eq_some_iff after, fibFind_eq_some_iff ok]
    constructor
    · rintro ⟨inside, equal⟩
      exact ⟨((mem_hashWalk_del fibHashFuncs_lawful ok.hash).mp inside).1, equal⟩
    rintro ⟨inside, equal⟩
    exact ⟨(mem_hashWalk_del fibHashFuncs_lawful ok.hash).mpr
      ⟨inside, fun keyed => same (equal.symm.trans keyed)⟩, equal⟩
  · exact .inl rfl

end MyCode.Fib
