import MyCode.LBitMap.Busy
import MyCode.ListRule.Registry
import MyCode.RuleList

/-!
# IP access lists

`ip_acl.c`.  The rules of a list stand at the address of the list, and a pool is known by its
address; what a pool contains is not changed by the calls.
-/

namespace MyCode.IpAcl

open ListRule Nap LBitMap RuleList Function

structure IpAclIpKey where
  uiIP : UINT
  uiWildcard : UINT
  deriving DecidableEq

structure IpAclPortKey where
  usBegin : USHORT
  usEnd : USHORT
  deriving DecidableEq

structure IpAclSingleKey where
  stSIP : IpAclIpKey
  stDIP : IpAclIpKey
  stSPort : IpAclPortKey
  stDPort : IpAclPortKey
  deriving DecidableEq

structure IpAclPoolKey where
  pstSipPool : Option Nat
  pstDipPool : Option Nat
  pstSportPool : Option Nat
  pstDportPool : Option Nat
  deriving DecidableEq

structure IpAclKey where
  pools : IpAclPoolKey
  single : IpAclSingleKey
  deriving DecidableEq

structure IpAclRuleCfg where
  bEnable : Bool
  enAction : BsActionE
  uiKeyMask : UINT
  stKey : IpAclKey
  ucProto : UCHAR
  deriving DecidableEq

structure IpAclRule where
  stRuleCfg : IpAclRuleCfg
  ulMatchCount : UINT64
  deriving DecidableEq

structure IpAclMatchInfo where
  uiKeyMask : UINT
  uiSIP : UINT
  uiDIP : UINT
  usSPort : USHORT
  usDPort : USHORT
  ucProto : UCHAR
  acl_id : UINT

/-- The `IPACL_KEY_*` bits. -/
inductive IpAclKeyBit where
  | sip
  | dip
  | sport
  | dport
  | proto
  | poolSip
  | poolDip
  | poolSport
  | poolDport
  deriving DecidableEq

def IpAclKeyBit.bit : IpAclKeyBit → UINT
  | sip => 0x01
  | dip => 0x01 <<< 1
  | sport => 0x01 <<< 2
  | dport => 0x01 <<< 3
  | proto => 0x01 <<< 4
  | poolSip => 0x01 <<< 5
  | poolDip => 0x01 <<< 6
  | poolSport => 0x01 <<< 7
  | poolDport => 0x01 <<< 8

/-- `stRuleList` holds the rule lists that are allocated, and `uiRefCount` the counts of the
pools. -/
structure IpAclHandle where
  ctx : ListRuleCtrlS
  stRuleList : Nat → Option (List (RuleNodeS IpAclRule))
  uiRefCount : Nat → UINT

def IpAclHandle.rules (acl : IpAclHandle) (list : Nat) : List (RuleNodeS IpAclRule) :=
  (acl.stRuleList list).getD []

def changeRef (change : UINT → UINT) (uiRefCount : Nat → UINT) : Option Nat → Nat → UINT
  | none => uiRefCount
  | some pool => update uiRefCount pool (change (uiRefCount pool))

def changePoolRef (change : UINT → UINT) (uiRefCount : Nat → UINT) (pstPoolKeys : IpAclPoolKey) :
    Nat → UINT :=
  let uiRefCount := changeRef change uiRefCount pstPoolKeys.pstSipPool
  let uiRefCount := changeRef change uiRefCount pstPoolKeys.pstDipPool
  let uiRefCount := changeRef change uiRefCount pstPoolKeys.pstSportPool
  changeRef change uiRefCount pstPoolKeys.pstDportPool

def ipaclIncPoolRef : (Nat → UINT) → IpAclPoolKey → Nat → UINT :=
  changePoolRef fun uiRefCount => uiRefCount + 1

def ipaclDecPoolRef : (Nat → UINT) → IpAclPoolKey → Nat → UINT :=
  changePoolRef fun uiRefCount => uiRefCount - 1

section Operations

variable (acl : IpAclHandle)

/-- `ListRule_DestroyList` with `_ipacl_delete_rule`. -/
def ipaclDestroyList (hIpAclList : Nat) : IpAclHandle :=
  { acl with
    uiRefCount := (acl.rules hIpAclList).foldl
      (fun uiRefCount pstRule => ipaclDecPoolRef uiRefCount pstRule.rule.stRuleCfg.stKey.pools)
      acl.uiRefCount
    stRuleList := update acl.stRuleList hIpAclList none }

def ipaclCreateList (address : Nat) (pcListName : List UCHAR) : IpAclHandle :=
  { acl with
    ctx := listRuleCreateList acl.ctx address pcListName
    stRuleList := update acl.stRuleList address (some []) }

/-- A list that is not attached is freed again. -/
def ipaclAddList (alloc : NodeAlloc) (address memory : Option Nat) (pcListName : List UCHAR) :
    IpAclHandle × UINT :=
  let (ctx, list_id) := listRuleAddList acl.ctx alloc address memory pcListName
  ({ acl with
    ctx := ctx
    stRuleList := match memory with
      | none => acl.stRuleList
      | some list => update acl.stRuleList list (if list_id = 0 then none else some []) }, list_id)

/-- `_listrule_DelListNode`. -/
def delListNode (pstListHead : NapNode) : IpAclHandle :=
  let acl' := match acl.ctx.pstListRule pstListHead with
    | none => acl
    | some pstList => ipaclDestroyList acl pstList
  { acl' with ctx := freeHead acl.ctx pstListHead }

def ipaclDelList (uiListID : UINT) : IpAclHandle :=
  match findHead acl.ctx uiListID with
  | (ctx, none) => { acl with ctx := ctx }
  | (ctx, some pstListHead) => delListNode { acl with ctx := ctx } pstListHead

/-- `NAP_GetNodeByIndex`. -/
def napGetNodeByIndex (head : NapHead) (uiIndex : UINT) : NapHead × Option NapNode :=
  if napIsIndexSetted head uiIndex then
    let (slots, pstCommonNode) := head.slots.pfGetNodeByIndex uiIndex
    ({ head with slots := slots }, pstCommonNode)
  else
    (head, none)

/-- The loop of `_listrule_reset`.  Each turn finds a greater index; an index that is in use has a
node. -/
def resetLoop : (turns : Nat) → IpAclHandle → Option UINT → IpAclHandle
  | 0, acl, _ => acl
  | turns + 1, acl, uiIndex =>
    match lBitMapNextBusyBit acl.ctx.hListNap.hLBitmap uiIndex with
    | none => acl
    | some uiIndex =>
      match napGetNodeByIndex acl.ctx.hListNap uiIndex with
      | (_, none) => acl
      | (hListNap, some pstListHead) =>
        resetLoop turns
          (delListNode { acl with ctx := { acl.ctx with hListNap := hListNap } } pstListHead)
          (some uiIndex)

def ipaclReset : IpAclHandle :=
  resetLoop (2 ^ 32) acl none

/-- `ListRule_AddRule2List` with the counts of a rule that is stored. -/
def addRuleTo (pstList : Nat) (uiRuleID : UINT) (pstRuleCfg : IpAclRuleCfg) : IpAclHandle × BsStatus :=
  if uiRuleID = 0 then (acl, .badPara)
  else
    ({ acl with
      stRuleList := update acl.stRuleList pstList
        (some (ruleListAdd (acl.rules pstList) uiRuleID ⟨pstRuleCfg, 0⟩))
      uiRefCount := ipaclIncPoolRef acl.uiRefCount pstRuleCfg.stKey.pools }, .ok)

/-- `allocated` tells whether there is memory; without it the function writes through the null
pointer. -/
def ipaclAddRule2List (allocated : Bool) (_hIpAclList : Nat) (_uiRuleID : UINT)
    (_pstRuleCfg : IpAclRuleCfg) : Option (IpAclHandle × BsStatus) :=
  if allocated then some (acl, .noMemory) else none

def ipaclAddRule (allocated : Bool) (uiListID uiRuleID : UINT) (pstRuleCfg : IpAclRuleCfg) :
    IpAclHandle × BsStatus :=
  if !allocated then (acl, .noMemory)
  else
    match listRuleGetListByID acl.ctx uiListID with
    | (ctx, none) => ({ acl with ctx := ctx }, .noSuch)
    | (ctx, some pstList) => addRuleTo { acl with ctx := ctx } pstList uiRuleID pstRuleCfg

def ipaclDelRule (uiListID uiRuleID : UINT) : IpAclHandle :=
  match listRuleGetListByID acl.ctx uiListID with
  | (ctx, none) => { acl with ctx := ctx }
  | (ctx, some pstList) =>
    match ruleListDel (acl.rules pstList) uiRuleID with
    | (_, none) => { acl with ctx := ctx }
    | (rules, some pstRule) =>
      { acl with
        ctx := ctx
        stRuleList := update acl.stRuleList pstList (some rules)
        uiRefCount := ipaclDecPoolRef acl.uiRefCount pstRule.rule.stRuleCfg.stKey.pools }

def ipaclUpdateRule (pstList place : Nat) (pstRuleCfg : IpAclRuleCfg) : IpAclHandle :=
  match (acl.rules pstList)[place]? with
  | none => acl
  | some pstRule =>
    { acl with
      stRuleList := update acl.stRuleList pstList
        (some ((acl.rules pstList).set place
          { pstRule with rule := { pstRule.rule with stRuleCfg := pstRuleCfg } }))
      uiRefCount := ipaclIncPoolRef
        (ipaclDecPoolRef acl.uiRefCount pstRule.rule.stRuleCfg.stKey.pools)
        pstRuleCfg.stKey.pools }

end Operations

section Match

/-! What the pools contain is given. -/

variable (addressPoolMatchIpPool : Option Nat → UINT → Bool)
  (portPoolMatchPortPool : Option Nat → USHORT → Bool)

def sharedKey (pstMatchInfo : IpAclMatchInfo) (pstRuleCfg : IpAclRuleCfg) (key : IpAclKeyBit) :
    Bool :=
  hasFlag pstMatchInfo.uiKeyMask key.bit && hasFlag pstRuleCfg.uiKeyMask key.bit

def ipaclMatchByRule (pstMatchInfo : IpAclMatchInfo) (pstRuleCfg : IpAclRuleCfg) : Bool :=
  let pstSingleKey := pstRuleCfg.stKey.single
  let pools := pstRuleCfg.stKey.pools
  let shared := sharedKey pstMatchInfo pstRuleCfg
  if !pstRuleCfg.bEnable then false
  else if shared .proto && pstMatchInfo.ucProto != pstRuleCfg.ucProto then false
  else if shared .sip && pstMatchInfo.uiSIP &&& pstSingleKey.stSIP.uiWildcard !=
      pstSingleKey.stSIP.uiIP &&& pstSingleKey.stSIP.uiWildcard then false
  else if shared .dip && pstMatchInfo.uiDIP &&& pstSingleKey.stDIP.uiWildcard !=
      pstSingleKey.stDIP.uiIP &&& pstSingleKey.stDIP.uiWildcard then false
  else if shared .sport && (pstMatchInfo.usSPort < pstSingleKey.stSPort.usBegin ||
      pstMatchInfo.usSPort > pstSingleKey.stSPort.usEnd) then false
  else if shared .dport && (pstMatchInfo.usDPort < pstSingleKey.stDPort.usBegin ||
      pstMatchInfo.usDPort > pstSingleKey.stDPort.usEnd) then false
  else if shared .poolSip && !addressPoolMatchIpPool pools.pstSipPool pstMatchInfo.uiSIP then false
  else if shared .poolDip && !addressPoolMatchIpPool pools.pstDipPool pstMatchInfo.uiDIP then false
  else if shared .poolSport && !portPoolMatchPortPool pools.pstSportPool pstMatchInfo.usSPort then
    false
  else if shared .poolDport && !portPoolMatchPortPool pools.pstDportPool pstMatchInfo.usDPort then
    false
  else true

/-- The scan with `_ipacl_match_rule`: the rules with their counts, and the rule it stops at. -/
def ipaclMatchRules (pstMatchInfo : IpAclMatchInfo) :
    List (RuleNodeS IpAclRule) → List (RuleNodeS IpAclRule) × Option (RuleNodeS IpAclRule)
  | [] => ([], none)
  | pstRule :: rest =>
    if ipaclMatchByRule addressPoolMatchIpPool portPoolMatchPortPool pstMatchInfo
        pstRule.rule.stRuleCfg then
      ({ pstRule with
        rule := { pstRule.rule with ulMatchCount := pstRule.rule.ulMatchCount + 1 } } :: rest,
        some pstRule)
    else
      let scanned := ipaclMatchRules pstMatchInfo rest
      (pstRule :: scanned.1, scanned.2)

def ipaclMatch (acl : IpAclHandle) (uiListID : UINT) (pstMatchInfo : IpAclMatchInfo) :
    IpAclHandle × BsActionE × IpAclMatchInfo :=
  match listRuleGetListByID acl.ctx uiListID with
  | (ctx, none) => ({ acl with ctx := ctx }, .undef, pstMatchInfo)
  | (ctx, some pstList) =>
    let scanned := ipaclMatchRules addressPoolMatchIpPool portPoolMatchPortPool pstMatchInfo
      (acl.rules pstList)
    let acl := { acl with
      ctx := ctx
      stRuleList := update acl.stRuleList pstList (some scanned.1) }
    match scanned.2 with
    | none => (acl, (ctx.lists pstList).default_action, pstMatchInfo)
    | some pstRule =>
      (acl, pstRule.rule.stRuleCfg.enAction, { pstMatchInfo with acl_id := pstRule.uiRuleID })

end Match

end MyCode.IpAcl
