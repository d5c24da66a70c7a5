import Mathlib.Algebra.BigOperators.Finprod
import MyCode.IpAcl

/-!
# References to pools

Every pool is counted once for each key field of a stored rule that points to it, modulo the width
of its counter.
-/

namespace MyCode.IpAcl

open ListRule Nap LBitMap RuleList Lib Function List Bool

variable {others : List (RuleNodeS IpAclRule)} {pstRule : RuleNodeS IpAclRule}

def poolFields (pools : IpAclPoolKey) (pool : Nat) : Nat :=
  [pools.pstSipPool, pools.pstDipPool, pools.pstSportPool, pools.pstDportPool].count (some pool)

def ruleFields (pool : Nat) (rules : List (RuleNodeS IpAclRule)) : Nat :=
  (rules.map fun pstRule => poolFields pstRule.rule.stRuleCfg.stKey.pools pool).sum

/-- The pairs of a stored rule and a key field of it that point to the pool. -/
noncomputable def IpAclHandle.pointers (acl : IpAclHandle) (pool : Nat) : Nat :=
  ∑ᶠ list, ruleFields pool (acl.rules list)

variable {acl after : IpAclHandle} {pool list : Nat} {rules : List (RuleNodeS IpAclRule)}

@[simp]
theorem ruleFields_nil (pool : Nat) : ruleFields pool [] = 0 := rfl

theorem ruleFields_cons (pool : Nat) (pstRule : RuleNodeS IpAclRule)
    (rules : List (RuleNodeS IpAclRule)) :
    ruleFields pool (pstRule :: rules) =
      poolFields pstRule.rule.stRuleCfg.stKey.pools pool + ruleFields pool rules := by
  rw [ruleFields, map_cons, sum_cons, ← ruleFields]

theorem ruleFields_perm (same : rules.Perm others) :
    ruleFields pool rules = ruleFields pool others :=
  (same.map _).sum_eq

theorem changeRef_inc (uiRefCount : Nat → UINT) (key : Option Nat) (pool : Nat) :
    changeRef (fun uiRefCount => uiRefCount + 1) uiRefCount key pool =
      uiRefCount pool + BitVec.ofNat 32 (if key = some pool then 1 else 0) := by
  cases key with
  | none => simp [changeRef]
  | some other =>
    rw [changeRef, update_apply]
    by_cases same : pool = other
    · simp [same]
    · simp [same, Ne.symm same]

theorem changeRef_dec (uiRefCount : Nat → UINT) (key : Option Nat) (pool : Nat) :
    changeRef (fun uiRefCount => uiRefCount - 1) uiRefCount key pool =
      uiRefCount pool - BitVec.ofNat 32 (if key = some pool then 1 else 0) := by
  cases key with
  | none => simp [changeRef]
  | some other =>
    rw [changeRef, update_apply]
    by_cases same : pool = other
    · simp [same]
    · simp [same, Ne.symm same]

theorem poolFields_eq (pools : IpAclPoolKey) (pool : Nat) :
    poolFields pools pool = (if pools.pstSipPool = some pool then 1 else 0) +
      (if pools.pstDipPool = some pool then 1 else 0) +
      (if pools.pstSportPool = some pool then 1 else 0) +
      (if pools.pstDportPool = some pool then 1 else 0) := by
  simp only [poolFields, count_cons, count_nil, beq_iff_eq]
  omega

theorem ipaclIncPoolRef_eq (uiRefCount : Nat → UINT) (pools : IpAclPoolKey) (pool : Nat) :
    ipaclIncPoolRef uiRefCount pools pool =
      uiRefCount pool + BitVec.ofNat 32 (poolFields pools pool) := by
  simp only [ipaclIncPoolRef, changePoolRef, changeRef_inc, poolFields_eq, BitVec.ofNat_add,
    BitVec.add_assoc]

theorem ipaclDecPoolRef_eq (uiRefCount : Nat → UINT) (pools : IpAclPoolKey) (pool : Nat) :
    ipaclDecPoolRef uiRefCount pools pool =
      uiRefCount pool - BitVec.ofNat 32 (poolFields pools pool) := by
  simp only [ipaclDecPoolRef, changePoolRef, changeRef_dec, poolFields_eq, BitVec.ofNat_add]
  grind

theorem decPoolRefs_eq (rules : List (RuleNodeS IpAclRule)) (uiRefCount : Nat → UINT) (pool : Nat) :
    rules.foldl (fun uiRefCount pstRule =>
        ipaclDecPoolRef uiRefCount pstRule.rule.stRuleCfg.stKey.pools) uiRefCount pool =
      uiRefCount pool - BitVec.ofNat 32 (ruleFields pool rules) := by
  induction rules generalizing uiRefCount with
  | nil => simp
  | cons _ _ ih =>
    rw [foldl_cons, ih, ipaclDecPoolRef_eq, ruleFields_cons, BitVec.ofNat_add]
    grind

theorem finsum_change {amount : Nat → Nat} (changed : Nat → Nat) (finite : (support amount).Finite)
    (kept : ∀ other, other ≠ list → changed other = amount other) :
    (∑ᶠ other, changed other) + amount list = (∑ᶠ other, amount other) + changed list := by
  have inside : list ∈ insert list finite.toFinset := Finset.mem_insert_self _ _
  have covers : support amount ⊆ ↑(insert list finite.toFinset) := by
    intro other used
    rw [Finset.coe_insert, Set.Finite.coe_toFinset]
    exact .inr used
  have coversChanged : support changed ⊆ ↑(insert list finite.toFinset) := by
    intro other used
    rw [Finset.coe_insert, Set.Finite.coe_toFinset]
    by_cases same : other = list
    · exact .inl same
    refine .inr ?_
    rw [mem_support, ← kept other same]
    exact used
  have others : ∑ other ∈ (insert list finite.toFinset).erase list, changed other =
      ∑ other ∈ (insert list finite.toFinset).erase list, amount other :=
    Finset.sum_congr rfl fun other there => kept other (Finset.ne_of_mem_erase there)
  rw [finsum_eq_sum_of_support_subset _ covers, finsum_eq_sum_of_support_subset _ coversChanged,
    ← Finset.add_sum_erase _ _ inside, ← Finset.add_sum_erase _ _ inside, others]
  omega

/-- The counts are those of the pointers, and every list is in the order of the ids. -/
structure RefsOk (acl : IpAclHandle) : Prop where
  finite : {list | acl.rules list ≠ []}.Finite
  counted : ∀ pool, acl.uiRefCount pool = BitVec.ofNat 32 (acl.pointers pool)
  ordered : ∀ list, Ordered false (acl.rules list)

theorem RefsOk.support (ok : RefsOk acl) (pool : Nat) :
    (support fun list => ruleFields pool (acl.rules list)).Finite := by
  apply ok.finite.subset
  intro list used empty
  rw [mem_support, empty] at used
  exact used rfl

theorem rules_update (acl : IpAclHandle) (ctx : ListRuleCtrlS) (uiRefCount : Nat → UINT)
    (list other : Nat) (rules : Option (List (RuleNodeS IpAclRule))) :
    IpAclHandle.rules ⟨ctx, update acl.stRuleList list rules, uiRefCount⟩ other =
      if other = list then rules.getD [] else acl.rules other := by
  simp only [IpAclHandle.rules, update_apply]
  split <;> rfl

theorem pointers_write (ctx : ListRuleCtrlS) (uiRefCount : Nat → UINT) (list : Nat)
    (new : Option (List (RuleNodeS IpAclRule)))
    (finite : (support fun list => ruleFields pool (acl.rules list)).Finite) :
    IpAclHandle.pointers ⟨ctx, update acl.stRuleList list new, uiRefCount⟩ pool +
        ruleFields pool (acl.rules list) =
      acl.pointers pool + ruleFields pool (new.getD []) := by
  have total := finsum_change (fun other => ruleFields pool
      (IpAclHandle.rules ⟨ctx, update acl.stRuleList list new, uiRefCount⟩ other))
    finite fun other different => by rw [rules_update, if_neg different]
  rw [rules_update, if_pos rfl] at total
  exact total

theorem RefsOk.write (ok : RefsOk acl) {ctx : ListRuleCtrlS}
    {new : Option (List (RuleNodeS IpAclRule))} {uiRefCount : Nat → UINT}
    (counts : ∀ pool, uiRefCount pool + BitVec.ofNat 32 (ruleFields pool (acl.rules list)) = acl.uiRefCount pool + BitVec.ofNat 32 (ruleFields pool (new.getD [])))
    (ordered : Ordered false (new.getD [])) :
    RefsOk ⟨ctx, update acl.stRuleList list new, uiRefCount⟩ where
  finite := by
    apply (ok.finite.insert list).subset
    intro other used
    by_cases same : other = list
    · exact .inl same
    refine .inr ?_
    rw [Set.mem_ofPred_eq, rules_update, if_neg same] at used
    exact used
  counted pool := by
    have total := pointers_write ctx uiRefCount list new (ok.support pool)
    have words := congrArg (BitVec.ofNat 32) total
    have before := ok.counted pool
    rw [BitVec.ofNat_add, BitVec.ofNat_add] at words
    grind
  ordered other := by
    rw [rules_update]
    split
    · exact ordered
    · exact ok.ordered other

theorem RefsOk.same (ok : RefsOk acl) (lists : ∀ other, after.rules other = acl.rules other)
    (counts : after.uiRefCount = acl.uiRefCount) : RefsOk after := by
  have equal : after.rules = acl.rules := funext lists
  refine ⟨?_, fun pool => ?_, fun list => ?_⟩
  · rw [equal]
    exact ok.finite
  · rw [counts, ok.counted, IpAclHandle.pointers, IpAclHandle.pointers, equal]
  · rw [equal]
    exact ok.ordered list

section Calls

variable (addressPoolMatchIpPool : Option Nat → UINT → Bool)
  (portPoolMatchPortPool : Option Nat → USHORT → Bool)

inductive IpAclCall where
  | createList (address : Nat) (pcListName : List UCHAR)
  | addList (alloc : NodeAlloc) (address memory : Option Nat) (pcListName : List UCHAR)
  | addRule (uiListID uiRuleID : UINT) (pstRuleCfg : IpAclRuleCfg)
  | addRule2List (hIpAclList : Nat) (uiRuleID : UINT) (pstRuleCfg : IpAclRuleCfg)
  | updateRule (pstList place : Nat) (pstRuleCfg : IpAclRuleCfg)
  | delRule (uiListID uiRuleID : UINT)
  | delList (uiListID : UINT)
  | destroyList (hIpAclList : Nat)
  | reset
  | matchPacket (uiListID : UINT) (pstMatchInfo : IpAclMatchInfo)

def IpAclCall.run (acl : IpAclHandle) : IpAclCall → Option IpAclHandle
  | createList address pcListName => some (ipaclCreateList acl address pcListName)
  | addList alloc address memory pcListName => some (ipaclAddList acl alloc address memory pcListName).1
  | addRule uiListID uiRuleID pstRuleCfg => some (ipaclAddRule acl true uiListID uiRuleID pstRuleCfg).1
  | addRule2List hIpAclList uiRuleID pstRuleCfg =>
    (ipaclAddRule2List acl true hIpAclList uiRuleID pstRuleCfg).map Prod.fst
  | updateRule pstList place pstRuleCfg => some (ipaclUpdateRule acl pstList place pstRuleCfg)
  | delRule uiListID uiRuleID => some (ipaclDelRule acl uiListID uiRuleID)
  | delList uiListID => some (ipaclDelList acl uiListID)
  | destroyList hIpAclList => some (ipaclDestroyList acl hIpAclList)
  | reset => some (ipaclReset acl)
  | matchPacket uiListID pstMatchInfo =>
    some (ipaclMatch addressPoolMatchIpPool portPoolMatchPortPool acl uiListID pstMatchInfo).1

/-- Memory that is allocated is no list's, and callers pass lists and rules that exist and destroy
what is theirs. -/
def IpAclCall.Ready (acl : IpAclHandle) : IpAclCall → Prop
  | createList address _ => acl.stRuleList address = none
  | addList _ _ memory _ => ∀ list, memory = some list → acl.stRuleList list = none
  | addRule2List hIpAclList _ _ => acl.stRuleList hIpAclList ≠ none
  | updateRule pstList place _ => place < (acl.rules pstList).length
  | destroyList hIpAclList => acl.stRuleList hIpAclList ≠ none ∧ ¬Owns acl.ctx hIpAclList
  | _ => True

def ipacl (needBits : UINT → Nat) : System IpAclHandle IpAclCall where
  start acl := ∃ memory ulID hListNap lists,
    napCreate needBits memory ulID ⟨.hash, 0⟩ = some hListNap ∧
      acl = ⟨⟨hListNap, fun _ => none, lists⟩, fun _ => none, fun _ => 0⟩
  step acl call after := call.Ready acl ∧
    call.run addressPoolMatchIpPool portPoolMatchPortPool acl = some after

end Calls

theorem rules_of_none (free : acl.stRuleList list = none) : acl.rules list = [] := by
  rw [IpAclHandle.rules, free]
  rfl

theorem RefsOk.fresh {ctx : ListRuleCtrlS} {rules : Option (List (RuleNodeS IpAclRule))}
    (ok : RefsOk acl) (free : acl.stRuleList list = none) (empty : rules.getD [] = []) :
    RefsOk ⟨ctx, update acl.stRuleList list rules, acl.uiRefCount⟩ := by
  refine ok.same (fun other => ?_) rfl
  rw [rules_update]
  split
  · next same => rw [empty, same, rules_of_none free]
  · rfl

theorem RefsOk.ctx (ok : RefsOk acl) (ctx : ListRuleCtrlS) : RefsOk { acl with ctx := ctx } :=
  ok.same (fun _ => rfl) rfl

theorem RefsOk.destroyList (ok : RefsOk acl) (list : Nat) : RefsOk (ipaclDestroyList acl list) := by
  refine ok.write (fun pool => ?_) .nil
  rw [decPoolRefs_eq, Option.getD_none, ruleFields_nil]
  grind

theorem RefsOk.delListNode (ok : RefsOk acl) (pstListHead : NapNode) :
    RefsOk (delListNode acl pstListHead) := by
  apply RefsOk.ctx
  split
  · exact ok
  · exact ok.destroyList _

theorem RefsOk.resetLoop (turns : Nat) (ok : RefsOk acl) (uiIndex : Option UINT) :
    RefsOk (resetLoop turns acl uiIndex) := by
  induction turns generalizing acl uiIndex with
  | zero => exact ok
  | succ _ ih =>
    rw [IpAcl.resetLoop]
    split
    · exact ok
    split
    · exact ok
    · exact ih ((ok.ctx _).delListNode _) _

theorem ruleListAdd_perm (rules : List (RuleNodeS IpAclRule)) (uiRuleID : UINT) (rule : IpAclRule) :
    (ruleListAdd rules uiRuleID rule).Perm (⟨uiRuleID, rule⟩ :: rules) := by
  have last (new : RuleNodeS IpAclRule) : (rules ++ [new]).Perm (new :: rules) :=
    perm_append_singleton _ _
  rw [ruleListAdd]
  split
  · exact last _
  split
  · exact last _
  · exact insertWhen_perm _ _ _

theorem RefsOk.addRuleTo (ok : RefsOk acl) (pstList : Nat) (uiRuleID : UINT)
    (pstRuleCfg : IpAclRuleCfg) : RefsOk (addRuleTo acl pstList uiRuleID pstRuleCfg).1 := by
  rw [IpAcl.addRuleTo]
  split
  · exact ok
  refine ok.write (fun pool => ?_) ?_
  · rw [Option.getD_some, ruleFields_perm (ruleListAdd_perm _ _ _), ruleFields_cons,
      ipaclIncPoolRef_eq, BitVec.ofNat_add]
    grind
  · exact (ok.ordered pstList).add nofun

theorem RefsOk.addRule (ok : RefsOk acl) (uiListID uiRuleID : UINT) (pstRuleCfg : IpAclRuleCfg) :
    RefsOk (ipaclAddRule acl true uiListID uiRuleID pstRuleCfg).1 := by
  rw [ipaclAddRule]
  simp only [Bool.not_true, false_eq_true, if_false]
  split
  · exact ok.ctx _
  · exact (ok.ctx _).addRuleTo _ _ _

theorem ruleFields_erase {uiRuleID : UINT} (pool : Nat)
    (found : rules.find? (fun pstRule => pstRule.uiRuleID = uiRuleID) = some pstRule) :
    ruleFields pool rules = poolFields pstRule.rule.stRuleCfg.stKey.pools pool +
      ruleFields pool (rules.eraseP fun pstRule => pstRule.uiRuleID = uiRuleID) := by
  induction rules with
  | nil => exact nomatch found
  | cons first _ ih =>
    rw [find?_cons] at found
    by_cases same : first.uiRuleID = uiRuleID
    · simp only [same, decide_true] at found
      obtain rfl := Option.some.inj found
      rw [eraseP_cons_of_pos (by simp [same]), ruleFields_cons]
    simp only [same, decide_false] at found
    rw [eraseP_cons_of_neg (by simp [same]), ruleFields_cons, ruleFields_cons,
      ih found]
    omega

theorem RefsOk.delRule (ok : RefsOk acl) (uiListID uiRuleID : UINT) :
    RefsOk (ipaclDelRule acl uiListID uiRuleID) := by
  rw [ipaclDelRule]
  split
  · exact ok.ctx _
  next ctx pstList _ =>
  split
  · exact ok.ctx _
  next rest pstRule deleted =>
  obtain ⟨rfl, there⟩ := Prod.mk.inj deleted
  refine ok.write (fun pool => ?_) ((ok.ordered pstList).del uiRuleID)
  rw [Option.getD_some, ipaclDecPoolRef_eq, ruleFields_erase pool there, BitVec.ofNat_add]
  grind

theorem ruleFields_set {place : Nat} (pool : Nat) (there : rules[place]? = some pstRule)
    (other : RuleNodeS IpAclRule) :
    ruleFields pool (rules.set place other) + poolFields pstRule.rule.stRuleCfg.stKey.pools pool =
      ruleFields pool rules + poolFields other.rule.stRuleCfg.stKey.pools pool := by
  induction rules generalizing place with
  | nil => exact nomatch there
  | cons _ _ ih =>
    cases place with
    | zero =>
      obtain rfl := Option.some.inj there
      rw [set_cons_zero, ruleFields_cons, ruleFields_cons]
      omega
    | succ =>
      have rest := ih there
      rw [set_cons_succ, ruleFields_cons, ruleFields_cons]
      omega

theorem ordered_of_ids (ordered : Ordered false rules)
    (same : others.map RuleNodeS.uiRuleID = rules.map RuleNodeS.uiRuleID) :
    Ordered false others := by
  have ids : (rules.map RuleNodeS.uiRuleID).Pairwise fun first second =>
      Before false first.toNat second.toNat := pairwise_map.mpr ordered
  rw [← same] at ids
  exact (pairwise_map (R := fun first second : UINT =>
    Before false first.toNat second.toNat)).mp ids

theorem RefsOk.updateRule (ok : RefsOk acl) (pstList place : Nat) (pstRuleCfg : IpAclRuleCfg) :
    RefsOk (ipaclUpdateRule acl pstList place pstRuleCfg) := by
  rw [ipaclUpdateRule]
  split
  · exact ok
  next pstRule there =>
  refine ok.write (fun pool => ?_) (ordered_of_ids (ok.ordered pstList) ?_)
  · have fields := congrArg (BitVec.ofNat 32) (ruleFields_set pool there
      { pstRule with rule := { pstRule.rule with stRuleCfg := pstRuleCfg } })
    rw [BitVec.ofNat_add, BitVec.ofNat_add] at fields
    rw [Option.getD_some, ipaclIncPoolRef_eq, ipaclDecPoolRef_eq]
    grind
  apply ext_getElem?
  intro other
  rw [Option.getD_some, getElem?_map, getElem?_map, getElem?_set]
  split
  · next same =>
    subst same
    split
    · rw [there]
      rfl
    next beyond =>
    rw [getElem?_eq_none (Nat.le_of_not_lt beyond)] at there
    exact nomatch there
  · rfl

section Match

variable (addressPoolMatchIpPool : Option Nat → UINT → Bool)
  (portPoolMatchPortPool : Option Nat → USHORT → Bool)

def IpAclKeyBit.Holds (pstMatchInfo : IpAclMatchInfo) (stKey : IpAclKey) (ucProto : UCHAR) :
    IpAclKeyBit → Prop
  | sip => pstMatchInfo.uiSIP &&& stKey.single.stSIP.uiWildcard =
      stKey.single.stSIP.uiIP &&& stKey.single.stSIP.uiWildcard
  | dip => pstMatchInfo.uiDIP &&& stKey.single.stDIP.uiWildcard =
      stKey.single.stDIP.uiIP &&& stKey.single.stDIP.uiWildcard
  | sport => stKey.single.stSPort.usBegin ≤ pstMatchInfo.usSPort ∧
      pstMatchInfo.usSPort ≤ stKey.single.stSPort.usEnd
  | dport => stKey.single.stDPort.usBegin ≤ pstMatchInfo.usDPort ∧
      pstMatchInfo.usDPort ≤ stKey.single.stDPort.usEnd
  | proto => pstMatchInfo.ucProto = ucProto
  | poolSip => addressPoolMatchIpPool stKey.pools.pstSipPool pstMatchInfo.uiSIP = true
  | poolDip => addressPoolMatchIpPool stKey.pools.pstDipPool pstMatchInfo.uiDIP = true
  | poolSport => portPoolMatchPortPool stKey.pools.pstSportPool pstMatchInfo.usSPort = true
  | poolDport => portPoolMatchPortPool stKey.pools.pstDportPool pstMatchInfo.usDPort = true

/-- An enabled rule all of whose keys that the packet shares hold. -/
def Matches (pstMatchInfo : IpAclMatchInfo) (pstRuleCfg : IpAclRuleCfg) : Prop :=
  pstRuleCfg.bEnable = true ∧ ∀ key, sharedKey pstMatchInfo pstRuleCfg key = true →
    key.Holds addressPoolMatchIpPool portPoolMatchPortPool pstMatchInfo pstRuleCfg.stKey
      pstRuleCfg.ucProto

theorem refused_iff {refused rest : Bool} :
    (if refused = true then false else rest) = true ↔ refused = false ∧ rest = true := by
  cases refused <;> simp

theorem ipaclMatchByRule_iff (pstMatchInfo : IpAclMatchInfo) (pstRuleCfg : IpAclRuleCfg) :
    ipaclMatchByRule addressPoolMatchIpPool portPoolMatchPortPool pstMatchInfo pstRuleCfg = true ↔
      Matches addressPoolMatchIpPool portPoolMatchPortPool pstMatchInfo pstRuleCfg := by
  rw [ipaclMatchByRule, Matches]
  simp only [refused_iff, not_eq_false', and_eq_false_imp, bne_eq_false_iff_eq,
    or_eq_false_iff, decide_eq_false_iff_not, BitVec.not_lt, gt_iff_lt]
  refine and_congr_right fun _ => ?_
  constructor
  · rintro ⟨proto, sip, dip, sport, dport, poolSip, poolDip, poolSport, poolDport, -⟩ key
    cases key with
    | proto => exact proto
    | sip => exact sip
    | dip => exact dip
    | sport => exact sport
    | dport => exact dport
    | poolSip => exact poolSip
    | poolDip => exact poolDip
    | poolSport => exact poolSport
    | poolDport => exact poolDport
  · intro all
    exact ⟨all .proto, all .sip, all .dip, all .sport, all .dport, all .poolSip, all .poolDip,
      all .poolSport, all .poolDport, trivial⟩

theorem ipaclMatchRules_eq (pstMatchInfo : IpAclMatchInfo) (rules : List (RuleNodeS IpAclRule)) :
    (ipaclMatchRules addressPoolMatchIpPool portPoolMatchPortPool pstMatchInfo rules).2 =
      rules.find? (fun pstRule => ipaclMatchByRule addressPoolMatchIpPool portPoolMatchPortPool
        pstMatchInfo pstRule.rule.stRuleCfg) ∧
    (ipaclMatchRules addressPoolMatchIpPool portPoolMatchPortPool pstMatchInfo rules).1.map
        (fun pstRule => (pstRule.uiRuleID, pstRule.rule.stRuleCfg)) =
      rules.map fun pstRule => (pstRule.uiRuleID, pstRule.rule.stRuleCfg) := by
  induction rules with
  | nil => exact ⟨rfl, rfl⟩
  | cons _ _ ih =>
    rw [ipaclMatchRules, find?_cons]
    split
    · next matched =>
      rw [matched]
      exact ⟨rfl, rfl⟩
    next missed =>
    rw [eq_false_of_not_eq_true missed]
    refine ⟨ih.1, ?_⟩
    rw [map_cons, map_cons, ih.2]

theorem ruleFields_congr (pool : Nat)
    (same : others.map (fun pstRule => (pstRule.uiRuleID, pstRule.rule.stRuleCfg)) = rules.map fun pstRule => (pstRule.uiRuleID, pstRule.rule.stRuleCfg)) :
    ruleFields pool others = ruleFields pool rules := by
  have fields := congrArg (fun parts => (parts.map fun part : UINT × IpAclRuleCfg =>
    poolFields part.2.stKey.pools pool).sum) same
  simp only [map_map] at fields
  exact fields

theorem RefsOk.match (ok : RefsOk acl) (uiListID : UINT) (pstMatchInfo : IpAclMatchInfo) :
    RefsOk (ipaclMatch addressPoolMatchIpPool portPoolMatchPortPool acl uiListID
      pstMatchInfo).1 := by
  rw [ipaclMatch]
  split
  · exact ok.ctx _
  next ctx pstList _ =>
  have scanned := (ipaclMatchRules_eq addressPoolMatchIpPool portPoolMatchPortPool pstMatchInfo
    (acl.rules pstList)).2
  have ids := congrArg (map Prod.fst) scanned
  rw [map_map, map_map] at ids
  have written : RefsOk ⟨ctx, update acl.stRuleList pstList (some (ipaclMatchRules
      addressPoolMatchIpPool portPoolMatchPortPool pstMatchInfo (acl.rules pstList)).1),
      acl.uiRefCount⟩ := by
    refine ok.write (fun pool => ?_) (ordered_of_ids (ok.ordered pstList) ids)
    rw [Option.getD_some, ruleFields_congr pool scanned]
  dsimp only
  split
  · exact written
  · exact written

/-- An add stores the rule when it returns `BS_OK`, and else no rule. -/
def StoredWhenOk (acl : IpAclHandle) (uiRuleID : UINT) (pstRuleCfg : IpAclRuleCfg)
    (added : IpAclHandle × BsStatus) : Prop :=
  (added.2 = .ok ∧ ∃ list, added.1.stRuleList = update acl.stRuleList list
      (some (ruleListAdd (acl.rules list) uiRuleID ⟨pstRuleCfg, 0⟩))) ∨
    added.2 ≠ .ok ∧ added.1.stRuleList = acl.stRuleList

/-- The action of the matching rule with the lowest id, or the default one. -/
def IsAction (rules : List (RuleNodeS IpAclRule)) (default_action : BsActionE)
    (pstMatchInfo : IpAclMatchInfo) (enAction : BsActionE) : Prop :=
  (∃ pstRule ∈ rules,
      Matches addressPoolMatchIpPool portPoolMatchPortPool pstMatchInfo pstRule.rule.stRuleCfg ∧
      (∀ other ∈ rules,
        Matches addressPoolMatchIpPool portPoolMatchPortPool pstMatchInfo other.rule.stRuleCfg →
          pstRule.uiRuleID ≤ other.uiRuleID) ∧
      enAction = pstRule.rule.stRuleCfg.enAction) ∨
    (∀ pstRule ∈ rules,
      ¬Matches addressPoolMatchIpPool portPoolMatchPortPool pstMatchInfo pstRule.rule.stRuleCfg) ∧
    enAction = default_action

theorem ipaclAddRule_stored (acl : IpAclHandle) (uiListID uiRuleID : UINT)
    (pstRuleCfg : IpAclRuleCfg) :
    StoredWhenOk acl uiRuleID pstRuleCfg (ipaclAddRule acl true uiListID uiRuleID pstRuleCfg) := by
  rw [ipaclAddRule]
  simp only [Bool.not_true, false_eq_true, if_false]
  split
  · exact .inr ⟨by simp, rfl⟩
  next ctx pstList _ =>
  rw [addRuleTo]
  split
  · exact .inr ⟨by simp, rfl⟩
  · exact .inl ⟨rfl, pstList, rfl⟩

theorem RefsOk.action (ok : RefsOk acl) {uiListID : UINT} (pstMatchInfo : IpAclMatchInfo)
    (found : (listRuleGetListByID acl.ctx uiListID).2 = some list) :
    IsAction addressPoolMatchIpPool portPoolMatchPortPool (acl.rules list)
      ((listRuleGetListByID acl.ctx uiListID).1.lists list).default_action pstMatchInfo
      (ipaclMatch addressPoolMatchIpPool portPoolMatchPortPool acl uiListID pstMatchInfo).2.1 := by
  rw [ipaclMatch]
  split
  · next missing =>
    rw [missing] at found
    exact nomatch found
  next ctx pstList there =>
  rw [there] at found ⊢
  obtain rfl := Option.some.inj found
  have scanned := (ipaclMatchRules_eq addressPoolMatchIpPool portPoolMatchPortPool pstMatchInfo
    (acl.rules pstList)).1
  dsimp only
  split
  · next none =>
    rw [none] at scanned
    refine .inr ⟨fun pstRule inside matched => ?_, rfl⟩
    exact find?_eq_none.mp scanned.symm pstRule inside
      ((ipaclMatchByRule_iff _ _ _ _).mpr matched)
  next pstRule some =>
  rw [some] at scanned
  obtain ⟨matched, _, _, split, earlier⟩ := find?_eq_some_iff_append.mp scanned.symm
  have ordered := ok.ordered pstList
  rw [split] at ordered ⊢
  refine .inl ⟨pstRule, mem_append_right _ mem_cons_self,
    (ipaclMatchByRule_iff _ _ _ _).mp matched, fun other inside others => ?_, rfl⟩
  rcases mem_append.mp inside with isEarlier | isLater
  · have missed := earlier other isEarlier
    rw [(ipaclMatchByRule_iff _ _ _ _).mpr others] at missed
    exact nomatch missed
  · rcases mem_cons.mp isLater with rfl | isLater
    · exact Nat.le_refl _
    · exact ((pairwise_cons.mp (pairwise_append.mp ordered).2.1).1 other isLater).le

end Match

section Runs

variable {addressPoolMatchIpPool : Option Nat → UINT → Bool}
  {portPoolMatchPortPool : Option Nat → USHORT → Bool} {needBits : UINT → Nat}

theorem RefsOk.next (ok : RefsOk acl) {call : IpAclCall} (ready : call.Ready acl)
    (ran : call.run addressPoolMatchIpPool portPoolMatchPortPool acl = some after) : RefsOk after := by
  cases call with
  | createList =>
    obtain rfl := Option.some.inj ran
    exact ok.fresh ready rfl
  | addList _ _ memory =>
    obtain rfl := Option.some.inj ran
    rw [ipaclAddList]
    cases memory with
    | none => exact ok.ctx _
    | some list =>
      refine ok.fresh (ready list rfl) ?_
      split <;> rfl
  | addRule =>
    obtain rfl := Option.some.inj ran
    exact ok.addRule _ _ _
  | addRule2List =>
    obtain rfl := Option.some.inj ran
    exact ok
  | updateRule =>
    obtain rfl := Option.some.inj ran
    exact ok.updateRule _ _ _
  | delRule =>
    obtain rfl := Option.some.inj ran
    exact ok.delRule _ _
  | delList =>
    obtain rfl := Option.some.inj ran
    rw [ipaclDelList]
    split
    · exact ok.ctx _
    · exact (ok.ctx _).delListNode _
  | destroyList =>
    obtain rfl := Option.some.inj ran
    exact ok.destroyList _
  | reset =>
    obtain rfl := Option.some.inj ran
    exact ok.resetLoop _ _
  | matchPacket =>
    obtain rfl := Option.some.inj ran
    exact ok.match _ _ _ _

theorem RefsOk.start {ctx : ListRuleCtrlS} : RefsOk ⟨ctx, fun _ => none, fun _ => 0⟩ where
  finite := by
    have none : {list | IpAclHandle.rules ⟨ctx, fun _ => none, fun _ => 0⟩ list ≠ []} = ∅ := by
      simp [IpAclHandle.rules]
    rw [none]
    exact Set.finite_empty
  counted pool := by
    simp [IpAclHandle.pointers, IpAclHandle.rules]
  ordered _ := .nil

theorem RefsOk.reached
    (reached : (ipacl addressPoolMatchIpPool portPoolMatchPortPool needBits).Reachable acl) :
    RefsOk acl := by
  apply System.Reachable.invariant _ _ reached
  · rintro _ ⟨_, _, _, _, _, rfl⟩
    exact .start
  · rintro _ _ _ ok ⟨ready, ran⟩
    exact ok.next ready ran

/-- In every run the counts are the pointers modulo 2^32, an add stores exactly when it returns
`BS_OK`, and a packet gets the action of the lowest rule that matches. -/
theorem ipacl_references
    (reached : (ipacl addressPoolMatchIpPool portPoolMatchPortPool needBits).Reachable acl) :
    ({list | acl.rules list ≠ []}.Finite ∧
      ∀ pool, acl.uiRefCount pool = BitVec.ofNat 32 (acl.pointers pool)) ∧
    (∀ uiListID uiRuleID pstRuleCfg, StoredWhenOk acl uiRuleID pstRuleCfg
      (ipaclAddRule acl true uiListID uiRuleID pstRuleCfg)) ∧
    (∀ hIpAclList uiRuleID pstRuleCfg, ∃ added,
      ipaclAddRule2List acl true hIpAclList uiRuleID pstRuleCfg = some added ∧
        StoredWhenOk acl uiRuleID pstRuleCfg added) ∧
    ∀ uiListID list pstMatchInfo, (listRuleGetListByID acl.ctx uiListID).2 = some list →
      IsAction addressPoolMatchIpPool portPoolMatchPortPool (acl.rules list)
        ((listRuleGetListByID acl.ctx uiListID).1.lists list).default_action pstMatchInfo
        (ipaclMatch addressPoolMatchIpPool portPoolMatchPortPool acl uiListID
          pstMatchInfo).2.1 := by
  have ok := RefsOk.reached reached
  refine ⟨⟨ok.finite, ok.counted⟩, ipaclAddRule_stored acl, fun _ _ _ => ⟨_, rfl, ?_⟩,
    fun _ _ pstMatchInfo found => ok.action _ _ pstMatchInfo found⟩
  exact .inr ⟨by simp, rfl⟩

end Runs

def exampleAcl : IpAclHandle :=
  (ipaclAddList ⟨exampleStart.ctx, fun _ => none, fun _ => 0⟩ (fun _ => true) (some 100) (some 1)
    [97]).1

def exampleCfg : IpAclRuleCfg :=
  ⟨true, .permit, 0x60, ⟨⟨some 5, some 5, none, none⟩, ⟨⟨0, 0⟩, ⟨0, 0⟩, ⟨0, 0⟩, ⟨0, 0⟩⟩⟩, 0⟩

theorem exampleAcl_reached :
    (ipacl (fun _ _ => false) (fun _ _ => false) Nap.bitsOf).Reachable exampleAcl := by
  have start : (ipacl (fun _ _ => false) (fun _ _ => false) Nap.bitsOf).Reachable
      ⟨exampleStart.ctx, fun _ => none, fun _ => 0⟩ :=
    .start ⟨fun _ => none, fun _ => 0, _, _, (Option.some_get exampleNap_created).symm, rfl⟩
  have ready : IpAclCall.Ready ⟨exampleStart.ctx, fun _ => none, fun _ => 0⟩
      (.addList (fun _ => true) (some 100) (some 1) [97]) := fun _ _ => rfl
  exact start.next ⟨ready, rfl⟩

theorem ipacl_references_stored :
    (ipaclAddRule exampleAcl true 0x80000000 10 exampleCfg).1.uiRefCount 5 =
      BitVec.ofNat 32 ((ipaclAddRule exampleAcl true 0x80000000 10 exampleCfg).1.pointers 5) := by
  have ready : IpAclCall.Ready exampleAcl (.addRule 0x80000000 10 exampleCfg) := trivial
  exact (ipacl_references (exampleAcl_reached.next ⟨ready, rfl⟩)).1.2 5

theorem napGetNodeByID_eq (head : NapHead) (id : UINT) :
    (napGetNodeByID head id).2 =
      if id = napInvalidId then none
      else if !lBitMapIsBitSetted 3 head.hLBitmap (id &&& head.ulIndexMask).toNat then none
      else (head.slots.table.getNodeByIndex (id &&& head.ulIndexMask)).filter
        fun pstCommonNode => head.ulID pstCommonNode = id := by
  rw [napGetNodeByID]
  by_cases invalid : id = napInvalidId
  · rw [if_pos invalid, if_pos invalid]
  rw [if_neg invalid, if_neg invalid]
  by_cases missing : (!napIsIndexSetted head (napCacleIndexByID head id)) = true
  · rw [if_pos missing]
    exact (if_pos missing).symm
  rw [if_neg missing]
  refine Eq.trans ?_ (if_neg missing).symm
  rw [NapSlots.pfGetNodeByIndex, napCacleIndexByID]
  cases head.slots.table.getNodeByIndex (id &&& head.ulIndexMask) with
  | none => rfl
  | some pstCommonNode =>
    by_cases same : head.ulID pstCommonNode = id <;> simp [same, Option.filter]

theorem napGetNodeByID_head (head : NapHead) (id : UINT) :
    ∃ asked, (napGetNodeByID head id).1 = { head with slots := ⟨head.slots.table, asked⟩ } := by
  simp only [napGetNodeByID, NapSlots.pfGetNodeByIndex]
  split
  · exact ⟨head.slots.asked, rfl⟩
  split
  · exact ⟨head.slots.asked, rfl⟩
  · refine ⟨napCacleIndexByID head id :: head.slots.asked, ?_⟩
    cases head.slots.table.getNodeByIndex (napCacleIndexByID head id) <;> rfl

theorem getListByID_again (ctx : ListRuleCtrlS) (uiListID : UINT) :
    (listRuleGetListByID (listRuleGetListByID ctx uiListID).1 uiListID).2 =
      (listRuleGetListByID ctx uiListID).2 := by
  have get (ctx : ListRuleCtrlS) : (listRuleGetListByID ctx uiListID).2 =
      (napGetNodeByID ctx.hListNap uiListID).2.bind ctx.pstListRule := by
    simp only [listRuleGetListByID, findHead]
    cases (napGetNodeByID ctx.hListNap uiListID).2 <;> rfl
  have after : (listRuleGetListByID ctx uiListID).1 =
      { ctx with hListNap := (napGetNodeByID ctx.hListNap uiListID).1 } := by
    simp only [listRuleGetListByID, findHead]
    cases (napGetNodeByID ctx.hListNap uiListID).2 <;> rfl
  obtain ⟨_, same⟩ := napGetNodeByID_head ctx.hListNap uiListID
  rw [get, get, after, same, napGetNodeByID_eq, napGetNodeByID_eq]

theorem exampleAcl_adds (turns : Nat) : ∃ acl,
    (ipacl (fun _ _ => false) (fun _ _ => false) Nap.bitsOf).Reachable acl ∧
      (listRuleGetListByID acl.ctx 0x80000000).2 = some 1 ∧ acl.pointers 5 = 2 * turns := by
  induction turns with
  | zero =>
    refine ⟨exampleAcl, exampleAcl_reached, by decide +kernel, ?_⟩
    have empty : ∀ list, exampleAcl.rules list = [] := by
      intro list
      have lists : exampleAcl.stRuleList = update (fun _ : Nat => none) 1 (some []) := rfl
      rw [IpAclHandle.rules, lists, update_apply]
      split <;> rfl
    simp [IpAclHandle.pointers, empty]
  | succ _ ih =>
    obtain ⟨acl, reached, found, _⟩ := ih
    have ready : IpAclCall.Ready acl (.addRule 0x80000000 10 exampleCfg) := trivial
    have added : (ipaclAddRule acl true 0x80000000 10 exampleCfg).1 =
        ⟨(listRuleGetListByID acl.ctx 0x80000000).1, update acl.stRuleList 1
          (some (ruleListAdd (acl.rules 1) 10 ⟨exampleCfg, 0⟩)),
          ipaclIncPoolRef acl.uiRefCount exampleCfg.stKey.pools⟩ := by
      rw [ipaclAddRule]
      split
      · next none => exact nomatch none
      split
      · next missing =>
        rw [missing] at found
        exact nomatch found
      next there =>
      rw [there] at found ⊢
      obtain rfl := Option.some.inj found
      rfl
    refine ⟨_, reached.next ⟨ready, rfl⟩, ?_, ?_⟩
    · rw [added, getListByID_again]
      exact found
    have total := pointers_write (listRuleGetListByID acl.ctx 0x80000000).1
      (ipaclIncPoolRef acl.uiRefCount exampleCfg.stKey.pools) 1
      (some (ruleListAdd (acl.rules 1) 10 ⟨exampleCfg, 0⟩)) ((RefsOk.reached reached).support 5)
    have two : poolFields exampleCfg.stKey.pools 5 = 2 := by decide
    rw [Option.getD_some, ruleFields_perm (ruleListAdd_perm _ _ _), ruleFields_cons, two] at total
    rw [added]
    omega

/-- With 2^31 rules that point to a pool twice, its count is 0. -/
theorem ipacl_wraps : ∃ acl,
    (ipacl (fun _ _ => false) (fun _ _ => false) Nap.bitsOf).Reachable acl ∧
      acl.pointers 5 = 2 ^ 32 ∧ acl.uiRefCount 5 = 0 := by
  obtain ⟨acl, reached, -, pointers⟩ := exampleAcl_adds (2 ^ 31)
  refine ⟨acl, reached, pointers, ?_⟩
  rw [(RefsOk.reached reached).counted, pointers]
  rfl

end MyCode.IpAcl
