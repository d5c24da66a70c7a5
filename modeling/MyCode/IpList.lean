import MyCode.IpMaskTbl
import MyCode.IpPool.Pool
import MyCode.Lib.Ranges

/-!
# Ranges of addresses as subnets

`IPList_Range2SubNetList` cuts a range into the largest subnets from its begin
on, `IPLIst_SplitBySubNet` each range of a list.  The address behind the last subnet is
computed with 32 bits.
`IPList_Compress` and `IPList_Continue` sort a list of ranges and merge them.
-/

namespace MyCode.IpList

open IpPool IpMaskTbl List Nat

variable {nodeAlloc : Nat → Bool} {pstList subNets : List IpListNode} {node : IpListNode}
  {uiBeginIP uiEndIP : UINT} {eRet : BsStatus}

def rangeGetFirstMask (uiBeginIP uiEndIP : UINT) : UINT :=
  let uiPrefix := (List.range 33).find? fun uiPrefix =>
    let (uiStart, uiStop) := ipMask2Range uiBeginIP (prefix2Mask uiPrefix)
    uiStart ≥ uiBeginIP && uiStop ≤ uiEndIP
  prefix2Mask (uiPrefix.getD 32)

/-- The loop of `IPList_Range2SubNetList`.  `eRet |= ret` keeps the first status that is not zero,
which is the only one there is. -/
def range2SubNetLoop (uiEndIP : UINT) : Nat → (Nat → Bool) → List IpListNode → UINT → BsStatus →
    Option (List IpListNode × BsStatus)
  | 0, _, _, _, _ => none
  | fuel + 1, nodeAlloc, pstList, uiBeginTmp, eRet =>
    if uiBeginTmp ≤ uiEndIP then
      let uiMask := rangeGetFirstMask uiBeginTmp uiEndIP
      let (uiStartIp, uiStopIp) := ipMask2Range uiBeginTmp uiMask
      let (pstList, ret) := ipListAddRange (nodeAlloc 0) pstList uiStartIp uiStopIp
      range2SubNetLoop uiEndIP fuel (fun k => nodeAlloc (k + 1)) pstList (uiStopIp + 1)
        (if eRet = .ok then ret else eRet)
    else
      some (pstList, eRet)

/-- `nodeAlloc` answers the allocations of the nodes one after the other. -/
def ipListRange2SubNetList (fuel : Nat) (nodeAlloc : Nat → Bool) (pstList : List IpListNode)
    (uiBeginIP uiEndIP : UINT) : Option (List IpListNode × BsStatus) :=
  range2SubNetLoop uiEndIP fuel nodeAlloc pstList uiBeginIP .ok

/-- An aligned block of a power of two addresses. -/
def SubNet (node : IpListNode) : Prop :=
  ∃ bits ≤ 32, node.uiBeginIp.toNat % 2 ^ bits = 0 ∧
    node.uiEndIp.toNat + 1 = node.uiBeginIp.toNat + 2 ^ bits

/-- Subnets in ascending order, none overlapping, that make up a range. -/
structure SubNetsOf (uiBeginIP uiEndIP : UINT) (subNets : List IpListNode) : Prop where
  aligned : ∀ node ∈ subNets, SubNet node
  ascending : subNets.Pairwise fun first second => first.uiEndIp < second.uiBeginIp
  union : ∀ uiIp, uiBeginIP ≤ uiIp ∧ uiIp ≤ uiEndIP ↔
    ∃ node ∈ subNets, node.uiBeginIp ≤ uiIp ∧ uiIp ≤ node.uiEndIp

/-- The call ends, has no error but for memory, and appends the subnets of the range where it has
none. -/
def SplitsRange (nodeAlloc : Nat → Bool) (pstList : List IpListNode) (uiBeginIP uiEndIP : UINT) :
    Prop :=
  ∃ fuel after eRet,
    ipListRange2SubNetList fuel nodeAlloc pstList uiBeginIP uiEndIP = some (after, eRet) ∧
      ((∀ k, nodeAlloc k = true) → eRet = .ok) ∧
      (eRet = .ok → ∃ subNets, after = pstList ++ subNets ∧ SubNetsOf uiBeginIP uiEndIP subNets)

theorem SubNet.le (subNet : SubNet node) : node.uiBeginIp ≤ node.uiEndIp := by
  obtain ⟨_, _, _, _⟩ := subNet
  rw [BitVec.le_def]
  omega

theorem subNetsOf_nil (beyond : uiEndIP < uiBeginIP) : SubNetsOf uiBeginIP uiEndIP [] := by
  refine ⟨nofun, .nil, fun uiIp => iff_of_false ?_ nofun⟩
  rintro ⟨lower, upper⟩
  rw [BitVec.lt_def] at beyond
  rw [BitVec.le_def] at lower upper
  omega

theorem SubNetsOf.cons {uiNextIP : UINT} (subNet : SubNet node) (within : node.uiEndIp ≤ uiEndIP)
    (next : uiNextIP.toNat = node.uiEndIp.toNat + 1) (rest : SubNetsOf uiNextIP uiEndIP subNets) :
    SubNetsOf node.uiBeginIp uiEndIP (node :: subNets) := by
  have ordered := subNet.le
  refine ⟨?_, ?_, ?_⟩
  · intro other inside
    rcases mem_cons.mp inside with rfl | inRest
    · exact subNet
    · exact rest.aligned other inRest
  · refine pairwise_cons.mpr ⟨fun other inRest => ?_, rest.ascending⟩
    have behind := ((rest.union other.uiBeginIp).mpr
      ⟨other, inRest, BitVec.le_refl _, (rest.aligned other inRest).le⟩).1
    rw [BitVec.le_def] at behind
    rw [BitVec.lt_def]
    omega
  · intro uiIp
    rw [exists_mem_cons_iff, ← rest.union uiIp]
    simp only [BitVec.le_def] at ordered within ⊢
    omega

theorem toNat_and_mask {depth : Nat} (inside : depth ≤ 32) (ip : UINT) :
    (ip &&& prefix2Mask depth).toNat = ip.toNat - ip.toNat % 2 ^ (32 - depth) := by
  have whole := div_add_mod' ip.toNat (2 ^ (32 - depth))
  rw [toNat_and_prefix2Mask inside, leading]
  omega

theorem toNat_or_not_mask {depth : Nat} (inside : depth ≤ 32) (ip : UINT) :
    (ip ||| ~~~prefix2Mask depth).toNat + 1 =
      (ip &&& prefix2Mask depth).toNat + 2 ^ (32 - depth) := by
  have apart : (ip &&& prefix2Mask depth) &&& ~~~prefix2Mask depth = 0#32 := by
    ext bit bounded
    simp
  have split : ip ||| ~~~prefix2Mask depth = (ip &&& prefix2Mask depth) + ~~~prefix2Mask depth := by
    rw [BitVec.add_eq_or_of_and_eq_zero _ _ apart]
    grind
  have positive : 0 < 2 ^ (32 - depth) := Nat.pow_pos (by decide)
  have hosts : (~~~prefix2Mask depth).toNat = 2 ^ (32 - depth) - 1 := by
    have ones := toNat_and_not_prefix2Mask inside (BitVec.allOnes 32)
    have powers : 2 ^ 32 = 2 ^ (32 - depth) * 2 ^ depth := by
      rw [← pow_add, Nat.sub_add_cancel inside]
    have blocks : 2 ^ 32 - 1 = 2 ^ (32 - depth) - 1 + 2 ^ (32 - depth) * (2 ^ depth - 1) := by
      have some : 0 < 2 ^ depth := Nat.pow_pos (by decide)
      have more := Nat.le_mul_of_pos_right (2 ^ (32 - depth)) some
      rw [powers, mul_sub_one]
      omega
    rw [BitVec.allOnes_and, BitVec.toNat_allOnes, blocks, add_mul_mod_self_left,
      mod_eq_of_lt (sub_one_lt positive.ne')] at ones
    exact ones
  rw [split, BitVec.toNat_add_of_and_eq_zero apart, hosts]
  omega

theorem rangeGetFirstMask_subNet (ordered : uiBeginIP ≤ uiEndIP) :
    ∃ uiStopIp, ipMask2Range uiBeginIP (rangeGetFirstMask uiBeginIP uiEndIP) = (uiBeginIP, uiStopIp) ∧
      SubNet ⟨uiBeginIP, uiStopIp⟩ ∧ uiStopIp ≤ uiEndIP := by
  -- The mask of a prefix that passes the test keeps the begin, which is aligned then.
  have passed : ∀ depth ≤ 32, uiBeginIP ≤ uiBeginIP &&& prefix2Mask depth →
      (uiBeginIP ||| ~~~prefix2Mask depth) ≤ uiEndIP →
      ∃ uiStopIp, ipMask2Range uiBeginIP (prefix2Mask depth) = (uiBeginIP, uiStopIp) ∧
        SubNet ⟨uiBeginIP, uiStopIp⟩ ∧ uiStopIp ≤ uiEndIP := by
    intro depth inside lower upper
    have start := toNat_and_mask inside uiBeginIP
    have size := toNat_or_not_mask inside uiBeginIP
    have below := mod_le uiBeginIP.toNat (2 ^ (32 - depth))
    rw [BitVec.le_def] at lower
    have same : uiBeginIP &&& prefix2Mask depth = uiBeginIP := by
      apply BitVec.eq_of_toNat_eq
      omega
    rw [same] at start size
    refine ⟨_, by rw [ipMask2Range, same], ⟨32 - depth, sub_le _ _, ?_, size⟩, upper⟩
    change uiBeginIP.toNat % 2 ^ (32 - depth) = 0
    omega
  rw [rangeGetFirstMask]
  cases first : (range 33).find? fun uiPrefix =>
      decide ((ipMask2Range uiBeginIP (prefix2Mask uiPrefix)).1 ≥ uiBeginIP) &&
        decide ((ipMask2Range uiBeginIP (prefix2Mask uiPrefix)).2 ≤ uiEndIP) with
  | none =>
    apply passed 32 (le_refl _)
    · have whole : uiBeginIP &&& prefix2Mask 32 = uiBeginIP := BitVec.and_allOnes
      rw [whole]
      exact BitVec.le_refl _
    · have single : uiBeginIP ||| ~~~prefix2Mask 32 = uiBeginIP := BitVec.or_zero
      rw [single]
      exact ordered
  | some uiPrefix =>
    have inside := mem_range.mp (mem_of_find?_eq_some first)
    have test := find?_some first
    simp only [Bool.and_eq_true, decide_eq_true_eq] at test
    exact passed uiPrefix (le_of_lt_succ inside) test.1 test.2

theorem range2SubNetLoop_splits (small : uiEndIP ≠ 0xffffffff) (steps : Nat)
    (distance : uiEndIP.toNat + 1 ≤ uiBeginIP.toNat + steps) :
    ∃ fuel after final, range2SubNetLoop uiEndIP fuel nodeAlloc pstList uiBeginIP eRet =
        some (after, final) ∧
      ((∀ k, nodeAlloc k = true) → final = eRet) ∧
      (final = .ok → eRet = .ok ∧
        ∃ subNets, after = pstList ++ subNets ∧ SubNetsOf uiBeginIP uiEndIP subNets) := by
  induction steps generalizing nodeAlloc pstList uiBeginIP eRet with
  | zero =>
    have beyond : uiEndIP < uiBeginIP := by
      rw [BitVec.lt_def]
      omega
    refine ⟨1, pstList, eRet, ?_, fun _ => rfl, fun isOk => ⟨isOk, [], ?_, subNetsOf_nil beyond⟩⟩
    · rw [range2SubNetLoop, if_neg (BitVec.not_le.mpr beyond)]
    · exact (append_nil _).symm
  | succ _ ih =>
    by_cases ordered : uiBeginIP ≤ uiEndIP
    · obtain ⟨uiStopIp, range, subNet, within⟩ := rangeGetFirstMask_subNet ordered
      have next : (uiStopIp + 1).toNat = uiStopIp.toNat + 1 := by
        have last : uiEndIP.toNat ≠ 0xffffffff := fun same => small (BitVec.eq_of_toNat_eq same)
        rw [BitVec.le_def] at within
        rw [BitVec.toNat_add, mod_eq_of_lt]
        · rfl
        · change uiStopIp.toNat + 1 < 2 ^ 32
          omega
      have behind : uiBeginIP.toNat ≤ uiStopIp.toNat := subNet.le
      obtain ⟨fuel, after, final, run, kept, splits⟩ := @ih
        (fun k => nodeAlloc (k + 1)) (ipListAddRange (nodeAlloc 0) pstList uiBeginIP uiStopIp).1
        (uiStopIp + 1)
        (if eRet = .ok then (ipListAddRange (nodeAlloc 0) pstList uiBeginIP uiStopIp).2 else eRet)
        (by rw [next]; omega)
      refine ⟨fuel + 1, after, final, ?_, ?_, ?_⟩
      · rw [range2SubNetLoop, if_pos ordered]
        simp only [range]
        exact run
      · intro allocates
        rw [kept fun k => allocates (k + 1), ipListAddRange, if_pos (allocates 0)]
        split
        · next isOk => exact isOk.symm
        · rfl
      intro isOk
      obtain ⟨stillOk, subNets, appended, rest⟩ := splits isOk
      have noError : eRet = .ok := by
        by_contra error
        rw [if_neg error] at stillOk
        exact error stillOk
      rw [if_pos noError] at stillOk
      cases allocated : nodeAlloc 0 with
      | false => simp [ipListAddRange, allocated] at stillOk
      | true =>
        refine ⟨noError, ⟨uiBeginIP, uiStopIp⟩ :: subNets, ?_, rest.cons subNet within next⟩
        rw [appended, ipListAddRange, if_pos allocated, append_assoc]
        rfl
    · have beyond := BitVec.not_le.mp ordered
      refine ⟨1, pstList, eRet, ?_, fun _ => rfl,
        fun isOk => ⟨isOk, [], (append_nil _).symm, subNetsOf_nil beyond⟩⟩
      rw [range2SubNetLoop, if_neg ordered]

theorem range2SubNetLoop_endless (fuel : Nat) :
    range2SubNetLoop 0xffffffff fuel nodeAlloc pstList uiBeginIP eRet = none := by
  induction fuel generalizing nodeAlloc pstList uiBeginIP eRet with
  | zero => rfl
  | succ _ ih =>
    have ordered : uiBeginIP ≤ 0xffffffff := le_of_lt_succ uiBeginIP.isLt
    rw [range2SubNetLoop, if_pos ordered]
    exact ih

/-- A range is split into its subnets exactly where it does not end at the last address. -/
theorem ipListRange2SubNetList_splits (nodeAlloc : Nat → Bool) (pstList : List IpListNode)
    (ordered : uiBeginIP ≤ uiEndIP) :
    SplitsRange nodeAlloc pstList uiBeginIP uiEndIP ↔ uiEndIP ≠ 0xffffffff := by
  constructor
  · rintro ⟨_, _, _, run, _⟩ rfl
    rw [ipListRange2SubNetList, range2SubNetLoop_endless] at run
    cases run
  · intro small
    obtain ⟨fuel, after, eRet, run, kept, splits⟩ := @range2SubNetLoop_splits nodeAlloc pstList
      uiBeginIP uiEndIP .ok small (uiEndIP.toNat + 1) (by omega)
    exact ⟨fuel, after, eRet, run, kept, fun isOk => (splits isOk).2⟩

theorem ipListRange2SubNetList_splits_small :
    SplitsRange (fun _ => true) [] 0x0a000001 0x0a000006 ↔ (0x0a000006 : UINT) ≠ 0xffffffff :=
  ipListRange2SubNetList_splits (fun _ => true) [] (by decide)

/-- The whole address space is cut again and again. -/
theorem ipListRange2SubNetList_endless :
    (∀ fuel, ipListRange2SubNetList fuel (fun _ => true) [] 0 0xffffffff = none) ∧
      ¬ ∀ uiBeginIP uiEndIP, uiBeginIP ≤ uiEndIP →
        SplitsRange (fun _ => true) [] uiBeginIP uiEndIP := by
  have endless : ∀ fuel, ipListRange2SubNetList fuel (fun _ => true) [] 0 0xffffffff = none :=
    fun fuel => range2SubNetLoop_endless fuel
  refine ⟨endless, fun holds => ?_⟩
  obtain ⟨_, _, _, run, _⟩ := holds 0 0xffffffff (by decide)
  rw [endless] at run
  cases run

/-- Six addresses in four subnets. -/
example : ipListRange2SubNetList 5 (fun _ => true) [] 0x0a000001 0x0a000006 =
    some ([⟨0x0a000001, 0x0a000001⟩, ⟨0x0a000002, 0x0a000003⟩, ⟨0x0a000004, 0x0a000005⟩,
      ⟨0x0a000006, 0x0a000006⟩], .ok) := by
  decide +kernel

/-- The scan of `IPLIst_SplitBySubNet`.  The turns and the answers of the memory are given range by
range. -/
def splitBySubNetScan : (fuel : Nat → Nat) → (nodeAlloc : Nat → Nat → Bool) → List IpListNode →
    List IpListNode → BsStatus → Option (List IpListNode × BsStatus)
  | _, _, [], stTmpList, eRet => some (stTmpList, eRet)
  | fuel, nodeAlloc, pstNode :: nodes, stTmpList, eRet => do
    let (stTmpList, ret) ← ipListRange2SubNetList (fuel 0) (nodeAlloc 0) stTmpList
      pstNode.uiBeginIp pstNode.uiEndIp
    splitBySubNetScan (fun k => fuel (k + 1)) (fun k => nodeAlloc (k + 1)) nodes stTmpList
      (if eRet = .ok then ret else eRet)

def ipListSplitBySubNet (fuel : Nat → Nat) (nodeAlloc : Nat → Nat → Bool)
    (pstList : List IpListNode) : Option (List IpListNode × BsStatus) := do
  let (stTmpList, eRet) ← splitBySubNetScan fuel nodeAlloc pstList [] .ok
  some (if eRet = .ok then stTmpList else pstList, eRet)

/-- Subnets that have the addresses of a list of ranges, and its order where it has one. -/
structure SplitOf (pstList subNets : List IpListNode) : Prop where
  aligned : ∀ node ∈ subNets, SubNet node
  union : ∀ uiIp, (∃ node ∈ pstList, node.uiBeginIp ≤ uiIp ∧ uiIp ≤ node.uiEndIp) ↔
    ∃ node ∈ subNets, node.uiBeginIp ≤ uiIp ∧ uiIp ≤ node.uiEndIp
  ascending : (pstList.Pairwise fun first second => first.uiEndIp < second.uiBeginIp) →
    subNets.Pairwise fun first second => first.uiEndIp < second.uiBeginIp

theorem SplitOf.cons {others : List IpListNode}
    (first : SubNetsOf node.uiBeginIp node.uiEndIp subNets) (rest : SplitOf pstList others) :
    SplitOf (node :: pstList) (subNets ++ others) := by
  refine ⟨?_, ?_, ?_⟩
  · rintro other inside
    rcases mem_append.mp inside with inFirst | inRest
    · exact first.aligned other inFirst
    · exact rest.aligned other inRest
  · intro uiIp
    rw [exists_mem_cons_iff, first.union, rest.union]
    simp only [mem_append, or_and_right, exists_or]
  · intro ordered
    obtain ⟨before, ordered⟩ := pairwise_cons.mp ordered
    refine pairwise_append.mpr ⟨first.ascending, rest.ascending ordered, ?_⟩
    intro left inFirst right inRest
    have within := ((first.union left.uiEndIp).mpr
      ⟨left, inFirst, (first.aligned left inFirst).le, BitVec.le_refl _⟩).2
    obtain ⟨range, inside, behind, _⟩ := (rest.union right.uiBeginIp).mpr
      ⟨right, inRest, BitVec.le_refl _, (rest.aligned right inRest).le⟩
    have apart := before range inside
    rw [BitVec.lt_def] at apart ⊢
    rw [BitVec.le_def] at within behind
    omega

theorem splitBySubNetScan_endless {fuel : Nat → Nat} {nodeAlloc : Nat → Nat → Bool}
    {stTmpList : List IpListNode} (inside : node ∈ pstList) (last : node.uiEndIp = 0xffffffff) :
    splitBySubNetScan fuel nodeAlloc pstList stTmpList eRet = none := by
  induction inside generalizing fuel nodeAlloc stTmpList eRet with
  | head =>
    rw [splitBySubNetScan, ipListRange2SubNetList, last, range2SubNetLoop_endless]
    rfl
  | tail _ _ ih => simp [splitBySubNetScan, ih]

theorem splitBySubNetScan_splits (nodeAlloc : Nat → Nat → Bool) (stTmpList : List IpListNode)
    (eRet : BsStatus) (small : ∀ node ∈ pstList, node.uiEndIp ≠ 0xffffffff) :
    ∃ fuel after final, splitBySubNetScan fuel nodeAlloc pstList stTmpList eRet =
        some (after, final) ∧
      (final = .ok → eRet = .ok ∧ ∃ subNets, after = stTmpList ++ subNets ∧
        SplitOf pstList subNets) := by
  induction pstList generalizing nodeAlloc stTmpList eRet with
  | nil =>
    exact ⟨fun _ => 0, _, _, rfl,
      fun isOk => ⟨isOk, [], (append_nil _).symm, by simp, by simp, fun _ => .nil⟩⟩
  | cons pstNode _ ih =>
    obtain ⟨smallHere, smallRest⟩ := forall_mem_cons.mp small
    obtain ⟨fuel, middle, added, first, _, splits⟩ := @range2SubNetLoop_splits (nodeAlloc 0)
      stTmpList pstNode.uiBeginIp _ .ok smallHere (pstNode.uiEndIp.toNat + 1) (by omega)
    obtain ⟨more, after, final, rest, splitsRest⟩ := ih (fun k => nodeAlloc (k + 1)) middle
      (if eRet = .ok then added else eRet) smallRest
    refine ⟨fun k => k.casesOn fuel more, after, final, ?_, fun isOk => ?_⟩
    · exact Option.bind_eq_some_iff.mpr ⟨(middle, added), first, rest⟩
    obtain ⟨stillOk, others, rfl, split⟩ := splitsRest isOk
    have noError : eRet = .ok := by
      by_contra error
      rw [if_neg error] at stillOk
      exact error stillOk
    rw [if_pos noError] at stillOk
    obtain ⟨_, subNets, rfl, blocks⟩ := splits stillOk
    exact ⟨noError, subNets ++ others, append_assoc .., split.cons blocks⟩

open Lib Lib.Ranges

/-- `DLL_Sort`: each node goes before the first one that it compares less than. -/
def dllSort {Node : Type} (pfFunc : Node → Node → Int) (nodes : List Node) : List Node :=
  insertAll (fun pstNode1 pstNode2 => pfFunc pstNode1 pstNode2 < 0) nodes

def ipListCmp (pstNode1 pstNode2 : IpListNode) : Int :=
  if pstNode1.uiBeginIp > pstNode2.uiBeginIp then 1
  else if pstNode1.uiBeginIp < pstNode2.uiBeginIp then -1
  else if pstNode1.uiEndIp < pstNode2.uiEndIp then 1
  else if pstNode1.uiEndIp > pstNode2.uiEndIp then -1
  else 0

def ipListSort (pstList : List IpListNode) : List IpListNode :=
  dllSort ipListCmp pstList

def ipListCompress (pstList : List IpListNode) : List IpListNode :=
  sweep
    (fun pstNode pstNodeNext =>
      if pstNodeNext.uiEndIp ≤ pstNode.uiEndIp then some pstNode else none)
    (fun pstNode pstNodeNext =>
      if pstNodeNext.uiBeginIp ≤ pstNode.uiEndIp then
        { pstNodeNext with uiBeginIp := pstNode.uiEndIp + 1 }
      else pstNodeNext)
    (ipListSort pstList)

def ipListContinue (pstList : List IpListNode) : List IpListNode :=
  sweep
    (fun pstNode pstNodeNext =>
      if pstNodeNext.uiBeginIp = pstNode.uiEndIp + 1 then
        some { pstNode with uiEndIp := pstNodeNext.uiEndIp }
      else none)
    (fun _ pstNodeNext => pstNodeNext)
    (ipListCompress pstList)

instance : Ranged IpListNode where
  first node := node.uiBeginIp.toNat
  last node := node.uiEndIp.toNat

/-- A comparison that puts the smaller begin first, and the longer range of two with one begin. -/
theorem dllSort_longestFirst {Node : Type} [Ranged Node] {pfFunc : Node → Node → Int}
    (before : ∀ pstNode1 pstNode2, pfFunc pstNode1 pstNode2 < 0 → LongestFirst pstNode1 pstNode2)
    (after : ∀ pstNode1 pstNode2, 0 ≤ pfFunc pstNode1 pstNode2 → LongestFirst pstNode2 pstNode1)
    (nodes : List Node) : (dllSort pfFunc nodes).Pairwise LongestFirst := by
  apply pairwise_insertAll
  · exact fun _ _ _ => LongestFirst.trans
  · exact fun new element stopped => before new element (of_decide_eq_true stopped)
  · exact fun new element passed => after new element (not_lt.mp (of_decide_eq_false passed))

theorem ipListSort_longestFirst (pstList : List IpListNode) :
    (ipListSort pstList).Pairwise LongestFirst := by
  apply dllSort_longestFirst
  · intro pstNode1 pstNode2 less
    simp only [ipListCmp, gt_iff_lt, BitVec.lt_def] at less
    simp only [LongestFirst, Ranged.first, Ranged.last]
    grind
  intro pstNode1 pstNode2 notLess
  simp only [ipListCmp, gt_iff_lt, BitVec.lt_def] at notLess
  simp only [LongestFirst, Ranged.first, Ranged.last]
  grind

theorem toNat_uiEndIp_add_one {pstNode pstNodeNext : IpListNode}
    (behind : Ranged.last pstNode < Ranged.last pstNodeNext) :
    (pstNode.uiEndIp + 1).toNat = pstNode.uiEndIp.toNat + 1 := by
  have passed := Int.ofNat_lt.mp behind
  rw [BitVec.toNat_add, mod_eq_of_lt]
  · rfl
  · change pstNode.uiEndIp.toNat + 1 < 2 ^ 32
    omega

theorem ipListCompress_disjoint (pstList : List IpListNode) :
    DisjointCover pstList (ipListCompress pstList) := by
  have sorted := ipListSort_longestFirst pstList
  have drops : DropsNested fun pstNode pstNodeNext : IpListNode =>
      if pstNodeNext.uiEndIp ≤ pstNode.uiEndIp then some pstNode else none := by
    intro pstNode pstNodeNext
    simp [Ranged.last, BitVec.le_def]
  have cuts : CutsOverlap fun pstNode pstNodeNext : IpListNode =>
      if pstNodeNext.uiBeginIp ≤ pstNode.uiEndIp then
        { pstNodeNext with uiBeginIp := pstNode.uiEndIp + 1 }
      else pstNodeNext := by
    intro pstNode pstNodeNext behind
    have next := toNat_uiEndIp_add_one behind
    by_cases overlap : pstNodeNext.uiBeginIp ≤ pstNode.uiEndIp
    · have later := Int.le_add_one (Int.ofNat_le.mpr overlap)
      simp only [if_pos overlap]
      exact ⟨(congrArg Int.ofNat next).trans (max_eq_right later).symm, rfl⟩
    · have beyond := Int.ofNat_lt.mpr (BitVec.not_le.mp overlap)
      simp only [if_neg overlap]
      exact ⟨(max_eq_left beyond).symm, trivial⟩
  exact ⟨sweep_apart drops cuts sorted, fun number =>
    (sweep_covered drops cuts sorted).trans (covered_perm (insertAll_perm _ pstList))⟩

theorem ipListContinue_gapped (pstList : List IpListNode) :
    GappedCover pstList (ipListContinue pstList) := by
  apply (ipListCompress_disjoint pstList).sweep
  intro pstNode pstNodeNext behind
  have next := toNat_uiEndIp_add_one behind
  have touches : Ranged.first pstNodeNext = Ranged.last pstNode + 1 ↔
      pstNodeNext.uiBeginIp = pstNode.uiEndIp + 1 := by
    rw [← BitVec.toNat_inj, next]
    simp only [Ranged.first, Ranged.last]
    omega
  by_cases touch : pstNodeNext.uiBeginIp = pstNode.uiEndIp + 1
  · rw [if_pos (touches.mpr touch)]
    exact ⟨{ pstNode with uiEndIp := pstNodeNext.uiEndIp }, if_pos touch, rfl, rfl⟩
  · rw [if_neg (mt touches.mp touch)]
    exact if_neg touch

/-- Compressing leaves ranges in ascending order that share no address, joining leaves an address
between any two, and both keep the addresses. -/
theorem ipList_merges (pstList : List IpListNode) :
    DisjointCover pstList (ipListCompress pstList) ∧
      GappedCover pstList (ipListContinue pstList) :=
  ⟨ipListCompress_disjoint pstList, ipListContinue_gapped pstList⟩

/-- Nested, overlapping and adjacent ranges up to the last address. -/
example : ipListContinue [⟨0xffffff00, 0xffffffff⟩, ⟨3, 9⟩, ⟨1, 5⟩, ⟨10, 12⟩, ⟨2, 4⟩] =
    [⟨1, 12⟩, ⟨0xffffff00, 0xffffffff⟩] := by
  decide

end MyCode.IpList
