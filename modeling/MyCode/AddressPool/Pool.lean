import MyCode.Lib.Transition
import MyCode.Lpm.FirstLevel

/-!
# Address pools

The rule list and the LPM of one list of an address pool, with the functions
of `address_pool_utl.c` on them.  A node is identified by its position in the
rule list.
-/

namespace MyCode.AddressPool

open Lpm List Nat

variable {nodes : List AddressPoolNode} {rule : AddressPoolNode} {pos : Nat}

def addressPoolLpmSize : Nat := 1024 * 512

structure AddressPoolNode where
  uiRuleId : UINT
  ip : UINT
  prefixLen : Nat
  deriving DecidableEq, Repr

/-- `ADDRESS_POOL_LIST_S` with the rule list that it belongs to. -/
structure AddressPoolList where
  stRuleList : List AddressPoolNode
  stLpm : LpmS LpmArray

/-- `RuleList_Add`: behind the last node or before the first node that has no
smaller id. -/
def ruleListAdd (pstList : List AddressPoolNode) (uiRuleId : UINT) (pstRule : AddressPoolNode) :
    List AddressPoolNode :=
  let pstRule := { pstRule with uiRuleId := uiRuleId }
  match pstList.getLast? with
  | none => [pstRule]
  | some pstLast =>
    if pstLast.uiRuleId < uiRuleId then
      pstList ++ [pstRule]
    else
      pstList.takeWhile (fun pstCur => pstCur.uiRuleId < uiRuleId) ++
        pstRule :: pstList.dropWhile fun pstCur => pstCur.uiRuleId < uiRuleId

/-- The longest prefix of the other nodes that cover a node. -/
def addressPoolGetUpPrefix (pstList : List AddressPoolNode) (pos : Nat)
    (pstNode : AddressPoolNode) : Nat :=
  pstList.zipIdx.foldl
    (fun upPrefix pstNodeTmp =>
      if pstNodeTmp.2 = pos ∨ pstNode.prefixLen < pstNodeTmp.1.prefixLen then
        upPrefix
      else
        let mask := prefix2Mask pstNodeTmp.1.prefixLen
        if pstNode.ip &&& mask = pstNodeTmp.1.ip &&& mask ∧ upPrefix < pstNodeTmp.1.prefixLen then
          pstNodeTmp.1.prefixLen
        else
          upPrefix)
    0

def addressPoolFindIpNode (pstList : List AddressPoolNode) (ip : UINT) (prefixLen : Nat) :
    Option Nat :=
  pstList.findIdx? fun node => node.ip == ip && node.prefixLen == prefixLen

/-- What `AddressPool_AddIpList` makes of newly allocated memory. -/
def addressPoolAddIpList (mem : Memory) (array : Nat) : AddressPoolList where
  stRuleList := []
  stLpm := lpmSetLevel gLpmFuncs
    (lpmInit (memsetZero mem array addressPoolLpmSize) array
      (BitVec.ofNat 32 addressPoolLpmSize)) 7 8

section Operations

variable (pstList : AddressPoolList)

/-- `nodeAlloc` is whether the node can be allocated. -/
def addressPoolAddIp (nodeAlloc : Bool) (alloc : LpmAlloc) (ip : UINT) (prefixLen : Nat) :
    AddressPoolList × BsStatus :=
  match addressPoolFindIpNode pstList.stRuleList ip prefixLen with
  | some _ => (pstList, .ok)
  | none =>
    if !nodeAlloc then
      (pstList, .noMemory)
    else
      let (stLpm, ret) := lpmAdd gLpmFuncs pstList.stLpm alloc ip prefixLen 1
      -- A failed `LPM_Add` is negative.
      if 0 < ret.toInt then
        ({ pstList with stLpm := stLpm }, .noMemory)
      else
        (⟨ruleListAdd pstList.stRuleList 0 ⟨0, ip, prefixLen⟩, stLpm⟩, .ok)

def addressPoolDelIp (ip : UINT) (prefixLen : Nat) : AddressPoolList :=
  match addressPoolFindIpNode pstList.stRuleList ip prefixLen with
  | none => pstList
  | some pos =>
    let upPrefix := addressPoolGetUpPrefix pstList.stRuleList pos ⟨0, ip, prefixLen⟩
    { stRuleList := pstList.stRuleList.eraseIdx pos
      stLpm := lpmDel gLpmFuncs pstList.stLpm ip prefixLen upPrefix 1 }

def addressPoolMatchIpPool (uiIp : UINT) : Bool :=
  (lpmLookup gLpmFuncs pstList.stLpm uiIp).isSome

end Operations

inductive AddressPoolCall where
  | addIp (nodeAlloc : Bool) (alloc : LpmAlloc) (ip : UINT) (prefixLen : Nat)
  | delIp (ip : UINT) (prefixLen : Nat)

def AddressPoolCall.run (pstList : AddressPoolList) : AddressPoolCall → AddressPoolList
  | addIp nodeAlloc alloc ip prefixLen => (addressPoolAddIp pstList nodeAlloc alloc ip prefixLen).1
  | delIp ip prefixLen => addressPoolDelIp pstList ip prefixLen

def addressPool : Lib.System AddressPoolList AddressPoolCall where
  start pstList := ∃ mem array, 0 < array ∧ 4 * (array + addressPoolLpmSize) < 2 ^ 64 ∧
    pstList = addressPoolAddIpList mem array
  step pstList call after := after = call.run pstList

def InBlock (ip : UINT) (prefixLen : Nat) (y : UINT) : Prop :=
  y &&& prefix2Mask prefixLen = ip &&& prefix2Mask prefixLen

instance (ip : UINT) (prefixLen : Nat) (y : UINT) : Decidable (InBlock ip prefixLen y) :=
  inferInstanceAs (Decidable (_ = _))

def Covered (nodes : List AddressPoolNode) (y : UINT) : Prop :=
  ∃ node ∈ nodes, InBlock node.ip node.prefixLen y

theorem mem_ruleListAdd {uiRuleId : UINT} {node : AddressPoolNode} :
    node ∈ ruleListAdd nodes uiRuleId rule ↔
      node = { rule with uiRuleId := uiRuleId } ∨ node ∈ nodes := by
  unfold ruleListAdd
  split
  · next empty =>
    rw [getLast?_eq_none_iff] at empty
    simp [empty]
  split
  · simp [or_comm]
  have parts := takeWhile_append_dropWhile
    (p := fun cur : AddressPoolNode => decide (cur.uiRuleId < uiRuleId)) (l := nodes)
  nth_rewrite 3 [← parts]
  simp only [mem_append, mem_cons]
  exact or_left_comm

theorem covered_ruleListAdd {uiRuleId : UINT} {y : UINT} :
    Covered (ruleListAdd nodes uiRuleId rule) y ↔
      InBlock rule.ip rule.prefixLen y ∨ Covered nodes y := by
  simp [Covered, mem_ruleListAdd]

theorem addressPoolFindIpNode_some {ip : UINT} {prefixLen : Nat}
    (found : addressPoolFindIpNode nodes ip prefixLen = some pos) :
    ∃ node, nodes[pos]? = some node ∧ node.ip = ip ∧ node.prefixLen = prefixLen := by
  rw [addressPoolFindIpNode, findIdx?_eq_some_iff_getElem] at found
  obtain ⟨inside, same, -⟩ := found
  simp only [Bool.and_eq_true, beq_iff_eq] at same
  exact ⟨nodes[pos], getElem?_eq_getElem inside, same⟩

theorem covered_iff_eraseIdx {node : AddressPoolNode} {y : UINT} (found : nodes[pos]? = some node) :
    Covered nodes y ↔ InBlock node.ip node.prefixLen y ∨ Covered (nodes.eraseIdx pos) y := by
  obtain ⟨_, same⟩ := List.getElem?_eq_some_iff.mp found
  have parts : nodes = nodes.take pos ++ node :: nodes.drop (pos + 1) := by
    rw [← same, getElem_cons_drop, take_append_drop]
  unfold Covered
  rw [eraseIdx_eq_take_drop_succ]
  nth_rewrite 1 [parts]
  simp only [mem_append, mem_cons, or_and_right, exists_or, exists_eq_left]
  exact or_left_comm

end MyCode.AddressPool

/-!
## What an address pool matches

The LPM of a pool matches the addresses whose entry is valid.  Deleting an
address gives the entries of its block a next hop whether or not another node
covers them, and adding one does not reach entries that already look deeper.
-/

namespace MyCode.AddressPool

open Lpm

variable {pstList : AddressPoolList} {ip y : UINT} {prefixLen : Nat}

/-- The entry of the first level that an address selects. -/
def poolEntry (pstList : AddressPoolList) (y : UINT) : Nat :=
  firstEntry .lpm 8 pstList.stLpm.array y

/-- A call whose effect on the entries is its effect on the list: an added
block is at most as deep as the first level and no entry in it looks deeper
without being valid, and a deleted block is covered by the nodes that stay. -/
def MatchKept (pstList : AddressPoolList) : AddressPoolCall → Prop
  | .addIp nodeAlloc _ ip prefixLen =>
    addressPoolFindIpNode pstList.stRuleList ip prefixLen = none → nodeAlloc = true →
      prefixLen ≤ 8 ∧ ∀ y, InBlock ip prefixLen y →
        entryState pstList.stLpm.array.mem (poolEntry pstList y) = stateValid ∨
          1 ≤ prefixLen ∧ entryDepth pstList.stLpm.array.mem (poolEntry pstList y) ≤ prefixLen
  | .delIp ip prefixLen =>
    ∀ pos, addressPoolFindIpNode pstList.stRuleList ip prefixLen = some pos →
      ∀ y, InBlock ip prefixLen y → Covered (pstList.stRuleList.eraseIdx pos) y

/-- The layout of a pool whose first level holds no group. -/
structure PoolShape (pstList : AddressPoolList) : Prop where
  first : pstList.stLpm.bitNum 0 = 8
  level : pstList.stLpm.level = 7
  recording : pstList.stLpm.recordingMap = none
  notNull : pstList.stLpm.array.array ≠ 0
  singles : SingleEntries .lpm 8 pstList.stLpm.array

/-- The valid entries are those of the covered addresses. -/
structure PoolOk (pstList : AddressPoolList) : Prop extends PoolShape pstList where
  short : ∀ node ∈ pstList.stRuleList, node.prefixLen ≤ 8
  valid : ∀ y, entryState pstList.stLpm.array.mem (poolEntry pstList y) = stateValid ↔
    Covered pstList.stRuleList y

theorem PoolShape.match_iff (shape : PoolShape pstList) (ip : UINT) :
    addressPoolMatchIpPool pstList ip = true ↔
      entryState pstList.stLpm.array.mem (poolEntry pstList ip) = stateValid := by
  have entry : firstEntry .lpm 8 pstList.stLpm.array ip = pstList.stLpm.array.array +
      entryIndex ip 0 (0 + pstList.stLpm.bitNum 0) * LpmKind.lpm.entryWords := by
    rw [firstEntry, shape.first, entryIndex_eq (Nat.zero_le _) (by decide),
      Nat.mod_eq_of_lt (leading_lt (by decide) ip)]
  have single := shape.singles ip
  rw [poolEntry]
  rw [entry] at single ⊢
  simp only [addressPoolMatchIpPool, lpmLookup, gLpmFuncs, arrayLookup, shape.level,
    arrayLookupInner, if_neg single]
  split
  · next valid => exact iff_of_true rfl valid
  · next invalid => exact iff_of_false Bool.false_ne_true invalid

theorem PoolShape.fill (shape : PoolShape pstList) {array : LpmArray} {depth : Nat}
    (fills : FillsPrefix .lpm 8 ip depth stateValid pstList.stLpm.array array)
    (nodes : List AddressPoolNode) :
    PoolShape ⟨nodes, { pstList.stLpm with array := array }⟩ :=
  ⟨shape.first, shape.level, shape.recording, fills.array ▸ shape.notNull,
    fills.single shape.singles (by decide)⟩

theorem inBlock_iff_leading (inside : prefixLen ≤ 32) :
    InBlock ip prefixLen y ↔ leading prefixLen y = leading prefixLen (ip &&& prefix2Mask prefixLen) := by
  rw [InBlock, and_prefix2Mask_eq_iff inside, leading_and_prefix2Mask inside]

/-- `LPM_Add` refuses the empty prefix and fills in the entries of the others. -/
theorem PoolShape.lpmAdd (shape : PoolShape pstList) (alloc : LpmAlloc) (ip : UINT)
    (upper : prefixLen ≤ 8) :
    ∃ array,
      (lpmAdd gLpmFuncs pstList.stLpm alloc ip prefixLen 1).1 =
        { pstList.stLpm with array := array } ∧
      (prefixLen < 1 ∧ array = pstList.stLpm.array ∨
        1 ≤ prefixLen ∧ FillsPrefix .lpm 8 (ip &&& prefix2Mask prefixLen) prefixLen stateValid
          pstList.stLpm.array array) := by
  by_cases empty : prefixLen < 1
  · refine ⟨pstList.stLpm.array, ?_, .inl ⟨empty, rfl⟩⟩
    unfold Lpm.lpmAdd
    rw [shape.recording]
    simp only [gLpmFuncs, arrayAdd, if_pos (Or.inl empty)]
  have inside : ¬ (prefixLen < 1 ∨ 32 < prefixLen) := by omega
  have masked := and_prefix2Mask_idem (show prefixLen ≤ 32 by omega) ip
  refine ⟨_, ?_, .inr ⟨not_lt.mp empty,
    arrayAddInner_fillsPrefix shape.first (by decide) shape.singles 6 (lpmNexthop 1) upper masked⟩⟩
  simp only [Lpm.lpmAdd, shape.recording, gLpmFuncs, arrayAdd, if_neg inside, shape.level, masked]

theorem PoolShape.lpmDel (shape : PoolShape pstList) (newDepth : Nat) (ip : UINT)
    (upper : prefixLen ≤ 8) :
    ∃ array,
      lpmDel gLpmFuncs pstList.stLpm ip prefixLen newDepth 1 =
        { pstList.stLpm with array := array } ∧
      FillsPrefix .lpm 8 (ip &&& prefix2Mask prefixLen) prefixLen stateValid
        pstList.stLpm.array array := by
  have masked := and_prefix2Mask_idem (show prefixLen ≤ 32 by omega) ip
  -- The next hop of a deleted prefix is never zero.
  have state : arrayNewState newDepth (lpmNexthop 1) = stateValid :=
    if_neg fun both => absurd both.2 (by decide)
  have fills := arrayDelInner_fillsPrefix shape.first (by decide) shape.singles 6 newDepth (lpmNexthop 1)
    upper masked shape.notNull
  rw [state] at fills
  refine ⟨_, ?_, fills⟩
  simp [Lpm.lpmDel, shape.recording, gLpmFuncs, arrayDel, shape.level]

theorem PoolOk.filled (ok : PoolOk pstList) {array : LpmArray} (inside : prefixLen ≤ 32)
    (fills : FillsPrefix .lpm 8 (ip &&& prefix2Mask prefixLen) prefixLen stateValid
      pstList.stLpm.array array) (y : UINT) :
    entryState array.mem (firstEntry .lpm 8 array y) = stateValid ↔
      InBlock ip prefixLen y ∧ entryDepth pstList.stLpm.array.mem (poolEntry pstList y) ≤ prefixLen ∨
        Covered pstList.stRuleList y := by
  rw [fills.states y, ← ok.valid y, inBlock_iff_leading inside]
  split
  · next filled => exact iff_of_true rfl (.inl filled)
  · next left => exact (or_iff_right left).symm

/-- A failed `LPM_Add` does not stop `AddressPool_AddIp`. -/
theorem addressPoolAddIp_eq {alloc : LpmAlloc}
    (absent : addressPoolFindIpNode pstList.stRuleList ip prefixLen = none) :
    (addressPoolAddIp pstList true alloc ip prefixLen).1 =
      ⟨ruleListAdd pstList.stRuleList 0 ⟨0, ip, prefixLen⟩,
        (lpmAdd gLpmFuncs pstList.stLpm alloc ip prefixLen 1).1⟩ := by
  have negative : ∀ ret : BsStatus, ¬ 0 < ret.toInt := by
    intro ret
    cases ret <;> decide
  simp [addressPoolAddIp, absent, if_neg (negative _)]

theorem PoolOk.addIp (ok : PoolOk pstList) (nodeAlloc : Bool) (alloc : LpmAlloc)
    (kept : MatchKept pstList (.addIp nodeAlloc alloc ip prefixLen)) :
    PoolOk (addressPoolAddIp pstList nodeAlloc alloc ip prefixLen).1 := by
  cases found : addressPoolFindIpNode pstList.stRuleList ip prefixLen with
  | some => rwa [addressPoolAddIp, found]
  | none =>
    cases nodeAlloc with
    | false => rwa [addressPoolAddIp, found]
    | true =>
      obtain ⟨upper, reached⟩ := kept found rfl
      rw [addressPoolAddIp_eq found]
      have short : ∀ node ∈ ruleListAdd pstList.stRuleList 0 ⟨0, ip, prefixLen⟩,
          node.prefixLen ≤ 8 := by
        intro node inside
        rcases mem_ruleListAdd.mp inside with rfl | old
        · exact upper
        · exact ok.short node old
      obtain ⟨_, lpm, added⟩ := ok.toPoolShape.lpmAdd alloc ip upper
      rw [lpm]
      rcases added with ⟨empty, rfl⟩ | ⟨lower, fills⟩
      · refine ⟨⟨ok.first, ok.level, ok.recording, ok.notNull, ok.singles⟩, short, fun y => ?_⟩
        rw [covered_ruleListAdd]
        refine (ok.valid y).trans ⟨.inr, fun covered => covered.elim (fun inBlock => ?_) id⟩
        rcases reached y inBlock with valid | ⟨lower, -⟩
        · exact (ok.valid y).mp valid
        · exact absurd empty (not_lt.mpr lower)
      refine ⟨ok.toPoolShape.fill fills _, short, fun y => ?_⟩
      rw [covered_ruleListAdd]
      refine (ok.filled (by omega) fills y).trans ⟨Or.imp_left And.left, fun covered => ?_⟩
      rcases covered with inBlock | covered
      · rcases reached y inBlock with valid | ⟨-, shallow⟩
        · exact .inr ((ok.valid y).mp valid)
        · exact .inl ⟨inBlock, shallow⟩
      · exact .inr covered

theorem PoolOk.delIp (ok : PoolOk pstList) (kept : MatchKept pstList (.delIp ip prefixLen)) :
    PoolOk (addressPoolDelIp pstList ip prefixLen) := by
  unfold addressPoolDelIp
  split
  · exact ok
  next pos found =>
  obtain ⟨node, place, rfl, rfl⟩ := addressPoolFindIpNode_some found
  have upper := ok.short node (List.mem_of_getElem? place)
  obtain ⟨_, lpm, fills⟩ := ok.toPoolShape.lpmDel
    (addressPoolGetUpPrefix pstList.stRuleList pos ⟨0, node.ip, node.prefixLen⟩) node.ip upper
  simp only [lpm]
  refine ⟨ok.toPoolShape.fill fills _,
    fun other inside => ok.short other (List.mem_of_mem_eraseIdx inside), fun y => ?_⟩
  refine (ok.filled (by omega) fills y).trans ?_
  rw [covered_iff_eraseIdx place]
  constructor
  · rintro (⟨inBlock, -⟩ | inBlock | covered)
    · exact kept pos found y inBlock
    · exact kept pos found y inBlock
    · exact covered
  · exact fun covered => .inr (.inr covered)

/-- The array that `LPM_SetLevel` finds. -/
def zeroedArray (mem : Memory) (array : Nat) : LpmArray :=
  ⟨memsetZero mem array addressPoolLpmSize, array, BitVec.ofNat 32 addressPoolLpmSize, 0⟩

theorem zeroedArray_mem (mem : Memory) (array : Nat) :
    (zeroedArray mem array).mem (zeroedArray mem array).array = 0 :=
  if_pos ⟨Nat.le_refl _, Nat.lt_add_of_pos_right (by decide)⟩

theorem addressPoolAddIpList_array (mem : Memory) (array : Nat) :
    (addressPoolAddIpList mem array).stLpm.array =
      (List.range (addressPoolLpmSize - 1)).foldl (putBlock .lpm) (zeroedArray mem array) := by
  have count : (BitVec.ofNat 32 addressPoolLpmSize - 1).toInt.toNat = addressPoolLpmSize - 1 := by
    decide
  rw [← count]
  exact initFreelist_eq .lpm (zeroedArray mem array)

theorem poolEntry_addressPoolAddIpList (mem : Memory) (array : Nat) (y : UINT) :
    poolEntry (addressPoolAddIpList mem array) y =
      (zeroedArray mem array).array + leading 8 y := by
  rw [poolEntry, firstEntry, addressPoolAddIpList_array, (foldl_putBlock_array _).1,
    LpmKind.entryWords, mul_one]

theorem addressPoolAddIpList_ok (mem : Memory) {array : Nat} (notNull : 0 < array) :
    PoolOk (addressPoolAddIpList mem array) := by
  have base : (addressPoolAddIpList mem array).stLpm.array.array = array := by
    exact (foldl_putBlock_array _).1
  have free : ∀ y, entryState (addressPoolAddIpList mem array).stLpm.array.mem
      (poolEntry (addressPoolAddIpList mem array) y) = stateFree := by
    intro y
    have bounded := leading_lt (show 8 ≤ 32 by decide) y
    have zeroed : entryState (zeroedArray mem array).mem (zeroedArray mem array).array =
        stateFree := by
      rw [entryState, zeroedArray_mem]
      decide
    have free := @foldl_putBlock_free .lpm (zeroedArray mem array) (addressPoolLpmSize - 1)
      (by decide) zeroed rfl (leading 8 y) (by rw [addressPoolLpmSize]; omega)
    rw [LpmKind.entryWords, mul_one] at free
    rw [poolEntry_addressPoolAddIpList, addressPoolAddIpList_array]
    exact free
  have empty : (addressPoolAddIpList mem array).stRuleList = [] := rfl
  refine ⟨⟨rfl, rfl, rfl, ?_, fun y => ?_⟩, by rintro _ ⟨⟩,
    fun y => ?_⟩
  · rw [base]
    exact ne_of_gt notNull
  · rw [← poolEntry, free y]
    decide
  · rw [free y, empty]
    exact iff_of_false (by decide) (by rintro ⟨_, ⟨⟩, _⟩)

theorem entryDepth_addressPoolAddIpList (mem : Memory) (array : Nat) (low : leading 8 y ≤ 1) :
    entryDepth (addressPoolAddIpList mem array).stLpm.array.mem
      (poolEntry (addressPoolAddIpList mem array) y) = 0 := by
  have bounded : addressPoolLpmSize - 2 + 1 < 2 ^ 31 := by decide
  have words := @foldl_putBlock_first (zeroedArray mem array) _ bounded
  have count : addressPoolLpmSize - 1 = addressPoolLpmSize - 2 + 1 := by decide
  rw [poolEntry_addressPoolAddIpList, addressPoolAddIpList_array, count, entryDepth]
  rcases Nat.le_one_iff_eq_zero_or_eq_one.mp low with zero | one
  · have place : (zeroedArray mem array).array + 0 = (zeroedArray mem array).array := rfl
    rw [zero, place, words.1, zeroedArray_mem]
    decide
  · have empty : (zeroedArray mem array).freeList = 0 := rfl
    rw [one, words.2, empty]
    decide

/-- In runs whose calls all keep the entries and the list together, the pool
matches the covered addresses. -/
theorem addressPoolMatchIpPool_iff (reached : addressPool.ReachableWhen MatchKept pstList)
    (ip : UINT) : addressPoolMatchIpPool pstList ip = true ↔ Covered pstList.stRuleList ip := by
  have ok : PoolOk pstList := by
    refine reached.invariant ?_ ?_
    · rintro _ ⟨mem, _, notNull, -, rfl⟩
      exact addressPoolAddIpList_ok mem notNull
    rintro _ call _ ok kept rfl
    cases call with
    | addIp nodeAlloc alloc => exact ok.addIp nodeAlloc alloc kept
    | delIp => exact ok.delIp kept
  exact (ok.match_iff ip).trans (ok.valid ip)

theorem matchKept_addIp {mem : Memory} {array : Nat} (nodeAlloc : Bool) (alloc : LpmAlloc)
    (lower : 1 ≤ prefixLen) (upper : prefixLen ≤ 8)
    (low : ∀ y, InBlock ip prefixLen y → leading 8 y ≤ 1) :
    MatchKept (addressPoolAddIpList mem array) (.addIp nodeAlloc alloc ip prefixLen) := by
  refine fun _ _ => ⟨upper, fun y inBlock => .inr ⟨lower, ?_⟩⟩
  rw [entryDepth_addressPoolAddIpList mem array (low y inBlock)]
  exact Nat.zero_le _

/-- After `AddIp(0.0.0.0, 7)`. -/
theorem addressPoolMatchIpPool_iff_low_block :
    addressPoolMatchIpPool
        ((AddressPoolCall.addIp true ⟨true, true, fun _ => true⟩ 0 7).run
          (addressPoolAddIpList (fun _ => 0) 1024)) 0x01020304 = true ↔
      Covered ((AddressPoolCall.addIp true ⟨true, true, fun _ => true⟩ 0 7).run
        (addressPoolAddIpList (fun _ => 0) 1024)).stRuleList 0x01020304 := by
  have low : ∀ y, InBlock 0 7 y → leading 8 y ≤ 1 := by
    intro y inBlock
    have half := (inBlock_iff_leading (by decide)).mp inBlock
    rw [leading_of_le (show 7 ≤ 8 by decide) (by decide)] at half
    have zero : leading 7 (0 &&& prefix2Mask 7) = 0 := by decide
    omega
  refine addressPoolMatchIpPool_iff (.step (.start ⟨fun _ => 0, 1024, by decide, by decide, rfl⟩)
    (matchKept_addIp true _ (by decide) (by decide) low) rfl) _

/-- `AddIp(1.0.0.0, 8)`, then `DelIp(1.0.0.0, 8)`: no node is left and 1.2.3.4
still matches. -/
theorem addressPoolMatchIpPool_deleted :
    ¬ ∀ pstList, addressPool.Reachable pstList → ∀ ip,
      (addressPoolMatchIpPool pstList ip = true ↔ Covered pstList.stRuleList ip) := by
  intro holds
  have low : ∀ y, InBlock 0x01000000 8 y → leading 8 y ≤ 1 := by
    intro y inBlock
    have index := (inBlock_iff_leading (by decide)).mp inBlock
    have one : leading 8 (0x01000000 &&& prefix2Mask 8) = 1 := by decide
    omega
  have alloc : LpmAlloc := ⟨true, true, fun _ => true⟩
  obtain ⟨pool, started, empty, ok, kept⟩ : ∃ pool, addressPool.start pool ∧
      pool.stRuleList = [] ∧ PoolOk pool ∧ MatchKept pool (.addIp true alloc 0x01000000 8) :=
    ⟨addressPoolAddIpList (fun _ => 0) 1024, ⟨_, _, by decide, by decide, rfl⟩, rfl,
      addressPoolAddIpList_ok _ (by decide),
      matchKept_addIp true alloc (by decide) (by decide) low⟩
  have absent : addressPoolFindIpNode pool.stRuleList 0x01000000 8 = none := by
    rw [empty]
    rfl
  have added := ok.addIp true alloc kept
  have nodes : (addressPoolAddIp pool true alloc 0x01000000 8).1.stRuleList =
      [⟨0, 0x01000000, 8⟩] := by
    rw [addressPoolAddIp_eq absent, empty]
    rfl
  have addReached := Lib.System.Reachable.next (.start started)
    (show addressPool.step pool (.addIp true alloc 0x01000000 8) _ from rfl)
  have delReached := addReached.next (show addressPool.step _ (.delIp 0x01000000 8) _ from rfl)
  simp only [AddressPoolCall.run] at delReached
  revert nodes added delReached
  generalize (addressPoolAddIp pool true alloc 0x01000000 8).1 = addedPool
  intro added nodes delReached
  have found : addressPoolFindIpNode addedPool.stRuleList 0x01000000 8 = some 0 := by
    rw [nodes]
    rfl
  obtain ⟨array, lpm, fills⟩ := added.toPoolShape.lpmDel
    (addressPoolGetUpPrefix addedPool.stRuleList 0 ⟨0, 0x01000000, 8⟩) 0x01000000
    (show 8 ≤ 8 by decide)
  have deleted : addressPoolDelIp addedPool 0x01000000 8 =
      ⟨[], { addedPool.stLpm with array := array }⟩ := by
    simp only [addressPoolDelIp, found, lpm]
    rw [nodes]
    rfl
  rw [deleted] at delReached
  have covered : Covered addedPool.stRuleList 0x01020304 := by
    rw [nodes]
    exact ⟨_, List.mem_singleton_self _, by decide⟩
  have matched := (((added.toPoolShape.fill fills []).match_iff 0x01020304).trans
    (added.filled (by decide) fills 0x01020304)).mpr (.inr covered)
  obtain ⟨_, inside, -⟩ := (holds _ delReached 0x01020304).mp matched
  exact List.not_mem_nil inside

end MyCode.AddressPool
