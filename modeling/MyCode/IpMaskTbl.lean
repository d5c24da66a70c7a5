import MyCode.Net
import MyCode.Bitmap
import MyCode.Hash.Contents

/-!
# Tables of IP prefixes

`ip_mask_tbl.c` with the filter of `ipmasktbl_bf.c`: a bit for each network of
depth 24.  A filtered search asks the filter before every probe.  Addresses are in
network order.
-/

namespace MyCode.IpMaskTbl

open Hash Bitmap List Nat BitVec Option

structure IpmasktblKey where
  ip : UINT
  depth : UCHAR
  deriving DecidableEq

structure IpmasktblNode (Data : Type) where
  ip : UINT
  depth : UCHAR
  depth_le : depth.toNat ≤ 32
  data : Data
  deriving DecidableEq

def netMask (depth : Nat) : UINT :=
  htonl (prefix2Mask depth)

def ipmasktblHashCmp (node toFind : IpmasktblKey) : UINT :=
  if node.ip - toFind.ip ≠ 0 then
    node.ip - toFind.ip
  else
    node.depth.setWidth 32 - toFind.depth.setWidth 32

def ipmasktblFuncs (Data : Type) : HashFuncs (IpmasktblNode Data) IpmasktblKey where
  key node := ⟨node.ip, node.depth⟩
  pfHashIndexFunc key := ntohl key.ip
  pfCmpFunc := ipmasktblHashCmp

/-- The bits of an `IPMASKTBL_BF_S`. -/
abbrev IpmasktblBf := Nat → UINT

def ipmasktblBfInit : IpmasktblBf := fun _ => 0

def bfDepth (depth : UCHAR) : Nat :=
  if 24 < depth.toNat then 24 else depth.toNat

/-- `IpMask_2_Range`. -/
def ipMask2Range (uiIp uiMask : UINT) : UINT × UINT :=
  (uiIp &&& uiMask, uiIp ||| ~~~uiMask)

/-- The first and the last network of depth 24 under a prefix. -/
def bfRange (ip : UINT) (depth : UCHAR) : Nat × Nat :=
  let mask := prefix2Mask (bfDepth depth)
  let (start, stop) := ipMask2Range (ntohl ip &&& mask) mask
  ((start >>> 8).toNat, (stop >>> 8).toNat)

def ipmasktblBfSet (bf : IpmasktblBf) (ip : UINT) (depth : UCHAR) : IpmasktblBf :=
  let (start, stop) := bfRange ip depth
  (range' start (stop + 1 - start)).foldl arrayBitSet bf

def ipmasktblBfTest (bf : IpmasktblBf) (ip : UINT) (depth : UCHAR) : Bool :=
  let (start, stop) := bfRange ip depth
  if !arrayBitTest bf start then
    false
  else if start = stop then
    true
  else
    arrayBitTest bf stop

section Operations

variable {Data : Type} (hHash : HashS (IpmasktblNode Data))

def maskNode (node : IpmasktblNode Data) : IpmasktblNode Data :=
  { node with ip := node.ip &&& netMask node.depth.toNat }

def ipmasktblAdd (node : IpmasktblNode Data) : HashS (IpmasktblNode Data) × BsStatus :=
  let node := maskNode node
  match hashFind (ipmasktblFuncs Data) hHash ⟨node.ip, node.depth⟩ with
  | some _ => (hHash, .alreadyExist)
  | none => (hashAdd (ipmasktblFuncs Data) hHash node, .ok)

def ipmasktblDel [DecidableEq Data] (node : IpmasktblNode Data) : HashS (IpmasktblNode Data) :=
  hashDelNode (ipmasktblFuncs Data) hHash node

/-- The key that both searches look for in turn `i`. -/
def probeKey (uiDstIp : UINT) (i : Nat) : IpmasktblKey :=
  ⟨uiDstIp &&& netMask (32 - i), BitVec.ofNat 8 (32 - i)⟩

def ipmasktblMatch (uiDstIp : UINT) : Option (IpmasktblNode Data) :=
  (range 33).findSome? fun i => hashFind (ipmasktblFuncs Data) hHash (probeKey uiDstIp i)

def ipmasktblBfMatch (bf : IpmasktblBf) (uiDstIp : UINT) : Option (IpmasktblNode Data) :=
  (range 33).findSome? fun i =>
    let stToFind := probeKey uiDstIp i
    if !ipmasktblBfTest bf stToFind.ip stToFind.depth then
      none
    else
      hashFind (ipmasktblFuncs Data) hHash stToFind

end Operations

section Runs

variable {Data : Type} [DecidableEq Data]

inductive IpmasktblCall (Data : Type) where
  | add (node : IpmasktblNode Data)
  | del (node : IpmasktblNode Data)
  | bfInit
  | bfSet (ip : UINT) (depth : UCHAR)

/-- A table and a filter, beside the entries that the table should hold and the
prefixes that were set in the filter. -/
structure IpmasktblRun (Data : Type) where
  hHash : HashS (IpmasktblNode Data)
  bf : IpmasktblBf
  stored : Finset (IpmasktblNode Data)
  filtered : List IpmasktblKey

def IpmasktblRun.start (mask : UINT) : IpmasktblRun Data :=
  ⟨hashInit mask, ipmasktblBfInit, ∅, []⟩

/-- An entry is stored unless there is one with its prefix. -/
def storedAdd (stored : Finset (IpmasktblNode Data)) (node : IpmasktblNode Data) :
    Finset (IpmasktblNode Data) :=
  if ∃ other ∈ stored, other.ip = (maskNode node).ip ∧ other.depth = node.depth then
    stored
  else
    insert (maskNode node) stored

def IpmasktblRun.next (run : IpmasktblRun Data) : IpmasktblCall Data → IpmasktblRun Data
  | .add node =>
    { run with
      hHash := (ipmasktblAdd run.hHash node).1
      stored := storedAdd run.stored node }
  | .del node =>
    { run with
      hHash := ipmasktblDel run.hHash node
      stored := run.stored.erase node }
  | .bfInit => { run with bf := ipmasktblBfInit, filtered := [] }
  | .bfSet ip depth =>
    { run with
      bf := ipmasktblBfSet run.bf ip depth
      filtered := ⟨ip, depth⟩ :: run.filtered }

/-- Only an entry of the table is deleted from it. -/
def IpmasktblCall.Enabled (stored : Finset (IpmasktblNode Data)) : IpmasktblCall Data → Prop
  | .del node => node ∈ stored
  | _ => True

def ipmasktblSystem (Data : Type) [DecidableEq Data] :
    Lib.System (IpmasktblRun Data) (IpmasktblCall Data) where
  start run := ∃ mask, run = .start mask
  step run call after := call.Enabled run.stored ∧ after = run.next call

def IpmasktblNode.Covers (node : IpmasktblNode Data) (ip : UINT) : Prop :=
  ip &&& netMask node.depth.toNat = node.ip

/-- An entry covers an address, and every other such entry has a shorter mask. -/
structure Longest (stored : Finset (IpmasktblNode Data)) (ip : UINT) (node : IpmasktblNode Data) :
    Prop where
  inside : node ∈ stored
  covers : node.Covers ip
  longest : ∀ other ∈ stored, other.Covers ip → other ≠ node → other.depth < node.depth

/-- Every stored entry was set in the filter, with its address before or after masking. -/
def Filtered (run : IpmasktblRun Data) : Prop :=
  ∀ node ∈ run.stored, ∃ set ∈ run.filtered,
    set.ip &&& netMask node.depth.toNat = node.ip ∧ set.depth = node.depth

end Runs

theorem arrayBitTest_sets (places : List Nat) (data : Nat → UINT) (j : Nat) :
    arrayBitTest (places.foldl arrayBitSet data) j = (decide (j ∈ places) || arrayBitTest data j) := by
  induction places generalizing data with
  | nil => simp
  | cons _ _ ih =>
    rw [foldl_cons, ih, arrayBitTest_set, ← Bool.or_assoc]
    simp [Bool.or_comm]

def Marked (bf : IpmasktblBf) (ip : UINT) (depth : UCHAR) : Prop :=
  ∀ i, (bfRange ip depth).1 ≤ i → i ≤ (bfRange ip depth).2 → arrayBitTest bf i = true

variable {bf : IpmasktblBf} {ip target : UINT} {depth : UCHAR}

theorem marked_set : Marked (ipmasktblBfSet bf ip depth) ip depth := by
  intro i lower upper
  have inside : i ∈ range' (bfRange ip depth).1
      ((bfRange ip depth).2 + 1 - (bfRange ip depth).1) := by
    rw [mem_range'_1]
    omega
  simp only [ipmasktblBfSet]
  rw [arrayBitTest_sets, decide_eq_true inside, Bool.true_or]

theorem Marked.set {other : UINT} {otherDepth : UCHAR} (marked : Marked bf ip depth) :
    Marked (ipmasktblBfSet bf other otherDepth) ip depth := by
  intro i lower upper
  simp only [ipmasktblBfSet]
  rw [arrayBitTest_sets, marked i lower upper, Bool.or_true]

theorem bfRange_le (ip : UINT) (depth : UCHAR) : (bfRange ip depth).1 ≤ (bfRange ip depth).2 := by
  simp only [bfRange, ipMask2Range, toNat_ushiftRight, shiftRight_eq_div_pow]
  apply Nat.div_le_div_right
  exact le_trans and_le_left left_le_or

theorem Marked.test (marked : Marked bf ip depth) : ipmasktblBfTest bf ip depth = true := by
  have ordered := bfRange_le ip depth
  have first := marked _ (le_refl _) ordered
  have last := marked _ ordered (le_refl _)
  simp [ipmasktblBfTest, first, last]

theorem bfDepth_le (depth : UCHAR) : bfDepth depth ≤ depth.toNat := by
  rw [bfDepth]
  split
  · next deeper => exact le_of_lt deeper
  · exact le_refl _

theorem bfRange_congr (bounded : depth.toNat ≤ 32)
    (same : ip &&& netMask depth.toNat = target &&& netMask depth.toNat) :
    bfRange ip depth = bfRange target depth := by
  have hosts : ntohl ip &&& prefix2Mask depth.toNat = ntohl target &&& prefix2Mask depth.toNat := by
    have flipped := congrArg htonl same
    rwa [netMask, htonl_and, htonl_and, htonl_htonl] at flipped
  have shorter := leading_eq_of_le (bfDepth_le depth) bounded ((and_prefix2Mask_eq_iff bounded).mp hosts)
  have masked := (and_prefix2Mask_eq_iff (le_trans (bfDepth_le depth) bounded)).mpr shorter
  simp [bfRange, masked]

theorem Marked.congr (marked : Marked bf ip depth) (bounded : depth.toNat ≤ 32)
    (same : ip &&& netMask depth.toNat = target &&& netMask depth.toNat) :
    Marked bf target depth := by
  rw [Marked, ← bfRange_congr bounded same]
  exact marked

variable {Data : Type}

theorem ipmasktblFuncs_lawful : (ipmasktblFuncs Data).Lawful := by
  rintro ⟨ip, -⟩ ⟨toFind, -⟩
  simp only [ipmasktblFuncs, ipmasktblHashCmp, IpmasktblKey.mk.injEq]
  split
  · next differs =>
    constructor
    · intro zero
      exact absurd zero differs
    · rintro ⟨rfl, -⟩
      simp at differs
  next same =>
  have equal : ip = toFind := by
    bv_omega
  constructor
  · intro zero
    exact ⟨equal, by bv_omega⟩
  · rintro ⟨-, rfl⟩
    simp

structure IpmasktblOk (run : IpmasktblRun Data) : Prop where
  stores : HashStores (ipmasktblFuncs Data) run.hHash run.stored
  masked : ∀ node ∈ run.stored, node.ip &&& netMask node.depth.toNat = node.ip
  marked : ∀ set ∈ run.filtered, Marked run.bf set.ip set.depth

variable [DecidableEq Data] {run : IpmasktblRun Data} {node : IpmasktblNode Data}

omit [DecidableEq Data] in
theorem masked_maskNode (node : IpmasktblNode Data) :
    (maskNode node).ip &&& netMask node.depth.toNat = (maskNode node).ip := by
  simp [maskNode, BitVec.and_assoc]

theorem IpmasktblOk.add (ok : IpmasktblOk run) (node : IpmasktblNode Data) :
    IpmasktblOk (run.next (.add node)) := by
  simp only [IpmasktblRun.next, ipmasktblAdd, storedAdd]
  split
  · next found isFound =>
    obtain ⟨inside, same⟩ := (ok.stores.find_eq_some_iff ipmasktblFuncs_lawful).mp isFound
    obtain ⟨sameIp, sameDepth⟩ := IpmasktblKey.mk.inj same
    rw [if_pos ⟨found, inside, sameIp, sameDepth⟩]
    exact ⟨ok.stores, ok.masked, ok.marked⟩
  next missed =>
  have absent := ok.stores.absent ipmasktblFuncs_lawful missed
  rw [if_neg]
  · refine ⟨ok.stores.add ipmasktblFuncs_lawful absent, ?_, ok.marked⟩
    intro other inside
    rcases Finset.mem_insert.mp inside with rfl | old
    · exact masked_maskNode node
    · exact ok.masked other old
  · rintro ⟨other, inside, sameIp, sameDepth⟩
    exact absent other inside (IpmasktblKey.mk.injEq .. ▸ ⟨sameIp, sameDepth⟩)

theorem IpmasktblOk.del (ok : IpmasktblOk run) (inside : node ∈ run.stored) :
    IpmasktblOk (run.next (.del node)) := by
  refine ⟨ok.stores.del ipmasktblFuncs_lawful inside, ?_, ok.marked⟩
  intro other isLeft
  exact ok.masked other (Finset.mem_of_mem_erase isLeft)

omit [DecidableEq Data] in
theorem IpmasktblOk.start (mask : UINT) : IpmasktblOk (.start mask : IpmasktblRun Data) := by
  refine ⟨hashInit_stores mask, ?_, ?_⟩
  · intro node inside
    exact absurd inside (Finset.notMem_empty node)
  · intro set inside
    nomatch inside

theorem ipmasktblSystem_ok (reached : (ipmasktblSystem Data).Reachable run) : IpmasktblOk run := by
  apply reached.invariant
  · rintro _ ⟨mask, rfl⟩
    exact .start mask
  rintro _ call _ ok ⟨enabled, rfl⟩
  cases call with
  | add node => exact ok.add node
  | del => exact ok.del enabled
  | bfInit => exact ⟨ok.stores, ok.masked, nofun⟩
  | bfSet =>
    refine ⟨ok.stores, ok.masked, ?_⟩
    intro set inside
    rcases mem_cons.mp inside with rfl | old
    · exact marked_set
    · exact (ok.marked set old).set

omit [DecidableEq Data] in
section

variable (ok : IpmasktblOk run)

include ok

theorem IpmasktblOk.find_probe {i : Nat} (bounded : i < 33) :
    hashFind (ipmasktblFuncs Data) run.hHash (probeKey ip i) = some node ↔
      node ∈ run.stored ∧ node.Covers ip ∧ node.depth.toNat = 32 - i := by
  have number : (BitVec.ofNat 8 (32 - i)).toNat = 32 - i := by
    rw [toNat_ofNat, mod_eq_of_lt (by omega)]
  rw [ok.stores.find_eq_some_iff ipmasktblFuncs_lawful]
  simp only [ipmasktblFuncs, probeKey, IpmasktblKey.mk.injEq, IpmasktblNode.Covers]
  constructor
  · rintro ⟨inside, sameIp, sameDepth⟩
    have depth : node.depth.toNat = 32 - i := by rw [sameDepth, number]
    exact ⟨inside, by rw [depth, sameIp], depth⟩
  rintro ⟨inside, covers, depth⟩
  rw [depth] at covers
  refine ⟨inside, covers.symm, ?_⟩
  apply eq_of_toNat_eq
  rw [depth, number]

omit [DecidableEq Data] in
theorem IpmasktblOk.test_probe (filtered : Filtered run) {i : Nat}
    (found : hashFind (ipmasktblFuncs Data) run.hHash (probeKey ip i) = some node) :
    ipmasktblBfTest run.bf (probeKey ip i).ip (probeKey ip i).depth = true := by
  obtain ⟨inside, same⟩ := (ok.stores.find_eq_some_iff ipmasktblFuncs_lawful).mp found
  rw [← same]
  obtain ⟨⟨_, _⟩, isSet, sameIp, rfl⟩ := filtered node inside
  apply ((ok.marked _ isSet).congr node.depth_le _).test
  rw [sameIp]
  exact (ok.masked node inside).symm

omit [DecidableEq Data] in
theorem IpmasktblOk.bfMatch_eq (filtered : Filtered run) (ip : UINT) :
    ipmasktblBfMatch run.hHash run.bf ip = ipmasktblMatch run.hHash ip := by
  rw [ipmasktblBfMatch, ipmasktblMatch]
  congr 1
  funext i
  cases found : hashFind (ipmasktblFuncs Data) run.hHash (probeKey ip i) with
  | none => simp [found]
  | some => simp [found, ok.test_probe filtered found]

omit [DecidableEq Data] in
theorem IpmasktblOk.find_turn (inside : node ∈ run.stored) (covers : node.Covers ip) :
    hashFind (ipmasktblFuncs Data) run.hHash (probeKey ip (32 - node.depth.toNat)) = some node := by
  have bounded := node.depth_le
  exact (ok.find_probe (by omega)).mpr ⟨inside, covers, by omega⟩

omit [DecidableEq Data] in
theorem IpmasktblOk.match_iff :
    ipmasktblMatch run.hHash ip = some node ↔ Longest run.stored ip node := by
  rw [ipmasktblMatch, Lib.findSome?_range_eq_some_iff]
  constructor
  · rintro ⟨i, bounded, found, first⟩
    obtain ⟨inside, covers, depth⟩ := (ok.find_probe bounded).mp found
    refine ⟨inside, covers, fun other isOther otherCovers differs => ?_⟩
    have isFound := ok.find_turn isOther otherCovers
    rw [lt_def]
    by_contra longer
    rcases lt_or_eq_of_le (show 32 - other.depth.toNat ≤ i by omega) with earlier | same
    · rw [first _ earlier] at isFound
      cases isFound
    · rw [same, found] at isFound
      exact differs (some.inj isFound).symm
  intro longest
  refine ⟨32 - node.depth.toNat, by omega, ok.find_turn longest.inside longest.covers, ?_⟩
  intro j earlier
  apply eq_none_iff_forall_ne_some.mpr
  intro other found
  obtain ⟨inside, covers, depth⟩ := (ok.find_probe (by omega)).mp found
  by_cases same : other = node
  · rw [same] at depth
    omega
  · have shorter := lt_def.mp (longest.longest other inside covers same)
    omega

omit [DecidableEq Data] in
theorem IpmasktblOk.match_none_iff :
    ipmasktblMatch run.hHash ip = none ↔ ∀ node ∈ run.stored, ¬ node.Covers ip := by
  rw [ipmasktblMatch, Lib.findSome?_range_eq_none_iff]
  constructor
  · intro missed node inside covers
    have found := ok.find_turn inside covers
    rw [missed _ (by omega)] at found
    cases found
  intro uncovered i bounded
  apply eq_none_iff_forall_ne_some.mpr
  intro node found
  obtain ⟨inside, covers, -⟩ := (ok.find_probe bounded).mp found
  exact uncovered node inside covers

end

/-- Both searches find the entry with the longest mask that covers the address. -/
theorem ipmasktbl_match (reached : (ipmasktblSystem Data).Reachable run) (filtered : Filtered run)
    (ip : UINT) :
    ipmasktblBfMatch run.hHash run.bf ip = ipmasktblMatch run.hHash ip ∧
      (∀ node, ipmasktblMatch run.hHash ip = some node ↔ Longest run.stored ip node) ∧
      (ipmasktblMatch run.hHash ip = none ↔ ∀ node ∈ run.stored, ¬ node.Covers ip) := by
  have ok := ipmasktblSystem_ok reached
  exact ⟨ok.bfMatch_eq filtered ip, fun _ => ok.match_iff, ok.match_none_iff⟩

/-- 10.1.0.0/16 and 10.1.2.128/25, with another network in the filter. -/
def nestedCalls : List (IpmasktblCall Nat) :=
  [.add ⟨0x0000010a, 16, by decide, 0⟩, .bfSet 0x0000010a 16,
    .add ⟨0x8002010a, 25, by decide, 1⟩, .bfSet 0x8002010a 25, .bfSet 0x0000020a 24]

theorem ipmasktbl_steps (run : IpmasktblRun Nat) (call : IpmasktblCall Nat)
    (enabled : call.Enabled run.stored) :
    True ∧ (ipmasktblSystem Nat).step run call (run.next call) :=
  ⟨trivial, enabled, rfl⟩

instance (stored : Finset (IpmasktblNode Data)) :
    (call : IpmasktblCall Data) → Decidable (call.Enabled stored)
  | .add _ => isTrue trivial
  | .del node => inferInstanceAs (Decidable (node ∈ stored))
  | .bfInit => isTrue trivial
  | .bfSet _ _ => isTrue trivial

instance (run : IpmasktblRun Data) : Decidable (Filtered run) :=
  inferInstanceAs (Decidable (∀ node ∈ run.stored, ∃ set ∈ run.filtered,
    set.ip &&& netMask node.depth.toNat = node.ip ∧ set.depth = node.depth))

theorem ipmasktbl_match_nested :
    ∃ run, (ipmasktblSystem Nat).Reachable run ∧ Filtered run ∧
      (ipmasktblMatch run.hHash 0x8202010a).map IpmasktblNode.data = some 1 ∧
      (ipmasktblMatch run.hHash 0x0403010a).map IpmasktblNode.data = some 0 ∧
      ipmasktblBfMatch run.hHash run.bf 0x8202010a = ipmasktblMatch run.hHash 0x8202010a := by
  have reached : (ipmasktblSystem Nat).Reachable (nestedCalls.foldl IpmasktblRun.next (.start 3)) :=
    .foldl ipmasktbl_steps (.start ⟨3, rfl⟩) (by decide +kernel)
  have filtered : Filtered (nestedCalls.foldl IpmasktblRun.next (.start 3)) := by decide +kernel
  exact ⟨_, reached, filtered, by decide +kernel, by decide +kernel,
    (ipmasktbl_match reached filtered 0x8202010a).1⟩

end MyCode.IpMaskTbl
