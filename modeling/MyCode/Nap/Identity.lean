import MyCode.Nap.Calls

/-!
# The identity of nodes

Identifiers of live nodes lead to these nodes and to no others.  An identifier
that was built from a sequence counter is built again only when the counter has
come round in the bits of the sequence mask.
-/

namespace MyCode.Nap

open LBitMap Hash Lib Function List BitVec Nat

variable {isBuilt : Bool} {result : NapHead × Option NapNode} {stSeqOpt : NapSeqOpt} {width : Nat}

/-- An identifier whose node was freed, with the step of the counter that it was
built at. -/
structure NapRetired where
  ulID : UINT
  uiIndex : UINT
  stamp : Nat
  deriving DecidableEq

/-- A pool with the nodes that its callers hold.  `drawn` counts the steps of the
sequence counters from their first value on, and `stamp` says at which of them
the identifier of a node was built, if it was. -/
structure NapRun where
  head : NapHead
  live : List NapNode
  drawn : Nat → Nat
  stamp : NapNode → Option Nat
  retired : List NapRetired

inductive NapCall where
  | alloc
  | allocByIndex (uiSpecIndex : UINT)
  | allocByID (ulSpecID : UINT)
  | free (pstNode : NapNode)
  | getNodeByID (ulID : UINT)

/-- A call, the bitmap nodes that can be allocated for it, and what the memory
allocation of the table returns. -/
structure NapLabel where
  nodeAlloc : NodeAlloc
  address : Option Nat
  call : NapCall

/-- The callers hold the node from now on; `built` says that its identifier was
not given. -/
def NapRun.hold (run : NapRun) (built : Bool) : NapHead × Option NapNode → NapRun
  | (head, none) => { run with head := head }
  | (head, some n) =>
    let uiPos := napSeqPos run.head.stSeqOpt n.uiIndex
    if built && run.head.stSeqOpt.bEnable then
      { run with
        head := head
        live := n :: run.live
        drawn := update run.drawn uiPos (run.drawn uiPos + 1)
        stamp := update run.stamp n (some (run.drawn uiPos)) }
    else
      { run with
        head := head
        live := n :: run.live
        stamp := update run.stamp n none }

def NapRun.release (run : NapRun) (n : NapNode) : NapRun :=
  { run with
    head := napFree run.head n
    live := run.live.erase n
    retired := match run.stamp n with
      | none => run.retired
      | some stamp => ⟨run.head.ulID n, n.uiIndex, stamp⟩ :: run.retired }

def NapLabel.run (run : NapRun) (label : NapLabel) : NapRun :=
  match label.call with
  | .alloc => run.hold true (napAlloc run.head label.nodeAlloc label.address)
  | .allocByIndex uiSpecIndex =>
    run.hold true (napAllocByIndex run.head label.nodeAlloc label.address uiSpecIndex)
  | .allocByID ulSpecID =>
    run.hold (ulSpecID == napInvalidId)
      (napAllocByID run.head label.nodeAlloc label.address ulSpecID)
  | .free pstNode => run.release pstNode
  | .getNodeByID ulID => { run with head := (napGetNodeByID run.head ulID).1 }

def NapLabel.Ready (run : NapRun) (label : NapLabel) : Prop :=
  ∀ pstNode, label.call = .free pstNode → pstNode ∈ run.live

/-- A pool as `NAP_Create` makes it, with or without sequence numbers. -/
def NapStarted (needBits : UINT → Nat) (run : NapRun) : Prop :=
  ∃ memory ulID p created, napCreate needBits memory ulID p = some created ∧
    (run.head = created ∨ ∃ seqArray ulSeqMask uiSeqCount,
      run.head = (napEnableSeq created seqArray ulSeqMask uiSeqCount).1) ∧
    run.live = [] ∧ run.retired = [] ∧ (run.stamp = fun _ => none) ∧
    run.drawn = fun uiPos => (run.head.stSeqOpt.seqArray uiPos).toNat

def nap (needBits : UINT → Nat) : System NapRun NapLabel where
  start := NapStarted needBits
  step run label after := label.Ready run ∧ after = label.run run

/-- The indices that are handed out are below the maximum, and sequence numbers
leave the bits of the index alone. -/
def NapLabel.Within (run : NapRun) (label : NapLabel) : Prop :=
  SeqApart run.head ∧
    match label.call with
    | .alloc => HandsOutBelow run.head label.nodeAlloc
    | .allocByIndex uiSpecIndex =>
      if uiSpecIndex = napInvalidId then HandsOutBelow run.head label.nodeAlloc
      else GivenBelow run.head uiSpecIndex
    | .allocByID ulSpecID =>
      if ulSpecID = napInvalidId then HandsOutBelow run.head label.nodeAlloc
      else GivenBelow run.head (napCacleIndexByID run.head ulSpecID)
    | .free _ => True
    | .getNodeByID _ => True

section Run

variable {needBits : UINT → Nat} {run : NapRun} {label : NapLabel}

theorem napSetSeqMask_head (head : NapHead) (ulSeqMask : UINT) :
    ∃ stSeqOpt, (napSetSeqMask head ulSeqMask).1 = { head with stSeqOpt := stSeqOpt } := by
  unfold napSetSeqMask
  simp only
  split <;> exact ⟨_, rfl⟩

theorem napEnableSeq_head (head : NapHead) (seqArray : Option (Nat → USHORT))
    (ulSeqMask uiSeqCount : UINT) :
    ∃ stSeqOpt, (napEnableSeq head seqArray ulSeqMask uiSeqCount).1 =
      { head with stSeqOpt := stSeqOpt } := by
  unfold napEnableSeq
  simp only
  generalize (if ulSeqMask = 0 then ~~~head.ulIndexMask &&& 0xffff0000 else ulSeqMask) = mask
  obtain ⟨stSeqOpt, isMasked⟩ := napSetSeqMask_head head mask
  split
  · exact ⟨_, rfl⟩
  split
  · exact ⟨_, rfl⟩
  split
  · next masked same =>
    rw [same] at isMasked
    subst isMasked
    cases seqArray <;> exact ⟨_, rfl⟩
  · next masked eRet failed same =>
    rw [same] at isMasked
    exact ⟨stSeqOpt, isMasked⟩

theorem napOk_create {memory : Nat → Option NapNode} {ulID : NapNode → UINT} {p : NapParam}
    {head : NapHead} (needs : NeedBitsOk needBits)
    (created : napCreate needBits memory ulID p = some head) : NapOk head [] := by
  have mask := maskOk_create needs created
  unfold napCreate at created
  split at created
  · cases created
  obtain ⟨table, isTable, rfl⟩ := Option.map_eq_some_iff.mp created
  have tableOk : TableOk [] table := by
    unfold napTableCreate at isTable
    split at isTable
    · split at isTable
      · cases isTable
      · cases isTable
        exact nofun
    · split at isTable
      · cases isTable
      · cases isTable
        exact nofun
    cases isTable
    have empty : HashOk napHashFuncs (hashInit (1024 * 16 - 1)) := hashInit_ok _
    refine ⟨empty, fun n => ?_⟩
    rw [mem_hashWalk empty]
    exact ⟨fun ⟨_, _, inside, _⟩ => (not_mem_nil inside).elim,
      nofun⟩
  exact {
    mask := mask
    flags := flagsSound_newNode 3
    bits := by
      intro i
      refine ⟨fun has => ?_, fun ⟨_, inside, _⟩ => (not_mem_nil inside).elim⟩
      cases has
    distinct := Pairwise.nil
    below := nofun
    index := nofun
    valid := nofun
    table := tableOk
    asked := nofun }

theorem NapOk.started (needs : NeedBitsOk needBits) (started : NapStarted needBits run) :
    NapOk run.head run.live := by
  obtain ⟨_, _, _, created, isCreated, either, live, -⟩ := started
  have ok := napOk_create needs isCreated
  rw [live]
  rcases either with same | ⟨seqArray, ulSeqMask, uiSeqCount, same⟩
  · rw [same]
    exact ok
  obtain ⟨_, enabled⟩ := napEnableSeq_head created seqArray ulSeqMask uiSeqCount
  rw [same, enabled]
  exact { ok with mask := ⟨ok.mask.small, ok.mask.masked, ok.mask.low⟩ }

theorem NapLabel.Within.cases (within : label.Within run) (ok : NapOk run.head run.live)
    (ready : label.Ready run) :
    (∃ isBuilt result, label.run run = run.hold isBuilt result ∧
        Allocates run.head run.live isBuilt result) ∨
      (∃ n, label.run run = run.release n ∧ n ∈ run.live) ∨
      ∃ ulID, label.run run = { run with head := (napGetNodeByID run.head ulID).1 } := by
  obtain ⟨_, _, call⟩ := label
  obtain ⟨apart, below⟩ := within
  cases call with
  | alloc => exact Or.inl ⟨true, _, rfl, ok.allocates apart below⟩
  | allocByIndex =>
    refine Or.inl ⟨true, _, rfl, ok.allocByIndex apart ?_ ?_⟩
    · exact fun unspecified => (if_pos unspecified).mp below
    · exact fun specified => (if_neg specified).mp below
  | allocByID ulSpecID =>
    refine Or.inl ⟨ulSpecID == napInvalidId, _, rfl, ?_⟩
    by_cases unspecified : ulSpecID = napInvalidId
    · rw [napAllocByID, if_pos unspecified, beq_iff_eq.mpr unspecified]
      exact ok.allocates apart ((if_pos unspecified).mp below)
    · rw [beq_eq_false_iff_ne.mpr unspecified]
      exact ok.allocByID unspecified ((if_neg unspecified).mp below)
  | free pstNode => exact Or.inr (Or.inl ⟨pstNode, rfl, ready pstNode rfl⟩)
  | getNodeByID ulID => exact Or.inr (Or.inr ⟨ulID, rfl⟩)

theorem NapOk.hold (allocates : Allocates run.head run.live isBuilt result) :
    NapOk (run.hold isBuilt result).head (run.hold isBuilt result).live := by
  cases allocates with
  | failed ok => exact ok
  | built ok =>
    rw [NapRun.hold]
    split <;> exact ok
  | given ok => exact ok

theorem NapOk.next (ok : NapOk run.head run.live) (within : label.Within run)
    (ready : label.Ready run) : NapOk (label.run run).head (label.run run).live := by
  rcases within.cases ok ready with
    ⟨_, _, same, allocates⟩ | ⟨_, same, inside⟩ | ⟨ulID, same⟩
  · rw [same]
    exact NapOk.hold allocates
  · rw [same]
    exact ok.free inside
  obtain ⟨_, isHead, okAfter⟩ := ok.lookup ulID
  rw [same, isHead]
  exact okAfter

end Run

/-- As many bits of the sequence mask, from its lowest bit on, are in the
identifiers: bit 31 is always set. -/
def SeqBits (stSeqOpt : NapSeqOpt) (width : Nat) : Prop :=
  width ≤ 16 ∧ stSeqOpt.ucSeqStartIndex + width ≤ 31 ∧
    ∀ k < width, stSeqOpt.ulSeqMask.getLsbD (stSeqOpt.ucSeqStartIndex + k) = true

/-- Between two steps, a counter has come round in the bits of the identifier. -/
def ComesRound (stSeqOpt : NapSeqOpt) (first second : Nat) : Prop :=
  first < second ∧ ∀ width, SeqBits stSeqOpt width → second % 2 ^ width = first % 2 ^ width

theorem getLsbD_napIdOf {k : Nat} (bits : SeqBits stSeqOpt width) (low : k < width) (i : UINT)
    (seq : USHORT) :
    (napIdOf stSeqOpt i seq).getLsbD (stSeqOpt.ucSeqStartIndex + k) = seq.getLsbD k := by
  obtain ⟨-, _, inMask⟩ := bits
  have top : (0x80000000 : UINT) = twoPow 32 31 := rfl
  have notTop : ¬ 31 = stSeqOpt.ucSeqStartIndex + k := by omega
  have inside : stSeqOpt.ucSeqStartIndex + k < 32 := by omega
  have inWord : k < 32 := by omega
  rw [napIdOf, top]
  simp only [getLsbD_or, getLsbD_and, getLsbD_not, getLsbD_twoPow, getLsbD_shiftLeft,
    getLsbD_setWidth, inMask k low]
  simp [notTop, inside, inWord]

theorem mod_eq_of_napIdOf {first second : Nat} (bits : SeqBits stSeqOpt width) {i : UINT}
    (same : napIdOf stSeqOpt i (BitVec.ofNat 16 second) = napIdOf stSeqOpt i (BitVec.ofNat 16 first)) :
    second % 2 ^ width = first % 2 ^ width := by
  apply eq_of_testBit_eq
  intro k
  rw [testBit_mod_two_pow, testBit_mod_two_pow]
  by_cases low : k < width
  · have bit := congrArg (fun id => id.getLsbD (stSeqOpt.ucSeqStartIndex + k)) same
    simp only [getLsbD_napIdOf bits low, getLsbD_ofNat] at bit
    have inside := lt_of_lt_of_le low bits.1
    rw [decide_eq_true inside, Bool.true_and, Bool.true_and] at bit
    rw [bit]
  · rw [decide_eq_false low, Bool.false_and, Bool.false_and]

structure BuiltAt (head : NapHead) (drawn : Nat → Nat) (ulID uiIndex : UINT) (stamp : Nat) :
    Prop where
  drawn : stamp < drawn (napSeqPos head.stSeqOpt uiIndex)
  same : ulID = napIdOf head.stSeqOpt uiIndex (BitVec.ofNat 16 stamp)

structure StampsOk (run : NapRun) : Prop where
  counters : ∀ uiPos, run.head.stSeqOpt.seqArray uiPos = BitVec.ofNat 16 (run.drawn uiPos)
  stamped : ∀ n ∈ run.live, ∀ stamp, run.stamp n = some stamp →
    BuiltAt run.head run.drawn (run.head.ulID n) n.uiIndex stamp
  retired : ∀ entry ∈ run.retired,
    BuiltAt run.head run.drawn entry.ulID entry.uiIndex entry.stamp
  index : ∀ entry ∈ run.retired, entry.ulID &&& run.head.ulIndexMask = entry.uiIndex
  later : ∀ entry ∈ run.retired, ∀ n ∈ run.live, n.uiIndex = entry.uiIndex →
    ∀ stamp, run.stamp n = some stamp → entry.stamp < stamp

section Run

variable {needBits : UINT → Nat} {run : NapRun} {label : NapLabel}

theorem stampsOk_started (started : NapStarted needBits run) : StampsOk run := by
  obtain ⟨-, -, -, -, -, -, live, retired, -, drawn⟩ := started
  refine ⟨fun uiPos => ?_, ?_, ?_, ?_, ?_⟩
  · rw [drawn, ofNat_toNat, setWidth_eq]
  · rw [live]
    exact nofun
  · rw [retired]
    exact nofun
  · rw [retired]
    exact nofun
  · rw [retired]
    exact nofun

theorem StampsOk.congr {head : NapHead} (ok : StampsOk run) (ids : head.ulID = run.head.ulID)
    (seq : head.stSeqOpt = run.head.stSeqOpt) (mask : head.ulIndexMask = run.head.ulIndexMask) :
    StampsOk { run with head := head } := by
  obtain ⟨counters, stamped, retired, index, later⟩ := ok
  refine ⟨?_, ?_, ?_, ?_, later⟩
  · intro uiPos
    rw [← counters uiPos, ← seq]
  · intro n inside stamp isStamp
    obtain ⟨before, same⟩ := stamped n inside stamp isStamp
    exact ⟨seq ▸ before, by rw [ids, seq]; exact same⟩
  · intro entry inside
    obtain ⟨before, same⟩ := retired entry inside
    exact ⟨seq ▸ before, by rw [seq]; exact same⟩
  · intro entry inside
    rw [mask]
    exact index entry inside

theorem StampsOk.release {n : NapNode} (ok : StampsOk run) (okHead : NapOk run.head run.live)
    (inside : n ∈ run.live) : StampsOk (run.release n) := by
  have nodup : run.live.Nodup := okHead.distinct.imp fun different same => different (by rw [same])
  have kept (m : NapNode) : m ∈ run.live.erase n ↔ m ≠ n ∧ m ∈ run.live := nodup.mem_erase_iff
  have retiredOf (entry : NapRetired) (isRetired : entry ∈ (run.release n).retired) :
      (∃ stamp, run.stamp n = some stamp ∧ entry = ⟨run.head.ulID n, n.uiIndex, stamp⟩) ∨
        entry ∈ run.retired := by
    simp only [NapRun.release] at isRetired
    split at isRetired
    · exact Or.inr isRetired
    next stamp isStamp =>
    rcases mem_cons.mp isRetired with new | old
    · exact Or.inl ⟨stamp, isStamp, new⟩
    · exact Or.inr old
  refine ⟨ok.counters, ?_, ?_, ?_, ?_⟩
  · intro m inRest stamp isStamp
    obtain ⟨drawn, same⟩ := ok.stamped m (mem_of_mem_erase inRest) stamp isStamp
    exact ⟨drawn, same⟩
  · intro entry isRetired
    rcases retiredOf entry isRetired with ⟨stamp, isStamp, rfl⟩ | old
    · obtain ⟨drawn, same⟩ := ok.stamped n inside stamp isStamp
      exact ⟨drawn, same⟩
    · obtain ⟨drawn, same⟩ := ok.retired entry old
      exact ⟨drawn, same⟩
  · intro entry isRetired
    rcases retiredOf entry isRetired with ⟨_, _, rfl⟩ | old
    · exact okHead.index n inside
    · exact ok.index entry old
  · intro entry isRetired m inRest sameIndex
    obtain ⟨other, isLive⟩ := (kept m).mp inRest
    rcases retiredOf entry isRetired with ⟨_, _, rfl⟩ | old
    · exact absurd (okHead.slotted.eq_of_index isLive inside sameIndex) other
    · exact ok.later entry old m isLive sameIndex

theorem napCacleIDByIndex_enabled {head : NapHead} (enabled : head.stSeqOpt.bEnable = true)
    (uiIndex : UINT) : napCacleIDByIndex head uiIndex =
      ({ head with
        stSeqOpt := { head.stSeqOpt with
          seqArray := update head.stSeqOpt.seqArray (napSeqPos head.stSeqOpt uiIndex)
            (head.stSeqOpt.seqArray (napSeqPos head.stSeqOpt uiIndex) + 1) } },
        napIdOf head.stSeqOpt uiIndex
          (head.stSeqOpt.seqArray (napSeqPos head.stSeqOpt uiIndex))) := by
  exact if_pos enabled

theorem StampsOk.unstamped {n : NapNode} {head : NapHead} {ulID : UINT} (ok : StampsOk run)
    (ids : head.ulID = update run.head.ulID n ulID)
    (seq : head.stSeqOpt = run.head.stSeqOpt) (mask : head.ulIndexMask = run.head.ulIndexMask) :
    StampsOk { run with
      head := head
      live := n :: run.live
      stamp := update run.stamp n none } := by
  have stampOf (m : NapNode) (stamp : Nat)
      (isStamp : update run.stamp n none m = some stamp) (inside : m ∈ n :: run.live) :
      m ≠ n ∧ m ∈ run.live ∧ run.stamp m = some stamp := by
    by_cases same : m = n
    · rw [same, update_self] at isStamp
      cases isStamp
    · rw [update_of_ne same] at isStamp
      exact ⟨same, (mem_cons.mp inside).resolve_left same, isStamp⟩
  refine ⟨?_, ?_, ?_, ?_, ?_⟩
  · intro uiPos
    rw [← ok.counters uiPos, ← seq]
  · intro m inside stamp isStamp
    obtain ⟨other, isLive, wasStamp⟩ := stampOf m stamp isStamp inside
    obtain ⟨drawn, same⟩ := ok.stamped m isLive stamp wasStamp
    refine ⟨seq ▸ drawn, ?_⟩
    simp only [ids, seq, update_of_ne other]
    exact same
  · intro entry inside
    obtain ⟨drawn, same⟩ := ok.retired entry inside
    exact ⟨seq ▸ drawn, by rw [seq]; exact same⟩
  · intro entry inside
    rw [mask]
    exact ok.index entry inside
  · intro entry isRetired m inside sameIndex stamp isStamp
    obtain ⟨-, isLive, wasStamp⟩ := stampOf m stamp isStamp inside
    exact ok.later entry isRetired m isLive sameIndex stamp wasStamp

theorem StampsOk.stampedNode {n : NapNode} {head : NapHead} (ok : StampsOk run)
    (enabled : run.head.stSeqOpt.bEnable = true)
    (ids : head.ulID = update run.head.ulID n (napCacleIDByIndex run.head n.uiIndex).2)
    (seq : head.stSeqOpt = (napCacleIDByIndex run.head n.uiIndex).1.stSeqOpt)
    (mask : head.ulIndexMask = run.head.ulIndexMask) :
    StampsOk { run with
      head := head
      live := n :: run.live
      drawn := update run.drawn (napSeqPos run.head.stSeqOpt n.uiIndex)
        (run.drawn (napSeqPos run.head.stSeqOpt n.uiIndex) + 1)
      stamp := update run.stamp n
        (some (run.drawn (napSeqPos run.head.stSeqOpt n.uiIndex))) } := by
  rw [napCacleIDByIndex_enabled enabled] at ids seq
  have idOf (i : UINT) (seq' : USHORT) : napIdOf head.stSeqOpt i seq' =
      napIdOf run.head.stSeqOpt i seq' := by
    rw [seq]
    rfl
  have posOf (i : UINT) : napSeqPos head.stSeqOpt i = napSeqPos run.head.stSeqOpt i := by
    rw [seq]
    rfl
  -- Steps that were drawn before are drawn still.
  have drawnOf (uiPos stamp : Nat) (drawn : stamp < run.drawn uiPos) :
      stamp < update run.drawn (napSeqPos run.head.stSeqOpt n.uiIndex)
        (run.drawn (napSeqPos run.head.stSeqOpt n.uiIndex) + 1) uiPos := by
    rw [update_apply]
    split
    · next same =>
      rw [same] at drawn
      exact lt_succ_of_lt drawn
    · exact drawn
  refine ⟨?_, ?_, ?_, ?_, ?_⟩
  · intro uiPos
    simp only [seq, update_apply]
    split
    · rw [ok.counters, ofNat_add]
      rfl
    · exact ok.counters uiPos
  · intro m inside stamp isStamp
    simp only [update_apply] at isStamp
    split at isStamp
    · next same =>
      cases isStamp
      subst same
      refine ⟨?_, ?_⟩
      · simp only [posOf, update_self]
        exact lt_succ_self _
      · simp [ids, idOf, ok.counters]
    next other =>
    have isLive := (mem_cons.mp inside).resolve_left other
    obtain ⟨drawn, same⟩ := ok.stamped m isLive stamp isStamp
    refine ⟨?_, ?_⟩
    · simp only [posOf]
      exact drawnOf _ _ drawn
    · simp only [ids, idOf, update_of_ne other]
      exact same
  · intro entry inside
    obtain ⟨drawn, same⟩ := ok.retired entry inside
    refine ⟨?_, ?_⟩
    · simp only [posOf]
      exact drawnOf _ _ drawn
    · simp only [idOf]
      exact same
  · intro entry inside
    rw [mask]
    exact ok.index entry inside
  intro entry isRetired m inside sameIndex stamp isStamp
  simp only [update_apply] at isStamp
  split at isStamp
  · next same =>
    cases isStamp
    have drawn := (ok.retired entry isRetired).drawn
    rw [← sameIndex, same] at drawn
    exact drawn
  · next other =>
    have isLive := (mem_cons.mp inside).resolve_left other
    exact ok.later entry isRetired m isLive sameIndex stamp isStamp

theorem StampsOk.hold (ok : StampsOk run) (allocates : Allocates run.head run.live isBuilt result) :
    StampsOk (run.hold isBuilt result) := by
  cases allocates with
  | failed _ mask _ ids seq => exact ok.congr ids seq mask
  | built _ mask _ ids seq =>
    rw [NapRun.hold]
    split
    · next enabled =>
      exact ok.stampedNode enabled ids seq mask
    next disabled =>
    rw [Bool.true_and] at disabled
    refine ok.unstamped ids ?_ mask
    rw [seq, napCacleIDByIndex, if_neg disabled]
  | given _ mask _ ids seq => exact ok.unstamped ids seq mask

theorem StampsOk.next (ok : StampsOk run) (okHead : NapOk run.head run.live)
    (within : label.Within run) (ready : label.Ready run) : StampsOk (label.run run) := by
  rcases within.cases okHead ready with
    ⟨_, _, same, allocates⟩ | ⟨_, same, inside⟩ | ⟨ulID, same⟩
  · rw [same]
    exact ok.hold allocates
  · rw [same]
    exact ok.release okHead inside
  obtain ⟨_, isHead, -⟩ := okHead.lookup ulID
  rw [same, isHead]
  exact ok.congr rfl rfl rfl

end Run

def bitsOf (num : UINT) : Nat :=
  log2 num.toNat + 1

theorem bitsOf_ok : NeedBitsOk bitsOf := by
  intro num small
  have bound : num.toNat ≤ 0x7fffffff := small
  refine ⟨?_, le_of_lt lt_log2_self⟩
  rw [bitsOf]
  rcases Nat.eq_zero_or_pos num.toNat with zero | positive
  · rw [zero]
    decide
  have low := (log2_lt (Nat.pos_iff_ne_zero.mp positive)).mpr
    (show num.toNat < 2 ^ 31 by omega)
  exact low

def napEight : NapRun :=
  { head := (napEnableSeq
      ((napCreate bitsOf (fun _ => none) (fun _ => 0) ⟨.array, 8⟩).get (by decide))
      (some fun _ => 0) 0 1).1
    live := []
    drawn := fun _ => 0
    stamp := fun _ => none
    retired := [] }

theorem napEight_started : NapStarted bitsOf napEight := by
  refine ⟨fun _ => none, fun _ => 0, ⟨.array, 8⟩, _, (Option.some_get _).symm,
    Or.inr ⟨some fun _ => 0, 0, 1, rfl⟩, rfl, rfl, rfl, ?_⟩
  funext uiPos
  rfl

def napLabel (call : NapCall) : NapLabel :=
  ⟨fun _ => true, none, call⟩

theorem napLabel_step {needBits : UINT → Nat} {run : NapRun} {call : NapCall}
    (reached : (nap needBits).Reachable run)
    (held : ∀ pstNode, call = .free pstNode → pstNode ∈ run.live) :
    (nap needBits).Reachable ((napLabel call).run run) := by
  have stepped : (nap needBits).step run (napLabel call) ((napLabel call).run run) := ⟨held, rfl⟩
  exact reached.next stepped

/-- Identifiers are valid, tell live nodes apart and lead to them. -/
structure NapResolves (run : NapRun) : Prop where
  distinct : run.live.Pairwise fun m n => run.head.ulID m ≠ run.head.ulID n
  valid : ∀ n ∈ run.live, run.head.ulID n ≠ napInvalidId
  resolves : ∀ ulID n,
    (napGetNodeByID run.head ulID).2 = some n ↔ n ∈ run.live ∧ run.head.ulID n = ulID

theorem NapOk.resolves {run : NapRun} (ok : NapOk run.head run.live) : NapResolves run where
  distinct := by
    refine ok.distinct.imp_of_mem fun first second different same => different ?_
    rw [← ok.index _ first, same, ok.index _ second]
  valid := ok.valid
  resolves := fun ulID _ => ok.slotted.getNodeByID ulID

theorem napEight_allocated : (nap bitsOf).ReachableWhen (fun run label => label.Within run)
    ((napLabel .alloc).run napEight) := by
  have within : (napLabel .alloc).Within napEight := by
    refine ⟨fun _ => by decide +kernel, fun uiIndex handed => ?_⟩
    have first : (lBitMapAllocByRange (fun _ => true) napEight.head.hLBitmap 0 0x7fffffff).2 =
        .ok 0 := by decide +kernel
    cases first.symm.trans handed
    decide
  have ready : (napLabel .alloc).Ready napEight := nofun
  exact .step (.start napEight_started) within ⟨ready, rfl⟩

/-- The first node is allocated and freed, and its identifier is asked for. -/
def napGivenAgain : NapRun :=
  (napLabel (.allocByID 0x80000000)).run
    ((napLabel (.free ⟨0, 0⟩)).run ((napLabel .alloc).run napEight))

theorem napGivenAgain_reached : (nap bitsOf).Reachable napGivenAgain := by
  have allocated := napLabel_step (.start napEight_started) (nofun :
    ∀ pstNode, NapCall.alloc = .free pstNode → pstNode ∈ napEight.live)
  refine napLabel_step (napLabel_step allocated ?_) nofun
  rintro _ ⟨⟩
  decide +kernel

end MyCode.Nap
