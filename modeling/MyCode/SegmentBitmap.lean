import MyCode.Bitmap
import MyCode.Lib.SortedList
import MyCode.Lib.Transition
import Mathlib.Data.Finset.Insert
import Mathlib.Data.Finset.Erase

/-!
# Bitmap in segments

`segment_bitmap.c` and `segmentx_bitmap.c`: segments of one size, kept in the
order of their offsets and created by the first `SXBitmap_Set` in them.
-/

namespace MyCode.SegmentBitmap

open Bitmap List BitVec Option Finset Nat Bool

variable {value : Bool} {place : Nat}

structure SbitmapNodeS where
  offset : UINT
  bitsize : UINT
  data : Nat → UINT

structure SxbitmapS where
  sbitmap : List SbitmapNodeS
  bitsize : UINT

section Operations

variable (node : SbitmapNodeS) (index : UINT)

def hasIndex : Bool :=
  index ≥ node.offset && index < node.offset + node.bitsize

def sbitmapFindNode : List SbitmapNodeS → Option Nat
  | [] => none
  | node :: rest =>
    if index < node.offset then none
    else if hasIndex node index then some 0
    else (sbitmapFindNode rest).map (· + 1)

def sbitmapAddNode (new_node : SbitmapNodeS) (nodes : List SbitmapNodeS) : List SbitmapNodeS :=
  Lib.insertWhen (fun node => new_node.offset < node.offset) new_node nodes

def setBit : SbitmapNodeS :=
  { node with data := arrayBitSet node.data (index - node.offset).toNat }

def clrBit : SbitmapNodeS :=
  { node with data := arrayBitClr node.data (index - node.offset).toNat }

def testBit : Bool :=
  arrayBitTest node.data (index - node.offset).toNat

/-- `SBITMAP_Set` and `SBITMAP_Clr`. -/
def sbitmapChange (change : SbitmapNodeS → UINT → SbitmapNodeS) (nodes : List SbitmapNodeS) :
    List SbitmapNodeS × BsStatus :=
  match sbitmapFindNode index nodes with
  | none => (nodes, .notFound)
  | some place => (nodes.modify place fun node => change node index, .ok)

def sbitmapSet (nodes : List SbitmapNodeS) : List SbitmapNodeS × BsStatus :=
  sbitmapChange index setBit nodes

def sbitmapClr (nodes : List SbitmapNodeS) : List SbitmapNodeS × BsStatus :=
  sbitmapChange index clrBit nodes

def sbitmapIsSet (nodes : List SbitmapNodeS) : Bool :=
  match sbitmapFindNode index nodes with
  | none => false
  | some place => (nodes[place]?).any fun node => testBit node index

variable (ctrl : SxbitmapS)

def sxbitmapInit (bitsize : UINT) : SxbitmapS :=
  ⟨[], bitsize⟩

/-- `index/ctrl->bitsize*ctrl->bitsize`. -/
def segmentOffset (bitsize : UINT) : UINT :=
  index / bitsize * bitsize

def newNode (bitsize : UINT) : SbitmapNodeS :=
  ⟨segmentOffset index bitsize, bitsize, fun _ => 0⟩

/-- `memory` tells whether both allocations of a new segment succeed. -/
def sxbitmapSet (memory : Bool) : SxbitmapS × BsStatus :=
  match sbitmapFindNode index ctrl.sbitmap with
  | none =>
    if memory then
      let (nodes, status) := sbitmapSet index (sbitmapAddNode (newNode index ctrl.bitsize) ctrl.sbitmap)
      ({ ctrl with sbitmap := nodes }, status)
    else
      (ctrl, .noMemory)
  | some _ =>
    let (nodes, status) := sbitmapSet index ctrl.sbitmap
    ({ ctrl with sbitmap := nodes }, status)

def sxbitmapClr : SxbitmapS :=
  { ctrl with sbitmap := (sbitmapClr index ctrl.sbitmap).1 }

end Operations

variable {node : SbitmapNodeS} {nodes rest : List SbitmapNodeS} {index j bitsize : UINT}

theorem sub_inj (index j offset : UINT) : (j - offset).toNat =
    (index - offset).toNat ↔ j = index := by
  constructor
  · intro same
    bv_omega
  · rintro rfl
    rfl

structure Writes (change : SbitmapNodeS → UINT → SbitmapNodeS) (value : Bool) : Prop where
  offset : ∀ node index, (change node index).offset = node.offset
  bitsize : ∀ node index, (change node index).bitsize = node.bitsize
  testBit : ∀ node index j, testBit (change node index) j = if j = index then value else testBit node j

theorem setBit_writes : Writes setBit true := by
  constructor
  · exact fun _ _ => rfl
  · exact fun _ _ => rfl
  intro node index j
  rw [testBit, setBit, arrayBitTest_set, testBit]
  simp only [sub_inj]
  by_cases same : j = index <;> simp [same]

theorem clrBit_writes : Writes clrBit false := by
  constructor
  · exact fun _ _ => rfl
  · exact fun _ _ => rfl
  intro node index j
  rw [testBit, clrBit, arrayBitTest_clr, testBit]
  simp only [sub_inj]
  by_cases same : j = index <;> simp [same]

theorem Writes.hasIndex {change : SbitmapNodeS → UINT → SbitmapNodeS} (writes : Writes change value)
    (node : SbitmapNodeS) (index j : UINT) : hasIndex (change node index) j = hasIndex node j := by
  rw [SegmentBitmap.hasIndex, writes.offset, writes.bitsize, SegmentBitmap.hasIndex]

theorem sbitmapIsSet_cons (index : UINT) (node : SbitmapNodeS) (rest : List SbitmapNodeS) :
    sbitmapIsSet index (node :: rest) =
      if index < node.offset then false
      else if hasIndex node index then testBit node index
      else sbitmapIsSet index rest := by
  rw [sbitmapIsSet, sbitmapFindNode]
  split <;> rename_i found
  · split at found
    · next before => rw [if_pos before]
    next behind =>
    rw [if_neg behind]
    split at found
    · cases found
    · next other =>
      rw [if_neg other, sbitmapIsSet, map_eq_none_iff.mp found]
  split at found
  · cases found
  next behind =>
  rw [if_neg behind]
  split at found
  · next isIn =>
    cases found
    rw [if_pos isIn]
    rfl
  next other =>
  obtain ⟨_, isEarlier, rfl⟩ := map_eq_some_iff.mp found
  rw [if_neg other, sbitmapIsSet, isEarlier]
  rfl

theorem sbitmapFindNode_cons (found : sbitmapFindNode index (node :: rest) = some place) :
    ¬ index < node.offset ∧
      ((hasIndex node index = true ∧ place = 0) ∨
        (hasIndex node index = false ∧ ∃ earlier, sbitmapFindNode index rest = some earlier ∧
          place = earlier + 1)) := by
  rw [sbitmapFindNode] at found
  split at found
  · cases found
  next behind =>
  refine ⟨behind, ?_⟩
  split at found
  · next isIn =>
    cases found
    exact .inl ⟨isIn, rfl⟩
  · next other =>
    obtain ⟨earlier, isEarlier, rfl⟩ := map_eq_some_iff.mp found
    exact .inr ⟨not_eq_true _ ▸ other, earlier, isEarlier, rfl⟩

theorem sbitmapIsSet_modify {change : SbitmapNodeS → UINT → SbitmapNodeS}
    (writes : Writes change value) (found : sbitmapFindNode index nodes = some place) (j : UINT) :
    sbitmapIsSet j (nodes.modify place fun node => change node index) =
      if j = index then value else sbitmapIsSet j nodes := by
  induction nodes generalizing place with
  | nil => cases found
  | cons _ _ ih =>
    obtain ⟨behind, ⟨isIn, rfl⟩ | ⟨other, _, isEarlier, rfl⟩⟩ := sbitmapFindNode_cons found
    · rw [modify_zero_cons, sbitmapIsSet_cons, sbitmapIsSet_cons, writes.offset,
        writes.hasIndex, writes.testBit]
      by_cases same : j = index
      · subst same
        simp [behind, isIn]
      · simp [same]
    · rw [modify_succ_cons, sbitmapIsSet_cons, sbitmapIsSet_cons, ih isEarlier]
      by_cases same : j = index
      · subst same
        simp [behind, other]
      · simp [same]

theorem sbitmapChange_found {change : SbitmapNodeS → UINT → SbitmapNodeS}
    (found : sbitmapFindNode index nodes = some place) :
    sbitmapChange index change nodes =
      (nodes.modify place fun node => change node index, .ok) := by
  rw [sbitmapChange, found]

theorem sbitmapChange_missing {change : SbitmapNodeS → UINT → SbitmapNodeS}
    (missing : sbitmapFindNode index nodes = none) :
    sbitmapChange index change nodes = (nodes, .notFound) := by
  rw [sbitmapChange, missing]

theorem sbitmapIsSet_missing (missing : sbitmapFindNode index nodes = none) :
    sbitmapIsSet index nodes = false := by
  rw [sbitmapIsSet, missing]

def BelowLast (bitsize index : UINT) : Prop :=
  (segmentOffset index bitsize).toNat + bitsize.toNat < 2 ^ 32

instance (bitsize index : UINT) : Decidable (BelowLast bitsize index) :=
  inferInstanceAs (Decidable (_ < _))

/-- The segments are at multiples of their size and end below 2^32. -/
structure NodesOk (bitsize : UINT) (nodes : List SbitmapNodeS) : Prop where
  positive : 0 < bitsize.toNat
  ascending : Lib.Ascending (fun node => node.offset.toNat) nodes
  sized : ∀ node ∈ nodes, node.bitsize = bitsize
  aligned : ∀ node ∈ nodes, bitsize.toNat ∣ node.offset.toNat
  below : ∀ node ∈ nodes, node.offset.toNat + bitsize.toNat < 2 ^ 32

theorem NodesOk.tail (ok : NodesOk bitsize (node :: rest)) : NodesOk bitsize rest where
  positive := ok.positive
  ascending := ok.ascending.tail
  sized other inside := ok.sized other (mem_cons_of_mem _ inside)
  aligned other inside := ok.aligned other (mem_cons_of_mem _ inside)
  below other inside := ok.below other (mem_cons_of_mem _ inside)

theorem toNat_segmentOffset (index bitsize : UINT) :
    (segmentOffset index bitsize).toNat = index.toNat / bitsize.toNat * bitsize.toNat := by
  have bounded := lt_of_le_of_lt (div_mul_le_self index.toNat bitsize.toNat) index.isLt
  rw [segmentOffset, toNat_mul, toNat_udiv, mod_eq_of_lt bounded]

theorem hasIndex_iff (sized : node.bitsize = bitsize)
    (below : node.offset.toNat + bitsize.toNat < 2 ^ 32) :
    hasIndex node index = true ↔
      node.offset.toNat ≤ index.toNat ∧ index.toNat < node.offset.toNat + bitsize.toNat := by
  rw [hasIndex, and_eq_true, decide_eq_true_iff, decide_eq_true_iff, ge_iff_le, le_def,
    lt_def, toNat_add, sized, mod_eq_of_lt below]

theorem hasIndex_newNode_iff (belowLast : BelowLast bitsize index) :
    hasIndex (newNode index bitsize) j = true ↔
      (segmentOffset index bitsize).toNat ≤ j.toNat ∧
        j.toNat < (segmentOffset index bitsize).toNat + bitsize.toNat :=
  @hasIndex_iff (newNode index bitsize) j bitsize rfl belowLast

theorem hasIndex_newNode (ok : 0 < bitsize.toNat) (belowLast : BelowLast bitsize index) :
    hasIndex (newNode index bitsize) index = true := by
  rw [hasIndex_newNode_iff belowLast, toNat_segmentOffset]
  exact ⟨div_mul_le_self _ _, lt_div_mul_add ok⟩

theorem testBit_newNode (index bitsize j : UINT) : testBit (newNode index bitsize) j = false := by
  simp [testBit, newNode, arrayBitTest]

theorem add_le_of_dvd {size first second : Nat} (isFirst : size ∣ first) (isSecond : size ∣ second)
    (before : first < second) : first + size ≤ second := by
  obtain ⟨i, rfl⟩ := isFirst
  obtain ⟨k, rfl⟩ := isSecond
  have places := Nat.lt_of_mul_lt_mul_left before
  calc size * i + size = size * (i + 1) := (mul_succ size i).symm
    _ ≤ size * k := mul_le_mul_left size places

section

variable (ok : NodesOk bitsize nodes)

include ok

variable (missing : sbitmapFindNode index nodes = none)

section

include missing

theorem NodesOk.apart
    (inside : node ∈ nodes) : node.offset.toNat ≠ (segmentOffset index bitsize).toNat := by
  have least : (segmentOffset index bitsize).toNat ≤ index.toNat := by
    rw [toNat_segmentOffset]
    exact div_mul_le_self _ _
  have most : index.toNat < (segmentOffset index bitsize).toNat + bitsize.toNat := by
    rw [toNat_segmentOffset]
    exact lt_div_mul_add ok.positive
  induction nodes with
  | nil => cases inside
  | cons first _ ih =>
    rw [sbitmapFindNode] at missing
    split at missing
    · next before =>
      rw [lt_def] at before
      rcases mem_cons.mp inside with rfl | inRest
      · omega
      · have later := ok.ascending.head inRest
        omega
    split at missing
    · cases missing
    next other =>
    rw [hasIndex_iff (ok.sized first mem_cons_self) (ok.below first mem_cons_self)] at other
    rcases mem_cons.mp inside with rfl | inRest
    · omega
    · exact ih ok.tail (map_eq_none_iff.mp missing) inRest

theorem NodesOk.addNode
    (belowLast : BelowLast bitsize index) :
    NodesOk bitsize (sbitmapAddNode (newNode index bitsize) nodes) := by
  constructor
  · exact ok.positive
  · apply ok.ascending.insertWhen
    · intro node _ stopped
      rwa [decide_eq_true_iff, lt_def] at stopped
    intro node inside passed
    rw [decide_eq_false_iff_not, lt_def] at passed
    have apart := ok.apart missing inside
    change ¬ (segmentOffset index bitsize).toNat < node.offset.toNat at passed
    change node.offset.toNat < (segmentOffset index bitsize).toNat
    omega
  · intro node inside
    rcases Lib.mem_insertWhen.mp inside with rfl | old
    · rfl
    · exact ok.sized node old
  · intro node inside
    rcases Lib.mem_insertWhen.mp inside with rfl | old
    · change bitsize.toNat ∣ (segmentOffset index bitsize).toNat
      rw [toNat_segmentOffset]
      exact Nat.dvd_mul_left _ _
    · exact ok.aligned node old
  · intro node inside
    rcases Lib.mem_insertWhen.mp inside with rfl | old
    · exact belowLast
    · exact ok.below node old

theorem NodesOk.addNode_answers (belowLast : BelowLast bitsize index) :
    (∃ place, sbitmapFindNode index (sbitmapAddNode (newNode index bitsize) nodes) = some place) ∧
      ∀ j, sbitmapIsSet j (sbitmapAddNode (newNode index bitsize) nodes) = sbitmapIsSet j nodes := by
  have isIn := hasIndex_newNode ok.positive belowLast
  have behind : ¬ index < (newNode index bitsize).offset := by
    rw [hasIndex_newNode_iff belowLast] at isIn
    exact not_lt.mpr isIn.1
  have multiple : bitsize.toNat ∣ (segmentOffset index bitsize).toNat := by
    rw [toNat_segmentOffset]
    exact Nat.dvd_mul_left _ _
  induction nodes with
  | nil =>
    refine ⟨⟨0, ?_⟩, ?_⟩
    · change sbitmapFindNode index [newNode index bitsize] = some 0
      rw [sbitmapFindNode, if_neg behind, if_pos isIn]
    intro j
    change sbitmapIsSet j [newNode index bitsize] = false
    rw [sbitmapIsSet_cons, testBit_newNode]
    simp [sbitmapIsSet, sbitmapFindNode]
  | cons node _ ih =>
    rw [sbitmapAddNode, Lib.insertWhen]
    split
    · next before =>
      rw [decide_eq_true_iff, lt_def] at before
      have gap := add_le_of_dvd multiple (ok.aligned node mem_cons_self) before
      refine ⟨⟨0, ?_⟩, ?_⟩
      · rw [sbitmapFindNode, if_neg behind, if_pos isIn]
      intro j
      rw [sbitmapIsSet_cons, testBit_newNode]
      have outside : j < (newNode index bitsize).offset ∨
          hasIndex (newNode index bitsize) j = true → j < node.offset := by
        rw [hasIndex_newNode_iff belowLast, lt_def, lt_def]
        omega
      by_cases early : j < (newNode index bitsize).offset
      · rw [if_pos early, sbitmapIsSet_cons, if_pos (outside (.inl early))]
      rw [if_neg early]
      by_cases within : hasIndex (newNode index bitsize) j = true
      · rw [if_pos within, sbitmapIsSet_cons, if_pos (outside (.inr within))]
      · rw [if_neg within]
    next after =>
    rw [decide_eq_true_iff] at after
    have notBefore : ¬ index < node.offset := by
      rw [lt_def] at after behind ⊢
      omega
    have notIn : ¬ hasIndex node index = true := by
      intro has
      rw [sbitmapFindNode, if_neg notBefore, if_pos has] at missing
      cases missing
    rw [sbitmapFindNode, if_neg notBefore, if_neg notIn, map_eq_none_iff] at missing
    obtain ⟨⟨place, found⟩, same⟩ := ih ok.tail missing
    refine ⟨⟨place + 1, ?_⟩, ?_⟩
    · rw [sbitmapFindNode, if_neg notBefore, if_neg notIn]
      exact congrArg (Option.map (· + 1)) found
    intro j
    rw [sbitmapIsSet_cons, sbitmapIsSet_cons]
    exact congrArg (fun answer => if j < node.offset then false
      else if hasIndex node j then testBit node j else answer) (same j)

end

theorem NodesOk.modify {change : SbitmapNodeS → UINT → SbitmapNodeS} (writes : Writes change value)
    (place : Nat) : NodesOk bitsize (nodes.modify place fun node => change node index) := by
  have kept : ∀ node ∈ nodes.modify place (fun node => change node index),
      ∃ old ∈ nodes, node.offset = old.offset ∧ node.bitsize = old.bitsize := by
    intro node inside
    obtain ⟨_, isNode⟩ := mem_iff_getElem?.mp inside
    rw [getElem?_modify] at isNode
    obtain ⟨old, isOld, rfl⟩ := map_eq_some_iff.mp isNode
    refine ⟨old, mem_of_getElem? isOld, ?_⟩
    split
    · exact ⟨writes.offset old index, writes.bitsize old index⟩
    · exact ⟨rfl, rfl⟩
  have offsets : (nodes.modify place fun node => change node index).map (fun node => node.offset.toNat) =
      nodes.map fun node => node.offset.toNat := by
    apply ext_getElem?
    intro k
    rw [getElem?_map, getElem?_modify, getElem?_map]
    cases nodes[k]? with
    | none => rfl
    | some =>
      simp only [Option.map_eq_map, map_some]
      split
      · rw [writes.offset]
      · rfl
  constructor
  · exact ok.positive
  · have ascending := ok.ascending
    rw [Lib.Ascending, ← pairwise_map (R := (· < ·)), ← offsets, pairwise_map] at ascending
    exact ascending
  · intro node inside
    obtain ⟨old, isOld, -, same⟩ := kept node inside
    rw [same]
    exact ok.sized old isOld
  · intro node inside
    obtain ⟨old, isOld, same, -⟩ := kept node inside
    rw [same]
    exact ok.aligned old isOld
  intro node inside
  obtain ⟨old, isOld, same, -⟩ := kept node inside
  rw [same]
  exact ok.below old isOld

end

structure State where
  ctrl : SxbitmapS
  members : Finset UINT

inductive Operation where
  | set (index : UINT) (memory : Bool)
  | clr (index : UINT)

/-- A `SXBitmap_Set` that finds no memory leaves the set as it is. -/
def next (state : State) : Operation → State
  | .set index memory =>
    let (ctrl, status) := sxbitmapSet index state.ctrl memory
    ⟨ctrl, if status = .noMemory then state.members else insert index state.members⟩
  | .clr index => ⟨sxbitmapClr index state.ctrl, state.members.erase index⟩

def sxbitmapSystem : Lib.System State Operation where
  start state := ∃ bitsize : UINT, 0 < bitsize.toNat ∧ 32 ∣ bitsize.toNat ∧
    state = ⟨sxbitmapInit bitsize, ∅⟩
  step state operation after := after = next state operation

def Refines (state : State) : Prop :=
  ∀ index, sbitmapIsSet index state.ctrl.sbitmap = decide (index ∈ state.members)

def Admissible (state : State) : Operation → Prop
  | .set index _ => BelowLast state.ctrl.bitsize index
  | .clr _ => True

instance (state : State) (operation : Operation) : Decidable (Admissible state operation) :=
  match operation with
  | .set index _ => inferInstanceAs (Decidable (BelowLast state.ctrl.bitsize index))
  | .clr _ => isTrue trivial

structure SegmentsOk (state : State) : Prop where
  nodes : NodesOk state.ctrl.bitsize state.ctrl.sbitmap
  refines : Refines state

variable {state : State}

theorem SegmentsOk.change {ctrl : SxbitmapS} {members after : Finset UINT} {place : Nat}
    {change : SbitmapNodeS → UINT → SbitmapNodeS} {value : Bool} (writes : Writes change value)
    (nodes : NodesOk ctrl.bitsize ctrl.sbitmap)
    (answers : ∀ j, sbitmapIsSet j ctrl.sbitmap = decide (j ∈ members))
    (found : sbitmapFindNode index ctrl.sbitmap = some place)
    (written : ∀ j, j ∈ after ↔ if j = index then value = true else j ∈ members) :
    SegmentsOk ⟨{ ctrl with sbitmap := (sbitmapChange index change ctrl.sbitmap).1 }, after⟩ := by
  rw [sbitmapChange_found found]
  constructor
  · exact nodes.modify writes place
  intro j
  rw [sbitmapIsSet_modify writes found, Bool.eq_iff_iff, decide_eq_true_iff, written]
  split
  · rfl
  · rw [answers, decide_eq_true_iff]

theorem sxbitmapSet_missing {ctrl : SxbitmapS} (missing : sbitmapFindNode index ctrl.sbitmap = none)
    (memory : Bool) :
    sxbitmapSet index ctrl memory =
      if memory then
        ({ ctrl with
          sbitmap := (sbitmapSet index (sbitmapAddNode (newNode index ctrl.bitsize) ctrl.sbitmap)).1 },
          (sbitmapSet index (sbitmapAddNode (newNode index ctrl.bitsize) ctrl.sbitmap)).2)
      else
        (ctrl, .noMemory) := by
  rw [sxbitmapSet, missing]

theorem sxbitmapSet_found {ctrl : SxbitmapS}
    (found : sbitmapFindNode index ctrl.sbitmap = some place) (memory : Bool) :
    sxbitmapSet index ctrl memory =
      ({ ctrl with sbitmap := (sbitmapSet index ctrl.sbitmap).1 }, (sbitmapSet index ctrl.sbitmap).2) := by
  rw [sxbitmapSet, found]

theorem mem_insert_written (index j : UINT) (members : Finset UINT) :
    j ∈ insert index members ↔ if j = index then true = true else j ∈ members := by
  split
  · next same => simp [same]
  · next other => simp [other]

theorem SegmentsOk.set (ok : SegmentsOk state) (belowLast : BelowLast state.ctrl.bitsize index)
    (memory : Bool) : SegmentsOk (next state (.set index memory)) := by
  rw [next]
  cases found : sbitmapFindNode index state.ctrl.sbitmap with
  | some =>
    rw [sxbitmapSet_found found, sbitmapSet, sbitmapChange_found found]
    have changed := SegmentsOk.change setBit_writes ok.nodes ok.refines found
      fun j => mem_insert_written index j state.members
    rwa [sbitmapChange_found found] at changed
  | none =>
    rw [sxbitmapSet_missing found]
    cases memory with
    | false => exact ok
    | true =>
      obtain ⟨⟨place, added⟩, same⟩ := ok.nodes.addNode_answers found belowLast
      rw [if_pos rfl, sbitmapSet, sbitmapChange_found added]
      have changed := @SegmentsOk.change index
        ⟨sbitmapAddNode (newNode index state.ctrl.bitsize) state.ctrl.sbitmap, state.ctrl.bitsize⟩
        state.members (insert index state.members) place setBit true setBit_writes
        (ok.nodes.addNode found belowLast) (fun j => (same j).trans (ok.refines j)) added
        (fun j => mem_insert_written index j state.members)
      rwa [sbitmapChange_found added] at changed

theorem SegmentsOk.clr (ok : SegmentsOk state) (index : UINT) :
    SegmentsOk (next state (.clr index)) := by
  rw [next, sxbitmapClr, sbitmapClr]
  cases found : sbitmapFindNode index state.ctrl.sbitmap with
  | some =>
    apply SegmentsOk.change clrBit_writes ok.nodes ok.refines found
    intro j
    split
    · next same => simp [same]
    · next other => simp [other]
  | none =>
    rw [sbitmapChange_missing found]
    have absent : index ∉ state.members := by
      have answer := ok.refines index
      rw [sbitmapIsSet_missing found] at answer
      exact of_decide_eq_false answer.symm
    rw [erase_eq_of_notMem absent]
    exact ok

theorem SegmentsOk.set_status (ok : SegmentsOk state)
    (belowLast : BelowLast state.ctrl.bitsize index) :
    (sxbitmapSet index state.ctrl true).2 = .ok := by
  cases found : sbitmapFindNode index state.ctrl.sbitmap with
  | some => rw [sxbitmapSet_found found, sbitmapSet, sbitmapChange_found found]
  | none =>
    obtain ⟨⟨_, added⟩, -⟩ := ok.nodes.addNode_answers found belowLast
    rw [sxbitmapSet_missing found, if_pos rfl, sbitmapSet, sbitmapChange_found added]

/-- In runs that set no index of the last segment the bitmap is the set, and only
memory makes a `SXBitmap_Set` below the last segment fail. -/
theorem sxbitmap_refines (reached : sxbitmapSystem.ReachableWhen Admissible state) :
    Refines state ∧
      ∀ index, BelowLast state.ctrl.bitsize index → (sxbitmapSet index state.ctrl true).2 = .ok := by
  have ok : SegmentsOk state := by
    apply Lib.System.ReachableWhen.invariant _ _ reached
    · rintro _ ⟨_, positive, -, rfl⟩
      constructor
      · exact ⟨positive, Pairwise.nil, by simp [sxbitmapInit], by simp [sxbitmapInit],
          by simp [sxbitmapInit]⟩
      · exact fun index => rfl
    · rintro _ operation _ ok admissible rfl
      cases operation with
      | set _ memory => exact ok.set admissible memory
      | clr index => exact ok.clr index
  exact ⟨ok.refines, fun index belowLast => ok.set_status belowLast⟩

def exampleStart : State :=
  ⟨sxbitmapInit 64, ∅⟩

theorem exampleStart_start : sxbitmapSystem.start exampleStart :=
  ⟨64, by decide, by decide, rfl⟩

def exampleEnd : State :=
  [.set 200 true, .set 3 true, .clr 200].foldl next exampleStart

theorem sxbitmap_refines_three :
    Refines exampleEnd ∧
      ∀ index, BelowLast exampleEnd.ctrl.bitsize index →
        (sxbitmapSet index exampleEnd.ctrl true).2 = .ok :=
  sxbitmap_refines (Lib.System.ReachableWhen.foldl (fun _ _ admissible => ⟨admissible, rfl⟩)
    (.start exampleStart_start) (by decide +kernel))

/-- The last index below 2^32 is refused, and each try leaves a segment that is never found. -/
theorem sxbitmap_last_segment :
    ∃ state, sxbitmapSystem.Reachable state ∧ ¬ Refines state ∧
      state.ctrl.sbitmap.map (fun node => node.offset) = [0xffffffc0, 0xffffffc0] ∧
      (sxbitmapSet 0xffffffff state.ctrl true).2 = .notFound := by
  refine ⟨[.set 0xffffffff true, .set 0xffffffff true].foldl next exampleStart, ?_, ?_,
    by decide +kernel, by decide +kernel⟩
  · exact Lib.System.Reachable.runs (fun _ _ => rfl) _ (.start exampleStart_start)
  · intro refines
    exact absurd (refines 0xffffffff) (by decide +kernel)

end MyCode.SegmentBitmap
