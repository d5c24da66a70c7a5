import MyCode.Mbuf
import MyCode.Lib.Transition

/-!
# The bytes of mbufs

Every loop over the blocks keeps their windows inside the clusters, and does to the bytes in
the windows, one after another, what the call does to one long list.  What the total says
beside that is arithmetic.
-/

namespace MyCode.Mbuf

open Lib Option List Nat

variable {memory : Memory} {mblk pstMblkNext : MbufMblkS} {blocks rest more : List MbufMblkS}
  {total count ulLen ulOffset : Nat} {buf data others : List UCHAR}

theorem uintSub_eq {first second : Nat} (less : second ≤ first) (word : first < 2 ^ 32) :
    uintSub first second = first - second := by
  rw [uintSub]
  omega

def MbufMblkS.bytes (mblk : MbufMblkS) : List UCHAR :=
  mblk.pstCluster.pucData.slice mblk.headFree mblk.ulLen

def MbufS.bytes (mbuf : MbufS) : List UCHAR :=
  mbuf.stMblkHead.flatMap MbufMblkS.bytes

@[simp]
theorem length_bytes : mblk.bytes.length = mblk.ulLen := by
  simp [MbufMblkS.bytes]

/-- Nobody shares the cluster, and the window lies inside it. -/
structure MblkOk (mblk : MbufMblkS) : Prop where
  size : mblk.pstCluster.pucData.size = CLUSTER_SIZE
  ref : mblk.pstCluster.ulRefCnt = 1
  inside : mblk.headFree + mblk.ulLen ≤ CLUSTER_SIZE

theorem mblkOk_create {headFree : Nat} (inside : headFree + ulLen ≤ CLUSTER_SIZE) :
    MblkOk ⟨headFree, ulLen, mbufCreateCluster memory⟩ :=
  ⟨rfl, rfl, inside⟩

theorem MblkOk.resize (ok : MblkOk mblk) {headFree : Nat}
    (inside : headFree + ulLen ≤ CLUSTER_SIZE) :
    MblkOk { mblk with headFree := headFree, ulLen := ulLen } :=
  ⟨ok.size, ok.ref, inside⟩

theorem MblkOk.behind (ok : MblkOk mblk) (less : ulLen ≤ mblk.ulLen) :
    MblkOk (mblk.behind ulLen) := by
  apply ok.resize
  have inside := ok.inside
  omega

theorem bytes_behind (less : ulLen ≤ mblk.ulLen) :
    (mblk.behind ulLen).bytes = mblk.bytes.drop ulLen :=
  (Block.drop_slice less).symm

theorem bytes_shorter (less : ulLen ≤ mblk.ulLen) :
    { mblk with ulLen := ulLen }.bytes = mblk.bytes.take ulLen :=
  (Block.take_slice less).symm

theorem MblkOk.tailFree (ok : MblkOk mblk) :
    mblk.tailFree = CLUSTER_SIZE - mblk.headFree - mblk.ulLen := by
  have inside := ok.inside
  have front : uintSub CLUSTER_SIZE mblk.headFree = CLUSTER_SIZE - mblk.headFree := by
    apply uintSub_eq
    · omega
    · simp [CLUSTER_SIZE]
  rw [MbufMblkS.tailFree, MbufClusterS.ulSize, ok.size, front]
  apply uintSub_eq
  · omega
  · simp only [CLUSTER_SIZE]
    omega

/-- A step over one block that gives a sound one with such bytes. -/
def Yields (result : Option MbufMblkS) (headFree : Nat) (data : List UCHAR) : Prop :=
  ∃ after, result = some after ∧ MblkOk after ∧ after.headFree = headFree ∧ after.bytes = data

theorem map_getD (less : count ≤ buf.length) :
    (range count).map (fun i => buf.getD i 0) = buf.take count := by
  apply ext_getElem?
  intro i
  grind

section

variable (ok : MblkOk mblk)

include ok

theorem MblkOk.write (less : count ≤ buf.length) (room : ulOffset + count ≤ mblk.ulLen) :
    Yields (mblk.write ulOffset buf count) mblk.headFree
      (splice mblk.bytes ulOffset count (buf.take count)) := by
  have inside := ok.inside
  rw [MbufMblkS.write, Block.copyIn_eq (by rw [ok.size]; omega)]
  refine ⟨_, rfl, ⟨ok.size, ok.ref, ok.inside⟩, rfl, ?_⟩
  simp only [MbufMblkS.bytes, MbufMblkS.holding, ← map_getD less]
  exact Block.slice_paste room

theorem MblkOk.writeBehind (less : count ≤ buf.length)
    (room : mblk.headFree + mblk.ulLen + count ≤ CLUSTER_SIZE) :
    ∃ after, mblk.write mblk.ulLen buf count = some after ∧
      MblkOk { after with ulLen := after.ulLen + count } ∧
      { after with ulLen := after.ulLen + count }.bytes = mblk.bytes ++ buf.take count := by
  rw [MbufMblkS.write, Block.copyIn_eq (by rw [ok.size]; exact room)]
  refine ⟨_, rfl, ⟨ok.size, ok.ref, ?_⟩, ?_⟩
  · simp only [MbufMblkS.holding]
    omega
  · simp only [MbufMblkS.bytes, MbufMblkS.holding, ← map_getD less]
    rw [Block.slice_add, Block.slice_paste_self, Block.slice_paste_other (by omega)]

theorem MblkOk.take (okNext : MblkOk pstMblkNext) (less : count ≤ pstMblkNext.ulLen)
    (room : mblk.headFree + mblk.ulLen + count ≤ CLUSTER_SIZE) :
    Yields (mblk.take pstMblkNext count) mblk.headFree
      (mblk.bytes ++ pstMblkNext.bytes.take count) := by
  have inside := okNext.inside
  rw [MbufMblkS.take, Block.transfer_eq]
  · refine ⟨_, rfl, ⟨ok.size, ok.ref, ?_⟩, rfl, ?_⟩
    · simp only [MbufMblkS.holding]
      omega
    simp only [MbufMblkS.bytes, MbufMblkS.holding, Block.take_slice less]
    rw [Block.slice_add, Block.slice_paste_self, Block.slice_paste_other (by omega)]
    rfl
  · rw [okNext.size]
    omega
  · rw [ok.size]
    exact room

theorem MblkOk.joinFront (okNext : MblkOk pstMblkNext) (room : mblk.ulLen ≤ pstMblkNext.headFree) :
    ∃ data, pstMblkNext.pstCluster.pucData.transfer (pstMblkNext.headFree - mblk.ulLen)
        mblk.pstCluster.pucData mblk.headFree mblk.ulLen = some data ∧
      MblkOk { pstMblkNext.holding data with
        headFree := pstMblkNext.headFree - mblk.ulLen
        ulLen := pstMblkNext.ulLen + mblk.ulLen } ∧
      { pstMblkNext.holding data with
        headFree := pstMblkNext.headFree - mblk.ulLen
        ulLen := pstMblkNext.ulLen + mblk.ulLen }.bytes = mblk.bytes ++ pstMblkNext.bytes := by
  have inside := ok.inside
  have window := okNext.inside
  rw [Block.transfer_eq]
  · refine ⟨_, rfl, ⟨okNext.size, okNext.ref, ?_⟩, ?_⟩
    · simp only
      omega
    simp only [MbufMblkS.bytes, MbufMblkS.holding]
    rw [Nat.add_comm, Block.slice_add, Block.slice_paste_self,
      Block.slice_paste_other (by omega), Nat.sub_add_cancel room]
    rfl
  · rw [ok.size]
    exact inside
  · rw [okNext.size]
    omega

theorem MblkOk.fragment (less : ulLen < mblk.ulLen) :
    ∃ front back, mbufMblkFragment memory mblk ulLen = some (front, back) ∧ MblkOk front ∧
      front.bytes = mblk.bytes.take ulLen ∧ MblkOk back ∧
      back.bytes = mblk.bytes.drop ulLen := by
  have inside := ok.inside
  simp only [mbufMblkFragment, ge_iff_le, Nat.not_le.mpr less, if_false, MbufClusterS.ulSize,
    mbufCreateCluster]
  rw [Block.transfer_eq]
  · refine ⟨_, _, rfl, ⟨rfl, rfl, ?_⟩, ?_, ok.behind (by omega), bytes_behind (by omega)⟩
    · simp only [MbufMblkS.holding]
      omega
    · simp only [MbufMblkS.bytes, MbufMblkS.holding, Block.take_slice (Nat.le_of_lt less)]
      exact Block.slice_paste_self
  · rw [ok.size]
    omega
  · simp only
    omega

theorem MblkOk.toStart : Yields (toStart memory mblk) 0 mblk.bytes := by
  have inside := ok.inside
  simp only [Mbuf.toStart, ok.ref, Nat.lt_irrefl, gt_iff_lt, if_false]
  split
  · rw [Block.transfer_eq]
    · refine ⟨_, rfl, ⟨ok.size, ok.ref, ?_⟩, rfl, ?_⟩
      · simp only [MbufMblkS.holding]
        omega
      · simp only [MbufMblkS.bytes, MbufMblkS.holding]
        exact Block.slice_paste_self
    · rw [ok.size]
      exact inside
    · rw [ok.size]
      omega
  · next start =>
    exact ⟨mblk, rfl, ok, not_not.mp start, rfl⟩

theorem MblkOk.cutMiddle (less : ulOffset + ulLen ≤ mblk.ulLen) :
    Yields (cutMiddle memory mblk ulOffset ulLen) mblk.headFree
      (splice mblk.bytes ulOffset ulLen []) := by
  have inside := ok.inside
  simp only [Mbuf.cutMiddle, ok.ref, Nat.lt_irrefl, gt_iff_lt, if_false]
  rw [Block.transfer_eq]
  · refine ⟨_, rfl, ⟨ok.size, ok.ref, ?_⟩, rfl, ?_⟩
    · simp only [MbufMblkS.holding]
      omega
    have parts : mblk.ulLen - ulLen = ulOffset + (mblk.ulLen - ulOffset - ulLen) := by omega
    simp only [MbufMblkS.bytes, MbufMblkS.holding, splice, append_nil]
    rw [Block.take_slice (by omega), Block.drop_slice less, parts, Block.slice_add,
      Block.slice_paste_self, Block.slice_paste_other (by omega), Nat.sub_sub, Nat.add_assoc]
    rfl
  · rw [ok.size]
    omega
  · rw [ok.size]
    omega

theorem MblkOk.makeRoom (more : mblk.ulLen ≤ ulLen) (fits : ulLen ≤ CLUSTER_SIZE) :
    ∃ after, makeRoom mblk ulLen = some after ∧ MblkOk after ∧ after.bytes = mblk.bytes ∧
      after.headFree + ulLen ≤ CLUSTER_SIZE := by
  have inside := ok.inside
  have size : CLUSTER_SIZE < 2 ^ 32 := by simp [CLUSTER_SIZE]
  have behind := uintSub_eq more (by omega)
  simp only [Mbuf.makeRoom, ok.tailFree, behind]
  split
  · next short =>
    rw [uintSub_eq (by omega) (by omega), if_pos (by omega), Block.transfer_eq]
    · refine ⟨_, rfl, ⟨ok.size, ok.ref, ?_⟩, ?_, ?_⟩
      · simp only [MbufMblkS.holding]
        omega
      · simp only [MbufMblkS.bytes, MbufMblkS.holding]
        exact Block.slice_paste_self
      · dsimp only
        omega
    · rw [ok.size]
      exact inside
    · rw [ok.size]
      omega
  · exact ⟨mblk, rfl, ok, rfl, by omega⟩

end

inductive Chain : List MbufMblkS → Nat → Prop where
  | nil : Chain [] 0
  | cons {mblk : MbufMblkS} {rest : List MbufMblkS} {count total : Nat} (ok : MblkOk mblk)
      (others : Chain rest count) (sum : total = mblk.ulLen + count) : Chain (mblk :: rest) total

theorem length_joined {mblk : MbufMblkS} {others data : List UCHAR}
    (same : data = mblk.bytes ++ others) : data.length = mblk.ulLen + others.length := by
  rw [same, length_append, length_bytes]

inductive Holds : List MbufMblkS → List UCHAR → Prop where
  | nil : Holds [] []
  | cons {mblk : MbufMblkS} {rest : List MbufMblkS} {others data : List UCHAR}
      (ok : MblkOk mblk) (behind : Holds rest others) (same : data = mblk.bytes ++ others) :
      Holds (mblk :: rest) data

theorem Chain.holds (chain : Chain blocks total) :
    Holds blocks (blocks.flatMap MbufMblkS.bytes) := by
  induction chain with
  | nil => exact .nil
  | cons ok _ _ ih => exact .cons ok ih rfl

theorem Chain.length (chain : Chain blocks total) :
    (blocks.flatMap MbufMblkS.bytes).length = total := by
  induction chain with
  | nil => rfl
  | cons _ _ sum ih => rw [flatMap_cons, length_append, ih, length_bytes, sum]

variable (holds : Holds blocks data)

include holds in
theorem Holds.bytes : blocks.flatMap MbufMblkS.bytes = data := by
  induction holds with
  | nil => rfl
  | cons _ _ same ih => rw [flatMap_cons, ih, same]

include holds in
theorem Holds.chain : Chain blocks data.length := by
  induction holds with
  | nil => exact .nil
  | cons ok _ same ih =>
    apply Chain.cons ok ih
    rw [same, length_append, length_bytes]

theorem Holds.single (ok : MblkOk mblk) (same : data = mblk.bytes) : Holds [mblk] data :=
  .cons ok .nil (by rw [same, append_nil])

theorem Holds.append (first : Holds blocks data) (second : Holds more others) :
    Holds (blocks ++ more) (data ++ others) := by
  induction first with
  | nil => exact second
  | cons ok _ same ih =>
    apply Holds.cons ok ih
    rw [same, append_assoc]

theorem Holds.split (holds : Holds (blocks ++ more) data) :
    ∃ front back, Holds blocks front ∧ Holds more back ∧ data = front ++ back := by
  induction blocks generalizing data with
  | nil => exact ⟨[], data, .nil, holds, rfl⟩
  | cons mblk _ ih =>
    cases holds with
    | cons ok behind same =>
      obtain ⟨front, back, first, second, whole⟩ := ih behind
      refine ⟨mblk.bytes ++ front, back, .cons ok first rfl, second, ?_⟩
      rw [same, whole, append_assoc]

include holds in
theorem Holds.sum : (blocks.map MbufMblkS.ulLen).sum = data.length := by
  induction holds with
  | nil => rfl
  | cons _ _ same ih => rw [map_cons, sum_cons, ih, same, length_append, length_bytes]

include holds in
theorem Holds.inside :
    ∀ mblk ∈ blocks, mblk.headFree + mblk.ulLen ≤ mblk.pstCluster.ulSize := by
  induction holds with
  | nil => simp
  | cons ok _ _ ih =>
    rw [forall_mem_cons]
    refine ⟨?_, ih⟩
    rw [MbufClusterS.ulSize, ok.size]
    exact ok.inside

/-- A scan that gives sound blocks with such bytes. -/
def Delivers (result : Option (List MbufMblkS)) (data : List UCHAR) : Prop :=
  ∃ after, result = some after ∧ Holds after data

theorem Delivers.cons {result : Option (List MbufMblkS)} (ok : MblkOk mblk)
    (delivers : Delivers result others) (same : data = mblk.bytes ++ others) :
    Delivers (do let blocks ← result; some (mblk :: blocks)) data := by
  obtain ⟨after, run, holds⟩ := delivers
  exact ⟨mblk :: after, by simp [run], .cons ok holds same⟩

include holds in
theorem Delivers.some : Delivers (some blocks) data :=
  ⟨blocks, rfl, holds⟩

theorem createMblk_ok (buf : List UCHAR) (ulReservrdHeadSpace : Nat) :
    ∃ after, mbufCreateMblkByCopyBuf memory buf ulReservrdHeadSpace = some after ∧
      MblkOk after ∧ after.bytes = buf.take after.ulLen ∧ after.ulLen ≤ buf.length ∧
      (buf ≠ [] → 0 < after.ulLen) := by
  have reserved : (if ulReservrdHeadSpace ≥ CLUSTER_SIZE then 0 else ulReservrdHeadSpace) <
      CLUSTER_SIZE := by
    split
    · simp [CLUSTER_SIZE]
    · next less => exact Nat.not_le.mp less
  simp only [mbufCreateMblkByCopyBuf]
  generalize (if ulReservrdHeadSpace ≥ CLUSTER_SIZE then 0 else ulReservrdHeadSpace) = headFree
    at reserved
  have fresh : MblkOk ⟨headFree, min (CLUSTER_SIZE - headFree) buf.length,
      mbufCreateCluster memory⟩ := by
    apply mblkOk_create
    omega
  obtain ⟨after, run, ok, _, bytes⟩ :=
    fresh.write (Nat.min_le_right (CLUSTER_SIZE - headFree) buf.length) (Nat.le_of_eq (Nat.zero_add _))
  have ulLen : after.ulLen = min (CLUSTER_SIZE - headFree) buf.length := by
    rw [← length_bytes, bytes, length_splice (zero_le _), length_bytes]
    simp
  refine ⟨after, run, ok, ?_, ?_, ?_⟩
  · rw [bytes, ulLen]
    simp [splice]
  · rw [ulLen]
    exact Nat.min_le_right _ _
  intro filled
  have bytes := length_pos_of_ne_nil filled
  omega

theorem copyBlocks_holds {fuel : Nat} (enough : buf.length ≤ fuel) (ulReserveHeadSpace : Nat) :
    Delivers (copyBlocks memory fuel buf ulReserveHeadSpace) buf := by
  induction fuel generalizing buf ulReserveHeadSpace with
  | zero =>
    have empty := eq_nil_of_length_eq_zero (le_zero.mp enough)
    rw [empty]
    exact ⟨[], rfl, .nil⟩
  | succ fuel ih =>
    cases buf with
    | nil => exact ⟨[], rfl, .nil⟩
    | cons byte bytes =>
      obtain ⟨front, run, ok, same, -, positive⟩ :=
        @createMblk_ok memory (byte :: bytes) ulReserveHeadSpace
      have taken := positive (cons_ne_nil byte bytes)
      have left : ((byte :: bytes).drop front.ulLen).length ≤ fuel := by
        rw [length_drop]
        omega
      simp only [copyBlocks, run, bind_eq_bind, bind_some]
      apply Delivers.cons ok (ih left 0)
      rw [same, take_append_drop]

include holds in
theorem Holds.pend (bPendToHead : Bool) (ulLen : Nat) :
    ∃ fresh, fresh.length = ulLen ∧ Holds (mbufPendLoop memory ulLen bPendToHead blocks)
      (if bPendToHead then fresh ++ data else data ++ fresh) := by
  have pended : ∀ {blocks data mblk}, Holds blocks data → MblkOk mblk →
      Holds (if bPendToHead then mblk :: blocks else blocks ++ [mblk])
        (if bPendToHead then mblk.bytes ++ data else data ++ mblk.bytes) := by
    intro blocks data mblk holds ok
    split
    · exact .cons ok holds rfl
    · exact holds.append (.single ok rfl)
  induction ulLen using Nat.strongRecOn generalizing blocks data with
  | ind ulLen ih =>
    rw [mbufPendLoop]
    split
    · next none =>
      refine ⟨[], none.symm, ?_⟩
      simpa using holds
    split
    · next last =>
      have ok : MblkOk ⟨CLUSTER_SIZE - ulLen, ulLen, mbufCreateCluster memory⟩ := by
        apply mblkOk_create
        omega
      exact ⟨_, length_bytes, pended holds ok⟩
    next long =>
    have size : 0 < CLUSTER_SIZE := by simp [CLUSTER_SIZE]
    have ok := @mblkOk_create memory CLUSTER_SIZE 0 (by omega)
    obtain ⟨fresh, length, later⟩ := ih (ulLen - CLUSTER_SIZE) (by omega) (pended holds ok)
    have whole : fresh.length + CLUSTER_SIZE = ulLen := by omega
    cases bPendToHead with
    | true =>
      refine ⟨fresh ++ (MbufMblkS.mk 0 CLUSTER_SIZE (mbufCreateCluster memory)).bytes, ?_, ?_⟩
      · rw [length_append, length_bytes]
        exact whole
      · simpa using later
    | false =>
      refine ⟨(MbufMblkS.mk 0 CLUSTER_SIZE (mbufCreateCluster memory)).bytes ++ fresh, ?_, ?_⟩
      · rw [length_append, length_bytes, Nat.add_comm]
        exact whole
      · simpa using later

include holds in
theorem Holds.copy (start : ulOffset ≤ data.length) :
    ∃ after ulGrown ulCopied,
      copyLoop blocks ulOffset buf = some (after, ulGrown, buf.drop ulCopied) ∧
      Holds after (splice data ulOffset ulCopied (buf.take ulCopied)) ∧
      ulCopied ≤ buf.length ∧ ulGrown = ulOffset + ulCopied - data.length ∧
      (ulCopied < buf.length → data.length ≤ ulOffset + ulCopied) := by
  induction holds generalizing ulOffset buf with
  | nil =>
    have first := le_zero.mp start
    subst first
    exact ⟨[], 0, 0, rfl, by simpa using Holds.nil, zero_le _, rfl, fun _ => zero_le _⟩
  | @cons mblk rest others data ok behind same ih =>
    have length := length_joined same
    rw [copyLoop]
    split
    · next none =>
      refine ⟨mblk :: rest, 0, 0, by simp [none], ?_, zero_le _, by omega, by simp [none]⟩
      simpa using Holds.cons ok behind same
    split
    · next before =>
      obtain ⟨after, ulGrown, ulCopied, run, holds, less, _, _⟩ :=
        @ih (ulOffset - mblk.ulLen) buf (by omega)
      refine ⟨mblk :: after, ulGrown, ulCopied, by simp [run], .cons ok holds ?_, less, ?_, ?_⟩
      · rw [same, splice_back (by rw [length_bytes]; omega), length_bytes]
      · omega
      · intro more
        omega
    next here =>
    obtain ⟨ulHere, hereEq⟩ : ∃ ulHere, ulHere = min buf.length (mblk.ulLen - ulOffset) :=
      ⟨_, rfl⟩
    rw [← hereEq]
    obtain ⟨written, write, okWritten, _, bytes⟩ :=
      ok.write (show ulHere ≤ buf.length by omega) (show ulOffset + ulHere ≤ mblk.ulLen by omega)
    simp only [write, bind_eq_bind, bind_some]
    split
    · next last =>
      obtain ⟨more, empty⟩ := last
      have left := length_pos_of_ne_nil more
      rw [length_drop] at left
      have nothing : others = [] := by
        rw [empty] at behind
        cases behind
        rfl
      have tail := okWritten.tailFree
      have window := okWritten.inside
      obtain ⟨_, grow, okGrown, bytesGrown⟩ := okWritten.writeBehind
        (Nat.min_le_left (buf.drop ulHere).length written.tailFree) (by omega)
      rw [length_drop] at grow okGrown bytesGrown
      simp only [length_drop, grow, bind_some, drop_drop]
      refine ⟨_, _, _, rfl, .single okGrown ?_, ?_, ?_, ?_⟩
      · rw [bytesGrown, bytes, same, take_add, splice_seam, nothing]
        · simp [splice, show mblk.ulLen ≤ ulOffset + ulHere by omega]
        · rw [length_bytes]
          omega
        · rw [length_bytes]
          omega
      · omega
      · rw [length, nothing, length_nil]
        omega
      · rw [length, nothing, length_nil]
        omega
    obtain ⟨after, ulGrown, ulCopied, run, holds, less, _, enough⟩ :=
      @ih 0 (buf.drop ulHere) (zero_le _)
    rw [length_drop] at less enough
    refine ⟨written :: after, ulGrown, ulHere + ulCopied, by simp [run, drop_drop],
      .cons okWritten holds ?_, by omega, ?_, ?_⟩
    · rw [bytes, same, take_add]
      by_cases whole : ulOffset + ulHere = mblk.ulLen
      · have further : ulOffset + (ulHere + ulCopied) - mblk.ulLen = ulCopied := by omega
        rw [splice_seam, length_bytes, further]
        · simp [splice, whole]
        · rw [length_bytes]
          omega
        · rw [length_bytes]
          omega
      · have none : ulCopied = 0 := by omega
        subst none
        rw [take_zero, append_nil, Nat.add_zero, splice_nothing, splice_front]
        rw [length_bytes]
        omega
    · omega
    · intro short
      omega

theorem MblkOk.insertFront (ok : MblkOk mblk) (buf : List UCHAR) :
    Delivers (insertFront memory mblk buf) (buf ++ mblk.bytes) := by
  have inside := ok.inside
  rw [Mbuf.insertFront]
  split
  · next fits =>
    have longer : MblkOk { mblk with
        headFree := mblk.headFree - buf.length, ulLen := mblk.ulLen + buf.length } := by
      apply ok.resize
      omega
    obtain ⟨after, write, okAfter, _, bytes⟩ :=
      longer.write (Nat.le_refl buf.length) (show 0 + buf.length ≤ _ by simp only; omega)
    refine ⟨[after], by simp [write], .single okAfter ?_⟩
    rw [bytes, take_length, splice, Nat.zero_add]
    simp only [MbufMblkS.bytes, Block.drop_slice (le_add_left _ _), Nat.sub_add_cancel fits,
      Nat.add_sub_cancel]
    rfl
  · obtain ⟨front, run, holds⟩ := @copyBlocks_holds memory buf _ (Nat.le_refl _) 0
    exact ⟨front ++ [mblk], by simp [run], holds.append (.single ok rfl)⟩

include holds in
theorem Holds.insert (ulOffset : Nat) :
    Delivers (insertLoop memory buf blocks ulOffset)
      (if ulOffset < data.length then splice data ulOffset 0 buf else data) := by
  induction holds generalizing ulOffset with
  | nil => exact .some .nil
  | @cons mblk rest others data ok behind same ih =>
    have length := length_joined same
    by_cases further : ulOffset ≥ mblk.ulLen
    · rw [insertLoop, if_pos further]
      apply (ih (ulOffset - mblk.ulLen)).cons ok
      rw [same, splice_back (by rw [length_bytes]; exact further), length_bytes, ← same, length]
      by_cases within : ulOffset < mblk.ulLen + others.length
      · rw [if_pos within, if_pos (by omega)]
      · rw [if_neg within, if_neg (by omega), same]
    rw [insertLoop, if_neg further, if_pos (show ulOffset < data.length by omega), same,
      splice_front (by rw [length_bytes]; omega)]
    by_cases start : ulOffset = 0
    · obtain ⟨after, run, holds⟩ := @MblkOk.insertFront memory mblk ok buf
      refine ⟨after ++ rest, by simp [run, start], ?_⟩
      simpa [splice, start] using holds.append behind
    obtain ⟨front, back, fragment, okFront, bytesFront, okBack, bytesBack⟩ :=
      @MblkOk.fragment memory mblk ulOffset ok (by omega)
    obtain ⟨after, run, holds⟩ := @MblkOk.insertFront memory back okBack buf
    refine ⟨front :: (after ++ rest), by simp [fragment, run, start], .cons okFront
      (holds.append behind) ?_⟩
    simp [splice, bytesFront, bytesBack]

variable (inside : ulOffset + ulLen ≤ data.length)

include holds inside in
theorem Holds.copyOut :
    copyOutLoop blocks ulOffset ulLen = some ((data.drop ulOffset).take ulLen) := by
  induction holds generalizing ulOffset ulLen with
  | nil => simp [copyOutLoop]
  | @cons mblk _ others data ok _ same ih =>
    have window := ok.inside
    have length := length_joined same
    rw [copyOutLoop]
    split
    · next further =>
      rw [ih (by omega), same]
      simp [drop_append, drop_eq_nil_of_le, further]
    have front : (mblk.bytes ++ others).drop ulOffset = mblk.bytes.drop ulOffset ++ others :=
      drop_append_of_le_length (by rw [length_bytes]; omega)
    have left : (mblk.bytes.drop ulOffset).length = mblk.ulLen - ulOffset := by
      rw [length_drop, length_bytes]
    have read : mblk.pstCluster.pucData.slice (mblk.headFree + ulOffset)
        (min ulLen (mblk.ulLen - ulOffset)) = (mblk.bytes.drop ulOffset).take ulLen := by
      rw [MbufMblkS.bytes, Block.drop_slice (by omega), take_eq_take_min,
        Block.length_slice, Block.take_slice (Nat.min_le_right _ _)]
    dsimp only
    rw [Block.copyOut_eq (by rw [ok.size]; omega), read, same, front, take_append, left]
    simp only [bind_eq_bind, bind_some]
    split
    · have none : ulLen - (mblk.ulLen - ulOffset) = 0 := by omega
      rw [none, take_zero, append_nil]
    rw [ih (by omega)]
    simp only [bind_some, drop_zero]
    congr 3
    omega

include holds in
theorem Holds.cutHead (ulLen : Nat) :
    Holds (cutHeadLoop blocks ulLen) (data.drop ulLen) := by
  induction holds generalizing ulLen with
  | nil =>
    rw [drop_nil]
    exact .nil
  | @cons mblk _ others _ ok behind same ih =>
    rw [cutHeadLoop, same]
    split
    · next whole =>
      have left : (mblk.bytes ++ others).drop ulLen = others.drop (ulLen - mblk.ulLen) := by
        simp [drop_append, drop_eq_nil_of_le, whole]
      rw [left]
      split
      · next last =>
        rw [last]
        exact behind
      · exact ih (ulLen - mblk.ulLen)
    · next part =>
      apply Holds.cons (ok.behind (by omega)) behind
      rw [bytes_behind (by omega), drop_append_of_le_length (by rw [length_bytes]; omega)]

theorem Holds.cutTail (holds : Holds blocks.reverse data) (ulLen : Nat) :
    Holds (cutTailLoop blocks ulLen).reverse (data.take (data.length - ulLen)) := by
  induction blocks generalizing data ulLen with
  | nil =>
    cases holds
    rw [take_nil]
    exact .nil
  | cons mblk _ ih =>
    rw [reverse_cons] at holds
    obtain ⟨front, _, before, last, same⟩ := holds.split
    obtain _ | ⟨ok, ⟨⟩, lastBytes⟩ := last
    rw [append_nil] at lastBytes
    have inside := ok.inside
    have length : data.length = front.length + mblk.ulLen := by
      rw [same, length_append, lastBytes, length_bytes]
    rw [cutTailLoop]
    split
    · have left : data.take (data.length - ulLen) =
          front.take (front.length - (ulLen - mblk.ulLen)) := by
        rw [length, same, take_append_of_le_length (by omega)]
        congr 1
        omega
      rw [left]
      split
      · next whole =>
        rw [whole, Nat.sub_zero, take_length]
        exact before
      · exact ih before (ulLen - mblk.ulLen)
    next part =>
    have short : MblkOk { mblk with ulLen := mblk.ulLen - ulLen } := by
      apply ok.resize
      omega
    rw [reverse_cons, length, same, take_append, take_of_length_le (by omega)]
    apply before.append (.single short _)
    rw [bytes_shorter (by omega), lastBytes]
    congr 1
    omega

include holds inside in
theorem Holds.cutPart :
    Delivers (cutPartLoop memory blocks ulOffset ulLen) (splice data ulOffset ulLen []) := by
  induction holds generalizing ulOffset ulLen with
  | nil =>
    rw [splice, take_nil, drop_nil]
    exact .some .nil
  | @cons mblk rest others data ok behind same ih =>
    have window := ok.inside
    have length := length_joined same
    rw [cutPartLoop, same]
    split
    · next further =>
      apply (ih (show ulOffset - mblk.ulLen + ulLen ≤ others.length by omega)).cons ok
      rw [splice_back (by rw [length_bytes]; exact further), length_bytes]
    split
    · have short : MblkOk { mblk with ulLen := ulOffset } := by
        apply ok.resize
        omega
      split
      · next across =>
        have parts := @splice_seam _ mblk.bytes others [] [] ulOffset ulLen
          (by rw [length_bytes]; omega) (by rw [length_bytes]; omega)
        have left : ulOffset + ulLen - mblk.ulLen = ulLen - (mblk.ulLen - ulOffset) := by omega
        rw [append_nil, append_nil, length_bytes, left, ← bytes_shorter (by omega)] at parts
        dsimp only
        split
        · next last =>
          refine .some (.cons short behind ?_)
          rw [parts, last, splice_nothing]
        · exact (ih (by omega)).cons short parts
      · obtain ⟨after, run, okAfter, _, bytes⟩ :=
          @MblkOk.cutMiddle memory mblk ulLen ulOffset ok (by omega)
        refine ⟨after :: rest, by simp [run], .cons okAfter behind ?_⟩
        rw [bytes, splice_front (by rw [length_bytes]; omega)]
    next start =>
    have first : ulOffset = 0 := by omega
    subst first
    split
    · next whole =>
      have left : splice (mblk.bytes ++ others) 0 ulLen [] =
          splice others 0 (ulLen - mblk.ulLen) [] := by
        simp [splice, drop_append, drop_eq_nil_of_le, whole]
      rw [left]
      split
      · next last =>
        rw [last, splice_nothing]
        exact .some behind
      · exact ih (by omega)
    · refine .some (.cons (ok.behind (by omega)) behind ?_)
      rw [bytes_behind (by omega), splice_front (by rw [length_bytes]; omega)]
      simp [splice]

theorem Holds.two (holds : Holds (mblk :: pstMblkNext :: rest) data) :
    MblkOk mblk ∧ MblkOk pstMblkNext ∧
      ∃ others, Holds rest others ∧ data = mblk.bytes ++ (pstMblkNext.bytes ++ others) := by
  obtain _ | ⟨ok, behind, same⟩ := holds
  obtain _ | ⟨okNext, behind, sameNext⟩ := behind
  exact ⟨ok, okNext, _, behind, by rw [same, sameNext]⟩

/-- No block is taken apart by `_MBUF_Compress`. -/
def MovesWhole : List MbufMblkS → Prop
  | pstMblk :: pstMblkNext :: rest =>
    if pstMblkNext.ulLen ≤ CLUSTER_SIZE - pstMblk.ulLen then MovesWhole rest
    else pstMblk.ulLen = CLUSTER_SIZE ∧ MovesWhole (pstMblkNext :: rest)
  | _ => True

theorem movesWhole_shorter :
    MovesWhole ({ mblk with ulLen := mblk.ulLen - 0 } :: rest) ↔ MovesWhole (mblk :: rest) :=
  Iff.rfl

include holds in
theorem Holds.compress {bound : Nat} (short : blocks.length ≤ bound) :
    ∃ left, Delivers (scanPairs (compressLoop memory) blocks) left ∧
      left.length = data.length ∧ (MovesWhole blocks → left = data) := by
  induction bound generalizing blocks data with
  | zero =>
    have empty := eq_nil_of_length_eq_zero (le_zero.mp short)
    subst empty
    exact ⟨data, .some holds, rfl, fun _ => rfl⟩
  | succ bound ih =>
    match blocks with
    | [] => exact ⟨data, .some holds, rfl, fun _ => rfl⟩
    | [mblk] => exact ⟨data, .some holds, rfl, fun _ => rfl⟩
    | mblk :: next :: rest =>
      obtain ⟨ok, okNext, others, behind, same⟩ := holds.two
      have window := okNext.inside
      rw [length_cons, length_cons] at short
      obtain ⟨start, move, okStart, _, bytesStart⟩ := @MblkOk.toStart memory mblk ok
      have lenStart : start.ulLen = mblk.ulLen := by
        rw [← length_bytes, bytesStart, length_bytes]
      have inside := okStart.inside
      have room : uintSub start.pstCluster.ulSize start.ulLen = CLUSTER_SIZE - start.ulLen := by
        rw [MbufClusterS.ulSize, okStart.size]
        apply uintSub_eq
        · omega
        · simp [CLUSTER_SIZE]
      obtain ⟨_, take, okMerged, _, bytesMerged⟩ :=
        okStart.take okNext (Nat.min_le_right (CLUSTER_SIZE - start.ulLen) next.ulLen) (by omega)
      simp only [scanPairs, compressLoop, move, room, take, bind_eq_bind, bind_some]
      rw [lenStart] at bytesMerged ⊢
      split
      · next emptied =>
        have fits : next.ulLen ≤ CLUSTER_SIZE - mblk.ulLen := by omega
        rw [Nat.min_eq_right fits, take_of_length_le (by simp), bytesStart] at bytesMerged
        rw [MovesWhole, if_pos fits, same, ← append_assoc, ← bytesMerged]
        cases rest with
        | nil =>
          cases behind
          exact ⟨_, .some (.single okMerged rfl), by simp, by simp⟩
        | cons _ _ =>
          rw [length_cons] at short
          obtain ⟨_, later, length, whole⟩ := ih behind (by simp only [length_cons]; omega)
          refine ⟨_, later.cons okMerged rfl, by simp [length], fun moves => ?_⟩
          rw [whole moves]
      next part =>
      have cut : Holds ({ next with
          ulLen := next.ulLen - min (CLUSTER_SIZE - mblk.ulLen) next.ulLen } :: rest)
          (next.bytes.take (next.ulLen - min (CLUSTER_SIZE - mblk.ulLen) next.ulLen) ++
            others) := by
        refine .cons (okNext.resize ?_) behind (by rw [bytes_shorter (sub_le _ _)])
        omega
      obtain ⟨_, later, length, whole⟩ := ih cut (by simp only [length_cons]; omega)
      refine ⟨_, later.cons okMerged rfl, ?_, ?_⟩
      · rw [bytesMerged, bytesStart, same]
        simp only [length_append, length, length_take, length_bytes]
        omega
      rw [MovesWhole, if_neg (by omega)]
      rintro ⟨_, moves⟩
      have none : min (CLUSTER_SIZE - mblk.ulLen) next.ulLen = 0 := by omega
      rw [none] at whole bytesMerged
      rw [whole (movesWhole_shorter.mpr moves), bytesMerged, bytesStart, same]
      simp [take_of_length_le]

include holds in
theorem Holds.neat {bound : Nat} (short : blocks.length ≤ bound) :
    Delivers (scanPairs neatLoop blocks) data := by
  induction bound generalizing blocks data with
  | zero =>
    have empty := eq_nil_of_length_eq_zero (le_zero.mp short)
    subst empty
    exact .some holds
  | succ bound ih =>
    match blocks with
    | [] => exact .some holds
    | [mblk] => exact .some holds
    | mblk :: next :: rest =>
      obtain ⟨ok, okNext, others, behind, same⟩ := holds.two
      have inside := ok.inside
      rw [length_cons, length_cons] at short
      simp only [scanPairs, neatLoop]
      split
      · next front =>
        obtain ⟨_, copied, okJoined, bytes⟩ := ok.joinFront okNext front.2.2
        simp only [copied, bind_eq_bind, bind_some]
        apply ih (.cons okJoined behind _) (by simp only [length_cons]; omega)
        rw [same, bytes, append_assoc]
      split
      · next room =>
        rw [ok.tailFree] at room
        obtain ⟨_, take, okMerged, _, bytes⟩ := ok.take okNext (Nat.le_refl _) (by omega)
        rw [take_of_length_le (by simp)] at bytes
        rw [← append_assoc, ← bytes] at same
        simp only [take, bind_eq_bind, bind_some]
        cases rest with
        | nil =>
          cases behind
          exact .some (.cons okMerged .nil same)
        | cons _ _ =>
          rw [length_cons] at short
          have later := ih behind (by simp only [length_cons]; omega)
          exact later.cons okMerged same
      · have later : Holds (next :: rest) (next.bytes ++ others) := .cons okNext behind rfl
        exact (ih later (by simp only [length_cons]; omega)).cons ok same

theorem MblkOk.makeContinue {ulLenShouldContinue : Nat} (ok : MblkOk mblk)
    (behind : Holds rest others)
    (room : mblk.headFree + mblk.ulLen + ulLenShouldContinue ≤ CLUSTER_SIZE) :
    ∃ first after, makeContinueLoop mblk rest ulLenShouldContinue = some (first :: after) ∧
      Holds (first :: after) (mblk.bytes ++ others) ∧
      first.bytes = mblk.bytes ++ others.take ulLenShouldContinue := by
  induction behind generalizing mblk ulLenShouldContinue with
  | nil => exact ⟨mblk, [], rfl, .cons ok .nil rfl, by simp⟩
  | @cons next _ _ data okNext behind same ih =>
    obtain ⟨merged, take, okMerged, _, bytes⟩ := ok.take okNext
      (Nat.min_le_right ulLenShouldContinue next.ulLen) (by omega)
    have lenMerged : merged.ulLen = mblk.ulLen + min ulLenShouldContinue next.ulLen := by
      rw [← length_bytes, bytes, length_append, length_take, length_bytes, length_bytes]
      omega
    simp only [makeContinueLoop, take, bind_eq_bind, bind_some]
    split
    · next done =>
      have part : ulLenShouldContinue ≤ next.ulLen := by omega
      rw [Nat.min_eq_left part] at bytes ⊢
      have taken : merged.bytes = mblk.bytes ++ data.take ulLenShouldContinue := by
        rw [bytes, same, take_append_of_le_length (by rw [length_bytes]; exact part)]
      split
      · refine ⟨_, _, rfl, .cons okMerged behind ?_, taken⟩
        rw [bytes, same, take_of_length_le (by rw [length_bytes]; omega), append_assoc]
      refine ⟨_, _, rfl, .cons okMerged (.cons (okNext.behind part) behind rfl) ?_, taken⟩
      rw [bytes, same, bytes_behind part, append_assoc, ← append_assoc (List.take _ _),
        take_append_drop]
    rw [Nat.min_eq_right (by omega), take_of_length_le (by simp)] at bytes
    obtain ⟨first, after, run, holds, front⟩ :=
      @ih merged (ulLenShouldContinue - min ulLenShouldContinue next.ulLen) okMerged (by omega)
    refine ⟨first, after, run, ?_, ?_⟩
    · rw [same, ← append_assoc, ← bytes]
      exact holds
    have whole : next.bytes.length ≤ ulLenShouldContinue := by
      rw [length_bytes]
      omega
    rw [front, bytes, same, take_append, Nat.min_eq_right (by omega),
      take_of_length_le whole, length_bytes, append_assoc]

include holds

theorem Holds.fragment (less : ulLen ≤ data.length) :
    ∃ moved left, fragmentLoop memory blocks ulLen = some (moved, left) ∧
      Holds moved (data.take ulLen) ∧ Holds left (data.drop ulLen) := by
  induction holds generalizing ulLen with
  | nil => exact ⟨[], [], rfl, by simpa using Holds.nil, by simpa using Holds.nil⟩
  | @cons mblk rest others data ok behind same ih =>
    have length := length_joined same
    rw [fragmentLoop, same]
    split
    · next whole =>
      have front : (mblk.bytes ++ others).take ulLen =
          mblk.bytes ++ others.take (ulLen - mblk.ulLen) := by
        simp [take_append, take_of_length_le, whole]
      have back : (mblk.bytes ++ others).drop ulLen = others.drop (ulLen - mblk.ulLen) := by
        simp [drop_append, drop_eq_nil_of_le, whole]
      rw [front, back]
      split
      · next last =>
        rw [last]
        exact ⟨[mblk], rest, rfl, .cons ok .nil rfl, behind⟩
      · obtain ⟨moved, left, run, holdsMoved, holdsLeft⟩ :=
          @ih (ulLen - mblk.ulLen) (by omega)
        exact ⟨mblk :: moved, left, by simp [run], .cons ok holdsMoved rfl, holdsLeft⟩
    next part =>
    obtain ⟨front, back, fragment, okFront, bytesFront, okBack, bytesBack⟩ :=
      @MblkOk.fragment memory mblk ulLen ok (by omega)
    have short : ulLen ≤ mblk.bytes.length := by
      rw [length_bytes]
      omega
    refine ⟨[front], back :: rest, by simp [fragment], .single okFront ?_,
      .cons okBack behind ?_⟩
    · rw [bytesFront, take_append_of_le_length short]
    · rw [bytesBack, drop_append_of_le_length short]

theorem Holds.find (inside : ulOffset < data.length) :
    ∃ mblk rest place others, mbufFindMblk blocks ulOffset = some (mblk, rest, place) ∧
      MblkOk mblk ∧ Holds rest others ∧ place ≤ mblk.ulLen ∧
      data.drop ulOffset = mblk.bytes.drop place ++ others := by
  induction holds generalizing ulOffset with
  | nil => exact absurd inside (not_lt_zero ulOffset)
  | @cons mblk rest others data ok behind same ih =>
    have length := length_joined same
    rw [mbufFindMblk]
    split
    · next further =>
      obtain ⟨found, after, place, left, run, okFound, holds, less, rest⟩ :=
        @ih (ulOffset - mblk.ulLen) (by omega)
      refine ⟨found, after, place, left, run, okFound, holds, less, ?_⟩
      rw [← rest, same]
      simp [drop_append, drop_eq_nil_of_le, further]
    · refine ⟨mblk, rest, ulOffset, others, rfl, ok, behind, by omega, ?_⟩
      rw [same, drop_append_of_le_length (by rw [length_bytes]; omega)]

theorem Holds.find_none (outside : data.length ≤ ulOffset) :
    mbufFindMblk blocks ulOffset = none := by
  induction holds generalizing ulOffset with
  | nil => rfl
  | @cons _ _ _ _ _ _ same ih =>
    rw [same, length_append, length_bytes] at outside
    rw [mbufFindMblk, if_pos (by omega)]
    apply ih
    omega

theorem Holds.rawCopy {fuel place ulCopyLen : Nat}
    (start : ∀ mblk rest, blocks = mblk :: rest → place ≤ mblk.ulLen)
    (within : place + ulCopyLen ≤ data.length)
    (enough : ulCopyLen + blocks.length ≤ fuel) (ulReservedHeadSpace : Nat) :
    Delivers (rawCopyLoop memory fuel blocks place ulCopyLen ulReservedHeadSpace)
      ((data.drop place).take ulCopyLen) := by
  induction fuel generalizing blocks data place ulCopyLen ulReservedHeadSpace with
  | zero =>
    have none : ulCopyLen = 0 := by omega
    subst none
    exact .some .nil
  | succ _ ih =>
    by_cases none : ulCopyLen = 0
    · subst none
      exact .some .nil
    cases holds with
    | nil => exact absurd within (by simp only [length_nil]; omega)
    | @cons mblk rest others _ ok behind same =>
      have inside := ok.inside
      have less := start mblk rest rfl
      rw [same, length_append, length_bytes] at within
      rw [length_cons] at enough
      have read := @Block.copyOut_eq _ mblk.pstCluster.pucData (mblk.headFree + place)
        (min (mblk.ulLen - place) ulCopyLen) (by rw [ok.size]; omega)
      obtain ⟨front, create, okFront, copied, fits, positive⟩ := @createMblk_ok memory
        (mblk.pstCluster.pucData.slice (mblk.headFree + place)
          (min (mblk.ulLen - place) ulCopyLen)) ulReservedHeadSpace
      rw [Block.length_slice] at fits
      have bytes : front.bytes = (data.drop place).take front.ulLen := by
        rw [copied, Block.take_slice fits, same,
          drop_append_of_le_length (by rw [length_bytes]; exact less),
          take_append_of_le_length (by rw [length_drop, length_bytes]; omega),
          MbufMblkS.bytes, Block.drop_slice less, Block.take_slice (by omega)]
      have parts : (data.drop place).take ulCopyLen = front.bytes ++
          (data.drop (place + front.ulLen)).take (ulCopyLen - front.ulLen) := by
        rw [bytes, ← drop_drop, ← take_add, Nat.add_sub_cancel' (by omega)]
      simp only [rawCopyLoop, read, create, bind_eq_bind, bind_some]
      by_cases left : mblk.ulLen - place ≤ front.ulLen
      · have gone : data.drop (place + front.ulLen) = others := by
          rw [same, show place + front.ulLen = mblk.bytes.length by rw [length_bytes]; omega,
            drop_left]
        rw [gone] at parts
        rw [if_pos left]
        apply Delivers.cons okFront (ih behind _ _ _ _) parts
        · exact fun _ _ _ => zero_le _
        · omega
        · omega
      have some : mblk.pstCluster.pucData.slice (mblk.headFree + place)
          (min (mblk.ulLen - place) ulCopyLen) ≠ [] := by
        apply ne_nil_of_length_pos
        rw [Block.length_slice]
        omega
      have taken := positive some
      rw [if_neg left]
      apply Delivers.cons okFront (ih (.cons ok behind same) _ _ _ _) parts
      · rintro _ _ ⟨⟩
        omega
      · rw [same, length_append, length_bytes]
        omega
      · rw [length_cons]
        omega

end MyCode.Mbuf
