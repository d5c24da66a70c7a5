import MyCode.Tcpb

/-!
# The code follows the positions

Sequence numbers are positions as long as nothing is half of the number space away, the bits
are the positions that were received as long as no range within a word leaves a hole before
it, and the memory holds the stream at all of them.
-/

namespace MyCode.Tcpb

open HoleData Bitmap List Nat Option

variable {numUpAlign : Nat → Nat} {stream : Nat → UCHAR} {payload_sn : UINT}
  {max_buff_size start length count : Nat} {received : Finset Nat} {hole_data : HoleDataS}
  {node : TcpbNode} {output : Reader} {result : Option (TcpbRun × Int)} {fuel : Nat}

def bytesOf (stream : Nat → UCHAR) (start length : Nat) : List UCHAR :=
  (List.range length).map fun i => stream (start + i)

@[simp]
theorem length_bytesOf : (bytesOf stream start length).length = length := by
  simp [bytesOf]

theorem drop_bytesOf (place : Nat) :
    (bytesOf stream start length).drop place = bytesOf stream (start + place) (length - place) := by
  apply ext_getElem
  · simp
  · intro i first second
    simp [bytesOf, add_assoc]

theorem getD_bytesOf_take (taken i : Nat) (byte : UCHAR) :
    ((bytesOf stream start length).take taken).getD i byte =
      if i < min taken length then stream (start + i) else byte := by
  rw [getD_eq_getElem?_getD]
  split
  · next inside =>
    rw [getElem?_eq_getElem (by simpa using inside)]
    simp [bytesOf]
  next outside =>
  rw [getElem?_eq_none]
  · rfl
  · rw [length_take, length_bytesOf]
    exact not_lt.mp outside

/-- The buffer holds the received positions of the stream, from `start` on. -/
structure HoleHolds (stream : Nat → UCHAR) (max_buff_size : Nat) (hole_data : HoleDataS)
    (start : Nat) (received : Finset Nat) (count : Nat) : Prop where
  size : hole_data.max_size = max_buff_size
  small : max_buff_size < 2 ^ 31
  bits : hole_data.bitmap.ulBitNum.toNat = max_buff_size
  words : hole_data.bitmap.uiUintNum.toNat = (max_buff_size + 31) / 32
  isSet : ∀ place, bitmapIsSet hole_data.bitmap place = true ↔ start + place ∈ received
  filled : hole_data.filled_size.toNat = count
  counts : count < 2 ^ 31
  inside : ∀ position ∈ received, start ≤ position ∧ position < start + max_buff_size
  bytes : ∀ place, start + place ∈ received → hole_data.data place = stream (start + place)

theorem holeHolds_init (memory : Nat → UCHAR) (small : max_buff_size < 2 ^ 31) :
    HoleHolds stream max_buff_size (holeDataInit memory max_buff_size) 0 ∅ 0 := by
  have word : (BitVec.ofNat 32 max_buff_size : UINT).toNat = max_buff_size := by
    rw [BitVec.toNat_ofNat, mod_eq_of_lt (by omega)]
  refine ⟨rfl, small, word, ?_, ?_, rfl, by simp, ?_, ?_⟩
  · change ((BitVec.ofNat 32 max_buff_size + 31) / 32 : UINT).toNat = (max_buff_size + 31) / 32
    rw [BitVec.toNat_udiv, BitVec.toNat_add, word]
    change (max_buff_size + 31) % 2 ^ 32 / 32 = _
    rw [mod_eq_of_lt (by omega)]
  · intro place
    simp [holeDataInit, bitmapCreate_isSet]
  · simp
  · simp

theorem HoleHolds.anywhere (holds : HoleHolds stream max_buff_size hole_data start ∅ 0)
    (other : Nat) : HoleHolds stream max_buff_size hole_data other ∅ 0 := by
  refine ⟨holds.size, holds.small, holds.bits, holds.words, ?_, holds.filled, holds.counts, ?_, ?_⟩
  · simpa using holds.isSet
  · simp
  · simp

section

variable (holds : HoleHolds stream max_buff_size hole_data start received count)

include holds

theorem HoleHolds.filledSize : holeDataGetFilledSize hole_data = count := by
  have counts := holds.counts
  rw [holeDataGetFilledSize, BitVec.toInt_eq_toNat_of_lt (by rw [holds.filled]; omega), holds.filled]

theorem HoleHolds.contineLen :
    holeDataGetContineLen hole_data = (Saved.mk start received count).run max_buff_size := by
  symm
  rw [Saved.run, findGreatest_eq_iff, holeDataGetContineLen]
  cases found : bitmapGetFree hole_data.bitmap with
  | none =>
    rw [holds.size]
    refine ⟨le_refl _, ?_, ?_⟩
    · intro _ i below
      rw [← holds.isSet]
      exact arrayBitGetFree_none found (by rw [holds.bits]; exact below)
    · intro n above most
      exact absurd most (not_le.mpr above)
  | some index =>
    obtain ⟨inside, free⟩ := arrayBitGetFree_free found
    rw [holds.bits] at inside
    refine ⟨le_of_lt inside, ?_, ?_⟩
    · intro _ i below
      rw [← holds.isSet]
      exact arrayBitGetFree_least found below
    intro n above _ all
    have isIn := all index above
    rw [← holds.isSet, bitmapIsSet, free] at isIn
    exact Bool.false_ne_true isIn

theorem HoleHolds.reset (positive : 0 < count) :
    HoleHolds stream max_buff_size (holeDataReset hole_data) start ∅ 0 := by
  have filled : holeDataGetFilledSize hole_data > 0 := by
    rw [holds.filledSize]
    omega
  rw [holeDataReset, if_pos filled]
  refine ⟨holds.size, holds.small, holds.bits, holds.words, ?_, rfl, by simp, ?_, ?_⟩
  · intro place
    by_cases inside : place / 32 < hole_data.bitmap.uiUintNum.toNat
    · simp [bitmapClrAll_isSet inside]
    have behind : ¬ bitmapIsSet hole_data.bitmap place = true := by
      intro isSet
      have position := holds.inside _ ((holds.isSet place).mp isSet)
      rw [holds.words] at inside
      omega
    rw [bitmapClrAll_behind (not_lt.mp inside)]
    simpa using behind
  · simp
  · simp

end

/-- Where the range lies within a word, the beginning of this word was received. -/
def NoGap (start : Nat) (received : Finset Nat) (offset fits : Nat) : Prop :=
  WithinWord offset (offset + fits) →
    ∀ place < offset, offset / 32 * 32 ≤ place → start + place ∈ received

variable (aligns : AlignsUp numUpAlign)

include aligns in
theorem HoleHolds.input
    (holds : HoleHolds stream max_buff_size hole_data start received count) {offset : Nat}
    (inside : offset < max_buff_size) (positive : 0 < length) (counts : count + length < 2 ^ 31)
    (noGap : NoGap start received offset (min length (max_buff_size - offset))) :
    ∃ after, holeDataInput numUpAlign hole_data (bytesOf stream (start + offset) length) offset =
        some (after, min length (max_buff_size - offset)) ∧
      HoleHolds stream max_buff_size after start
        (received ∪ Finset.Ico (start + offset)
          (start + offset + min length (max_buff_size - offset)))
        (count + min length (max_buff_size - offset)) := by
  have small := holds.small
  generalize fits : min length (max_buff_size - offset) = taken at noGap
  have copied : (if offset + length > hole_data.max_size then hole_data.max_size - offset
      else length) = taken := by
    rw [holds.size]
    split <;> omega
  have word : (BitVec.ofNat 32 taken : UINT).toNat = taken := by
    rw [BitVec.toNat_ofNat, mod_eq_of_lt (by omega)]
  obtain ⟨bitmap, set, bits, words, isSet⟩ := @bitmapSetBits_holds hole_data.bitmap numUpAlign
    aligns offset (BitVec.ofNat 32 taken) (by rw [holds.words, holds.bits])
    (by rw [holds.bits]; exact small) (by rw [word]; omega) (by rw [word, holds.bits]; omega)
  rw [word] at isSet
  refine ⟨{ hole_data with
      data := copyBytes hole_data.data offset ((bytesOf stream (start + offset) length).take taken)
      filled_size := hole_data.filled_size + BitVec.ofNat 32 taken
      bitmap := bitmap }, ?_, ?_⟩
  · simp only [holeDataInput, length_bytesOf, copied, set, bind_eq_bind, bind_some]
    rw [if_neg (by omega)]
  refine ⟨holds.size, small, ?_, ?_, ?_, ?_, ?_, ?_, ?_⟩
  · rw [bits]
    exact holds.bits
  · rw [words]
    exact holds.words
  · intro place
    rw [isSet, Bool.or_eq_true, decide_eq_true_iff, holds.isSet, Finset.mem_union,
      Finset.mem_Ico, Written]
    constructor
    · rintro ((_ | ⟨within, above, _⟩) | earlier)
      · right
        omega
      · by_cases before : place < offset
        · left
          apply noGap within place before
          rw [within.2]
          exact above
        · right
          omega
      · exact .inl earlier
    · rintro (earlier | _)
      · exact .inr earlier
      left
      left
      omega
  · rw [BitVec.toNat_add, holds.filled, word]
    omega
  · omega
  · intro position isIn
    rw [Finset.mem_union, Finset.mem_Ico] at isIn
    rcases isIn with earlier | _
    · exact holds.inside position earlier
    · omega
  intro place isIn
  simp only [copyBytes]
  split
  · next behind =>
    rw [getD_bytesOf_take]
    split
    · have position : start + offset + (place - offset) = start + place := by omega
      rw [position]
    next outside =>
    apply holds.bytes
    rw [Finset.mem_union, Finset.mem_Ico] at isIn
    apply isIn.resolve_right
    omega
  · next before =>
    apply holds.bytes
    rw [Finset.mem_union, Finset.mem_Ico] at isIn
    apply isIn.resolve_right
    omega

theorem HoleHolds.input_none (holds : HoleHolds stream max_buff_size hole_data start received count)
    {offset : Nat} (none : min length (max_buff_size - offset) = 0) :
    holeDataInput numUpAlign hole_data (bytesOf stream start length) offset =
      some (hole_data, 0) := by
  have copied : (if offset + length > hole_data.max_size then hole_data.max_size - offset
      else length) = 0 := by
    rw [holds.size]
    split <;> omega
  simp [holeDataInput, length_bytesOf, copied]

/-- What the reader is given of a part of the stream. -/
def handedBuf (stream : Nat → UCHAR) (handed : Handed) : TcpbBuf :=
  { offset := BitVec.ofNat 64 (handed.start % 2 ^ 32)
    data := bytesOf stream handed.start handed.length
    save_offset := 0
    need_save := false
    failed := handed.failed }

/-- Where the output function asks to keep from. -/
def asksOf (stream : Nat → UCHAR) (output : Reader) : Asks := fun sent handed =>
  let answer := outputAnswer output (sent.map (handedBuf stream)) (handedBuf stream handed)
  if answer.need_save then some answer.save_offset.toNat else none

def NodeHolds (stream : Nat → UCHAR) (payload_sn : UINT) (max_buff_size : Nat) (node : TcpbNode) :
    Option Saved → Prop
  | none => HoleHolds stream max_buff_size node.holedata 0 ∅ 0
  | some saved =>
    HoleHolds stream max_buff_size node.holedata saved.start saved.received saved.count ∧
      0 < saved.count ∧ node.buffer_begin_sn = payload_sn + BitVec.ofNat 32 saved.start

structure Matches (stream : Nat → UCHAR) (payload_sn : UINT) (max_buff_size : Nat)
    (buffer : Buffer) (run : TcpbRun) : Prop where
  payload : run.node.payload_begin_sn = payload_sn
  failed : run.node.failed = buffer.failed
  saved : NodeHolds stream payload_sn max_buff_size run.node buffer.saved
  sent : run.sent = buffer.sent.map (handedBuf stream)

/-- The round that gives a state ends well, or the stream fails in the state before. -/
def Gives (stream : Nat → UCHAR) (payload_sn : UINT) (max_buff_size : Nat)
    (result : Option (TcpbRun × Int)) (buffer : Buffer) : Prop :=
  ∃ run ret, result = some (run, ret) ∧
    (0 ≤ ret ∧ Matches stream payload_sn max_buff_size buffer run ∨
      ret < 0 ∧ ∃ before, Matches stream payload_sn max_buff_size before run ∧
        buffer = before.fail max_buff_size)

theorem offset_eq (start : Nat) :
    (payload_sn + BitVec.ofNat 32 start - payload_sn).setWidth 64 =
      BitVec.ofNat 64 (start % 2 ^ 32) := by
  have cancel : payload_sn + BitVec.ofNat 32 start - payload_sn = BitVec.ofNat 32 start := by
    rw [BitVec.add_comm]
    exact BitVec.add_sub_cancel _ _
  apply BitVec.eq_of_toNat_eq
  rw [cancel, BitVec.toNat_setWidth, BitVec.toNat_ofNat, BitVec.toNat_ofNat]

theorem Saved.mem_run (saved : Saved) {i : Nat} (below : i < saved.run max_buff_size) :
    saved.start + i ∈ saved.received := by
  have all :=
    findGreatest_spec (P := fun n => ∀ i < n, saved.start + i ∈ saved.received)
      (zero_le max_buff_size) (by simp)
  exact all i below

theorem NodeHolds.contineBuf (holds : NodeHolds stream payload_sn max_buff_size node (some saved))
    (payload : node.payload_begin_sn = payload_sn) (failed : Bool) :
    tcpbContineBuf node failed =
      handedBuf stream ⟨saved.start, saved.run max_buff_size, failed⟩ := by
  obtain ⟨hole, _, begins⟩ := holds
  rw [tcpbContineBuf, handedBuf, payload, begins, offset_eq, hole.contineLen, bytesOf]
  congr 1
  apply map_congr_left
  intro i inside
  exact hole.bytes i (saved.mem_run (mem_range.mp inside))

theorem NodeHolds.contineLen_none (holds : NodeHolds stream payload_sn max_buff_size node none) :
    holeDataGetContineLen node.holedata = 0 := by
  rw [HoleHolds.contineLen holds, Saved.run, findGreatest_eq_zero_iff]
  intro n positive _ all
  exact absurd (all 0 positive) (Finset.notMem_empty _)

include aligns in
theorem NodeHolds.save_none (holds : NodeHolds stream payload_sn max_buff_size node none)
    (short : length < 2 ^ 31) (start : Nat) (sn : UINT) :
    ∃ after, tcpbSave numUpAlign max_buff_size node sn (bytesOf stream start length) =
        some ({ node with buffer_begin_sn := sn, holedata := after },
          ((min length max_buff_size : Nat) : Int)) ∧
      HoleHolds stream max_buff_size after start
        (Finset.Ico start (start + min length max_buff_size)) (min length max_buff_size) := by
  have hole := HoleHolds.anywhere holds start
  have empty : holeDataGetFilledSize node.holedata = 0 := hole.filledSize
  rw [tcpbSave, if_pos empty, tcpbHoleInput, if_neg (by simpa using short)]
  by_cases nothing : min length max_buff_size = 0
  · have none := nothing
    rw [hole.input_none none, nothing]
    exact ⟨node.holedata, rfl, by simpa using hole⟩
  obtain ⟨after, input, holdsAfter⟩ := @HoleHolds.input _ stream max_buff_size start length 0 ∅
    node.holedata aligns hole 0 (by omega) (by omega) (by omega) (by
      intro within
      exact absurd rfl within.1)
  simp only [add_zero, Nat.sub_zero, zero_add, Finset.empty_union] at input holdsAfter
  refine ⟨after, ?_, holdsAfter⟩
  simp [input]

/-- What has to hold of a segment while something is saved: it is less than half of the number
space away, the bytes put in can be counted, and it leaves no gap within a word. -/
def Saved.Clean (max_buff_size : Nat) (saved : Saved) (segment : Segment) : Prop :=
  saved.start ≤ segment.start + 2 ^ 31 ∧ segment.start + segment.length < saved.start + 2 ^ 31 ∧
    saved.count + segment.length < 2 ^ 31 ∧
    (saved.start ≤ segment.start → segment.start < saved.start + max_buff_size →
      NoGap saved.start saved.received (segment.start - saved.start)
        (min segment.length (saved.start + max_buff_size - segment.start)))

def Buffer.Clean (max_buff_size : Nat) (buffer : Buffer) (segment : Segment) : Prop :=
  buffer.failed = true ∨ ∀ saved ∈ buffer.saved, saved.Clean max_buff_size segment

variable {saved : Saved} {buffer : Buffer} {run : TcpbRun} {segment : Segment}

section

variable (holds : NodeHolds stream payload_sn max_buff_size node (some saved))

include holds

theorem NodeHolds.filledSize : holeDataGetFilledSize node.holedata ≠ 0 := by
  obtain ⟨hole, _, _⟩ := holds
  rw [hole.filledSize]
  omega

theorem NodeHolds.save_before
    (before : start < saved.start) (near : saved.start ≤ start + 2 ^ 31) (payload : List UCHAR) :
    tcpbSave numUpAlign max_buff_size node (payload_sn + BitVec.ofNat 32 start) payload =
      some (node, 0) := by
  obtain ⟨_, _, begins⟩ := id holds
  have offset := serial_sub_toInt payload_sn (show start < saved.start + 2 ^ 31 by omega) near
  rw [tcpbSave, if_neg holds.filledSize, begins, offset]
  exact if_pos (by omega)

theorem NodeHolds.save_behind (behind : saved.start + max_buff_size ≤ start)
    (near : start < saved.start + 2 ^ 31) (payload : List UCHAR) :
    tcpbSave numUpAlign max_buff_size node (payload_sn + BitVec.ofNat 32 start) payload =
      some (node, BsStatus.outOfRange.toInt) := by
  obtain ⟨_, _, begins⟩ := id holds
  have offset := serial_sub_toInt payload_sn near (show saved.start ≤ start + 2 ^ 31 by omega)
  rw [tcpbSave, if_neg holds.filledSize, begins, offset]
  rw [if_neg (by omega), if_pos (by omega)]

end

theorem NodeHolds.save_inside (aligns : AlignsUp numUpAlign)
    (holds : NodeHolds stream payload_sn max_buff_size node (some saved))
    (clean : saved.Clean max_buff_size segment) (positive : 0 < segment.length)
    (after : saved.start ≤ segment.start) (inside : segment.start < saved.start + max_buff_size) :
    ∃ hole_data, tcpbSave numUpAlign max_buff_size node
        (payload_sn + BitVec.ofNat 32 segment.start)
        (bytesOf stream segment.start segment.length) =
        some ({ node with holedata := hole_data },
          ((min segment.length (saved.start + max_buff_size - segment.start) : Nat) : Int)) ∧
      NodeHolds stream payload_sn max_buff_size { node with holedata := hole_data }
        (some (saved.add segment.start
          (min segment.length (saved.start + max_buff_size - segment.start)))) := by
  obtain ⟨hole, filled, begins⟩ := id holds
  obtain ⟨near, _, counts, noGap⟩ := clean
  have offset := serial_sub_toInt payload_sn
    (show segment.start < saved.start + 2 ^ 31 by omega) near
  have place : ((segment.start : Int) - saved.start).toNat = segment.start - saved.start := by omega
  have room : saved.start + max_buff_size - segment.start =
      max_buff_size - (segment.start - saved.start) := by omega
  have back : saved.start + (segment.start - saved.start) = segment.start := by omega
  have gap := noGap after inside
  rw [room] at gap ⊢
  obtain ⟨hole_data, input, holdsAfter⟩ := @HoleHolds.input _ _ _ _ segment.length _ _ _ aligns hole
    (segment.start - saved.start) (by omega) positive counts gap
  rw [back] at input holdsAfter
  refine ⟨hole_data, ?_, holdsAfter, ?_, begins⟩
  · rw [tcpbSave, if_neg holds.filledSize, begins, offset]
    rw [if_neg (by omega), if_neg (by omega), place, tcpbHoleInput, if_neg]
    · simp [input, begins]
    · rw [length_bytesOf]
      omega
  · exact lt_of_lt_of_le filled (le_add_right _ _)

theorem sent_append (sent : List Handed) (handed : Handed) :
    sent.map (handedBuf stream) ++ [handedBuf stream handed] =
      (sent ++ [handed]).map (handedBuf stream) := by
  simp

theorem asksOf_eq (sent : List Handed) (handed : Handed) :
    asksOf stream output sent handed =
      if (outputAnswer output (sent.map (handedBuf stream)) (handedBuf stream handed)).need_save
      then some (outputAnswer output (sent.map (handedBuf stream))
        (handedBuf stream handed)).save_offset.toNat
      else none := rfl

theorem Gives.well {ret : Int} (isRun : result = some (run, ret)) (right : 0 ≤ ret)
    (matched : Matches stream payload_sn max_buff_size buffer run) :
    Gives stream payload_sn max_buff_size result buffer :=
  ⟨run, ret, isRun, .inl ⟨right, matched⟩⟩

theorem Gives.badly {ret : Int} (isRun : result = some (run, ret)) (wrong : ret < 0)
    (matched : Matches stream payload_sn max_buff_size buffer run) :
    Gives stream payload_sn max_buff_size result (buffer.fail max_buff_size) :=
  ⟨run, ret, isRun, .inr ⟨wrong, buffer, matched, rfl⟩⟩

theorem full_iff {save_offset : USHORT} {kept : Nat} (short : length < 2 ^ 31)
    (fits : kept ≤ length - save_offset.toNat) :
    BitVec.ofInt 32 (kept : Int) <
        BitVec.ofNat 32 length - (save_offset.setWidth 32 : UINT) ↔
      save_offset.toNat > length ∨ kept < length - save_offset.toNat := by
  rw [BitVec.ofInt_natCast, BitVec.lt_def, BitVec.toNat_sub, BitVec.toNat_ofNat,
    BitVec.toNat_ofNat, BitVec.toNat_setWidth]
  omega

variable (matched : Matches stream payload_sn max_buff_size buffer run)

include aligns matched in
theorem Matches.pass (empty : buffer.saved = none) (short : length < 2 ^ 31) (start : Nat) :
    Gives stream payload_sn max_buff_size
      (tcpbSendAndSave numUpAlign max_buff_size output run (payload_sn + BitVec.ofNat 32 start)
        (bytesOf stream start length))
      (buffer.pass max_buff_size (asksOf stream output) start length) := by
  have handed : (TcpbBuf.mk ((payload_sn + BitVec.ofNat 32 start - payload_sn).setWidth 64)
      (bytesOf stream start length) 0 false false) = handedBuf stream ⟨start, length, false⟩ := by
    rw [offset_eq]
    rfl
  have nodeHolds := matched.saved
  rw [empty] at nodeHolds
  simp only [tcpbSendAndSave, Buffer.pass, matched.payload, matched.sent, handed, asksOf_eq]
  by_cases asked : (outputAnswer output (buffer.sent.map (handedBuf stream))
      (handedBuf stream ⟨start, length, false⟩)).need_save = true
  · rw [if_pos asked, if_pos asked]
    generalize (outputAnswer output (buffer.sent.map (handedBuf stream))
      (handedBuf stream ⟨start, length, false⟩)).save_offset = save_offset
    have word : (save_offset.setWidth 32 : UINT).toNat = save_offset.toNat := by
      rw [BitVec.toNat_setWidth]
      omega
    have number : payload_sn + BitVec.ofNat 32 start + save_offset.setWidth 32 =
        payload_sn + BitVec.ofNat 32 (start + save_offset.toNat) := by
      apply BitVec.eq_of_toNat_eq
      simp only [BitVec.toNat_add, BitVec.toNat_ofNat, word]
      omega
    obtain ⟨hole_data, save, holdsAfter⟩ := @NodeHolds.save_none _ _ _ _
      (length - save_offset.toNat) _ aligns nodeHolds (by omega) (start + save_offset.toNat)
      (payload_sn + BitVec.ofNat 32 (start + save_offset.toNat))
    rw [word, number, drop_bytesOf, save]
    simp only [bind_eq_bind, bind_some, length_bytesOf]
    have less : min (length - save_offset.toNat) max_buff_size ≤ length - save_offset.toNat :=
      min_le_left _ _
    generalize min (length - save_offset.toNat) max_buff_size = kept at holdsAfter less
    have matchedAfter : Matches stream payload_sn max_buff_size { buffer with
          saved := if kept = 0 then none
            else some ⟨start + save_offset.toNat,
              Finset.Ico (start + save_offset.toNat) (start + save_offset.toNat + kept), kept⟩
          sent := buffer.sent ++ [⟨start, length, false⟩]
          taken := buffer.taken ++ [(start, min save_offset.toNat length)] }
        ⟨{ run.node with
            buffer_begin_sn := payload_sn + BitVec.ofNat 32 (start + save_offset.toNat)
            holedata := hole_data },
          buffer.sent.map (handedBuf stream) ++ [handedBuf stream ⟨start, length, false⟩]⟩ := by
      refine ⟨matched.payload, matched.failed, ?_, by simp⟩
      split
      · next none =>
        subst none
        simp only [add_zero, Finset.Ico_self] at holdsAfter
        exact holdsAfter.anywhere 0
      · next filled => exact ⟨holdsAfter, Nat.pos_of_ne_zero filled, rfl⟩
    by_cases full : save_offset.toNat > length ∨ kept < length - save_offset.toNat
    · rw [if_pos ((full_iff short less).mpr full), if_pos full]
      exact .badly rfl (by decide) matchedAfter
    · rw [if_neg (mt (full_iff short less).mp full), if_neg full]
      exact .well rfl (Int.le_refl 0) matchedAfter
  · rw [if_neg asked, if_neg asked]
    refine .well rfl (Int.le_refl 0) ⟨matched.payload, matched.failed, ?_, ?_⟩
    · simp only [empty]
      exact nodeHolds
    · simp

theorem tcpbInputLoop_succ {sn : UINT} {payload : List UCHAR} (filled : payload ≠ []) (ret : Int) :
    tcpbInputLoop numUpAlign max_buff_size output (fuel + 1) run sn payload ret =
      if holeDataGetFilledSize run.node.holedata = 0 then
        tcpbSendAndSave numUpAlign max_buff_size output run sn payload
      else
        (tcpbSaveAndSend numUpAlign max_buff_size output run sn payload).bind fun step =>
          if step.2 ≤ 0 then
            some step
          else
            tcpbInputLoop numUpAlign max_buff_size output fuel step.1
              (sn + BitVec.ofInt 32 step.2) (payload.drop step.2.toNat) step.2 := by
  cases payload with
  | nil => exact absurd rfl filled
  | cons => rfl

theorem tcpbInputLoop_nil (fuel : Nat) (sn : UINT) (ret : Int) :
    tcpbInputLoop numUpAlign max_buff_size output fuel run sn [] ret = some (run, ret) := by
  cases fuel <;> rfl

theorem bytesOf_ne_nil (positive : 0 < length) : bytesOf stream start length ≠ [] := by
  apply ne_nil_of_length_pos
  simpa using positive

include aligns matched in
theorem Matches.loop_pass (empty : buffer.saved = none) (short : length < 2 ^ 31) (positive : 0 < length)
    (enough : 0 < fuel) (start : Nat) (ret : Int) :
    Gives stream payload_sn max_buff_size
      (tcpbInputLoop numUpAlign max_buff_size output fuel run
        (payload_sn + BitVec.ofNat 32 start) (bytesOf stream start length) ret)
      (buffer.pass max_buff_size (asksOf stream output) start length) := by
  have nodeHolds := matched.saved
  rw [empty] at nodeHolds
  have nothing : holeDataGetFilledSize run.node.holedata = 0 := HoleHolds.filledSize nodeHolds
  obtain ⟨fuel, rfl⟩ : ∃ less, fuel = less + 1 := ⟨fuel - 1, by omega⟩
  rw [tcpbInputLoop_succ (bytesOf_ne_nil positive), if_pos nothing]
  exact matched.pass aligns empty short start

variable (isSaved : buffer.saved = some saved)

include matched isSaved in
theorem Matches.loop_behind (behind : saved.start + max_buff_size ≤ start)
    (near : start < saved.start + 2 ^ 31) (positive : 0 < length) (enough : 0 < fuel) (ret : Int) :
    Gives stream payload_sn max_buff_size
      (tcpbInputLoop numUpAlign max_buff_size output fuel run
        (payload_sn + BitVec.ofNat 32 start) (bytesOf stream start length) ret)
      (buffer.fail max_buff_size) := by
  have nodeHolds := matched.saved
  rw [isSaved] at nodeHolds
  obtain ⟨fuel, rfl⟩ : ∃ less, fuel = less + 1 := ⟨fuel - 1, by omega⟩
  rw [tcpbInputLoop_succ (bytesOf_ne_nil positive), if_neg nodeHolds.filledSize]
  simp only [tcpbSaveAndSend, nodeHolds.save_behind behind near, bind_eq_bind,
    bind_some, ne_eq, not_true_eq_false, if_false]
  exact .badly rfl (by decide) matched

include matched isSaved in
theorem Matches.loop_before (before : start < saved.start)
    (near : saved.start ≤ start + 2 ^ 31) (positive : 0 < length) (enough : 0 < fuel) (ret : Int) :
    Gives stream payload_sn max_buff_size
      (tcpbInputLoop numUpAlign max_buff_size output fuel run
        (payload_sn + BitVec.ofNat 32 start) (bytesOf stream start length) ret) buffer := by
  have nodeHolds := matched.saved
  rw [isSaved] at nodeHolds
  obtain ⟨fuel, rfl⟩ : ∃ less, fuel = less + 1 := ⟨fuel - 1, by omega⟩
  rw [tcpbInputLoop_succ (bytesOf_ne_nil positive), if_neg nodeHolds.filledSize]
  simp only [tcpbSaveAndSend, nodeHolds.save_before before near, bind_eq_bind,
    bind_some, ne_eq, not_true_eq_false, if_false]
  exact .well rfl (Int.le_refl 0) matched

include aligns matched isSaved in
theorem Matches.loop_join (clean : saved.Clean max_buff_size segment) (positive : 0 < segment.length)
    (after : saved.start ≤ segment.start) (inside : segment.start < saved.start + max_buff_size)
    (enough : segment.length ≤ fuel) (ret : Int) :
    Gives stream payload_sn max_buff_size
      (tcpbInputLoop numUpAlign max_buff_size output fuel run
        (payload_sn + BitVec.ofNat 32 segment.start)
        (bytesOf stream segment.start segment.length) ret)
      (buffer.join max_buff_size (asksOf stream output) saved segment.start segment.length) := by
  have nodeHolds := matched.saved
  rw [isSaved] at nodeHolds
  obtain ⟨hole_data, save, joined⟩ := nodeHolds.save_inside aligns clean positive after inside
  obtain ⟨fuel, rfl⟩ : ∃ less, fuel = less + 1 := ⟨fuel - 1, by omega⟩
  have some : 0 < min segment.length (saved.start + max_buff_size - segment.start) := by omega
  have less : min segment.length (saved.start + max_buff_size - segment.start) ≤
      segment.length := min_le_left _ _
  rw [tcpbInputLoop_succ (bytesOf_ne_nil positive), if_neg nodeHolds.filledSize]
  have number : ∀ fits : Nat, payload_sn + BitVec.ofNat 32 segment.start + BitVec.ofInt 32 fits =
      payload_sn + BitVec.ofNat 32 (segment.start + fits) := by
    intro fits
    apply BitVec.eq_of_toNat_eq
    simp only [BitVec.ofInt_natCast, BitVec.toNat_add, BitVec.toNat_ofNat]
    omega
  have handed : tcpbContineBuf { run.node with holedata := hole_data } false =
      handedBuf stream ⟨saved.start, (saved.add segment.start
        (min segment.length (saved.start + max_buff_size - segment.start))).run max_buff_size,
        false⟩ := joined.contineBuf matched.payload false
  have ahead := clean.2.1
  simp only [Buffer.join, tcpbSaveAndSend, save, bind_eq_bind, bind_some,
    nodeHolds.1.contineLen, joined.1.contineLen, handed, matched.sent, length_bytesOf]
  generalize fits : min segment.length (saved.start + max_buff_size - segment.start) = taken
    at some less joined handed ⊢
  have notNone : ¬ (taken : Int) ≤ 0 := by omega
  have whole : ¬ taken < segment.length →
      (bytesOf stream segment.start segment.length).drop taken = [] := by
    intro all
    apply drop_eq_nil_of_le
    rw [length_bytesOf]
    exact not_lt.mp all
  by_cases same : (saved.add segment.start taken).run max_buff_size = saved.run max_buff_size
  · have unchanged := not_not.mpr same.symm
    rw [if_pos same, if_neg unchanged]
    simp only [bind_some, if_neg notNone, number, Int.toNat_natCast]
    have matchedAfter : Matches stream payload_sn max_buff_size
        { buffer with saved := .some (saved.add segment.start taken) }
        ⟨{ run.node with holedata := hole_data }, buffer.sent.map (handedBuf stream)⟩ :=
      ⟨matched.payload, matched.failed, joined, rfl⟩
    by_cases part : taken < segment.length
    · rw [if_pos part, drop_bytesOf]
      apply matchedAfter.loop_behind rfl
      · simp only [Saved.add]
        omega
      · simp only [Saved.add]
        omega
      · omega
      · omega
    · rw [if_neg part, whole part, tcpbInputLoop_nil]
      exact .well rfl (by omega) matchedAfter
  have grown : (Saved.mk saved.start saved.received saved.count).run max_buff_size ≠
      (saved.add segment.start taken).run max_buff_size := fun run => same run.symm
  rw [if_neg same, if_pos grown]
  have reset := HoleHolds.anywhere (joined.1.reset joined.2.1) 0
  simp only [asksOf_eq, sent_append]
  generalize Handed.mk saved.start ((saved.add segment.start taken).run max_buff_size) false =
    shown
  by_cases asked : (outputAnswer output (buffer.sent.map (handedBuf stream))
      (handedBuf stream shown)).need_save = true
  · rw [if_pos asked, if_neg (by simp [asked])]
    dsimp only
    by_cases part : taken < segment.length
    · have short : (taken : Int) < segment.length := by omega
      rw [if_pos part, if_pos short]
      have matchedAfter : Matches stream payload_sn max_buff_size
          { buffer with saved := none, sent := buffer.sent ++ [shown] }
          ⟨{ run.node with holedata := holeDataReset hole_data },
            (buffer.sent ++ [shown]).map (handedBuf stream)⟩ :=
        ⟨matched.payload, matched.failed, reset, rfl⟩
      exact .badly rfl (by decide) matchedAfter
    · have all : ¬ (taken : Int) < segment.length := by omega
      rw [if_neg part, if_neg all]
      simp only [bind_some, if_neg notNone, number, Int.toNat_natCast]
      rw [whole part, tcpbInputLoop_nil]
      exact .well rfl (by omega) ⟨matched.payload, matched.failed, joined, rfl⟩
  rw [if_neg asked, if_pos (by simpa using asked)]
  simp only [bind_some, if_neg notNone, number, Int.toNat_natCast]
  have matchedAfter : Matches stream payload_sn max_buff_size { buffer with
        saved := none
        sent := buffer.sent ++ [shown]
        taken := buffer.taken ++
          [(saved.start, (saved.add segment.start taken).run max_buff_size)] }
      ⟨{ run.node with holedata := holeDataReset hole_data },
        (buffer.sent ++ [shown]).map (handedBuf stream)⟩ :=
    ⟨matched.payload, matched.failed, reset, rfl⟩
  by_cases part : taken < segment.length
  · rw [if_pos part, drop_bytesOf]
    exact matchedAfter.loop_pass aligns rfl (by omega) (by omega) (by omega) _ _
  · rw [if_neg part, whole part, tcpbInputLoop_nil]
    exact .well rfl (by omega) matchedAfter

include matched in
theorem Matches.failedSend :
    Matches stream payload_sn max_buff_size (buffer.fail max_buff_size)
      (tcpbFailedSend { run with node := { run.node with failed := true } }) := by
  obtain ⟨payload, _, nodeHolds, sent⟩ := matched
  cases isSaved : buffer.saved with
  | none =>
    rw [isSaved] at nodeHolds
    rw [tcpbFailedSend, if_neg (by simp [nodeHolds.contineLen_none]), Buffer.fail, isSaved]
    refine ⟨payload, rfl, ?_, sent⟩
    exact nodeHolds
  | some saved =>
    rw [isSaved] at nodeHolds
    have contine := nodeHolds.1.contineLen
    have handed : tcpbContineBuf { run.node with failed := true } true =
        handedBuf stream ⟨saved.start, saved.run max_buff_size, true⟩ :=
      nodeHolds.contineBuf payload true
    simp only [tcpbFailedSend, Buffer.fail, isSaved, contine, handed, sent, sent_append]
    by_cases nothing : saved.run max_buff_size = 0
    · rw [if_pos nothing, if_neg (show ¬ saved.run max_buff_size > 0 by omega)]
      exact ⟨payload, rfl, nodeHolds, rfl⟩
    · rw [if_neg nothing, if_pos (show saved.run max_buff_size > 0 by omega)]
      exact ⟨payload, rfl, nodeHolds, rfl⟩

include aligns matched in
theorem Matches.input (clean : buffer.Clean max_buff_size segment) (output : Reader) :
    ∃ after ret, tcpbInput numUpAlign max_buff_size output run
        (payload_sn + BitVec.ofNat 32 segment.start)
        (bytesOf stream segment.start segment.length) = some (after, ret) ∧
      Matches stream payload_sn max_buff_size
        (buffer.input max_buff_size (asksOf stream output) segment) after := by
  rw [tcpbInput, matched.failed]
  by_cases failed : buffer.failed = true
  · rw [if_pos failed, Buffer.input, if_pos (Or.inl failed)]
    exact ⟨run, _, rfl, matched⟩
  rw [if_neg failed, length_bytesOf]
  by_cases nothing : segment.length = 0
  · rw [Buffer.input, if_pos (Or.inr nothing), nothing]
    exact ⟨run, 0, rfl, matched⟩
  have positive := Nat.pos_of_ne_zero nothing
  have gives : Gives stream payload_sn max_buff_size
      (tcpbInputLoop numUpAlign max_buff_size output segment.length run
        (payload_sn + BitVec.ofNat 32 segment.start)
        (bytesOf stream segment.start segment.length) 0)
      (buffer.input max_buff_size (asksOf stream output) segment) := by
    rw [Buffer.input, if_neg (not_or.mpr ⟨failed, nothing⟩)]
    cases isSaved : buffer.saved with
    | none => exact matched.loop_pass aligns isSaved segment.short positive positive _ _
    | some saved =>
      have cleanSaved := clean.resolve_left failed saved isSaved
      dsimp only
      split
      · next before =>
        exact matched.loop_before isSaved before cleanSaved.1 positive positive 0
      next after =>
      split
      · next behind =>
        apply matched.loop_behind isSaved behind _ positive positive
        have ahead := cleanSaved.2.1
        omega
      · next inside =>
        exact matched.loop_join aligns isSaved cleanSaved positive (not_lt.mp after)
          (not_le.mp inside) (le_refl _) 0
  obtain ⟨_, _, looped, ended⟩ := gives
  simp only [looped, bind_eq_bind, bind_some]
  rcases ended with ⟨_, matchedAfter⟩ | ⟨wrong, _, matchedBefore, same⟩
  · rw [if_neg (by omega)]
    exact ⟨_, _, rfl, matchedAfter⟩
  · rw [if_pos wrong, same]
    exact ⟨_, _, rfl, matchedBefore.failedSend⟩

theorem matches_init (memory : Nat → UCHAR) (small : max_buff_size < 2 ^ 31) :
    Matches stream payload_sn max_buff_size Buffer.empty
      ⟨tcbpInitNode memory max_buff_size payload_sn, []⟩ :=
  ⟨rfl, rfl, holeHolds_init memory small, rfl⟩

end MyCode.Tcpb
