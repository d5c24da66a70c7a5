import MyCode.Mbuf.Contents

/-!
# Calls on one mbuf

What each call does to the bytes of an mbuf, and what it makes the total say.
-/

namespace MyCode.Mbuf

open Lib Option List

variable {memory : Memory} {mbuf after : MbufS} {pstMblk : MbufMblkS} {rest : List MbufMblkS}
  {counted ulOffset ulLen : Nat} {buf data others : List UCHAR}

/-- The blocks hold such bytes, and the total says so many. -/
structure Sums (mbuf : MbufS) (data : List UCHAR) (counted : Nat) : Prop where
  holds : Holds mbuf.stMblkHead data
  counted : mbuf.ulTotalDataLen = counted

structure MbufOk (mbuf : MbufS) : Prop where
  chain : Chain mbuf.stMblkHead mbuf.ulTotalDataLen
  word : mbuf.ulTotalDataLen < 2 ^ 32

theorem MbufOk.bytes (ok : MbufOk mbuf) : Holds mbuf.stMblkHead mbuf.bytes :=
  ok.chain.holds

theorem MbufOk.length (ok : MbufOk mbuf) : mbuf.bytes.length = mbuf.ulTotalDataLen :=
  ok.chain.length

theorem MbufOk.sums (ok : MbufOk mbuf) : Sums mbuf mbuf.bytes mbuf.ulTotalDataLen :=
  ⟨ok.bytes, rfl⟩

theorem Sums.bytes (sums : Sums mbuf data counted) : mbuf.bytes = data :=
  sums.holds.bytes

theorem Sums.ok (sums : Sums mbuf data counted) (same : counted = data.length)
    (word : data.length < 2 ^ 32) : MbufOk mbuf := by
  have total := sums.counted.trans same
  refine ⟨?_, ?_⟩
  · rw [total]
    exact sums.holds.chain
  · rw [total]
    exact word

variable (holds : Holds mbuf.stMblkHead data)

include holds in
theorem pendBlock_sums (ulLen : Nat) (bPendToHead : Bool) :
    ∃ fresh, fresh.length = ulLen ∧ Sums (mbufPendBlock memory mbuf ulLen bPendToHead)
      (if bPendToHead then fresh ++ data else data ++ fresh)
      ((mbuf.ulTotalDataLen + ulLen) % 2 ^ 32) := by
  obtain ⟨fresh, length, pended⟩ := @Holds.pend memory _ _ holds bPendToHead ulLen
  exact ⟨fresh, length, pended, rfl⟩

include holds in
theorem append_blocks
    (full : ∀ pstMblk rest, mbuf.stMblkHead = pstMblk :: rest → pstMblk.tailFree < ulLen) :
    ∃ fresh, fresh.length = ulLen ∧ Sums (mbufAppend memory mbuf ulLen) (data ++ fresh)
      ((mbuf.ulTotalDataLen + ulLen) % 2 ^ 32) := by
  rw [mbufAppend]
  split
  · exact pendBlock_sums holds ulLen false
  next pstMblk rest list =>
  rw [if_pos (full pstMblk rest list)]
  exact pendBlock_sums holds ulLen false

theorem append_window (ok : MblkOk pstMblk) (behind : Holds rest others)
    (list : mbuf.stMblkHead = pstMblk :: rest) (room : ¬pstMblk.tailFree < ulLen) :
    Sums (mbufAppend memory mbuf ulLen) (pstMblk.bytes ++
        (pstMblk.pstCluster.pucData.slice (pstMblk.headFree + pstMblk.ulLen) ulLen ++ others))
      ((mbuf.ulTotalDataLen + ulLen) % 2 ^ 32) := by
  have inside := ok.inside
  have tail := ok.tailFree
  simp only [mbufAppend, list, if_neg room]
  refine ⟨.cons (ok.resize ?_) behind ?_, rfl⟩
  · omega
  · simp [MbufMblkS.bytes, Block.slice_add, append_assoc]

include holds in
theorem append_sums (ulLen : Nat) :
    ∃ after, after.length = data.length + ulLen ∧
      Sums (mbufAppend memory mbuf ulLen) after ((mbuf.ulTotalDataLen + ulLen) % 2 ^ 32) := by
  by_cases full : ∀ pstMblk rest, mbuf.stMblkHead = pstMblk :: rest → pstMblk.tailFree < ulLen
  · obtain ⟨_, length, sums⟩ := @append_blocks memory _ _ _ holds full
    exact ⟨_, by rw [length_append, length], sums⟩
  simp only [not_forall] at full
  obtain ⟨_, _, list, room⟩ := full
  rw [list] at holds
  obtain _ | ⟨ok, behind, same⟩ := holds
  refine ⟨_, ?_, append_window ok behind list room⟩
  rw [same]
  simp only [length_append, Block.length_slice]
  omega

include holds in
theorem prepend_sums (ulLen : Nat) :
    ∃ fresh, fresh.length = ulLen ∧ Sums (mbufPrepend memory mbuf ulLen) (fresh ++ data)
      ((mbuf.ulTotalDataLen + ulLen) % 2 ^ 32) := by
  rw [mbufPrepend]
  split
  · exact pendBlock_sums holds ulLen true
  next pstMblk rest list =>
  split
  · exact pendBlock_sums holds ulLen true
  next room =>
  rw [list] at holds
  obtain _ | ⟨ok, behind, same⟩ := holds
  have inside := ok.inside
  refine ⟨pstMblk.pstCluster.pucData.slice (pstMblk.headFree - ulLen) ulLen,
    Block.length_slice, .cons (ok.resize ?_) behind ?_, rfl⟩
  · omega
  · simp only [MbufMblkS.bytes] at same ⊢
    rw [same, Nat.add_comm, Block.slice_add, Nat.sub_add_cancel (Nat.not_lt.mp room), append_assoc]

theorem foldl_total (more : List MbufMblkS) (start : Nat) :
    more.foldl (fun total pstMblk => (total + pstMblk.ulLen) % 2 ^ 32) (start % 2 ^ 32) =
      (start + (more.map MbufMblkS.ulLen).sum) % 2 ^ 32 := by
  induction more generalizing start with
  | nil => simp
  | cons _ _ ih =>
    rw [foldl_cons, ih, map_cons, sum_cons]
    omega

include holds in
theorem copy_sums (filled : buf ≠ [])
    (start : ulOffset ≤ data.length) (found : ulOffset ≤ mbuf.ulTotalDataLen) :
    ∃ after, mbufCopyFromBufToMbuf memory mbuf ulOffset buf = some (after, .ok) ∧
      Sums after (splice data ulOffset buf.length buf)
        ((mbuf.ulTotalDataLen + (buf.length - (data.length - ulOffset))) % 2 ^ 32) := by
  have bytes := length_pos_of_ne_nil filled
  obtain ⟨_, _, ulCopied, copied, holdsFirst, less, _, left⟩ := @Holds.copy _ _ buf _ holds start
  obtain ⟨_, created, holdsMore⟩ := @copyBlocks_holds memory (buf.drop ulCopied) _ (Nat.le_refl _) 0
  rw [mbufCopyFromBufToMbuf, if_neg (by omega), if_neg (by omega)]
  simp only [copied, created, bind_eq_bind, bind_some]
  refine ⟨_, rfl, ?_, ?_⟩
  · have whole : splice data ulOffset buf.length buf =
        splice data ulOffset ulCopied (buf.take ulCopied) ++ buf.drop ulCopied := by
      rcases Nat.lt_or_eq_of_le less with short | done
      · have behind := left short
        rw [splice, splice, drop_eq_nil_of_le behind,
          drop_eq_nil_of_le (show data.length ≤ ulOffset + buf.length by omega)]
        simp
      · simp [done]
    rw [whole]
    exact holdsFirst.append holdsMore
  · simp only
    rw [foldl_total, holdsMore.sum, length_drop]
    omega

include holds in
theorem insert_sums (filled : 0 < buf.length) (found : ulOffset ≤ mbuf.ulTotalDataLen) :
    ∃ after, mbufInsertBuf memory mbuf ulOffset buf = some (after, .ok) ∧
      Sums after (if ulOffset < data.length then splice data ulOffset 0 buf else data)
        ((mbuf.ulTotalDataLen + buf.length) % 2 ^ 32) := by
  obtain ⟨_, inserted, holdsAfter⟩ := @Holds.insert memory _ buf _ holds ulOffset
  rw [mbufInsertBuf, if_neg (by omega), if_neg (by omega)]
  simp only [inserted, bind_eq_bind, bind_some]
  exact ⟨_, rfl, holdsAfter, rfl⟩

theorem MbufOk.cutHead (ok : MbufOk mbuf) (ulCutLen : Nat) :
    Sums (mbufCutHead mbuf ulCutLen) (mbuf.bytes.drop ulCutLen)
      (mbuf.ulTotalDataLen - ulCutLen) := by
  refine ⟨?_, ?_⟩
  · rw [drop_eq_drop_min, ok.length]
    exact ok.bytes.cutHead _
  have left : mbuf.ulTotalDataLen - ulCutLen =
      mbuf.ulTotalDataLen - min ulCutLen mbuf.ulTotalDataLen := by omega
  rw [left]
  exact uintSub_eq (Nat.min_le_right _ _) ok.word

theorem MbufOk.cutTail (ok : MbufOk mbuf) (ulCutLen : Nat) :
    Sums (mbufCutTail mbuf ulCutLen) (mbuf.bytes.take (mbuf.bytes.length - ulCutLen))
      (uintSub mbuf.ulTotalDataLen ulCutLen) := by
  have reversed : Holds mbuf.stMblkHead.reverse.reverse mbuf.bytes := by
    rw [reverse_reverse]
    exact ok.bytes
  exact ⟨reversed.cutTail ulCutLen, rfl⟩

theorem MbufOk.cutPart (ok : MbufOk mbuf) {ulCutLen : Nat} :
    ∃ after status, mbufCutPart memory mbuf ulOffset ulCutLen = some (after, status) ∧
      if ulOffset < mbuf.ulTotalDataLen ∧ ulOffset + ulCutLen ≤ mbuf.ulTotalDataLen then
        Sums after (splice mbuf.bytes ulOffset ulCutLen []) (mbuf.ulTotalDataLen - ulCutLen)
      else after = mbuf := by
  have length := ok.length
  rw [mbufCutPart]
  split
  · exact ⟨mbuf, .err, rfl, by rw [if_neg (by omega)]⟩
  split
  · exact ⟨mbuf, .err, rfl, by rw [if_neg (by omega)]⟩
  obtain ⟨_, cut, holds⟩ := @Holds.cutPart memory _ ulCutLen ulOffset _ ok.bytes (by omega)
  simp only [cut, bind_eq_bind, bind_some]
  refine ⟨_, _, rfl, ?_⟩
  rw [if_pos (by omega)]
  exact ⟨holds, uintSub_eq (by omega) ok.word⟩

theorem MbufOk.compress (ok : MbufOk mbuf) :
    ∃ after left, mbufCompress memory mbuf = some (after, .ok) ∧
      Sums after left mbuf.ulTotalDataLen ∧ left.length = mbuf.ulTotalDataLen ∧
      (MovesWhole mbuf.stMblkHead → left = mbuf.bytes) := by
  rw [mbufCompress]
  split
  · exact ⟨mbuf, _, rfl, ok.sums, ok.length, fun _ => rfl⟩
  obtain ⟨left, ⟨_, run, holds⟩, length, whole⟩ :=
    @Holds.compress memory _ _ ok.bytes _ (Nat.le_refl _)
  simp only [run, bind_eq_bind, bind_some]
  exact ⟨_, left, rfl, ⟨holds, rfl⟩, length.trans ok.length, whole⟩

include holds in
theorem neat_sums : ∃ after, mbufNeat mbuf = some after ∧ Sums after data mbuf.ulTotalDataLen := by
  obtain ⟨_, run, holdsAfter⟩ := holds.neat (Nat.le_refl _)
  simp only [mbufNeat, run, bind_eq_bind, bind_some]
  exact ⟨_, rfl, holdsAfter, rfl⟩

theorem MbufOk.makeContinueRaw (ok : MbufOk mbuf) (list : mbuf.stMblkHead = pstMblk :: rest)
    (more : pstMblk.ulLen ≤ ulLen) (data : ulLen ≤ mbuf.ulTotalDataLen)
    (fits : ulLen ≤ CLUSTER_SIZE) :
    ∃ first behind, mbufMakeContinueRaw mbuf ulLen =
        some ({ mbuf with stMblkHead := first :: behind }, .ok) ∧
      Holds (first :: behind) mbuf.bytes ∧ first.bytes = mbuf.bytes.take ulLen := by
  have holds := ok.bytes
  rw [list] at holds
  obtain _ | ⟨okBlk, behind, same⟩ := holds
  obtain ⟨room, made, okRoom, bytesRoom, _⟩ := okBlk.makeRoom more fits
  have lenRoom : room.ulLen = pstMblk.ulLen := by
    rw [← length_bytes, bytesRoom, length_bytes]
  have word := ok.word
  have missing : uintSub ulLen room.ulLen = ulLen - room.ulLen := uintSub_eq (by omega) (by omega)
  obtain ⟨first, after, run, holdsAfter, front⟩ := okRoom.makeContinue behind
    (show room.headFree + room.ulLen + (ulLen - room.ulLen) ≤ CLUSTER_SIZE by omega)
  rw [bytesRoom, ← same] at holdsAfter
  refine ⟨first, after, ?_, holdsAfter, ?_⟩
  · simp [mbufMakeContinueRaw, list, if_neg (Nat.not_lt.mpr data), MbufClusterS.ulSize, okBlk.size,
      if_neg (Nat.not_lt.mpr fits), made, missing, run]
  have whole : pstMblk.bytes.length ≤ ulLen := by
    rw [length_bytes]
    exact more
  rw [front, bytesRoom, same, take_append, lenRoom, length_bytes, take_of_length_le whole]

def MbufS.front (mbuf : MbufS) : List UCHAR :=
  match mbuf.stMblkHead with
  | [] => []
  | pstMblk :: _ => pstMblk.bytes

theorem MbufOk.makeContinue (ok : MbufOk mbuf) (ulLen : Nat) :
    ∃ after status, mbufMakeContinue mbuf ulLen = some (after, status) ∧
      Sums after mbuf.bytes mbuf.ulTotalDataLen ∧
      (ulLen ≤ mbuf.ulTotalDataLen → if ulLen ≤ CLUSTER_SIZE then
        after.front.take ulLen = mbuf.bytes.take ulLen else after = mbuf ∧ status = .notSupport) := by
  have sums := ok.sums
  rw [mbufMakeContinue]
  split
  · next list =>
    have bytes : mbuf.bytes = [] := by simp [MbufS.bytes, list]
    have none := ok.length
    rw [bytes, length_nil] at none
    rw [mbufMakeContinueRaw, list]
    split
    · exact ⟨mbuf, _, rfl, sums, fun data => by omega⟩
    refine ⟨mbuf, _, rfl, sums, fun _ => ?_⟩
    rw [if_pos (by omega), bytes]
    simp [MbufS.front, list]
  next pstMblk rest list =>
  have holds := ok.bytes
  rw [list] at holds
  obtain _ | ⟨okBlk, -, same⟩ := holds
  have inside := okBlk.inside
  split
  · next enough =>
    refine ⟨mbuf, _, rfl, sums, fun _ => ?_⟩
    rw [if_pos (by omega), same, take_append_of_le_length (by rw [length_bytes]; exact enough)]
    simp [MbufS.front, list]
  next more =>
  by_cases data : ulLen ≤ mbuf.ulTotalDataLen
  · by_cases fits : ulLen ≤ CLUSTER_SIZE
    · obtain ⟨_, _, run, holds, front⟩ :=
        ok.makeContinueRaw list (by omega) data fits
      refine ⟨_, _, run, ⟨holds, rfl⟩, fun _ => ?_⟩
      simp only [if_pos fits, MbufS.front, front, take_take, Nat.min_self]
    · refine ⟨mbuf, .notSupport, ?_, sums, fun _ => by rw [if_neg fits]; exact ⟨rfl, rfl⟩⟩
      simp [mbufMakeContinueRaw, list, if_neg (Nat.not_lt.mpr data), MbufClusterS.ulSize,
        okBlk.size, if_pos (Nat.not_le.mp fits)]
  · refine ⟨mbuf, .outOfRange, ?_, sums, fun data' => absurd data' data⟩
    simp [mbufMakeContinueRaw, if_pos (Nat.not_le.mp data)]

theorem MbufOk.fragment (ok : MbufOk mbuf) (ulLen : Nat) :
    ∃ left pstMbufDst, mbufFragment memory mbuf ulLen = some (left, pstMbufDst) ∧
      Sums left (mbuf.bytes.drop ulLen) (mbuf.ulTotalDataLen - ulLen) ∧
      Sums pstMbufDst (mbuf.bytes.take ulLen) (min ulLen mbuf.ulTotalDataLen) := by
  have length := ok.length
  obtain ⟨moved, left, run, holdsMoved, holdsLeft⟩ :=
    @Holds.fragment memory _ (min ulLen mbuf.ulTotalDataLen) _ ok.bytes (by omega)
  have rest := uintSub_eq (Nat.min_le_right ulLen mbuf.ulTotalDataLen) ok.word
  have same : mbuf.ulTotalDataLen - min ulLen mbuf.ulTotalDataLen =
      mbuf.ulTotalDataLen - ulLen := by omega
  refine ⟨⟨left, mbuf.ulTotalDataLen - ulLen⟩, ⟨moved, min ulLen mbuf.ulTotalDataLen⟩, ?_,
    ⟨?_, rfl⟩, ⟨?_, rfl⟩⟩
  · simp [mbufFragment, run, rest, same]
  · rw [drop_eq_drop_min, length]
    exact holdsLeft
  · rw [take_eq_take_min, length]
    exact holdsMoved

theorem MbufOk.rawCopy (ok : MbufOk mbuf) (ulOffset ulLen ulReservedHeadSpace : Nat) :
    ∃ copy, mbufRawCopy memory mbuf ulOffset ulLen ulReservedHeadSpace = some copy ∧
      ∀ pstMbufDst, copy = some pstMbufDst → Sums pstMbufDst
        ((mbuf.bytes.drop ulOffset).take ulLen) (min ulLen (mbuf.ulTotalDataLen - ulOffset)) := by
  have length := ok.length
  by_cases inside : ulOffset < mbuf.ulTotalDataLen
  · obtain ⟨mblk, rest, place, others, found, okBlk, behind, less, data⟩ :=
      ok.bytes.find (show ulOffset < mbuf.bytes.length by omega)
    have holds : Holds (mblk :: rest) (mblk.bytes ++ others) := .cons okBlk behind rfl
    have size := uintSub_eq (Nat.le_of_lt inside) ok.word
    have left : (mblk.bytes ++ others).drop place = mbuf.bytes.drop ulOffset := by
      rw [data, drop_append_of_le_length (by rw [length_bytes]; exact less)]
    have within := congrArg List.length left
    rw [length_drop, length_drop, length] at within
    obtain ⟨blocks, run, copied⟩ := @Holds.rawCopy memory _ _ holds
      (min ulLen (mbuf.ulTotalDataLen - ulOffset) + rest.length + 1) place
      (min ulLen (mbuf.ulTotalDataLen - ulOffset)) (by rintro _ _ ⟨⟩; exact less)
      (by rw [length_append, length_bytes] at *; omega) (by rw [length_cons]; omega)
      (if ulReservedHeadSpace ≥ mblk.pstCluster.ulSize then 0 else ulReservedHeadSpace)
    refine ⟨some ⟨blocks, min ulLen (mbuf.ulTotalDataLen - ulOffset)⟩, ?_, ?_⟩
    · simp [mbufRawCopy, found, size, run]
    rintro _ ⟨⟩
    refine ⟨?_, rfl⟩
    rw [take_eq_take_min, length_drop, length, ← left]
    exact copied
  · have nothing := ok.bytes.find_none (show mbuf.bytes.length ≤ ulOffset by omega)
    refine ⟨none, by simp only [mbufRawCopy, nothing], ?_⟩
    rintro _ ⟨⟩

theorem cat_sums {pstMbufSrc : MbufS} (ok : MbufOk mbuf) (okSrc : MbufOk pstMbufSrc) :
    Sums (mbufCat mbuf pstMbufSrc) (mbuf.bytes ++ pstMbufSrc.bytes)
      ((mbuf.ulTotalDataLen + pstMbufSrc.ulTotalDataLen) % 2 ^ 32) :=
  ⟨ok.bytes.append okSrc.bytes, rfl⟩

end MyCode.Mbuf
