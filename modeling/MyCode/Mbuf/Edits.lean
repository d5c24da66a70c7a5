import MyCode.Mbuf.Calls

/-!
# Editing mbufs

An mbuf is edited as the list of its bytes would be, however they are divided into blocks:
when the list is to be rearranged, cut, extended, written and read.
-/

namespace MyCode.Mbuf

open Lib List Option Nat

variable {mbuf after : MbufS} {counted ulOffset ulLen : Nat} {data other : List UCHAR}

structure Carries (mbuf : MbufS) (data : List UCHAR) : Prop where
  ok : MbufOk mbuf
  bytes : mbuf.bytes = data

theorem Carries.total (carries : Carries mbuf data) : data.length = mbuf.ulTotalDataLen := by
  rw [← carries.bytes, carries.ok.length]

theorem Carries.holds (carries : Carries mbuf data) : Holds mbuf.stMblkHead data := by
  rw [← carries.bytes]
  exact carries.ok.bytes

theorem Carries.word (carries : Carries mbuf data) : data.length < 2 ^ 32 := by
  rw [carries.total]
  exact carries.ok.word

theorem Sums.carries_iff (sums : Sums after data counted) :
    Carries after other ↔ data = other ∧ counted = data.length ∧ data.length < 2 ^ 32 := by
  constructor
  · intro carries
    have same := sums.bytes.symm.trans carries.bytes
    have total := carries.total
    have word := carries.word
    rw [← same] at total word
    exact ⟨same, by rw [total, sums.counted], word⟩
  · rintro ⟨rfl, same, word⟩
    exact ⟨sums.ok same word, sums.bytes⟩

theorem Sums.carries (sums : Sums after data counted) (same : counted = data.length)
    (word : data.length < 2 ^ 32) : Carries after data :=
  sums.carries_iff.mpr ⟨rfl, same, word⟩

/-- The byte with the number `i` of a cluster is `i`. -/
def countingMblk (ulLen : Nat) : MbufMblkS :=
  ⟨0, ulLen, ⟨1, ⟨CLUSTER_SIZE, BitVec.ofNat 8⟩⟩⟩

theorem Carries.cutPart (memory : Memory) (carries : Carries mbuf data)
    (inside : ulOffset + ulLen ≤ data.length) :
    ∃ after status, mbufCutPart memory mbuf ulOffset ulLen = some (after, status) ∧
      Carries after (data.take ulOffset ++ data.drop (ulOffset + ulLen)) := by
  obtain ⟨ok, rfl⟩ := carries
  have word := ok.word
  have length := ok.length
  obtain ⟨after, status, run, cut⟩ := @MbufOk.cutPart memory mbuf ulOffset ok ulLen
  refine ⟨after, status, run, ?_⟩
  split at cut
  · have part : mbuf.ulTotalDataLen - ulLen = (splice mbuf.bytes ulOffset ulLen []).length := by
      rw [length_splice (by omega), length_nil]
      omega
    simpa [splice] using cut.carries part (by omega)
  next refused =>
  have whole : ulLen = 0 := by omega
  rw [cut, whole, Nat.add_zero, take_append_drop]
  exact ⟨ok, rfl⟩

theorem mbuf_cuts (memory : Memory) (carries : Carries mbuf data)
    (inside : ulOffset + ulLen ≤ data.length) :
    Carries (mbufCutHead mbuf ulLen) (data.drop ulLen) ∧
      Carries (mbufCutTail mbuf ulLen) (data.take (data.length - ulLen)) ∧
      (∃ after status, mbufCutPart memory mbuf ulOffset ulLen = some (after, status) ∧
        Carries after (data.take ulOffset ++ data.drop (ulOffset + ulLen))) ∧
      ∃ after pstMbufDst, mbufFragment memory mbuf ulLen = some (after, pstMbufDst) ∧
        Carries pstMbufDst (data.take ulLen) ∧ Carries after (data.drop ulLen) := by
  have part := carries.cutPart memory inside
  obtain ⟨ok, rfl⟩ := carries
  have word := ok.word
  have length := ok.length
  have head : mbuf.ulTotalDataLen - ulLen = (mbuf.bytes.drop ulLen).length := by
    rw [length_drop, length]
  have tail : uintSub mbuf.ulTotalDataLen ulLen =
      (mbuf.bytes.take (mbuf.bytes.length - ulLen)).length := by
    rw [uintSub_eq (by omega) word, length_take]
    omega
  refine ⟨(ok.cutHead ulLen).carries head (by omega),
    (ok.cutTail ulLen).carries tail (by rw [length_take]; omega), part, ?_⟩
  obtain ⟨after, pstMbufDst, run, sums, sumsDst⟩ := @MbufOk.fragment memory mbuf ok ulLen
  have front : min ulLen mbuf.ulTotalDataLen = (mbuf.bytes.take ulLen).length := by
    rw [length_take, length]
  exact ⟨after, pstMbufDst, run, sumsDst.carries front (by omega), sums.carries head (by omega)⟩

theorem mbuf_cuts_counting :
    ∃ after status, mbufCutPart (fun _ => 0) ⟨[countingMblk 3], 3⟩ 1 1 = some (after, status) ∧
      Carries after [0, 2] := by
  have sums : Sums ⟨[countingMblk 3], 3⟩ [0, 1, 2] 3 := ⟨.single ⟨rfl, rfl, by decide⟩ rfl, rfl⟩
  exact (@mbuf_cuts _ 1 1 _ (fun _ => 0) (sums.carries rfl (by decide)) (by decide)).2.2.1

/-- The new bytes of `MBUF_Append` come last: they get new blocks, or what the first block grows
over and the later bytes begins with the later bytes. -/
def AppendsLast (mbuf : MbufS) (ulLen : Nat) : Prop :=
  match mbuf.stMblkHead with
  | [] => True
  | pstMblk :: rest =>
    pstMblk.tailFree < ulLen ∨ rest.flatMap MbufMblkS.bytes <+:
      pstMblk.pstCluster.pucData.slice (pstMblk.headFree + pstMblk.ulLen) ulLen ++
        rest.flatMap MbufMblkS.bytes

theorem append_carries (memory : Memory) (carries : Carries mbuf data) (ulLen : Nat) :
    (∃ more, more.length = ulLen ∧ Carries (mbufAppend memory mbuf ulLen) (data ++ more)) ↔
      data.length + ulLen < 2 ^ 32 ∧ AppendsLast mbuf ulLen := by
  have holds := carries.holds
  have total := carries.total
  have small : ∀ {after : List UCHAR}, after.length = data.length + ulLen →
      ((mbuf.ulTotalDataLen + ulLen) % 2 ^ 32 = after.length ∧ after.length < 2 ^ 32 ↔
        data.length + ulLen < 2 ^ 32) := by
    intro after length
    omega
  by_cases full : ∀ pstMblk rest, mbuf.stMblkHead = pstMblk :: rest → pstMblk.tailFree < ulLen
  · obtain ⟨fresh, length, sums⟩ := @append_blocks memory _ _ _ holds full
    have last : AppendsLast mbuf ulLen := by
      rw [AppendsLast]
      split
      · trivial
      · next pstMblk rest list => exact Or.inl (full pstMblk rest list)
    rw [← small (show (data ++ fresh).length = _ by rw [length_append, length]),
      and_iff_left last]
    constructor
    · rintro ⟨_, _, after⟩
      rw [sums.carries_iff] at after
      exact after.2
    · exact fun right => ⟨fresh, length, sums.carries_iff.mpr ⟨rfl, right⟩⟩
  simp only [not_forall] at full
  obtain ⟨pstMblk, rest, list, room⟩ := full
  have last : AppendsLast mbuf ulLen ↔ rest.flatMap MbufMblkS.bytes <+:
      pstMblk.pstCluster.pucData.slice (pstMblk.headFree + pstMblk.ulLen) ulLen ++
        rest.flatMap MbufMblkS.bytes := by
    simp [AppendsLast, list, room]
  rw [list] at holds
  obtain _ | ⟨ok, behind, same⟩ := holds
  have sums := @append_window memory _ _ _ _ _ ok behind list room
  rw [last, behind.bytes]
  constructor
  · rintro ⟨more, length, after⟩
    obtain ⟨grown, right⟩ := sums.carries_iff.mp after
    rw [grown] at right
    rw [same, append_assoc, append_cancel_left_eq] at grown
    exact ⟨(small (by rw [length_append, length])).mp right, more, grown.symm⟩
  rintro ⟨word, more, grown⟩
  have length := congrArg List.length grown
  simp only [length_append, Block.length_slice] at length
  refine ⟨more, by omega, ?_⟩
  rw [sums.carries_iff, ← grown, ← append_assoc, ← same]
  refine ⟨rfl, (small ?_).mpr word⟩
  rw [length_append]
  omega

theorem insert_carries (memory : Memory) (carries : Carries mbuf data)
    (inside : ulOffset ≤ data.length) (buf : List UCHAR) :
    (∃ after status, mbufInsertBuf memory mbuf ulOffset buf = some (after, status) ∧
        Carries after (data.take ulOffset ++ buf ++ data.drop ulOffset)) ↔
      buf = [] ∨ ulOffset < data.length ∧ data.length + buf.length < 2 ^ 32 := by
  have total := carries.total
  rcases eq_nil_or_concat buf with rfl | filled
  · refine iff_of_true ⟨mbuf, .badPara, by simp [mbufInsertBuf], ?_⟩ (Or.inl rfl)
    simpa using carries
  have bytes : 0 < buf.length := by
    obtain ⟨-, -, rfl⟩ := filled
    simp
  have some := ne_nil_of_length_pos bytes
  obtain ⟨after, run, sums⟩ := @insert_sums memory _ ulOffset buf _ carries.holds bytes (by omega)
  have whole : data.take ulOffset ++ buf ++ data.drop ulOffset = splice data ulOffset 0 buf := rfl
  have length : (splice data ulOffset 0 buf).length = data.length + buf.length := by
    rw [length_splice inside]
    omega
  simp only [run, Option.some.injEq, Prod.mk.injEq, whole, some, false_or]
  constructor
  · rintro ⟨_, _, ⟨rfl, _⟩, right⟩
    obtain ⟨same, -, word⟩ := sums.carries_iff.mp right
    rw [same, length] at word
    refine ⟨?_, word⟩
    by_contra behind
    rw [if_neg behind] at same
    rw [← same] at length
    omega
  · rintro ⟨before, word⟩
    refine ⟨after, .ok, ⟨rfl, rfl⟩, sums.carries_iff.mpr ?_⟩
    rw [if_pos before, length]
    exact ⟨rfl, by omega, word⟩

theorem copy_carries (memory : Memory) (carries : Carries mbuf data)
    (inside : ulOffset ≤ data.length) (buf : List UCHAR) :
    (∃ after status, mbufCopyFromBufToMbuf memory mbuf ulOffset buf = some (after, status) ∧
        Carries after (splice data ulOffset buf.length buf)) ↔
      ulOffset + buf.length < 2 ^ 32 := by
  have total := carries.total
  have word := carries.word
  by_cases empty : buf = []
  · subst empty
    refine iff_of_true ⟨mbuf, .badPara, by simp [mbufCopyFromBufToMbuf], ?_⟩ ?_
    · simpa using carries
    · exact Nat.lt_of_le_of_lt inside word
  obtain ⟨after, run, sums⟩ :=
    @copy_sums memory _ ulOffset buf _ carries.holds empty inside (by omega)
  have length : (splice data ulOffset buf.length buf).length =
      data.length + (buf.length - (data.length - ulOffset)) := by
    rw [length_splice inside]
    omega
  simp only [run, some.injEq, Prod.mk.injEq]
  constructor
  · rintro ⟨_, _, ⟨rfl, _⟩, right⟩
    have := right.word
    omega
  · intro small
    refine ⟨after, .ok, ⟨rfl, rfl⟩, sums.carries ?_ (by omega)⟩
    omega

/-- What is inserted behind the last byte is lost, and `MBUF_Append` grows the first block. -/
theorem mbuf_extends (memory : Memory) (carries : Carries mbuf data)
    (inside : ulOffset ≤ data.length) (buf : List UCHAR) (ulLen : Nat) :
    ((∃ after status, mbufInsertBuf memory mbuf ulOffset buf = some (after, status) ∧
        Carries after (data.take ulOffset ++ buf ++ data.drop ulOffset)) ↔
      buf = [] ∨ ulOffset < data.length ∧ data.length + buf.length < 2 ^ 32) ∧
    ((∃ after status, mbufAppendData memory mbuf buf = some (after, status) ∧
        Carries after (data ++ buf)) ↔ data.length + buf.length < 2 ^ 32) ∧
    ((∃ more, more.length = ulLen ∧ Carries (mbufAppend memory mbuf ulLen) (data ++ more)) ↔
      data.length + ulLen < 2 ^ 32 ∧ AppendsLast mbuf ulLen) := by
  refine ⟨insert_carries memory carries inside buf, ?_, append_carries memory carries ulLen⟩
  have last := copy_carries memory carries (Nat.le_refl _) buf
  have behind : splice data data.length buf.length buf = data ++ buf := by simp [splice]
  rw [behind, carries.total] at last
  rw [carries.total]
  exact last

theorem mbuf_extends_counting :
    ∃ after status, mbufInsertBuf (fun _ => 0) ⟨[countingMblk 1], 1⟩ 0 [7] =
      some (after, status) ∧ Carries after [7, 0] := by
  have sums : Sums ⟨[countingMblk 1], 1⟩ [0] 1 := ⟨.single ⟨rfl, rfl, by decide⟩ rfl, rfl⟩
  exact (mbuf_extends (fun _ => 0) (sums.carries rfl (by decide)) (zero_le _) [7] 0).1.mpr
    (Or.inr (by decide))

theorem mbuf_appends_inside :
    (Carries ⟨[countingMblk 1], 1⟩ [0] ∧
      ¬∃ after status, mbufInsertBuf (fun _ => 0) ⟨[countingMblk 1], 1⟩ 1 [7] =
        some (after, status) ∧ Carries after [0, 7]) ∧
      Carries ⟨[countingMblk 1, countingMblk 1], 2⟩ [0, 0] ∧
      ¬∃ more, more.length = 1 ∧
        Carries (mbufAppend (fun _ => 0) ⟨[countingMblk 1, countingMblk 1], 2⟩ 1)
          ([0, 0] ++ more) := by
  have ok : MblkOk (countingMblk 1) := ⟨rfl, rfl, by decide⟩
  have one : Sums ⟨[countingMblk 1], 1⟩ [0] 1 := ⟨.single ok rfl, rfl⟩
  have two : Sums ⟨[countingMblk 1, countingMblk 1], 2⟩ [0, 0] 2 :=
    ⟨.cons ok (.single ok rfl) rfl, rfl⟩
  refine ⟨⟨one.carries rfl (by decide), fun inserted => ?_⟩,
    two.carries rfl (by decide), fun appended => ?_⟩
  · have right := (insert_carries _ (one.carries rfl (by decide)) (by decide) [7]).mp inserted
    exact absurd right (by decide)
  have last := ((append_carries _ (two.carries rfl (by decide)) 1).mp appended).2
  rcases last with full | first
  · exact absurd full (by decide)
  · exact absurd first (by decide)

theorem Carries.read (carries : Carries mbuf data) (inside : ulOffset + ulLen ≤ data.length) :
    mbufCopyFromMbufToBuf mbuf ulOffset ulLen = some ((data.drop ulOffset).take ulLen, .ok) := by
  have total := carries.total
  have word := carries.word
  rw [mbufCopyFromMbufToBuf, mod_eq_of_lt (by omega), if_neg (by omega),
    carries.holds.copyOut inside]
  rfl

theorem mbuf_writes (memory : Memory) (carries : Carries mbuf data) (ulOffset : Nat)
    (buf : List UCHAR) :
    (ulOffset ≤ data.length → ulOffset + buf.length < 2 ^ 32 →
      ∃ after status, mbufCopyFromBufToMbuf memory mbuf ulOffset buf = some (after, status) ∧
        Carries after (data.take ulOffset ++ buf ++ data.drop (ulOffset + buf.length)) ∧
        mbufCopyFromMbufToBuf after ulOffset buf.length = some (buf, .ok)) ∧
      (data.length < ulOffset → buf ≠ [] →
        mbufCopyFromBufToMbuf memory mbuf ulOffset buf = some (mbuf, .notSupport)) := by
  refine ⟨fun inside word => ?_, fun outside filled => ?_⟩
  · obtain ⟨after, status, run, written⟩ := (copy_carries memory carries inside buf).mpr word
    refine ⟨after, status, run, written, ?_⟩
    rw [written.read]
    · simp [splice, inside]
    · rw [length_splice inside]
      omega
  · have bytes := length_pos_of_ne_nil filled
    have total := carries.total
    rw [mbufCopyFromBufToMbuf, if_neg (by omega), if_pos (by omega)]

theorem mbuf_writes_counting :
    ∃ after status, mbufCopyFromBufToMbuf (fun _ => 0) ⟨[countingMblk 2], 2⟩ 1 [7, 8] =
      some (after, status) ∧ Carries after [0, 7, 8] ∧
        mbufCopyFromMbufToBuf after 1 2 = some ([7, 8], .ok) := by
  have sums : Sums ⟨[countingMblk 2], 2⟩ [0, 1] 2 := ⟨.single ⟨rfl, rfl, by decide⟩ rfl, rfl⟩
  exact (mbuf_writes (fun _ => 0) (sums.carries rfl (by decide)) 1 [7, 8]).1
    (by decide) (by decide)

theorem mbuf_refuses_gap :
    Carries ⟨[], 0⟩ [] ∧
      ¬∃ after status, mbufCopyFromBufToMbuf (fun _ => 0) ⟨[], 0⟩ 1 [7] = some (after, status) ∧
        after.bytes[1]? = some 7 := by
  have sums : Sums ⟨[], 0⟩ [] 0 := ⟨.nil, rfl⟩
  refine ⟨sums.carries rfl (by decide), ?_⟩
  rintro ⟨_, _, run, written⟩
  cases run
  cases written

end MyCode.Mbuf
