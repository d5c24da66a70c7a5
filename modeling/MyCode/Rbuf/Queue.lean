import MyCode.Lib.Transition
import MyCode.Rbuf

/-!
# Ring buffers as bounded queues of bytes

Without a write that counts its bytes twice, a forced write over unread bytes and moves
of the indices, the buffer never leaves its start and answers as a bounded queue.
-/

namespace MyCode.Rbuf

open Lib List BitVec Option Nat

variable {count : Nat} {buf : Option (Nat → UCHAR)}

/-- The last bytes, as many as there is room for. -/
def lastBytes (capacity : Nat) (bytes : List UCHAR) : List UCHAR :=
  bytes.drop (bytes.length - capacity)

def firstBytes (pucBuf : Nat → UCHAR) (count : Nat) : List UCHAR :=
  (range count).map pucBuf

/-- What the calls mean for the unread bytes of a queue with room for `capacity`. -/
def queueStep (capacity : Nat) (unread : List UCHAR) : RbufCall → List UCHAR × RbufAnswer
  | .write none _ => (unread, .written .nullPara 0)
  | .write (some pucBuf) ulBufLen =>
    let taken := min ulBufLen.toNat (capacity - unread.length)
    (unread ++ firstBytes pucBuf taken, .written .ok (BitVec.ofNat 32 taken))
  | .writeForce none _ => (unread, .status .nullPara)
  | .writeForce (some pucBuf) ulBufLen =>
    (lastBytes capacity (unread ++ firstBytes pucBuf ulBufLen.toNat), .status .ok)
  | .readNoDel => (unread, .bytes unread (BitVec.ofNat 32 unread.length))
  | .read => ([], .bytes unread (BitVec.ofNat 32 unread.length))
  | .moveWriteIndex bytes lIndexMovOffset =>
    (if 0 ≤ lIndexMovOffset.toInt then unread ++ firstBytes bytes lIndexMovOffset.toInt.toNat
      else unread.take (unread.length - (-lIndexMovOffset.toInt).toNat), .done)
  | .moveReadIndex lIndexMovOffset => (unread.drop lIndexMovOffset.toInt.toNat, .done)
  | .isFull => (unread, .flag (capacity ≤ unread.length))
  | .isEmpty => (unread, .flag unread.isEmpty)

/-- A write finds no room, a forced write needs none of the unread bytes' or starts as it
ends, and the indices are moved by nothing. -/
def RbufCall.Fits (capacity : Nat) (unread : List UCHAR) : RbufCall → Prop
  | .write (some _) ulBufLen => ulBufLen = 0 ∨ unread.length = capacity
  | .writeForce (some pucBuf) ulBufLen =>
    unread.length + ulBufLen.toNat ≤ capacity ∨
      capacity < ulBufLen.toNat ∧
        ∀ i < capacity, pucBuf i = pucBuf (ulBufLen.toNat - capacity + i)
  | .moveWriteIndex _ lIndexMovOffset => lIndexMovOffset = 0
  | .moveReadIndex lIndexMovOffset =>
    lIndexMovOffset = 0 ∧ (unread.length = 0 ∨ unread.length = capacity)
  | _ => True

structure RbufHolds (ulBufLen : UINT) (ctrl : RbufCtrl) (unread : List UCHAR) : Prop where
  max : ctrl.ulMaxDataLen = ulBufLen
  size : ctrl.pucData.size = ulBufLen.toNat
  read : ctrl.ulReadIndex = 0
  dataLen : ctrl.ulDataLen.toNat = unread.length
  fits : unread.length ≤ ulBufLen.toNat
  write : ctrl.ulWriteIndex.toNat = unread.length % ulBufLen.toNat
  bytes : ctrl.pucData.slice 0 unread.length = unread

variable {ulBufLen len : UINT} {ctrl : RbufCtrl} {unread : List UCHAR} {pucBuf : Nat → UCHAR}
  {capacity : Nat}

@[simp]
theorem length_firstBytes : (firstBytes pucBuf count).length = count := by
  simp [firstBytes]

theorem lastBytes_of_le {bytes : List UCHAR} (few : bytes.length ≤ capacity) :
    lastBytes capacity bytes = bytes := by
  rw [lastBytes, Nat.sub_eq_zero_of_le few]
  rfl

theorem firstBytes_drop {skipped : Nat} : (firstBytes pucBuf count).drop skipped =
    firstBytes (fun i => pucBuf (skipped + i)) (count - skipped) := by
  apply ext_getElem
  · simp
  · intro i first second
    simp [firstBytes]

theorem lastBytes_repeated (long : capacity < len.toNat)
    (repeats : ∀ i < capacity, pucBuf i = pucBuf (len.toNat - capacity + i)) :
    lastBytes capacity (unread ++ firstBytes pucBuf len.toNat) = firstBytes pucBuf capacity := by
  have skipped : (unread ++ firstBytes pucBuf len.toNat).length - capacity =
      unread.length + (len.toNat - capacity) := by
    simp
    omega
  rw [lastBytes, skipped, ← drop_drop, drop_left, firstBytes_drop,
    show len.toNat - (len.toNat - capacity) = capacity by omega]
  apply map_congr_left
  intro i inside
  exact (repeats i (mem_range.mp inside)).symm

section

variable (holds : RbufHolds ulBufLen ctrl unread)

include holds

theorem RbufHolds.free :
    (ctrl.ulMaxDataLen - ctrl.ulDataLen).toNat = ulBufLen.toNat - unread.length := by
  have fits := holds.fits
  have dataLen := holds.dataLen
  have max := congrArg BitVec.toNat holds.max
  rw [toNat_sub_of_le (by rw [le_def]; omega)]
  omega

theorem RbufHolds.append (someLength : len ≠ 0)
    (room : unread.length + len.toNat ≤ ulBufLen.toNat) :
    ∃ after, rbufWriteForce ctrl (some pucBuf) len = some (after, .ok) ∧
      RbufHolds ulBufLen after (unread ++ firstBytes pucBuf len.toNat) := by
  have max := congrArg BitVec.toNat holds.max
  have positive : 0 < len.toNat := by
    apply Nat.pos_of_ne_zero
    exact fun zero => someLength (eq_of_toNat_eq zero)
  have write : ctrl.ulWriteIndex.toNat = unread.length := by
    rw [holds.write]
    exact mod_eq_of_lt (by omega)
  have notLong : ¬len > ctrl.ulMaxDataLen := by
    rw [gt_iff_lt, lt_def]
    omega
  have noOverflow : ¬len > ctrl.ulMaxDataLen - ctrl.ulDataLen := by
    rw [gt_iff_lt, lt_def, holds.free]
    omega
  have sum : (ctrl.ulWriteIndex + len).toNat = unread.length + len.toNat := by
    rw [toNat_add, write]
    exact mod_eq_of_lt (by omega)
  have straight : ctrl.ulWriteIndex + len ≤ ctrl.ulMaxDataLen := by
    rw [le_def, sum]
    omega
  have copied : rbufCopy ctrl (fun i => pucBuf ((0 : UINT).toNat + i)) len =
      some (ctrl.pucData.paste unread.length pucBuf len.toNat) := by
    have source : (fun i => pucBuf ((0 : UINT).toNat + i)) = pucBuf := by
      funext i
      exact congrArg pucBuf (Nat.zero_add i)
    rw [rbufCopy, if_pos straight, source, write, Block.copyIn_eq (by rw [holds.size]; exact room)]
  refine ⟨{ ctrl with
    pucData := ctrl.pucData.paste unread.length pucBuf len.toNat
    ulWriteIndex := (ctrl.ulWriteIndex + len) % ctrl.ulMaxDataLen
    ulDataLen := ctrl.ulDataLen + len }, ?_, holds.max, holds.size, holds.read, ?_, ?_, ?_, ?_⟩
  · simp only [rbufWriteForce, if_neg someLength, rbufShorten, if_neg notLong, if_neg noOverflow,
      copied, bind_eq_bind, bind_some]
  · have dataLen := holds.dataLen
    simp only [length_append, length_firstBytes, toNat_add, dataLen]
    exact mod_eq_of_lt (by omega)
  · simp only [length_append, length_firstBytes]
    exact room
  · simp [sum, max]
  simp only [length_append, length_firstBytes, Block.slice_add, Nat.zero_add,
    Block.slice_paste_self]
  rw [Block.slice_paste_other (by omega), holds.bytes]
  rfl

theorem RbufHolds.fill (someRoom : 0 < ulBufLen.toNat) (long : ulBufLen.toNat < len.toNat) :
    ∃ after, rbufWriteForce ctrl (some pucBuf) len = some (after, .ok) ∧
      RbufHolds ulBufLen after (firstBytes pucBuf ulBufLen.toNat) := by
  have someLength : len ≠ 0 := by
    rintro rfl
    simp at long
  have tooLong := lt_def.mpr long
  have cleared : RbufHolds ulBufLen
      { ctrl with ulDataLen := 0, ulReadIndex := 0, ulWriteIndex := 0 } [] :=
    ⟨holds.max, holds.size, rfl, rfl, zero_le _, (zero_mod _).symm, rfl⟩
  have someMax : ulBufLen ≠ 0 := by
    rintro rfl
    simp at someRoom
  obtain ⟨after, written, next⟩ := @RbufHolds.append _ _ _ _ pucBuf cleared someMax (by simp)
  refine ⟨after, ?_, next⟩
  have notLonger : ¬ulBufLen > ulBufLen := by
    rw [gt_iff_lt, lt_def]
    omega
  simp only [rbufWriteForce, if_neg someMax, rbufShorten, holds.max, if_neg notLonger] at written
  simp only [rbufWriteForce, if_neg someLength, rbufShorten, holds.max, if_pos tooLong,
    BitVec.sub_self]
  exact written

theorem RbufHolds.readNoDel : rbufReadNoDel ctrl = some (ctrl, 0, ctrl.ulDataLen) := by
  have noTurn : ¬(ctrl.ulWriteIndex < ctrl.ulReadIndex ∧ ctrl.ulWriteIndex ≠ 0) := by
    rw [holds.read]
    rintro ⟨less, -⟩
    exact absurd (lt_def.mp less) (not_lt_zero _)
  rw [rbufReadNoDel, rbufStraighten, if_neg noTurn]
  simp [holds.read]

theorem RbufHolds.copyOut : ctrl.pucData.copyOut 0 ctrl.ulDataLen.toNat = some unread := by
  have fits := holds.fits
  rw [holds.dataLen, Block.copyOut_eq (by rw [holds.size]; omega), holds.bytes]

theorem RbufHolds.clear :
    RbufHolds ulBufLen { ctrl with ulDataLen := 0, ulReadIndex := 0, ulWriteIndex := 0 } [] :=
  ⟨holds.max, holds.size, rfl, rfl, zero_le _, (zero_mod _).symm, rfl⟩

theorem RbufHolds.dataLen_eq : ctrl.ulDataLen = BitVec.ofNat 32 unread.length := by
  rw [← holds.dataLen, ofNat_toNat, setWidth_eq]

theorem RbufHolds.full_iff :
    ctrl.ulMaxDataLen ≤ ctrl.ulDataLen ↔ ulBufLen.toNat ≤ unread.length := by
  rw [le_def, holds.max, holds.dataLen]

theorem RbufHolds.write_mod : ctrl.ulWriteIndex % ctrl.ulMaxDataLen = ctrl.ulWriteIndex := by
  apply eq_of_toNat_eq
  rw [toNat_umod, holds.max, holds.write, mod_mod]

theorem RbufHolds.writeForce (someRoom : 0 < ulBufLen.toNat)
    (fits : RbufCall.Fits ulBufLen.toNat unread (.writeForce buf len)) :
    Follows (RbufHolds ulBufLen) rbufStep (queueStep ulBufLen.toNat) ctrl unread
      (.writeForce buf len) := by
  have few := holds.fits
  cases buf with
  | none => exact ⟨ctrl, rfl, holds⟩
  | some pucBuf =>
    by_cases someLength : len = 0
    · subst someLength
      refine ⟨ctrl, rfl, ?_⟩
      simpa [queueStep, firstBytes, lastBytes_of_le few] using holds
    rcases fits with room | ⟨long, repeats⟩
    · obtain ⟨after, written, next⟩ := @RbufHolds.append _ _ _ _ pucBuf holds someLength room
      refine ⟨after, by simp [rbufStep, written, queueStep], ?_⟩
      simpa [queueStep, lastBytes_of_le (show (unread ++ firstBytes pucBuf len.toNat).length ≤
        ulBufLen.toNat by simpa using room)] using next
    · obtain ⟨after, written, next⟩ := @RbufHolds.fill _ _ _ _ pucBuf holds someRoom long
      refine ⟨after, by simp [rbufStep, written, queueStep], ?_⟩
      simpa [queueStep, lastBytes_repeated long repeats] using next

theorem RbufHolds.writeCall (fits : RbufCall.Fits ulBufLen.toNat unread (.write buf len)) :
    Follows (RbufHolds ulBufLen) rbufStep (queueStep ulBufLen.toNat) ctrl unread
      (.write buf len) := by
  cases buf with
  | none => exact ⟨ctrl, rfl, holds⟩
  | some pucBuf =>
    by_cases someLength : len = 0
    · subst someLength
      refine ⟨ctrl, by simp [rbufStep, rbufWrite, queueStep], ?_⟩
      simpa [queueStep, firstBytes] using holds
    have full := fits.resolve_left someLength
    have noRoom : ctrl.ulMaxDataLen - ctrl.ulDataLen = 0 := by
      apply eq_of_toNat_eq
      rw [holds.free, full, Nat.sub_self]
      rfl
    have notLess : ¬len < 0 := by
      exact not_lt_zero _
    have nothing : rbufWrite ctrl (some pucBuf) len = some (ctrl, .ok, 0) := by
      have again := holds.write_mod
      have written : rbufWriteForce ctrl (some pucBuf) 0 = some (ctrl, .ok) := rfl
      simp only [rbufWrite, if_neg someLength, noRoom, if_neg notLess, written,
        bind_eq_bind, bind_some]
      simp [again]
    refine ⟨ctrl, ?_, ?_⟩
    · simp [rbufStep, nothing, queueStep, full]
    · simpa [queueStep, full, firstBytes] using holds

theorem RbufHolds.moveReadIndex (ends : unread.length = 0 ∨ unread.length = ulBufLen.toNat) :
    rbufMoveReadIndex ctrl 0 = ctrl := by
  have atStart : ctrl.ulWriteIndex = 0 := by
    apply eq_of_toNat_eq
    rw [holds.write]
    rcases ends with empty | full
    · rw [empty]
      exact zero_mod _
    · rw [full]
      exact mod_self _
  have moved : (ctrl.ulReadIndex + 0) % ctrl.ulMaxDataLen = ctrl.ulWriteIndex := by
    rw [holds.read, atStart]
    simp
  rw [rbufMoveReadIndex, moved]

end

theorem RbufHolds.follows (someRoom : 0 < ulBufLen.toNat) (call : RbufCall)
    (holds : RbufHolds ulBufLen ctrl unread) (fits : call.Fits ulBufLen.toNat unread) :
    Follows (RbufHolds ulBufLen) rbufStep (queueStep ulBufLen.toNat) ctrl unread call := by
  cases call with
  | write => exact holds.writeCall fits
  | writeForce => exact holds.writeForce someRoom fits
  | readNoDel =>
    refine ⟨ctrl, ?_, holds⟩
    simp [rbufStep, holds.readNoDel, holds.copyOut, queueStep, ← holds.dataLen_eq]
  | read =>
    refine ⟨_, ?_, holds.clear⟩
    simp [rbufStep, rbufRead, holds.readNoDel, holds.copyOut, queueStep, ← holds.dataLen_eq]
  | moveWriteIndex bytes lIndexMovOffset =>
    have none_ := fits
    subst none_
    have inside : ctrl.ulWriteIndex.toNat ≤ ctrl.pucData.size := by
      rw [holds.write, holds.size]
      exact Nat.le_of_lt (mod_lt _ someRoom)
    have copied : ctrl.pucData.copyIn ctrl.ulWriteIndex.toNat bytes 0 = some ctrl.pucData := by
      rw [Block.copyIn_eq inside, Block.paste_zero]
    have stays : rbufMoveWriteIndex ctrl 0 = ctrl := by
      rw [rbufMoveWriteIndex, show ctrl.ulWriteIndex + 0 = ctrl.ulWriteIndex by simp,
        holds.write_mod]
    refine ⟨ctrl, ?_, ?_⟩
    · rw [rbufStep, show (0 : UINT).toInt.toNat = 0 from rfl, copied]
      exact congrArg (fun ctrl => some (ctrl, RbufAnswer.done)) stays
    · simpa [queueStep, firstBytes] using holds
  | moveReadIndex =>
    obtain ⟨none_, ends⟩ := fits
    subst none_
    refine ⟨ctrl, ?_, ?_⟩
    · rw [rbufStep, holds.moveReadIndex ends]
      rfl
    · simpa [queueStep] using holds
  | isFull =>
    refine ⟨ctrl, ?_, holds⟩
    simp [rbufStep, rbufIsFull, queueStep, holds.full_iff]
  | isEmpty =>
    refine ⟨ctrl, ?_, holds⟩
    have empty : ctrl.ulDataLen = 0 ↔ unread = [] := by
      rw [← length_eq_zero_iff, ← holds.dataLen, ← toNat_inj]
      rfl
    rw [rbufStep, rbufIsEmpty, queueStep]
    cases unread with
    | nil => simp [empty.mpr rfl]
    | cons =>
      have notEmpty : ctrl.ulDataLen ≠ 0 := fun zero => (nomatch empty.mp zero)
      rw [beq_eq_false_iff_ne.mpr notEmpty]
      rfl

theorem rbufCreate_eq {memory : Nat → UCHAR} (someRoom : 0 < ulBufLen.toNat)
    (small : ulBufLen.toNat + 24 < 2 ^ 32) :
    ∃ ctrl, rbufCreate ulBufLen memory = some (.ok ctrl) ∧ RbufHolds ulBufLen ctrl [] := by
  have size : (24 + ulBufLen).toNat = 24 + ulBufLen.toNat := by
    exact mod_eq_of_lt (by simp; omega)
  have whole : ¬24 + ulBufLen < 24 := by
    rw [lt_def, size]
    simp
  have someLength : ulBufLen ≠ 0 := by
    rintro rfl
    simp at someRoom
  refine ⟨⟨ulBufLen, 0, 0, 0, ⟨(24 + ulBufLen).toNat - 24, memory⟩⟩, ?_, rfl, ?_, rfl, rfl,
    zero_le _, (zero_mod _).symm, rfl⟩
  · rw [rbufCreate, if_neg someLength]
    exact if_neg whole
  · simp only [size, Nat.add_sub_cancel_left]

/-- From its creation on a buffer answers a run as the bounded queue does, and its data
length is that of the queue. -/
def RbufRefines (ulBufLen : UINT) (calls : List RbufCall) : Prop :=
  ∀ memory : Nat → UCHAR,
    let queue := replies (queueStep ulBufLen.toNat) [] calls
    ∃ created ctrl, rbufCreate ulBufLen memory = some (.ok created) ∧
      runs rbufStep created calls = some (ctrl, queue.2) ∧
      ctrl.ulDataLen.toNat = queue.1.length ∧ queue.1.length ≤ ulBufLen.toNat ∧
      ctrl.pucData.slice ctrl.ulReadIndex.toNat queue.1.length = queue.1

theorem rbuf_refines {calls : List RbufCall} (someRoom : 0 < ulBufLen.toNat)
    (small : ulBufLen.toNat + 24 < 2 ^ 32)
    (fits : Guarded (RbufCall.Fits ulBufLen.toNat) (queueStep ulBufLen.toNat) [] calls) :
    RbufRefines ulBufLen calls := by
  intro memory
  obtain ⟨created, exists_, initially⟩ := @rbufCreate_eq ulBufLen memory someRoom small
  obtain ⟨ctrl, ran, holds⟩ := runs_follow_when
    (fun _ _ call holds fits => RbufHolds.follows someRoom call holds fits) calls initially fits
  refine ⟨created, ctrl, exists_, ran, holds.dataLen, holds.fits, ?_⟩
  rw [holds.read]
  exact holds.bytes

/-- Force two bytes into a buffer of four and read them. -/
def twoForced : List RbufCall :=
  [.writeForce (some fun i => BitVec.ofNat 8 (7 + i)) 2, .read]

theorem rbuf_refines_two : RbufRefines 4 twoForced :=
  rbuf_refines (by decide) (by decide) ⟨.inl (by decide), trivial, trivial⟩

/-- A write of two bytes into a buffer of four counts them twice. -/
theorem rbuf_write_twice : ¬RbufRefines 4 [.write (some fun i => BitVec.ofNat 8 (7 + i)) 2] := by
  intro refines
  obtain ⟨_, _, exists_, ran, dataLen, _⟩ := refines fun _ => 0
  cases exists_
  cases ran
  revert dataLen
  decide

end MyCode.Rbuf
