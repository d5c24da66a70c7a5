import MyCode.Dstream

/-!
# Framing

What is returned is a prefix of what was written as long as it is empty and the reader
stays one message behind.
-/

namespace MyCode.Dstream

open Lib Vbuf List Option Nat

variable {count : Nat} {writer next : DstreamS} {data : List UCHAR} {counts : List Nat}

/-- The messages returned are a prefix of those written, and all of them when no byte is
under way. -/
structure DstreamFrames (run : DstreamRun) : Prop where
  order : run.returned <+: run.written
  complete : run.channel = [] → run.writer.stWriteVBuf.ulUsedLen = 0 → run.returned = run.written

/-- A read gets nothing while it waits for bytes; or the next message is there and is empty,
and the socket gives the 4 bytes of a length at once. -/
def DstreamCall.Admitted (run : DstreamRun) : DstreamCall → Prop
  | write message _ _ head _ => 4 ≤ head ∨ message.data.length + 4 < 2 ^ 32
  | read _ counts =>
    run.reader.uiRemainReadLen ≠ 0 ∧ (counts.headD 0 = 0 ∨ run.channel = []) ∨
      run.written[run.returned.length]? = some [] ∧
        (run.reader.uiRemainReadLen = 0 ∨ 4 ≤ counts.headD 0 ∧ 4 ≤ run.channel.length)

/-- The number of empty messages before the first other one. -/
def leading : List (List UCHAR) → Nat
  | [] :: rest => leading rest + 1
  | _ => 0

def delivered (run : DstreamRun) : Nat :=
  4 * (run.returned.length - 1)

/-- The bytes of the leading empty messages are zeros and come first. -/
structure StreamOk (run : DstreamRun) (pending : List UCHAR) : Prop where
  holds : Holds run.writer.stWriteVBuf pending
  blocks : run.writer.bitIsBlock = true → pending = []
  zeros : ∃ zeros rest, run.channel ++ pending = replicate zeros 0 ++ rest ∧
    4 * leading run.written ≤ delivered run + zeros ∧
    (leading run.written = run.written.length → rest = [])
  enough : 4 * run.written.length ≤ delivered run + (run.channel ++ pending).length

structure ReaderOk (run : DstreamRun) : Prop where
  state : run.reader.enState = .head
  used : run.reader.stReadVBuf.ulUsedLen = 0
  offset : run.reader.stReadVBuf.ulOffset = 0
  room : 4 ≤ run.reader.stReadVBuf.ulTotleLen
  remain : run.reader.uiRemainReadLen = 0 ∧ run.returned.length = 0 ∨
    run.reader.uiRemainReadLen = 4 ∧ 0 < run.returned.length
  returned : ∀ message ∈ run.returned, message = []
  behind : run.returned.length ≤ leading run.written

def FramesOk (run : DstreamRun) : Prop :=
  ReaderOk run ∧ ∃ pending, StreamOk run pending

variable {run after : DstreamRun} {pending channel bytes : List UCHAR} {memory : Memory}
  {written : List (List UCHAR)} {message : Message} {flush head rest : Nat} {dstream : DstreamS}

theorem leading_le (written : List (List UCHAR)) : leading written ≤ written.length := by
  induction written with
  | nil => exact le_refl _
  | cons first _ ih =>
    cases first with
    | nil => exact succ_le_succ ih
    | cons => exact zero_le _

theorem take_leading (few : count ≤ leading written) : written.take count = replicate count [] := by
  induction written generalizing count with
  | nil =>
    have none := le_zero.mp few
    subst none
    rfl
  | cons first _ ih =>
    cases count with
    | zero => rfl
    | succ count =>
      cases first with
      | nil => rw [take_succ_cons, replicate_succ, ih (le_of_succ_le_succ few)]
      | cons => exact absurd few (not_succ_le_zero count)

theorem lt_leading (few : count ≤ leading written) (found : written[count]? = some []) :
    count < leading written := by
  induction written generalizing count with
  | nil => simp at found
  | cons first _ ih =>
    cases count with
    | zero =>
      simp only [getElem?_cons_zero, some.injEq] at found
      subst found
      exact succ_pos _
    | succ count =>
      cases first with
      | nil =>
        exact succ_lt_succ (ih (le_of_succ_le_succ few) (by
          simpa using found))
      | cons => exact absurd few (not_succ_le_zero count)

theorem leading_append_nil (all : leading written = written.length) :
    leading (written ++ [[]]) = written.length + 1 := by
  induction written with
  | nil => rfl
  | cons first _ ih =>
    cases first with
    | nil => exact congrArg (· + 1) (ih (succ.inj all))
    | cons => simp [leading] at all

theorem leading_append {last : List UCHAR} (other : leading written < written.length ∨ last ≠ []) :
    leading (written ++ [last]) = leading written := by
  induction written with
  | nil =>
    cases last with
    | nil => simp [leading] at other
    | cons => rfl
  | cons first _ ih =>
    cases first with
    | nil =>
      refine congrArg (· + 1) (ih (other.imp_left ?_))
      exact lt_of_succ_lt_succ
    | cons => rfl

theorem FramesOk.frames (ok : FramesOk run) : DstreamFrames run := by
  obtain ⟨reader, pending, stream⟩ := ok
  have few := leading_le run.written
  have behind := reader.behind
  have enough := stream.enough
  have same : run.returned = run.written.take run.returned.length := by
    rw [take_leading behind]
    exact eq_replicate_of_mem reader.returned
  refine ⟨⟨run.written.drop run.returned.length, ?_⟩, ?_⟩
  · conv =>
      lhs
      lhs
      rw [same]
    exact take_append_drop _ _
  intro noChannel noPending
  have empty : pending = [] := by
    apply eq_nil_of_length_eq_zero
    rw [← stream.holds.used]
    exact noPending
  rw [noChannel, empty, delivered] at enough
  simp only [append_nil, length_nil] at enough
  have none : run.written.length = 0 := by omega
  rw [same, eq_nil_of_length_eq_zero none, take_nil]

theorem writeOrSave_holds {count : Nat} (holds : Holds dstream.stWriteVBuf pending)
    (fits : bytes.length ≤ count ∨ pending = [] ∨ pending.length + bytes.length < 2 ^ 32) :
    ∃ vbuf left, dstreamWriteOrSave memory dstream channel bytes count =
        some ({ dstream with stWriteVBuf := vbuf }, channel ++ bytes.take count) ∧
      Holds vbuf (pending ++ left) ∧
      (bytes.length ≤ count ∧ left = [] ∨ count < bytes.length ∧ left = bytes) := by
  by_cases all : bytes.length ≤ count
  · refine ⟨dstream.stWriteVBuf, [], ?_, by simpa using holds, Or.inl ⟨all, rfl⟩⟩
    simp [dstreamWriteOrSave, socketWrite, all]
  have partly : count < bytes.length := by omega
  obtain ⟨vbuf, saved, holdsAfter⟩ :=
    @Holds.catBuf memory dstream.stWriteVBuf pending bytes holds (fits.resolve_left all)
  refine ⟨vbuf, bytes, ?_, holdsAfter, Or.inr ⟨partly, rfl⟩⟩
  have less : min count bytes.length < bytes.length := by omega
  simp only [dstreamWriteOrSave, socketWrite, if_pos less, saved, bind_eq_bind, bind_some]

theorem writeMessage_holds (holds : Holds dstream.stWriteVBuf [])
    (fits : 4 ≤ head ∨ message.data.length + 4 < 2 ^ 32) :
    ∃ vbuf sent pending added, dstreamWriteMessage memory dstream channel message head rest =
        some ({ dstream with stWriteVBuf := vbuf }, sent, .ok) ∧
      Holds vbuf pending ∧ sent ++ pending = channel ++ added ∧ 4 ≤ added.length ∧
      (message.data = [] → ∀ byte ∈ added, byte = 0) := by
  have size : ((range 4).map (uintBytes message.uiDataLen)).length = 4 := by simp
  have zeros : message.data = [] →
      ∀ byte ∈ (range 4).map (uintBytes message.uiDataLen), byte = 0 := by
    intro empty byte inside
    obtain ⟨_, _, rfl⟩ := mem_map.mp inside
    simp [Message.uiDataLen, empty, uintBytes]
  generalize bytes : (range 4).map (uintBytes message.uiDataLen) = length at size zeros
  obtain ⟨vbufHead, leftHead, runHead, holdsHead, savedHead⟩ :=
    @writeOrSave_holds [] channel length memory dstream head holds (Or.inr (Or.inl rfl))
  have room : message.data.length ≤ rest ∨ leftHead = [] ∨
      leftHead.length + message.data.length < 2 ^ 32 := by
    rcases savedHead with ⟨_, empty⟩ | ⟨_, saved⟩
    · exact Or.inr (Or.inl empty)
    right
    right
    rw [saved, size]
    omega
  obtain ⟨vbuf, left, run, holdsAfter, savedRest⟩ :=
    @writeOrSave_holds leftHead (channel ++ length.take head) message.data memory
      { dstream with stWriteVBuf := vbufHead } rest holdsHead room
  refine ⟨vbuf, channel ++ length.take head ++ message.data.take rest, leftHead ++ left,
    length.take head ++ message.data.take rest ++ (leftHead ++ left), ?_, holdsAfter, ?_, ?_, ?_⟩
  · simp [dstreamWriteMessage, bytes, runHead, run]
  · simp [append_assoc]
  · simp only [length_append, length_take]
    rcases savedHead with ⟨_, _⟩ | ⟨_, saved⟩
    · omega
    · rw [saved]
      omega
  intro empty byte inside
  have none : left = [] := by
    rcases savedRest with ⟨_, none⟩ | ⟨_, saved⟩
    · exact none
    · exact saved.trans empty
  rw [empty, none] at inside
  simp only [take_nil, append_nil, mem_append] at inside
  rcases inside with first | second
  · exact zeros empty byte (mem_of_mem_take first)
  rcases savedHead with ⟨_, gone⟩ | ⟨_, saved⟩
  · rw [gone] at second
    cases second
  · rw [saved] at second
    exact zeros empty byte second

theorem StreamOk.accept {added sent : List UCHAR} (stream : StreamOk run [])
    (holds : Holds writer.stWriteVBuf pending) (blocks : writer.bitIsBlock = true → pending = [])
    (sends : sent ++ pending = run.channel ++ added) (long : 4 ≤ added.length)
    (empty : data = [] → ∀ byte ∈ added, byte = 0) :
    StreamOk { run with writer := writer, channel := sent, written := run.written ++ [data] }
      pending := by
  obtain ⟨zeros, rest, whole, first, all⟩ := stream.zeros
  have enough := stream.enough
  have few := leading_le run.written
  rw [append_nil] at whole enough
  refine ⟨holds, blocks, ?_, ?_⟩
  · dsimp only [delivered] at first ⊢
    rw [sends, whole]
    by_cases same : leading run.written = run.written.length ∧ data = []
    · obtain ⟨same, none⟩ := same
      have zero := eq_replicate_of_mem (empty none)
      refine ⟨zeros + added.length, [], ?_, ?_, fun _ => rfl⟩
      · rw [all same, append_nil, append_nil, replicate_add, ← zero]
      · rw [none, leading_append_nil same]
        omega
    have kept : leading (run.written ++ [data]) = leading run.written := by
      apply leading_append
      by_cases other : data = []
      · left
        have notAll : leading run.written ≠ run.written.length := fun eq => same ⟨eq, other⟩
        omega
      · exact Or.inr other
    refine ⟨zeros, rest ++ added, ?_, ?_, ?_⟩
    · rw [append_assoc]
    · rw [kept]
      exact first
    intro more
    rw [kept, length_append, length_singleton] at more
    omega
  · dsimp only [delivered] at enough ⊢
    rw [sends, length_append, length_append, length_singleton]
    omega

theorem StreamOk.resend {writer : DstreamS} {sent left : List UCHAR} (stream : StreamOk run pending)
    (holds : Holds writer.stWriteVBuf left) (blocks : writer.bitIsBlock = true → left = [])
    (moves : sent ++ left = run.channel ++ pending) :
    StreamOk { run with writer := writer, channel := sent } left := by
  refine ⟨holds, blocks, ?_, ?_⟩
  · rw [moves]
    exact stream.zeros
  · rw [moves]
    exact stream.enough

theorem ReaderOk.sends {sent : List UCHAR} (reader : ReaderOk run) :
    ReaderOk { run with writer := writer, channel := sent } :=
  ⟨reader.state, reader.used, reader.offset, reader.room, reader.remain, reader.returned,
    reader.behind⟩

theorem ReaderOk.write {sent : List UCHAR} (reader : ReaderOk run) :
    ReaderOk { run with writer := writer, channel := sent, written := run.written ++ [data] } := by
  refine ⟨reader.state, reader.used, reader.offset, reader.room, reader.remain, reader.returned, ?_⟩
  refine le_trans reader.behind ?_
  by_cases same : leading run.written = run.written.length ∧ data = []
  · rw [same.2, leading_append_nil same.1]
    omega
  rw [leading_append]
  by_cases other : data = []
  · left
    have few := leading_le run.written
    have notAll : leading run.written ≠ run.written.length := fun eq => same ⟨eq, other⟩
    omega
  · exact Or.inr other

theorem FramesOk.writeMessage {writer : DstreamS} {sent : List UCHAR} (reader : ReaderOk run)
    (stream : StreamOk { run with writer := writer, channel := sent } [])
    (open_ : writer.bitIsBlock = false) (fits : 4 ≤ head ∨ message.data.length + 4 < 2 ^ 32) :
    ∃ left after, dstreamWriteMessage memory writer sent message head rest =
        some (left, after, .ok) ∧
      FramesOk { run with
        writer := left, channel := after, written := run.written ++ [message.data] } := by
  obtain ⟨_, after, pending, _, wrote, holds, sends, long, empty⟩ :=
    @writeMessage_holds sent memory message head rest writer stream.holds fits
  refine ⟨_, after, wrote, reader.write, pending, ?_⟩
  refine stream.accept holds ?_ sends long empty
  intro blocks
  rw [open_] at blocks
  exact absurd blocks Bool.false_ne_true

theorem FramesOk.write (ok : FramesOk run) (flush : Nat)
    (fits : 4 ≤ head ∨ message.data.length + 4 < 2 ^ 32) :
    ∃ after, (DstreamCall.write message memory flush head rest).run run = some after ∧
      FramesOk after := by
  obtain ⟨reader, pending, stream⟩ := ok
  by_cases blocking : run.writer.bitIsBlock = true
  · have none := stream.blocks blocking
    subst none
    refine ⟨{ run with
      channel := run.channel ++ (range 4).map (uintBytes message.uiDataLen) ++ message.data
      written := run.written ++ [message.data] }, ?_, reader.write, [], ?_⟩
    · simp [DstreamCall.run, dstreamWrite, if_pos blocking, dstreamWriteSyn]
    have sends : run.channel ++ (range 4).map (uintBytes message.uiDataLen) ++ message.data ++ [] =
        run.channel ++ ((range 4).map (uintBytes message.uiDataLen) ++ message.data) := by
      rw [append_nil, append_assoc]
    refine stream.accept stream.holds (fun _ => rfl) sends ?_ ?_
    · simp
    intro empty byte inside
    rw [empty, append_nil] at inside
    obtain ⟨_, _, rfl⟩ := mem_map.mp inside
    simp [Message.uiDataLen, empty, uintBytes]
  have open_ : run.writer.bitIsBlock = false := by simpa using blocking
  simp only [DstreamCall.run, dstreamWrite, if_neg blocking, dstreamWriteAsyn]
  split
  · next saved =>
    let count := min flush pending.length
    have holds := stream.holds.earseHead count
    have moves : run.channel ++ pending.take flush ++ pending.drop count =
        run.channel ++ pending := by
      have short : pending.take flush = pending.take count := by
        rw [take_eq_take_min]
      rw [short, append_assoc, take_append_drop]
    have resent := @StreamOk.resend run pending
      { run.writer with stWriteVBuf := vbufEarseHead run.writer.stWriteVBuf count } _ _ stream
      holds (fun blocks => absurd blocks blocking) moves
    simp only [dstreamWriteVBuf, stream.holds.data, socketWrite, bind_eq_bind, bind_some]
    split
    · next still =>
      exact ⟨_, rfl, reader.sends, _, resent⟩
    next done =>
    have none : pending.drop count = [] := by
      apply eq_nil_of_length_eq_zero
      rw [← holds.used]
      exact le_zero.mp (not_lt.mp done)
    rw [none] at resent
    obtain ⟨_, _, wrote, okAfter⟩ := @FramesOk.writeMessage run memory message head rest
      _ _ reader resent open_ fits
    refine ⟨_, ?_, okAfter⟩
    simp only [count] at wrote
    simp [wrote]
  next unused =>
  have none : pending = [] := by
    apply eq_nil_of_length_eq_zero
    rw [← stream.holds.used]
    omega
  rw [none] at stream
  obtain ⟨_, _, wrote, okAfter⟩ := @FramesOk.writeMessage run memory message head rest
    run.writer run.channel reader stream open_ fits
  refine ⟨_, ?_, okAfter⟩
  simp [wrote]

theorem readLoop_done (counts : List Nat) (done : dstream.uiRemainReadLen = 0) :
    dstreamReadLoop memory counts dstream channel =
      some ({ dstream with enState := .head, uiRemainReadLen := 4 }, channel, .ok) := by
  cases counts <;> rw [dstreamReadLoop, if_pos done]

theorem readLoop_starved (waits : dstream.uiRemainReadLen ≠ 0)
    (nothing : counts.headD 0 = 0 ∨ channel = []) :
    dstreamReadLoop memory counts dstream channel =
      some (dstream, channel, dstreamStarved dstream) := by
  cases counts with
  | nil => rw [dstreamReadLoop, if_neg waits]
  | cons count =>
    have none : min count (min dstream.uiRemainReadLen.toNat channel.length) = 0 := by
      rcases nothing with zero | empty
      · have first : count = 0 := zero
        omega
      · rw [empty, length_nil]
        omega
    rw [dstreamReadLoop, if_neg waits]
    simp [none]

theorem readLoop_empty {count : Nat} (counts : List Nat) (state : dstream.enState = .head)
    (used : dstream.stReadVBuf.ulUsedLen = 0) (offset : dstream.stReadVBuf.ulOffset = 0)
    (room : 4 ≤ dstream.stReadVBuf.ulTotleLen) (waits : dstream.uiRemainReadLen = 4)
    (whole : 4 ≤ count) (zeros : channel.take 4 = replicate 4 0) :
    ∃ block : Block UCHAR, block.size = dstream.stReadVBuf.ulTotleLen ∧
      dstreamReadLoop memory (count :: counts) dstream channel =
        some ({ dstream with
          stReadVBuf := { dstream.stReadVBuf with pucData := block }
          uiRemainReadLen := 4 }, channel.drop 4, .ok) := by
  have long : 4 ≤ channel.length := by
    have size := congrArg length zeros
    rw [length_take, length_replicate] at size
    omega
  have asked : min count (min dstream.uiRemainReadLen.toNat channel.length) = 4 := by
    have four : dstream.uiRemainReadLen.toNat = 4 := by rw [waits]; rfl
    omega
  cases vbuf : dstream.stReadVBuf with
  | mk _ _ vData =>
    simp only [vbuf, VbufS.ulTotleLen] at used offset room
    subst used offset
    let block := vData.paste 0 (fun i => (replicate 4 (0 : UCHAR)).getD i 0) 4
    have filled : vbufFillTail ⟨0, 0, vData⟩ (replicate 4 0) = some ⟨0, 0, block⟩ := by
      simp only [vbufFillTail, length_replicate]
      rw [Block.copyIn_eq (by omega)]
      rfl
    have length : block.copyOut 0 4 = some (replicate 4 0) := by
      rw [Block.copyOut_eq (by simpa [block] using room)]
      rfl
    have zero : ntohl (bytesUint (replicate 4 0)) = 0 := by decide
    have same : vbufExpandTo memory (vbufEarseHead ⟨0, 0, block⟩ 4) (0 : UINT).toNat =
        some ⟨0, 0, block⟩ := rfl
    refine ⟨block, rfl, ?_⟩
    rw [dstreamReadLoop, if_neg (by rw [waits]; decide)]
    simp only [asked, zeros, vbuf, filled, state, dstreamReadHead, length, zero, same,
      bind_eq_bind, bind_some]
    rw [readLoop_done counts rfl]
    rfl

theorem vbufData_unused {vbuf : VbufS} (used : vbuf.ulUsedLen = 0) (offset : vbuf.ulOffset = 0) :
    vbufData vbuf = some [] := by
  rw [vbufData, used, offset, Block.copyOut_eq (zero_le _)]
  rfl

theorem ReaderOk.returns (reader : ReaderOk run) (vbuf : VbufS) (left : List UCHAR)
    (expected : run.written[run.returned.length]? = some []) (used : vbuf.ulUsedLen = 0)
    (offset : vbuf.ulOffset = 0) (room : 4 ≤ vbuf.ulTotleLen) :
    ReaderOk { run with
      reader := { run.reader with stReadVBuf := vbuf, uiRemainReadLen := 4, enState := .head }
      channel := left
      returned := run.returned ++ [[]] } := by
  refine ⟨rfl, used, offset, room, Or.inr ⟨rfl, ?_⟩, ?_, ?_⟩
  · simp
  · intro message inside
    rcases mem_append.mp inside with before | last
    · exact reader.returned message before
    · exact mem_singleton.mp last
  · simp only [length_append, length_singleton]
    exact lt_leading reader.behind expected

theorem FramesOk.read (ok : FramesOk run)
    (admitted : (DstreamCall.read memory counts).Admitted run) :
    ∃ after, (DstreamCall.read memory counts).run run = some after ∧ FramesOk after := by
  obtain ⟨reader, pending, stream⟩ := ok
  have data := vbufData_unused reader.used reader.offset
  rcases admitted with ⟨waits, nothing⟩ | ⟨expected, bytes⟩
  · refine ⟨run, ?_, reader, pending, stream⟩
    have starved : dstreamStarved run.reader ≠ .ok := by
      rw [dstreamStarved]
      split <;> decide
    simp [DstreamCall.run, readLoop_starved waits nothing, data, if_neg starved]
  have more := lt_leading reader.behind expected
  rcases reader.remain with ⟨done, first⟩ | ⟨waits, _⟩
  · have after := reader.returns run.reader.stReadVBuf run.channel expected reader.used
      reader.offset reader.room
    refine ⟨_, ?_, after, pending, stream.holds, stream.blocks, ?_, ?_⟩
    · simp [DstreamCall.run, readLoop_done counts done, data]
    · have zeros := stream.zeros
      simpa [delivered, first] using zeros
    · have enough := stream.enough
      simpa [delivered, first] using enough
  obtain ⟨whole, long⟩ := bytes.resolve_left (by rw [waits]; decide)
  obtain ⟨count, rest, rfl⟩ : ∃ count rest, counts = count :: rest := by
    cases counts with
    | nil => exact absurd whole (by decide)
    | cons count rest => exact ⟨count, rest, rfl⟩
  obtain ⟨zeros, others, same, enoughZeros, all⟩ := stream.zeros
  have enough := stream.enough
  rw [delivered] at enoughZeros enough
  have four : run.channel.take 4 = replicate 4 0 := by
    have start := congrArg (take 4) same
    rw [take_append_of_le_length long, take_append_of_le_length (by
      rw [length_replicate]
      omega), take_replicate] at start
    rw [start]
    congr 1
    omega
  have behind : run.channel.drop 4 ++ pending = replicate (zeros - 4) 0 ++ others := by
    have after := congrArg (drop 4) same
    rw [drop_append_of_le_length long, drop_append_of_le_length (by
      rw [length_replicate]
      omega), drop_replicate] at after
    exact after
  obtain ⟨block, size, ran⟩ := @readLoop_empty run.channel memory run.reader count rest
    reader.state reader.used reader.offset reader.room waits whole four
  have after := reader.returns { run.reader.stReadVBuf with pucData := block }
    (run.channel.drop 4) expected reader.used reader.offset (by
      rw [VbufS.ulTotleLen, size]
      exact reader.room)
  refine ⟨_, ?_, after, pending, stream.holds, stream.blocks, ?_, ?_⟩
  · have none : vbufData { run.reader.stReadVBuf with pucData := block } = some [] :=
      vbufData_unused reader.used reader.offset
    simp [DstreamCall.run, ran, none, reader.state]
  · refine ⟨zeros - 4, others, behind, ?_, all⟩
    simp only [delivered, length_append, length_singleton]
    omega
  · simp only [delivered, length_append, length_singleton, length_drop] at *
    omega

theorem FramesOk.call {call : DstreamCall} (ok : FramesOk run) (admitted : call.Admitted run) :
    ∃ after, call.run run = some after ∧ FramesOk after := by
  cases call with
  | write _ _ flush => exact ok.write flush admitted
  | read => exact ok.read admitted

theorem dstreamInit_eq (memory : Memory) : ∃ vbuf, vbuf.ulUsedLen = 0 ∧ vbuf.ulOffset = 0 ∧
    vbuf.ulTotleLen = 256 ∧ dstreamInit memory = some ⟨vbufInit, vbuf, 0, false, .head⟩ := by
  obtain ⟨vbuf, expanded, holds, size, offset⟩ :=
    @Holds.expandTo memory vbufInit [] holds_init 256 (by decide) (by decide)
  refine ⟨vbuf, holds.used, offset, size, ?_⟩
  simp [dstreamInit, expanded]

theorem framesOk_start (started : dstreamSystem.start run) : FramesOk run := by
  obtain ⟨writerMemory, readerMemory, _, _, _, _, initWriter, initReader, rfl⟩ := started
  obtain ⟨_, _, _, _, freshWriter⟩ := dstreamInit_eq writerMemory
  obtain ⟨_, used, offset, size, freshReader⟩ := dstreamInit_eq readerMemory
  rw [freshWriter, some.injEq] at initWriter
  rw [freshReader, some.injEq] at initReader
  subst initWriter initReader
  refine ⟨⟨rfl, used, offset, ?_, Or.inl ⟨rfl, rfl⟩, ?_, le_refl _⟩, [], holds_init,
    fun _ => rfl, ⟨0, [], rfl, le_refl _, fun _ => rfl⟩, le_refl _⟩
  · rw [size]
    decide
  · intro message inside
    nomatch inside

def freshEnds : DstreamRun :=
  match dstreamInit fun _ => 0 with
  | some dstream => ⟨dstream, dstream, [], [], []⟩
  | none => ⟨⟨vbufInit, vbufInit, 0, false, .head⟩, ⟨vbufInit, vbufInit, 0, false, .head⟩, [], [], []⟩

theorem freshEnds_reached {guard : DstreamRun → DstreamCall → Prop} :
    dstreamSystem.ReachableWhen guard freshEnds :=
  .start ⟨fun _ => 0, fun _ => 0, freshEnds.writer, freshEnds.reader, false, false, rfl, rfl, rfl⟩

def sendAll (message : Message) : DstreamCall :=
  .write message (fun _ => 0) 0 4 message.data.length

def readNone : DstreamCall :=
  .read (fun _ => 0) []

/-- A message is sent from one fresh end to the other. -/
def sent (message : Message) : DstreamRun :=
  ((sendAll message).run freshEnds).getD freshEnds

/-- The message is sent, then the other end reads for the first time. -/
def sentAndRead (message : Message) : DstreamRun :=
  (readNone.run (sent message)).getD (sent message)

end MyCode.Dstream
