import MyCode.Types
import MyCode.Lib.Block

/-!
# Variable buffers

`h/utl/vbuf_utl.h`: the bytes in use lie somewhere in a block that grows.  Memory is there
when it is asked for and holds anything; `none` is an access outside the block.
-/

namespace MyCode.Vbuf

open Lib Option List

/-- The size of the block is `ulTotleLen`; a NULL block is one without bytes. -/
structure VbufS where
  ulUsedLen : Nat
  ulOffset : Nat
  pucData : Block UCHAR

def VbufS.ulTotleLen (vbuf : VbufS) : Nat :=
  vbuf.pucData.size

def vbufInit : VbufS :=
  ⟨0, 0, ⟨0, fun _ => 0⟩⟩

abbrev Memory := Nat → UCHAR

/-- `MEM_MallocAndCopy`; the bytes behind the copied ones are what the memory holds. -/
def mallocAndCopy (memory : Memory) (source : List UCHAR) (size : Nat) : Option (Block UCHAR) :=
  (Block.mk size memory).copyIn 0 (fun i => source.getD i 0) source.length

/-- The new length is kept in a `UINT`. -/
def vbufExpandTo (memory : Memory) (vbuf : VbufS) (ulLen : Nat) : Option VbufS :=
  let uiNewTotleLen := ulLen % 2 ^ 32
  if uiNewTotleLen ≤ vbuf.ulTotleLen then
    some vbuf
  else do
    let used ← vbuf.pucData.copyOut vbuf.ulOffset vbuf.ulUsedLen
    let pucTmp ← mallocAndCopy memory used uiNewTotleLen
    some { vbuf with pucData := pucTmp, ulOffset := 0 }

def vbufMoveData (memory : Memory) (vbuf : VbufS) (ulOffset : Nat) : Option VbufS := do
  if vbuf.ulOffset = ulOffset then
    some vbuf
  else do
    let vbuf ← if vbuf.ulUsedLen + ulOffset > vbuf.ulTotleLen then
        vbufExpandTo memory vbuf (vbuf.ulUsedLen + ulOffset)
      else
        some vbuf
    let used ← vbuf.pucData.copyOut vbuf.ulOffset vbuf.ulUsedLen
    let pucData ← vbuf.pucData.copyIn ulOffset (fun i => used.getD i 0) vbuf.ulUsedLen
    some { vbuf with pucData := pucData, ulOffset := ulOffset }

def vbufPreCat (memory : Memory) (vbuf : VbufS) (ulLen : Nat) : Option VbufS :=
  let ulTailLen := (vbuf.ulTotleLen - vbuf.ulOffset) - vbuf.ulUsedLen
  if ulTailLen ≥ ulLen then
    some vbuf
  else if vbuf.ulUsedLen + ulLen ≤ vbuf.ulTotleLen then
    vbufMoveData memory vbuf 0
  else
    vbufExpandTo memory vbuf (vbuf.ulUsedLen + ulLen)

/-- The block is replaced by a longer one when it is too short. -/
def vbufCpyBuf (memory : Memory) (vbuf : VbufS) (buf : List UCHAR) : Option VbufS := do
  let pucData := if vbuf.ulTotleLen < buf.length then ⟨buf.length, memory⟩ else vbuf.pucData
  let pucData ← pucData.copyIn 0 (fun i => buf.getD i 0) buf.length
  some { pucData := pucData, ulUsedLen := buf.length, ulOffset := 0 }

def vbufCatBuf (memory : Memory) (vbuf : VbufS) (buf : List UCHAR) : Option VbufS :=
  if vbuf.ulUsedLen = 0 then
    vbufCpyBuf memory vbuf buf
  else do
    let vbuf ← vbufPreCat memory vbuf buf.length
    let pucData ←
      vbuf.pucData.copyIn (vbuf.ulOffset + vbuf.ulUsedLen) (fun i => buf.getD i 0) buf.length
    some { vbuf with pucData := pucData, ulUsedLen := vbuf.ulUsedLen + buf.length }

def vbufEarseHead (vbuf : VbufS) (ulCutLen : Nat) : VbufS :=
  if ulCutLen < vbuf.ulUsedLen then
    { vbuf with ulUsedLen := vbuf.ulUsedLen - ulCutLen, ulOffset := vbuf.ulOffset + ulCutLen }
  else
    { vbuf with ulUsedLen := 0, ulOffset := 0 }

/-- The bytes that `VBUF_GetData` and `VBUF_GetDataLength` give. -/
def vbufData (vbuf : VbufS) : Option (List UCHAR) :=
  vbuf.pucData.copyOut vbuf.ulOffset vbuf.ulUsedLen

/-- The code of the socket writes to `VBUF_GetTailFreeBuf`. -/
def vbufFillTail (vbuf : VbufS) (bytes : List UCHAR) : Option VbufS := do
  let pucData ← vbuf.pucData.copyIn (vbuf.ulOffset + vbuf.ulUsedLen) (fun i => bytes.getD i 0)
    bytes.length
  some { vbuf with pucData := pucData }

def vbufAddHead (memory : Memory) (vbuf : VbufS) (len : Nat) : Option VbufS := do
  let vbuf ← if vbuf.ulOffset < len then vbufMoveData memory vbuf len else some vbuf
  some { vbuf with ulOffset := vbuf.ulOffset - len, ulUsedLen := vbuf.ulUsedLen + len }

def vbufAddTail (memory : Memory) (vbuf : VbufS) (len : Nat) : Option VbufS := do
  let vbuf ← vbufPreCat memory vbuf len
  some { vbuf with ulUsedLen := vbuf.ulUsedLen + len }

/-- `ulUsedLen` counts the new bytes already when the bytes behind them are moved. -/
def vbufInsert (memory : Memory) (vbuf : VbufS) (data_offset len : Nat) :
    Option (VbufS × BsStatus) :=
  if data_offset > vbuf.ulUsedLen then
    some (vbuf, .err)
  else if data_offset = 0 then
    (vbufAddHead memory vbuf len).map (·, .ok)
  else if data_offset = vbuf.ulUsedLen then
    (vbufAddTail memory vbuf len).map (·, .ok)
  else do
    let vbuf ← vbufAddTail memory vbuf len
    let src := vbuf.ulOffset + data_offset
    let pucData ← vbuf.pucData.transfer (src + len) vbuf.pucData src (vbuf.ulUsedLen - data_offset)
    some ({ vbuf with pucData := pucData }, .ok)

def vbufInsertBuf (memory : Memory) (vbuf : VbufS) (data_offset : Nat) (buf : List UCHAR) :
    Option (VbufS × BsStatus) := do
  let (vbuf, ret) ← vbufInsert memory vbuf data_offset buf.length
  if ret = .ok then do
    let pucData ←
      vbuf.pucData.copyIn (vbuf.ulOffset + data_offset) (fun i => buf.getD i 0) buf.length
    some ({ vbuf with pucData := pucData }, .ok)
  else
    some (vbuf, ret)

/-- What the calls with a source read: it begins at `pucData`. -/
def vbufSource (pstVBufSrc : VbufS) : Option (List UCHAR) :=
  pstVBufSrc.pucData.copyOut 0 pstVBufSrc.ulUsedLen

def vbufCatFromVBuf (memory : Memory) (pstVBufDst pstVBufSrc : VbufS) : Option VbufS :=
  (vbufSource pstVBufSrc).bind (vbufCatBuf memory pstVBufDst)

def vbufCpyFromVBuf (memory : Memory) (pstVBufDst pstVBufSrc : VbufS) : Option VbufS :=
  (vbufSource pstVBufSrc).bind (vbufCpyBuf memory pstVBufDst)

def vbufCmpByBuf (vbuf : VbufS) (buf : List UCHAR) : Option UINT :=
  (vbuf.pucData.copyOut vbuf.ulOffset (min vbuf.ulUsedLen buf.length)).map (memCmp · buf)

def vbufCmpByVBuf : Option VbufS → Option VbufS → Option UINT
  | none, none => some 0
  | none, some _ => some (-1)
  | some _, none => some 1
  | some pstVBuf1, some pstVBuf2 => (vbufSource pstVBuf2).bind (vbufCmpByBuf pstVBuf1)

variable {memory : Memory} {vbuf : VbufS} {bytes more : List UCHAR}

structure Holds (vbuf : VbufS) (bytes : List UCHAR) : Prop where
  used : vbuf.ulUsedLen = bytes.length
  inside : vbuf.ulOffset + vbuf.ulUsedLen ≤ vbuf.ulTotleLen
  bytes : vbuf.pucData.slice vbuf.ulOffset vbuf.ulUsedLen = bytes

theorem holds_init : Holds vbufInit [] :=
  ⟨rfl, Nat.le_refl _, rfl⟩

variable (holds : Holds vbuf bytes)

include holds in
theorem Holds.data : vbufData vbuf = some bytes := by
  rw [vbufData, Block.copyOut_eq holds.inside, holds.bytes]

theorem map_getD (bytes : List UCHAR) :
    (range bytes.length).map (fun i => bytes.getD i 0) = bytes := by
  apply ext_getElem
  · simp
  · intro i first second
    simp [getD_eq_getElem?_getD, getElem?_eq_getElem second]

theorem mallocAndCopy_eq {size : Nat} (fits : bytes.length ≤ size) :
    ∃ block, mallocAndCopy memory bytes size = some block ∧ block.size = size ∧
      block.slice 0 bytes.length = bytes := by
  refine ⟨_, Block.copyIn_eq (by simpa using fits), rfl, ?_⟩
  rw [Block.slice_paste_self]
  exact map_getD bytes

include holds in
theorem Holds.expandTo {ulLen : Nat} (short : ulLen < 2 ^ 32)
    (longer : vbuf.ulTotleLen < ulLen) :
    ∃ after, vbufExpandTo memory vbuf ulLen = some after ∧ Holds after bytes ∧
      after.ulTotleLen = ulLen ∧ after.ulOffset = 0 := by
  have inside := holds.inside
  have used := holds.used
  obtain ⟨block, malloc, size, slice⟩ := @mallocAndCopy_eq memory bytes ulLen (by omega)
  refine ⟨{ vbuf with pucData := block, ulOffset := 0 }, ?_, ⟨used, ?_, ?_⟩, size, rfl⟩
  · rw [vbufExpandTo, Nat.mod_eq_of_lt short, if_neg (by omega), Block.copyOut_eq inside,
      holds.bytes]
    simp [malloc]
  · simp only [VbufS.ulTotleLen, size]
    omega
  · simp [used, slice]

include holds in
theorem Holds.append
    (room : vbuf.ulOffset + vbuf.ulUsedLen + more.length ≤ vbuf.ulTotleLen) :
    ∃ block, vbuf.pucData.copyIn (vbuf.ulOffset + vbuf.ulUsedLen) (fun i => more.getD i 0)
        more.length = some block ∧
      Holds { vbuf with pucData := block, ulUsedLen := vbuf.ulUsedLen + more.length }
        (bytes ++ more) := by
  refine ⟨_, Block.copyIn_eq room, ⟨?_, ?_, ?_⟩⟩
  · simp [holds.used]
  · simp only [VbufS.ulTotleLen, Block.size_paste] at room ⊢
    omega
  · rw [Block.slice_add, Block.slice_paste_self, map_getD,
      Block.slice_paste_other (Or.inl (Nat.le_refl _)), holds.bytes]

theorem Holds.cpyBuf (memory : Memory) (vbuf : VbufS) (bytes : List UCHAR) :
    ∃ after, vbufCpyBuf memory vbuf bytes = some after ∧ Holds after bytes := by
  have fill : ∀ block : Block UCHAR, bytes.length ≤ block.size → ∃ after, (do
        let pucData ← block.copyIn 0 (fun i => bytes.getD i 0) bytes.length
        some (VbufS.mk bytes.length 0 pucData)) = some after ∧ Holds after bytes := by
    intro block fits
    refine ⟨_, by rw [Block.copyIn_eq (by omega)]; rfl, ⟨rfl, ?_, ?_⟩⟩
    · simpa [VbufS.ulTotleLen] using fits
    · rw [Block.slice_paste_self]
      exact map_getD bytes
  rw [vbufCpyBuf]
  split
  · exact fill _ (Nat.le_refl _)
  · next enough => exact fill _ (Nat.not_lt.mp enough)

theorem Holds.moveData {target : Nat} {between : VbufS} (away : vbuf.ulOffset ≠ target)
    (run : (if vbuf.ulUsedLen + target > vbuf.ulTotleLen then
      vbufExpandTo memory vbuf (vbuf.ulUsedLen + target) else some vbuf) = some between)
    (holds : Holds between bytes) :
    (target + between.ulUsedLen ≤ between.ulTotleLen → ∃ block, vbufMoveData memory vbuf target =
        some { between with pucData := block, ulOffset := target } ∧
      block.size = between.ulTotleLen ∧
      Holds { between with pucData := block, ulOffset := target } bytes) ∧
    (between.ulTotleLen < target + between.ulUsedLen → vbufMoveData memory vbuf target = none) := by
  have source : between.pucData.copyOut between.ulOffset between.ulUsedLen = some bytes := holds.data
  have moves : vbufMoveData memory vbuf target =
      (between.pucData.copyIn target (fun i => bytes.getD i 0) between.ulUsedLen).bind fun pucData =>
        some { between with pucData := pucData, ulOffset := target } := by
    rw [vbufMoveData, if_neg away]
    split at run
    · next longer => simp only [if_pos longer, run, bind_eq_bind, bind_some, source]
    · next room =>
      cases run
      simp [if_neg room, source]
  rw [moves]
  refine ⟨fun fits => ⟨between.pucData.paste target (fun i => bytes.getD i 0) between.ulUsedLen, ?_,
    rfl, ⟨holds.used, fits, ?_⟩⟩, fun short => ?_⟩
  · rw [Block.copyIn_eq fits, bind_some]
  · rw [Block.slice_paste_self, holds.used]
    exact map_getD bytes
  · rw [Block.copyIn, if_neg (show ¬ _ ≤ between.pucData.size from Nat.not_le.mpr short), bind_none]

include holds in
/-- The block grows unless its new size is too much for a `UINT`. -/
theorem Holds.grow {ulLen : Nat} (longer : vbuf.ulTotleLen < ulLen) :
    ∃ after, vbufExpandTo memory vbuf ulLen = some after ∧ Holds after bytes ∧
      (after.ulTotleLen = ulLen ∧ after.ulOffset = 0 ∧ ulLen < 2 ^ 32 ∨
        after.ulTotleLen < ulLen ∧ 2 ^ 32 ≤ ulLen) := by
  rcases Nat.lt_or_ge ulLen (2 ^ 32) with short | wraps
  · obtain ⟨after, run, holdsAfter, size, offset⟩ := @Holds.expandTo memory vbuf bytes holds _ short longer
    exact ⟨after, run, holdsAfter, .inl ⟨size, offset, short⟩⟩
  have smaller : ulLen % 2 ^ 32 < ulLen := Nat.lt_of_lt_of_le (Nat.mod_lt _ (by decide)) wraps
  by_cases enough : ulLen % 2 ^ 32 ≤ vbuf.ulTotleLen
  · exact ⟨vbuf, if_pos enough, holds, .inr ⟨longer, wraps⟩⟩
  obtain ⟨after, run, holdsAfter, size, -⟩ := @Holds.expandTo memory vbuf bytes holds
    (ulLen % 2 ^ 32) (Nat.mod_lt _ (by decide)) (Nat.not_le.mp enough)
  rw [vbufExpandTo, Nat.mod_mod] at run
  exact ⟨after, run, holdsAfter, .inr ⟨size ▸ smaller, wraps⟩⟩

/-- The room that is made for `ulLen` bytes: `place` is the end of the bytes in use. -/
structure MakesRoom (vbuf : VbufS) (ulLen place size : Nat) : Prop where
  room : place + ulLen ≤ size ↔
    vbuf.ulUsedLen + ulLen ≤ vbuf.ulTotleLen ∨ vbuf.ulUsedLen + ulLen < 2 ^ 32
  twice : place + 2 * ulLen ≤ size ↔
    if vbuf.ulOffset + vbuf.ulUsedLen + ulLen ≤ vbuf.ulTotleLen then
      vbuf.ulOffset + vbuf.ulUsedLen + 2 * ulLen ≤ vbuf.ulTotleLen
    else
      vbuf.ulUsedLen + 2 * ulLen ≤ vbuf.ulTotleLen

section

include holds

theorem Holds.preCat (ulLen : Nat) :
    ∃ after, vbufPreCat memory vbuf ulLen = some after ∧ Holds after bytes ∧
      MakesRoom vbuf ulLen (after.ulOffset + after.ulUsedLen) after.ulTotleLen := by
  have inside := holds.inside
  have used := holds.used
  rw [vbufPreCat]
  split
  · exact ⟨vbuf, rfl, holds, by omega, by rw [if_pos (by omega)]⟩
  split
  · next moves =>
    obtain ⟨block, run, size, holdsAfter⟩ :=
      (@Holds.moveData memory vbuf bytes 0 vbuf (by omega) (if_neg (by omega)) holds).1 (by omega)
    refine ⟨_, run, holdsAfter, ?_, ?_⟩
    · simp only [VbufS.ulTotleLen] at size moves ⊢
      omega
    · rw [if_neg (by omega)]
      simp only [VbufS.ulTotleLen] at size ⊢
      omega
  · obtain ⟨after, run, holdsAfter, grown⟩ :=
      @Holds.grow memory vbuf bytes holds (vbuf.ulUsedLen + ulLen) (by omega)
    have usedAfter := holdsAfter.used
    exact ⟨after, run, holdsAfter, by omega, by rw [if_neg (by omega)]; omega⟩

theorem Holds.addHead (len : Nat) :
    if vbuf.ulUsedLen + len ≤ vbuf.ulTotleLen ∨ vbuf.ulUsedLen + len < 2 ^ 32 then
      ∃ after, Holds after bytes ∧ len ≤ after.ulOffset ∧ vbufAddHead memory vbuf len =
        some { after with ulOffset := after.ulOffset - len, ulUsedLen := after.ulUsedLen + len }
    else vbufAddHead memory vbuf len = none := by
  have inside := holds.inside
  have used := holds.used
  rw [vbufAddHead]
  by_cases short : vbuf.ulOffset < len
  · simp only [if_pos short]
    have moved {between : VbufS} (run : (if vbuf.ulUsedLen + len > vbuf.ulTotleLen then
        vbufExpandTo memory vbuf (vbuf.ulUsedLen + len) else some vbuf) = some between)
        (holdsBetween : Holds between bytes) :=
      @Holds.moveData memory vbuf bytes len between (Nat.ne_of_lt short) run holdsBetween
    rcases Nat.lt_or_ge vbuf.ulTotleLen (vbuf.ulUsedLen + len) with longer | room
    · obtain ⟨between, run, holdsBetween, grown⟩ := @Holds.grow memory _ _ holds _ longer
      have usedBetween := holdsBetween.used
      rcases Nat.lt_or_ge between.ulTotleLen (len + between.ulUsedLen) with stuck | fits
      · rw [if_neg (by omega), (moved ((if_pos longer).trans run) holdsBetween).2 stuck]
        rfl
      · rw [if_pos (by omega)]
        obtain ⟨_, run, -, holdsAfter⟩ := (moved ((if_pos longer).trans run) holdsBetween).1 fits
        exact ⟨_, holdsAfter, Nat.le_refl _, by rw [run]; rfl⟩
    · obtain ⟨_, run, -, holdsAfter⟩ := (moved (if_neg (Nat.not_lt.mpr room)) holds).1 (by omega)
      rw [if_pos (.inl room)]
      exact ⟨_, holdsAfter, Nat.le_refl _, by rw [run]; rfl⟩
  · rw [if_pos (by omega), if_neg short]
    exact ⟨vbuf, holds, by omega, rfl⟩

theorem Holds.catBuf
    (short : bytes = [] ∨ bytes.length + more.length < 2 ^ 32) :
    ∃ after, vbufCatBuf memory vbuf more = some after ∧ Holds after (bytes ++ more) := by
  rw [vbufCatBuf]
  split
  · next unused =>
    have empty : bytes = [] := by
      apply eq_nil_of_length_eq_zero
      rw [← holds.used]
      exact unused
    rw [empty]
    exact Holds.cpyBuf memory vbuf more
  next some =>
  have fits : bytes.length + more.length < 2 ^ 32 := by
    apply short.resolve_left
    intro empty
    rw [holds.used, empty] at some
    exact some rfl
  obtain ⟨room, run, holdsRoom, makes⟩ := @Holds.preCat memory vbuf bytes holds more.length
  obtain ⟨_, fill, holdsAfter⟩ := @Holds.append room bytes more holdsRoom
    (makes.room.mpr (.inr (holds.used ▸ fits)))
  refine ⟨_, ?_, holdsAfter⟩
  simp only [run, fill, bind_eq_bind, bind_some]

theorem Holds.earseHead (count : Nat) :
    Holds (vbufEarseHead vbuf count) (bytes.drop count) := by
  have used := holds.used
  have inside := holds.inside
  rw [vbufEarseHead]
  split
  · next less =>
    refine ⟨?_, ?_, ?_⟩
    · simp [used]
    · simp only [VbufS.ulTotleLen] at inside ⊢
      omega
    have whole := @Block.slice_add _ vbuf.pucData vbuf.ulOffset count (vbuf.ulUsedLen - count)
    rw [Nat.add_sub_cancel' (Nat.le_of_lt less), holds.bytes] at whole
    rw [whole, drop_left' (by simp)]
  · next all =>
    have empty : bytes.drop count = [] := drop_eq_nil_of_le (by omega)
    rw [empty]
    exact ⟨rfl, by simp, rfl⟩

end

/-- The call puts the new bytes between the first ones and the others. -/
def Inserts (memory : Memory) (vbuf : VbufS) (bytes : List UCHAR) (data_offset : Nat)
    (buf : List UCHAR) : Prop :=
  ∃ after, vbufInsertBuf memory vbuf data_offset buf = some (after, .ok) ∧
    Holds after (bytes.take data_offset ++ buf ++ bytes.drop data_offset)

/-- In the middle there must be room for the new bytes twice. -/
def InsertFits (vbuf : VbufS) (data_offset len : Nat) : Prop :=
  if data_offset = 0 ∨ data_offset = vbuf.ulUsedLen then
    vbuf.ulUsedLen + len ≤ vbuf.ulTotleLen ∨ vbuf.ulUsedLen + len < 2 ^ 32
  else if vbuf.ulOffset + vbuf.ulUsedLen + len ≤ vbuf.ulTotleLen then
    vbuf.ulOffset + vbuf.ulUsedLen + 2 * len ≤ vbuf.ulTotleLen
  else
    vbuf.ulUsedLen + 2 * len ≤ vbuf.ulTotleLen

section

include holds

theorem inserts_head :
    Inserts memory vbuf bytes 0 more ↔ InsertFits vbuf 0 more.length := by
  have added := @Holds.addHead memory vbuf bytes holds more.length
  simp only [Inserts, vbufInsertBuf, vbufInsert, Nat.not_lt_zero, if_false, if_true]
  split at added
  · next fits =>
    obtain ⟨after, holdsAfter, ahead, run⟩ := added
    have inside := holdsAfter.inside
    have front : after.ulOffset - more.length + more.length ≤ after.pucData.size := by
      simp only [VbufS.ulTotleLen] at inside
      omega
    refine iff_of_true ⟨_, by simp only [run, map_some, bind_eq_bind, bind_some, Nat.add_zero,
      if_true, Block.copyIn_eq front]; rfl, ⟨?_, ?_, ?_⟩⟩ fits
    · simp [holdsAfter.used, Nat.add_comm]
    · simp only [VbufS.ulTotleLen, Block.size_paste] at inside ⊢
      omega
    · rw [Nat.add_comm after.ulUsedLen, Block.slice_add, Block.slice_paste_self, map_getD,
        Block.slice_paste_other (.inr (Nat.le_refl _)), Nat.sub_add_cancel ahead, holdsAfter.bytes]
      rfl
  · next full =>
    exact iff_of_false (by simp [added]) full

theorem inserts_tail (nonempty : bytes ≠ []) :
    Inserts memory vbuf bytes bytes.length more ↔ InsertFits vbuf bytes.length more.length := by
  have used := holds.used
  have positive := length_pos_iff.mpr nonempty
  obtain ⟨after, run, holdsAfter, makes⟩ := @Holds.preCat memory vbuf bytes holds more.length
  have place : after.ulOffset + bytes.length = after.ulOffset + after.ulUsedLen := by
    rw [holdsAfter.used]
  rw [InsertFits, if_pos (.inr used.symm), ← makes.room]
  simp only [Inserts, vbufInsertBuf, vbufInsert, vbufAddTail, used, Nat.lt_irrefl, gt_iff_lt, if_false,
    Nat.ne_of_gt positive, if_true, run, bind_eq_bind, bind_some, map_some, place]
  rcases Nat.lt_or_ge after.ulTotleLen (after.ulOffset + after.ulUsedLen + more.length) with full | fits
  · rw [Block.copyIn, if_neg (show ¬ _ ≤ after.pucData.size from Nat.not_le.mpr full)]
    exact iff_of_false (by simp) (Nat.not_le.mpr full)
  · obtain ⟨_, fill, holdsLater⟩ := holdsAfter.append fits
    rw [fill]
    exact iff_of_true ⟨_, rfl, by simpa using holdsLater⟩ fits

theorem inserts_middle {data_offset : Nat} (positive : 0 < data_offset)
    (inside : data_offset < bytes.length) :
    Inserts memory vbuf bytes data_offset more ↔ InsertFits vbuf data_offset more.length := by
  have used := holds.used
  obtain ⟨after, run, holdsAfter, makes⟩ := @Holds.preCat memory vbuf bytes holds more.length
  have usedAfter := holdsAfter.used
  rw [InsertFits, if_neg (by omega), ← makes.twice]
  simp only [Inserts, vbufInsertBuf, vbufInsert, vbufAddTail, used, gt_iff_lt,
    Nat.not_lt.mpr (Nat.le_of_lt inside), if_false, Nat.ne_of_gt positive, Nat.ne_of_lt inside,
    run, bind_eq_bind, bind_some]
  rcases Nat.lt_or_ge after.ulTotleLen (after.ulOffset + after.ulUsedLen + 2 * more.length) with
    full | fits
  · have stuck : after.pucData.transfer (after.ulOffset + data_offset + more.length) after.pucData
        (after.ulOffset + data_offset) (after.ulUsedLen + more.length - data_offset) = none := by
      simp only [VbufS.ulTotleLen] at full
      rw [Block.transfer, Block.copyIn]
      split
      · exact if_neg (by omega)
      · rfl
    rw [stuck]
    exact iff_of_false (by simp) (Nat.not_le.mpr full)
  simp only [VbufS.ulTotleLen] at fits
  rw [Block.transfer_eq (by omega) (by omega), bind_some, bind_some, if_pos rfl,
    Block.copyIn_eq (by simp only [Block.size_paste]; omega), bind_some]
  refine iff_of_true ⟨_, rfl, ⟨?_, ?_, ?_⟩⟩ fits
  · simp
    omega
  · simp only [VbufS.ulTotleLen, Block.size_paste]
    omega
  have parts : after.ulUsedLen + more.length =
      data_offset + (more.length + (bytes.length - data_offset)) := by omega
  simp only [parts, Block.slice_add, Block.slice_paste_self, map_getD, append_assoc]
  rw [Block.slice_paste_other (.inl (Nat.le_refl _)), Block.slice_paste_other (.inl (by omega)),
    Block.slice_paste_other (.inr (Nat.le_refl _)), Block.slice_paste_start (by omega),
    ← holdsAfter.bytes,
    Block.take_slice (by omega), Block.drop_slice (by omega), usedAfter, Block.length_slice]
  rfl

end

/-- A call with a source does what it does with the bytes in use of the source. -/
def ReadsSource (source : VbufS) : Prop :=
  ∀ cells memory target, let source := { source with pucData := ⟨source.pucData.size, cells⟩ }
    vbufCatFromVBuf memory target source = (vbufData source).bind (vbufCatBuf memory target) ∧
    vbufCpyFromVBuf memory target source = (vbufData source).bind (vbufCpyBuf memory target) ∧
    vbufCmpByVBuf (some target) (some source) = (vbufData source).bind (vbufCmpByBuf target)

include holds in
theorem readsSource_iff :
    ReadsSource vbuf ↔ vbuf.ulOffset = 0 ∨ vbuf.ulUsedLen = 0 := by
  have inside : vbuf.ulOffset + vbuf.ulUsedLen ≤ vbuf.pucData.size := holds.inside
  have start : 0 + vbuf.ulUsedLen ≤ vbuf.pucData.size := by omega
  have reading (cells : Nat → UCHAR) {place : Nat} (within : place + vbuf.ulUsedLen ≤ vbuf.pucData.size) :
      (Block.mk vbuf.pucData.size cells).copyOut place vbuf.ulUsedLen =
        some ((Block.mk vbuf.pucData.size cells).slice place vbuf.ulUsedLen) :=
    Block.copyOut_eq within
  constructor
  · intro reads
    by_contra neither
    obtain ⟨away, nonempty⟩ := not_or.mp neither
    -- The first byte of the block is not the first one in use.
    have copies := (reads (fun i => if i = 0 then 1 else 0) (fun _ => 0) vbufInit).2.1
    simp only [vbufCpyFromVBuf, vbufSource, vbufData, reading _ start, reading _ inside,
      bind_some] at copies
    obtain ⟨_, run, first⟩ := Holds.cpyBuf (fun _ => 0) vbufInit
      (Block.slice ⟨vbuf.pucData.size, fun i => if i = 0 then 1 else 0⟩ 0 vbuf.ulUsedLen)
    obtain ⟨_, again, second⟩ := Holds.cpyBuf (fun _ => 0) vbufInit
      (Block.slice ⟨vbuf.pucData.size, fun i => if i = 0 then 1 else 0⟩ vbuf.ulOffset vbuf.ulUsedLen)
    cases run.symm.trans (copies.trans again)
    have heads := congrArg (·[0]?) (some.inj (first.data.symm.trans second.data))
    simp [Block.slice, Nat.pos_of_ne_zero nonempty, away] at heads
  intro own cells memory target
  have same : vbufSource { vbuf with pucData := ⟨vbuf.pucData.size, cells⟩ } =
      vbufData { vbuf with pucData := ⟨vbuf.pucData.size, cells⟩ } := by
    simp only [vbufSource, vbufData, reading _ start, reading _ inside]
    rcases own with same | same <;> rw [same]
    rfl
  simp [vbufCatFromVBuf, vbufCpyFromVBuf, vbufCmpByVBuf, same]

def filledVbuf : VbufS :=
  ⟨2, 1, ⟨3, BitVec.ofNat 8⟩⟩

theorem filledVbuf_holds : Holds filledVbuf [1, 2] :=
  ⟨rfl, by decide, by decide⟩

end MyCode.Vbuf
