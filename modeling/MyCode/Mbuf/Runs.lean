import MyCode.Mbuf.Calls

/-!
# Runs of calls on mbufs

The mbufs stand in variables of the program.  A call changes the bytes that its blocks hold
and the total by amounts that depend on the total alone; they agree unless a total passes 2^32,
`MBUF_CutTail` cuts more than there is, or `MBUF_InsertBuf` is to insert at the very end.
-/

namespace MyCode.Mbuf

open Lib List Option Function Nat Prod

variable {memory : Memory} {mbuf after : MbufS} {counted : Nat} {data : List UCHAR}
  {result : Option MbufS} {pstMbufSrc : MbufS}

/-- The total is the sum of the lengths, and every window lies inside its cluster. -/
structure MbufHolds (mbuf : MbufS) : Prop where
  total : mbuf.ulTotalDataLen = (mbuf.stMblkHead.map MbufMblkS.ulLen).sum
  inside : ∀ mblk ∈ mbuf.stMblkHead, mblk.headFree + mblk.ulLen ≤ mblk.pstCluster.ulSize

inductive MbufOp where
  | apppendBlock (ulLen : UINT)
  | prependBlock (ulLen : UINT)
  | append (ulLen : UINT)
  | prepend (ulLen : UINT)
  | appendData (buf : Buf)
  | prependData (buf : Buf)
  | copyFromBufToMbuf (ulOffset : UINT) (buf : Buf)
  | insertBuf (ulOffset : UINT) (buf : Buf)
  | addCluster (contents : Memory) (ulOffset ulDataLen : UINT)
  | cutHead (ulCutLen : UINT)
  | cutTail (ulCutLen : UINT)
  | cutPart (ulOffset ulCutLen : UINT)
  | compress
  | neat
  | makeContinue (ulLen : UINT)

/-- Calls on the mbufs in variables; a new mbuf is stored in `slot`. -/
inductive MbufCall where
  | create (slot : Nat) (ulHeadSpaceLen : UINT)
  | createByCopyBuf (slot : Nat) (ulReserveHeadSpace : UINT) (buf : Buf)
  | createByCluster (slot : Nat) (contents : Memory) (ulReserveHeadSpace ulLen : UINT)
  | change (slot : Nat) (op : MbufOp)
  | fragment (source slot : Nat) (ulLen : UINT)
  | rawCopy (source slot : Nat) (ulOffset ulLen ulReservedHeadSpace : UINT)
  | cat (target source : Nat)
  | neatCat (target source : Nat)
  | free (slot : Nat)

abbrev MbufPool := Nat → Option MbufS

def MbufOp.run (memory : Memory) (mbuf : MbufS) : MbufOp → Option MbufS
  | apppendBlock ulLen => some (mbufApppendBlock memory mbuf ulLen.toNat)
  | prependBlock ulLen => some (mbufPrependBlock memory mbuf ulLen.toNat)
  | append ulLen => some (mbufAppend memory mbuf ulLen.toNat)
  | prepend ulLen => some (mbufPrepend memory mbuf ulLen.toNat)
  | appendData buf => (mbufAppendData memory mbuf buf.1).map fst
  | prependData buf => (mbufPrependData memory mbuf buf.1).map fst
  | copyFromBufToMbuf ulOffset buf =>
    (mbufCopyFromBufToMbuf memory mbuf ulOffset.toNat buf.1).map fst
  | insertBuf ulOffset buf => (mbufInsertBuf memory mbuf ulOffset.toNat buf.1).map fst
  | addCluster contents ulOffset ulDataLen =>
    some (mbufAddCluster contents mbuf ulOffset.toNat ulDataLen.toNat)
  | cutHead ulCutLen => some (mbufCutHead mbuf ulCutLen.toNat)
  | cutTail ulCutLen => some (mbufCutTail mbuf ulCutLen.toNat)
  | cutPart ulOffset ulCutLen => (mbufCutPart memory mbuf ulOffset.toNat ulCutLen.toNat).map fst
  | compress => (mbufCompress memory mbuf).map fst
  | neat => mbufNeat mbuf
  | makeContinue ulLen => (mbufMakeContinue mbuf ulLen.toNat).map fst

/-- A variable without an mbuf is not handed to a call. -/
def MbufCall.run (memory : Memory) (pool : MbufPool) : MbufCall → Option MbufPool
  | create slot ulHeadSpaceLen => some (update pool slot (mbufCreate memory ulHeadSpaceLen.toNat))
  | createByCopyBuf slot ulReserveHeadSpace buf => do
      let mbuf ← mbufCreateByCopyBuf memory ulReserveHeadSpace.toNat buf.1
      some (update pool slot (some mbuf))
  | createByCluster slot contents ulReserveHeadSpace ulLen =>
    some (update pool slot
      (some (mbufCreateByCluster contents ulReserveHeadSpace.toNat ulLen.toNat)))
  | change slot op =>
    match pool slot with
    | none => some pool
    | some mbuf => do
        let mbuf ← op.run memory mbuf
        some (update pool slot (some mbuf))
  | fragment source slot ulLen =>
    match pool source with
    | none => some pool
    | some mbuf => do
        let (mbuf, pstMbufDst) ← mbufFragment memory mbuf ulLen.toNat
        some (update (update pool source (some mbuf)) slot (some pstMbufDst))
  | rawCopy source slot ulOffset ulLen ulReservedHeadSpace =>
    match pool source with
    | none => some pool
    | some mbuf => do
        let pstMbufDst ← mbufRawCopy memory mbuf ulOffset.toNat ulLen.toNat
          ulReservedHeadSpace.toNat
        some (update pool slot pstMbufDst)
  | cat target source =>
    match pool target, pool source with
    | some pstMbufDst, some pstMbufSrc =>
      if target = source then some pool
      else
        some (update (update pool source none) target (some (mbufCat pstMbufDst pstMbufSrc)))
    | _, _ => some pool
  | neatCat target source =>
    match pool target, pool source with
    | some pstMbufDst, some pstMbufSrc =>
      if target = source then some pool
      else do
        let mbuf ← mbufNeatCat pstMbufDst pstMbufSrc
        some (update (update pool source none) target (some mbuf))
    | _, _ => some pool
  | free slot => some (update pool slot none)

/-- The condition under which a call on an mbuf with so many bytes keeps its total right. -/
def MbufOp.Admitted (total : Nat) : MbufOp → Prop
  | apppendBlock ulLen | prependBlock ulLen | append ulLen | prepend ulLen =>
    total + ulLen.toNat < 2 ^ 32
  | appendData buf | prependData buf => total + buf.1.length < 2 ^ 32
  | copyFromBufToMbuf ulOffset buf =>
    ulOffset.toNat ≤ total → ulOffset.toNat + buf.1.length < 2 ^ 32
  | insertBuf ulOffset buf =>
    buf.1.length = 0 ∨ total < ulOffset.toNat ∨
      (ulOffset.toNat < total ∧ total + buf.1.length < 2 ^ 32)
  | addCluster _ ulOffset ulDataLen =>
    ulOffset.toNat + ulDataLen.toNat ≤ CLUSTER_SIZE ∧ total + ulDataLen.toNat < 2 ^ 32
  | cutTail ulCutLen => ulCutLen.toNat ≤ total
  | cutHead _ | cutPart _ _ | compress | neat | makeContinue _ => True

def MbufCall.Admitted (pool : MbufPool) : MbufCall → Prop
  | createByCluster _ _ ulReserveHeadSpace ulLen =>
    ulReserveHeadSpace.toNat + ulLen.toNat ≤ CLUSTER_SIZE
  | change slot op => ∀ mbuf, pool slot = some mbuf → op.Admitted mbuf.ulTotalDataLen
  | cat target source | neatCat target source =>
    ∀ pstMbufDst pstMbufSrc, pool target = some pstMbufDst → pool source = some pstMbufSrc →
      target ≠ source → pstMbufDst.ulTotalDataLen + pstMbufSrc.ulTotalDataLen < 2 ^ 32
  | create _ _ | createByCopyBuf _ _ _ | fragment _ _ _ | rawCopy _ _ _ _ _ | free _ => True

/-- Every mbuf in a variable is as it should be. -/
def PoolHolds (pool : MbufPool) : Prop :=
  ∀ slot mbuf, pool slot = some mbuf → MbufHolds mbuf

theorem MbufOk.holds (ok : MbufOk mbuf) : MbufHolds mbuf := by
  refine ⟨?_, ok.bytes.inside⟩
  rw [ok.bytes.sum, ok.length]

theorem Sums.same (sums : Sums mbuf data counted) (holds : MbufHolds mbuf) :
    counted = data.length := by
  rw [← sums.counted, holds.total, sums.holds.sum]

/-- A call that gives an mbuf with such bytes and such a total. -/
def Leads (result : Option MbufS) (data : List UCHAR) (counted : Nat) : Prop :=
  ∃ after, result = some after ∧ Sums after data counted

/-- The window that the caller gives a new block. -/
def MbufOp.Window : MbufOp → Prop
  | addCluster _ ulOffset ulDataLen => ulOffset.toNat + ulDataLen.toNat ≤ CLUSTER_SIZE
  | _ => True

/-- A call whose total is right exactly when it is admitted. -/
def Settles (result : Option MbufS) (admitted : Prop) : Prop :=
  ∃ data counted, Leads result data counted ∧ counted < 2 ^ 32 ∧
    (counted = data.length ↔ admitted)

theorem Settles.of_mod {admitted : Prop} (leads : Leads result data counted)
    (wraps : counted = data.length % 2 ^ 32) (small : data.length < 2 ^ 32 ↔ admitted) :
    Settles result admitted := by
  refine ⟨data, counted, leads, ?_, ?_⟩
  · omega
  · rw [← small]
    omega

theorem Settles.of_same (leads : Leads result data counted) (same : counted = data.length)
    (word : counted < 2 ^ 32) : Settles result True :=
  ⟨data, counted, leads, word, iff_of_true same trivial⟩

theorem Leads.some (sums : Sums mbuf data counted) : Leads (some mbuf) data counted :=
  ⟨mbuf, rfl, sums⟩

theorem MbufOk.unchanged (ok : MbufOk mbuf) {admitted : Prop} (holds : admitted) :
    Settles (some mbuf) admitted :=
  ⟨_, _, .some ok.sums, ok.word, iff_of_true ok.length.symm holds⟩

theorem MbufOk.copyFromBufToMbuf (ok : MbufOk mbuf) (ulOffset : Nat) (buf : List UCHAR) :
    Settles ((mbufCopyFromBufToMbuf memory mbuf ulOffset buf).map fst)
      (ulOffset ≤ mbuf.ulTotalDataLen → ulOffset + buf.length < 2 ^ 32) := by
  have word := ok.word
  have length := ok.length
  by_cases filled : buf = []
  · rw [mbufCopyFromBufToMbuf, if_pos (by rw [filled]; rfl)]
    apply ok.unchanged
    rw [filled]
    exact fun found => Nat.lt_of_le_of_lt found word
  have bytes := length_pos_of_ne_nil filled
  by_cases found : ulOffset ≤ mbuf.ulTotalDataLen
  · obtain ⟨_, run, sums⟩ :=
      @copy_sums memory _ _ _ _ ok.bytes filled (by omega) found
    rw [run]
    refine .of_mod (.some sums) ?_ ?_
    · rw [length_splice (by omega)]
      omega
    · rw [length_splice (by omega)]
      omega
  · rw [mbufCopyFromBufToMbuf, if_neg (by omega), if_pos (by omega)]
    exact ok.unchanged fun inside => absurd inside found

theorem MbufOk.prependData (ok : MbufOk mbuf) (buf : List UCHAR) :
    Settles ((mbufPrependData memory mbuf buf).map fst)
      (mbuf.ulTotalDataLen + buf.length < 2 ^ 32) := by
  have length := ok.length
  obtain ⟨_, grown, sums⟩ := @prepend_sums memory mbuf _ ok.bytes buf.length
  rw [mbufPrependData]
  by_cases filled : buf = []
  · rw [mbufCopyFromBufToMbuf, if_pos (by rw [filled]; rfl)]
    refine .of_mod (.some sums) ?_ ?_
    · rw [length_append, grown, length, Nat.add_comm]
    · rw [length_append]
      omega
  obtain ⟨_, run, copied⟩ :=
    @copy_sums memory _ 0 buf _ sums.holds filled (zero_le _) (zero_le _)
  rw [run]
  refine .of_mod (.some copied) ?_ ?_
  · rw [length_splice (zero_le _), length_append, sums.counted]
    omega
  · rw [length_splice (zero_le _), length_append]
    omega

theorem MbufOk.insertBuf (ok : MbufOk mbuf) (ulOffset : Nat) (buf : Buf) :
    Settles ((mbufInsertBuf memory mbuf ulOffset buf.1).map fst)
      (buf.1.length = 0 ∨ mbuf.ulTotalDataLen < ulOffset ∨
        (ulOffset < mbuf.ulTotalDataLen ∧ mbuf.ulTotalDataLen + buf.1.length < 2 ^ 32)) := by
  have length := ok.length
  by_cases filled : buf.1.length = 0
  · rw [mbufInsertBuf, if_pos filled]
    exact ok.unchanged (Or.inl filled)
  by_cases found : ulOffset ≤ mbuf.ulTotalDataLen
  · obtain ⟨_, run, sums⟩ := @insert_sums memory _ _ buf.1 _ ok.bytes (by omega) found
    rw [run]
    refine ⟨_, _, .some sums, ?_, ?_⟩
    · omega
    split
    · rw [length_splice (by omega)]
      omega
    · omega
  · rw [mbufInsertBuf, if_neg filled, if_pos (by omega)]
    exact ok.unchanged (Or.inr (Or.inl (by omega)))

theorem MbufOp.settles (ok : MbufOk mbuf) (op : MbufOp) (window : op.Window) :
    Settles (op.run memory mbuf) (op.Admitted mbuf.ulTotalDataLen) := by
  have word := ok.word
  have length := ok.length
  have grows : ∀ {result : MbufS} {fresh data : List UCHAR} {ulLen : UINT}, fresh.length = ulLen.toNat →
      data.length = mbuf.bytes.length + fresh.length →
      Sums result data ((mbuf.ulTotalDataLen + ulLen.toNat) % 2 ^ 32) →
      Settles (some result) (mbuf.ulTotalDataLen + ulLen.toNat < 2 ^ 32) := by
    intro result fresh data ulLen more whole sums
    refine .of_mod (.some sums) ?_ ?_
    · rw [whole, more, length]
    · omega
  cases op with
  | apppendBlock ulLen =>
    obtain ⟨_, more, sums⟩ := @pendBlock_sums memory _ _ ok.bytes ulLen.toNat false
    exact grows more (by simp) sums
  | prependBlock ulLen =>
    obtain ⟨_, more, sums⟩ := @pendBlock_sums memory _ _ ok.bytes ulLen.toNat true
    exact grows more (by simp [Nat.add_comm]) sums
  | append ulLen =>
    obtain ⟨_, more, sums⟩ := @append_sums memory _ _ ok.bytes ulLen.toNat
    refine .of_mod (.some sums) ?_ ?_
    · rw [more, length]
    · rw [more, length]
      rfl
  | prepend ulLen =>
    obtain ⟨_, more, sums⟩ := @prepend_sums memory _ _ ok.bytes ulLen.toNat
    exact grows more (by simp [Nat.add_comm]) sums
  | appendData buf =>
    obtain ⟨held, counted, leads, small, same⟩ :=
      @MbufOk.copyFromBufToMbuf memory mbuf ok mbuf.ulTotalDataLen buf.1
    refine ⟨held, counted, leads, small, same.trans ?_⟩
    simp [MbufOp.Admitted]
  | prependData buf => exact ok.prependData buf.1
  | copyFromBufToMbuf ulOffset buf => exact ok.copyFromBufToMbuf ulOffset.toNat buf.1
  | insertBuf ulOffset buf => exact ok.insertBuf ulOffset.toNat buf
  | addCluster contents ulOffset ulDataLen =>
    have added : Holds [⟨ulOffset.toNat, ulDataLen.toNat, mbufCreateCluster contents⟩] _ :=
      .single (mblkOk_create window) rfl
    refine .of_mod (.some ⟨ok.bytes.append added, rfl⟩) ?_ ?_
    · rw [length_append, length_bytes, length]
      rfl
    · rw [length_append, length_bytes, length]
      exact (and_iff_right window).symm
  | cutHead => exact .of_same (.some (ok.cutHead _)) (by rw [length_drop, length]) (by omega)
  | cutTail ulCutLen =>
    refine ⟨_, _, .some (ok.cutTail ulCutLen.toNat), ?_, ?_⟩
    · rw [uintSub]
      omega
    · rw [uintSub, length_take, MbufOp.Admitted]
      omega
  | cutPart ulOffset ulCutLen =>
    obtain ⟨_, _, run, cut⟩ := @MbufOk.cutPart memory mbuf ulOffset.toNat ok ulCutLen.toNat
    simp only [MbufOp.run, run, map_some]
    split at cut
    · refine .of_same (.some cut) ?_ (by omega)
      rw [length_splice (by omega), length_nil]
      omega
    · rw [cut]
      exact ok.unchanged trivial
  | compress =>
    obtain ⟨_, _, run, sums, more, _⟩ := @MbufOk.compress memory mbuf ok
    simp only [MbufOp.run, run, map_some]
    exact .of_same (.some sums) more.symm word
  | neat => exact .of_same (neat_sums ok.bytes) length.symm word
  | makeContinue ulLen =>
    obtain ⟨_, _, run, sums, _⟩ := ok.makeContinue ulLen.toNat
    simp only [MbufOp.run, run, map_some]
    exact .of_same (.some sums) length.symm word

theorem MbufOp.window (op : MbufOp) (run : op.run memory mbuf = some after)
    (holds : MbufHolds after) : op.Window := by
  cases op with
  | addCluster contents ulOffset ulDataLen =>
    rw [MbufOp.run, some.injEq] at run
    apply holds.inside ⟨ulOffset.toNat, ulDataLen.toNat, mbufCreateCluster contents⟩
    rw [← run]
    simp [mbufAddCluster]
  | _ => trivial

theorem MbufOp.keeps (ok : MbufOk mbuf) {op : MbufOp} (admitted : op.Admitted mbuf.ulTotalDataLen) :
    ∃ after, op.run memory mbuf = some after ∧ MbufOk after := by
  have window : op.Window := by
    cases op with
    | addCluster => exact admitted.1
    | _ => trivial
  obtain ⟨_, _, ⟨after, run, sums⟩, _, same⟩ := 
    @MbufOp.settles memory mbuf ok op window
  have right := same.mpr admitted
  refine ⟨after, run, sums.ok right ?_⟩
  omega

theorem MbufOp.needs (ok : MbufOk mbuf) {op : MbufOp} (run : op.run memory mbuf = some after)
    (holds : MbufHolds after) : op.Admitted mbuf.ulTotalDataLen := by
  obtain ⟨_, _, ⟨_, stepped, sums⟩, _, same⟩ :=
    @MbufOp.settles memory mbuf ok op (op.window run holds)
  rw [run, some.injEq] at stepped
  subst stepped
  exact same.mp (sums.same holds)

def PoolOk (pool : MbufPool) : Prop :=
  ∀ slot mbuf, pool slot = some mbuf → MbufOk mbuf

variable {pool next : MbufPool}

theorem PoolOk.holds (ok : PoolOk pool) : PoolHolds pool :=
  fun slot mbuf stored => (ok slot mbuf stored).holds

theorem PoolOk.update (ok : PoolOk pool) (slot : Nat) {stored : Option MbufS}
    (okStored : ∀ mbuf, stored = some mbuf → MbufOk mbuf) :
    PoolOk (update pool slot stored) := by
  intro place mbuf found
  rw [update_apply] at found
  split at found
  · exact okStored mbuf found
  · exact ok place mbuf found

theorem PoolOk.set (ok : PoolOk pool) (slot : Nat) (okMbuf : MbufOk mbuf) :
    PoolOk (Function.update pool slot (some mbuf)) := by
  apply ok.update
  rintro _ ⟨⟩
  exact okMbuf

theorem PoolOk.clear (ok : PoolOk pool) (slot : Nat) : PoolOk (Function.update pool slot none) := by
  apply ok.update
  rintro _ ⟨⟩

theorem create_ok (ulHeadSpaceLen : Nat) (created : mbufCreate memory ulHeadSpaceLen = some mbuf) :
    MbufOk mbuf := by
  rw [mbufCreate] at created
  split at created
  · cases created
  next fits =>
  cases created
  have sums : Sums ⟨[⟨ulHeadSpaceLen, 0, mbufCreateCluster memory⟩], 0⟩ _ 0 :=
    ⟨.single (mblkOk_create (Nat.not_lt.mp fits)) rfl, rfl⟩
  exact sums.ok (by simp) (by simp)

theorem createByCopyBuf_ok (ulReserveHeadSpace : Nat) (buf : Buf) :
    ∃ mbuf, mbufCreateByCopyBuf memory ulReserveHeadSpace buf.1 = some mbuf ∧ MbufOk mbuf := by
  obtain ⟨blocks, run, holds⟩ := @copyBlocks_holds memory buf.1 _ (Nat.le_refl _) ulReserveHeadSpace
  refine ⟨⟨blocks, buf.1.length⟩, ?_, holds.chain, buf.2⟩
  simp [mbufCreateByCopyBuf, run]

theorem createByCluster_ok (contents : Memory) {ulReserveHeadSpace ulLen : UINT}
    (window : ulReserveHeadSpace.toNat + ulLen.toNat ≤ CLUSTER_SIZE) :
    MbufOk (mbufCreateByCluster contents ulReserveHeadSpace.toNat ulLen.toNat) :=
  Sums.ok ⟨.single (mblkOk_create window) rfl, rfl⟩ (by rw [length_bytes]; rfl)
    (by rw [length_bytes]; exact ulLen.isLt)

theorem neatCat_leads (ok : MbufOk mbuf) (okSrc : MbufOk pstMbufSrc) :
    Leads (mbufNeatCat mbuf pstMbufSrc) (mbuf.bytes ++ pstMbufSrc.bytes)
      ((mbuf.ulTotalDataLen + pstMbufSrc.ulTotalDataLen) % 2 ^ 32) :=
  neat_sums (cat_sums ok okSrc).holds

theorem cat_length (ok : MbufOk mbuf) (okSrc : MbufOk pstMbufSrc) :
    (mbuf.bytes ++ pstMbufSrc.bytes).length =
      mbuf.ulTotalDataLen + pstMbufSrc.ulTotalDataLen := by
  rw [length_append, ok.length, okSrc.length]

theorem PoolOk.join (ok : PoolOk pool) (target source : Nat) {total : Nat}
    (leads : Leads result data (total % 2 ^ 32)) (length : data.length = total)
    (short : total < 2 ^ 32) :
    ∃ mbuf, result = some mbuf ∧
      PoolOk (Function.update (Function.update pool source none) target (some mbuf)) := by
  obtain ⟨mbuf, run, sums⟩ := leads
  exact ⟨mbuf, run, (ok.clear source).set target (sums.ok (by omega) (by omega))⟩

theorem join_needs {target source total : Nat} (leads : Leads result data (total % 2 ^ 32))
    (length : data.length = total) (run : result = some mbuf)
    (holds : PoolHolds (update (update pool source none) target (some mbuf))) :
    total < 2 ^ 32 := by
  obtain ⟨_, stepped, sums⟩ := leads
  rw [run, some.injEq] at stepped
  subst stepped
  have same := sums.same (holds target mbuf (by simp))
  omega

theorem PoolOk.step (ok : PoolOk pool) {call : MbufCall} (admitted : call.Admitted pool) :
    ∃ next, call.run memory pool = some next ∧ PoolOk next := by
  cases call with
  | create slot => exact ⟨_, rfl, ok.update slot fun mbuf created => create_ok _ created⟩
  | createByCopyBuf slot ulReserveHeadSpace buf =>
    obtain ⟨_, run, okMbuf⟩ := @createByCopyBuf_ok memory ulReserveHeadSpace.toNat buf
    exact ⟨_, by simp [MbufCall.run, run], ok.set slot okMbuf⟩
  | createByCluster slot contents =>
    exact ⟨_, rfl, ok.set slot (createByCluster_ok contents admitted)⟩
  | change slot op =>
    cases stored : pool slot with
    | none => exact ⟨pool, by simp [MbufCall.run, stored], ok⟩
    | some mbuf =>
      obtain ⟨_, run, okAfter⟩ :=
        @MbufOp.keeps memory mbuf (ok slot mbuf stored) op (admitted mbuf stored)
      exact ⟨_, by simp [MbufCall.run, stored, run], ok.set slot okAfter⟩
  | fragment source slot ulLen =>
    cases stored : pool source with
    | none => exact ⟨pool, by simp [MbufCall.run, stored], ok⟩
    | some mbuf =>
      have okSource := ok source mbuf stored
      have word := okSource.word
      have length := okSource.length
      obtain ⟨_, _, run, sumsLeft, sumsDst⟩ := @MbufOk.fragment memory mbuf okSource ulLen.toNat
      have okLeft := sumsLeft.ok (by rw [length_drop, length]) (by rw [length_drop]; omega)
      have okDst := sumsDst.ok (by rw [length_take, length]) (by rw [length_take]; omega)
      exact ⟨_, by simp [MbufCall.run, stored, run], (ok.set source okLeft).set slot okDst⟩
  | rawCopy source slot ulOffset ulLen ulReservedHeadSpace =>
    cases stored : pool source with
    | none => exact ⟨pool, by simp [MbufCall.run, stored], ok⟩
    | some mbuf =>
      have okSource := ok source mbuf stored
      have length := okSource.length
      obtain ⟨copy, run, copied⟩ := @MbufOk.rawCopy memory mbuf okSource
        ulOffset.toNat ulLen.toNat ulReservedHeadSpace.toNat
      refine ⟨Function.update pool slot copy, by simp [MbufCall.run, stored, run],
        ok.update slot fun pstMbufDst given => ?_⟩
      apply (copied pstMbufDst given).ok
      · rw [length_take, length_drop, length]
      · rw [length_take]
        omega
  | cat target source =>
    cases first : pool target with
    | none => exact ⟨pool, by simp [MbufCall.run, first], ok⟩
    | some =>
      cases second : pool source with
      | none => exact ⟨pool, by simp [MbufCall.run, first, second], ok⟩
      | some =>
        by_cases same : target = source
        · exact ⟨pool, by simp only [MbufCall.run, first, second, if_pos same], ok⟩
        obtain ⟨_, run, okNext⟩ := ok.join target source
          (.some (cat_sums (ok target _ first) (ok source _ second)))
          (cat_length (ok target _ first) (ok source _ second)) (admitted _ _ first second same)
        cases run
        exact ⟨_, by simp only [MbufCall.run, first, second, if_neg same], okNext⟩
  | neatCat target source =>
    cases first : pool target with
    | none => exact ⟨pool, by simp [MbufCall.run, first], ok⟩
    | some =>
      cases second : pool source with
      | none => exact ⟨pool, by simp [MbufCall.run, first, second], ok⟩
      | some =>
        by_cases same : target = source
        · exact ⟨pool, by simp only [MbufCall.run, first, second, if_pos same], ok⟩
        obtain ⟨_, run, okNext⟩ := ok.join target source
          (neatCat_leads (ok target _ first) (ok source _ second))
          (cat_length (ok target _ first) (ok source _ second)) (admitted _ _ first second same)
        exact ⟨_, by simp only [MbufCall.run, first, second, if_neg same, run,
          bind_eq_bind, bind_some], okNext⟩
  | free slot => exact ⟨_, rfl, ok.clear slot⟩

theorem PoolOk.needs (ok : PoolOk pool) {call : MbufCall} (run : call.run memory pool = some next)
    (holds : PoolHolds next) : call.Admitted pool := by
  cases call with
  | createByCluster slot =>
    simp only [MbufCall.run, some.injEq] at run
    subst run
    have shown := (holds slot _ (update_self _ _ _)).inside
    exact shown _ (mem_singleton_self _)
  | change slot =>
    intro mbuf stored
    simp only [MbufCall.run, stored, bind_eq_bind, bind_eq_some_iff] at run
    obtain ⟨after, changed, same⟩ := run
    cases same
    exact MbufOp.needs (ok slot mbuf stored) changed (holds slot after (update_self _ _ _))
  | cat target source =>
    intro pstMbufDst pstMbufSrc first second other
    simp only [MbufCall.run, first, second, if_neg other, some.injEq] at run
    subst run
    exact join_needs (.some (cat_sums (ok target _ first) (ok source _ second)))
      (cat_length (ok target _ first) (ok source _ second)) rfl holds
  | neatCat target source =>
    intro pstMbufDst pstMbufSrc first second other
    simp only [MbufCall.run, first, second, if_neg other, bind_eq_bind, bind_eq_some_iff] at run
    obtain ⟨_, joined, same⟩ := run
    cases same
    exact join_needs (neatCat_leads (ok target _ first) (ok source _ second))
      (cat_length (ok target _ first) (ok source _ second)) joined holds
  | create | createByCopyBuf | fragment | rawCopy | free => trivial

/-- Every mbuf is right in every state of a run exactly when each call of it is admitted. -/
theorem mbuf_runs (memory : Memory) (calls : List MbufCall) :
    Keeps PoolHolds (MbufCall.run memory) (fun _ => none) calls ↔
      AdmitsAll MbufCall.Admitted (MbufCall.run memory) (fun _ => none) calls := by
  have empty : PoolOk fun _ => none := by
    rintro _ _ ⟨⟩
  exact keeps_iff_admitsAll (fun pool ok => ok.holds) (fun pool call ok => ok.step)
    (fun pool call next ok => ok.needs) empty

/-- A byte inserted at the end of an empty mbuf is counted but not there, and so is what
`MBUF_CutTail` cannot cut. -/
theorem mbuf_miscounts :
    ¬ Keeps PoolHolds (MbufCall.run fun _ => 0) (fun _ => none)
        [.create 0 0, .change 0 (.insertBuf 0 ⟨[7], by decide⟩)] ∧
      ¬ Keeps PoolHolds (MbufCall.run fun _ => 0) (fun _ => none)
        [.create 0 0, .change 0 (.cutTail 1)] := by
  refine ⟨?_, ?_⟩
  · rintro ⟨_, _, created, _, _, inserted, holds⟩
    cases created
    cases inserted
    have total := (holds 0 _ rfl).total
    exact absurd total (by decide)
  · rintro ⟨_, _, created, _, _, cut, holds⟩
    cases created
    cases cut
    have total := (holds 0 _ rfl).total
    exact absurd total (by decide)

end MyCode.Mbuf
