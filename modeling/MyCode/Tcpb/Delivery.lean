import MyCode.Tcpb.Refinement

/-!
# What the reader is given

Whatever is handed over was received, and when the segments come in turn while nothing is
saved, the reader takes the stream from its beginning on.
-/

namespace MyCode.Tcpb

open HoleData Bitmap Finset List Nat

variable {numUpAlign : Nat → Nat} {stream : Nat → UCHAR} {payload_sn : UINT}
  {max_buff_size start length : Nat} {asks : Asks} {output : Reader} {came : Nat → Prop}
  {buffer : Buffer} {saved : Saved} {segment : Segment} {segments : List Segment} {run : TcpbRun}

def Handed.From (came : Nat → Prop) (handed : Handed) : Prop :=
  ∀ place, handed.start ≤ place → place < handed.start + handed.length → came place

/-- The positions that are saved and those that were handed over are among those that came. -/
structure Only (came : Nat → Prop) (buffer : Buffer) : Prop where
  sent : ∀ handed ∈ buffer.sent, handed.From came
  saved : ∀ saved, buffer.saved = some saved → ∀ place ∈ saved.received, came place

theorem Saved.run_came (only : ∀ place ∈ saved.received, came place) (max_buff_size : Nat)
    (failed : Bool) : Handed.From came ⟨saved.start, saved.run max_buff_size, failed⟩ := by
  intro place above below
  simp only at above below
  have isRun := saved.mem_run (show place - saved.start < saved.run max_buff_size by omega)
  have position : saved.start + (place - saved.start) = place := by omega
  rw [position] at isRun
  exact only place isRun

section

variable (only : Only came buffer)

include only

theorem Only.hand {now : Handed} (part : now.From came) :
    ∀ handed ∈ buffer.sent ++ [now], handed.From came := by
  rw [forall_mem_append, forall_mem_singleton]
  exact ⟨only.sent, part⟩

theorem Only.fail : Only came (buffer.fail max_buff_size) := by
  rw [Buffer.fail]
  cases isSaved : buffer.saved with
  | none =>
    refine ⟨only.sent, ?_⟩
    simp
  | some saved =>
    have received := only.saved saved isSaved
    dsimp only
    split
    · refine ⟨only.sent, ?_⟩
      simpa [isSaved] using received
    · refine ⟨only.hand (saved.run_came received max_buff_size true), ?_⟩
      simpa [isSaved] using received

theorem Only.pass (part : ∀ place, start ≤ place → place < start + length → came place) :
    Only came (buffer.pass max_buff_size asks start length) := by
  have sent := only.hand (show Handed.From came ⟨start, length, false⟩ from part)
  rw [Buffer.pass]
  cases asks buffer.sent ⟨start, length, false⟩ with
  | none => exact ⟨sent, only.saved⟩
  | some place =>
    dsimp only
    have after : Only came { buffer with
          saved :=
            if min (length - place) max_buff_size = 0 then none
            else some ⟨start + place, Finset.Ico (start + place)
              (start + place + min (length - place) max_buff_size),
              min (length - place) max_buff_size⟩
          sent := buffer.sent ++ [⟨start, length, false⟩]
          taken := buffer.taken ++ [(start, min place length)] } := by
      refine ⟨sent, ?_⟩
      intro saved isSaved position isIn
      split at isSaved
      · cases isSaved
      cases isSaved
      rw [mem_Ico] at isIn
      apply part
      · omega
      · omega
    split
    · exact after.fail
    · exact after

theorem Only.join (isSaved : buffer.saved = some saved)
    (part : ∀ place, start ≤ place → place < start + length → came place) :
    Only came (buffer.join max_buff_size asks saved start length) := by
  have received : ∀ fits ≤ length, ∀ place ∈ (saved.add start fits).received, came place := by
    intro fits less place isIn
    rw [Saved.add, mem_union, mem_Ico] at isIn
    rcases isIn with earlier | _
    · exact only.saved saved isSaved place earlier
    apply part
    · omega
    · omega
  have joined := received (min length (saved.start + max_buff_size - start)) (min_le_left _ _)
  rw [Buffer.join]
  generalize fits : min length (saved.start + max_buff_size - start) = taken at joined
  dsimp only
  split
  · have after : Only came { buffer with saved := some (saved.add start taken) } := by
      refine ⟨only.sent, ?_⟩
      simpa using joined
    split
    · exact after.fail
    · exact after
  have sent := only.hand ((saved.add start taken).run_came joined max_buff_size false)
  split
  · have after : Only came { buffer with
          saved := none
          sent := buffer.sent ++ [⟨saved.start, (saved.add start taken).run max_buff_size, false⟩]
          taken := buffer.taken ++
            [(saved.start, (saved.add start taken).run max_buff_size)] } := by
      refine ⟨sent, ?_⟩
      simp
    split
    · apply after.pass
      intro place above below
      apply part
      · omega
      · omega
    · exact after
  · split
    · refine ⟨sent, ?_⟩
      simp
    · refine ⟨sent, ?_⟩
      simpa using joined

theorem Only.input
    (part : ∀ place, segment.start ≤ place → place < segment.start + segment.length → came place) :
    Only came (buffer.input max_buff_size asks segment) := by
  rw [Buffer.input]
  split
  · exact only
  split
  · exact only.pass part
  next saved isSaved =>
  split
  · exact only
  split
  · exact only.fail
  · exact only.join isSaved part

end

/-- The positions that the reader takes, in their order. -/
def Buffer.positions (buffer : Buffer) : List Nat :=
  buffer.taken.flatMap fun part => range' part.1 part.2

/-- What comes while nothing is saved begins where the reader stands. -/
def Buffer.InTurn (buffer : Buffer) (segment : Segment) : Prop :=
  buffer.failed = true ∨ buffer.saved ≠ none ∨ segment.start = buffer.positions.length

/-- The reader took the first positions, and what is saved begins behind them. -/
structure Turn (buffer : Buffer) : Prop where
  positions : buffer.positions = List.range buffer.positions.length
  saved : buffer.failed = false → ∀ saved, buffer.saved = some saved →
    saved.start = buffer.positions.length

theorem positions_append (turn : buffer.positions = List.range buffer.positions.length)
    {after : Buffer} (taken : after.taken = buffer.taken ++ [(buffer.positions.length, length)]) :
    after.positions = List.range (buffer.positions.length + length) := by
  rw [Buffer.positions, taken, flatMap_append, flatMap_singleton]
  change buffer.positions ++ _ = _
  rw [range_eq_range', ← range'_append_1, zero_add, ← range_eq_range', ← turn]

theorem Turn.take (turn : buffer.positions = List.range buffer.positions.length) {after : Buffer}
    (taken : after.taken = buffer.taken ++ [(buffer.positions.length, length)])
    (saved : after.failed = false → ∀ saved, after.saved = some saved →
      saved.start = buffer.positions.length + length) : Turn after := by
  have positions := positions_append turn taken
  have stands : after.positions.length = buffer.positions.length + length := by
    rw [positions, length_range]
  refine ⟨?_, ?_⟩
  · rw [stands]
    exact positions
  · rw [stands]
    exact saved

theorem Turn.fail (turn : Turn buffer) (going : buffer.failed = false) :
    Turn (buffer.fail max_buff_size) := by
  rw [Buffer.fail]
  cases isSaved : buffer.saved with
  | none => exact ⟨turn.positions, by simp⟩
  | some saved =>
    dsimp only
    split
    · exact ⟨turn.positions, by simp⟩
    apply Turn.take turn.positions
    · rw [turn.saved going saved isSaved]
    · simp

theorem Turn.pass (turn : Turn buffer) (going : buffer.failed = false)
    (empty : buffer.saved = none) (stands : start = buffer.positions.length) :
    Turn (buffer.pass max_buff_size asks start length) := by
  rw [Buffer.pass]
  cases asks buffer.sent ⟨start, length, false⟩ with
  | none =>
    apply Turn.take turn.positions
    · rw [stands]
    · simp [empty]
  | some place =>
    dsimp only
    have after : Turn { buffer with
          saved :=
            if min (length - place) max_buff_size = 0 then none
            else some ⟨start + place, Finset.Ico (start + place)
              (start + place + min (length - place) max_buff_size),
              min (length - place) max_buff_size⟩
          sent := buffer.sent ++ [⟨start, length, false⟩]
          taken := buffer.taken ++ [(start, min place length)] } := by
      apply Turn.take turn.positions
      · rw [stands]
      intro _ saved isSaved
      split at isSaved
      · cases isSaved
      cases isSaved
      simp only
      omega
    split
    · exact after.fail going
    · exact after

theorem Saved.run_full {taken : Nat} (reach : start + taken = saved.start + max_buff_size)
    (grown : (saved.add start taken).run max_buff_size ≠ saved.run max_buff_size) :
    (saved.add start taken).run max_buff_size = max_buff_size := by
  have isIn : ∀ place, place ∈ (saved.add start taken).received ↔
      place ∈ saved.received ∨ (start ≤ place ∧ place < start + taken) := by
    intro place
    rw [Saved.add, mem_union, mem_Ico]
  have more : saved.run max_buff_size ≤ (saved.add start taken).run max_buff_size := by
    apply findGreatest_mono_left
    intro n all i below
    exact (isIn _).mpr (.inl (all i below))
  have less : (saved.add start taken).run max_buff_size ≤ max_buff_size := findGreatest_le _
  have first : saved.start + saved.run max_buff_size ∈ (saved.add start taken).received :=
    (saved.add start taken).mem_run
      (show saved.run max_buff_size < (saved.add start taken).run max_buff_size by omega)
  have hole : saved.start + saved.run max_buff_size ∉ saved.received := by
    intro known
    apply findGreatest_is_greatest (lt_succ_self (saved.run max_buff_size)) (by omega)
    intro i below
    rcases Nat.lt_succ_iff_lt_or_eq.mp below with earlier | last
    · exact saved.mem_run earlier
    · rw [last]
      exact known
  have before := ((isIn _).mp first).resolve_left hole
  apply findGreatest_eq
  intro i below
  apply (isIn _).mpr
  by_cases earlier : i < saved.run max_buff_size
  · exact .inl (saved.mem_run earlier)
  right
  simp only [Saved.add]
  omega

theorem Turn.join (turn : Turn buffer) (going : buffer.failed = false)
    (isSaved : buffer.saved = some saved) (inside : start < saved.start + max_buff_size) :
    Turn (buffer.join max_buff_size asks saved start length) := by
  have stands := turn.saved going saved isSaved
  rw [Buffer.join]
  generalize fits : min length (saved.start + max_buff_size - start) = taken
  dsimp only
  split
  · have after : Turn { buffer with saved := some (saved.add start taken) } := by
      refine ⟨turn.positions, ?_⟩
      rintro _ _ ⟨⟩
      exact stands
    split
    · exact after.fail going
    · exact after
  next grown =>
  split
  · have after : Turn { buffer with
          saved := none
          sent := buffer.sent ++ [⟨saved.start, (saved.add start taken).run max_buff_size, false⟩]
          taken := buffer.taken ++
            [(saved.start, (saved.add start taken).run max_buff_size)] } := by
      apply Turn.take turn.positions
      · rw [stands]
      · simp
    split
    · next part =>
      have reach : start + taken = saved.start + max_buff_size := by omega
      apply after.pass going rfl
      rw [positions_append turn.positions (by rw [stands]), length_range,
        Saved.run_full reach grown, ← stands]
      exact reach
    · exact after
  · split
    · exact ⟨turn.positions, by simp⟩
    refine ⟨turn.positions, ?_⟩
    rintro _ _ ⟨⟩
    exact stands

theorem Turn.input (turn : Turn buffer) (inTurn : buffer.InTurn segment) :
    Turn (buffer.input max_buff_size asks segment) := by
  rw [Buffer.input]
  split
  · exact turn
  next starts =>
  have going : buffer.failed = false := by
    simpa using (not_or.mp starts).1
  split
  · next empty =>
    apply turn.pass going empty
    rcases inTurn with failed | filled | stands
    · exact absurd failed (not_or.mp starts).1
    · exact absurd empty filled
    · exact stands
  next saved isSaved =>
  split
  · exact turn
  split
  · exact turn.fail going
  · next behind => exact turn.join going isSaved (not_le.mp behind)

/-- The segments of the stream come one after another. -/
def tcpbInputs (numUpAlign : Nat → Nat) (max_buff_size : Nat) (output : Reader)
    (stream : Nat → UCHAR) (payload_sn : UINT) : TcpbRun → List Segment → Option TcpbRun
  | run, [] => some run
  | run, segment :: rest => do
      let (run, _) ← tcpbInput numUpAlign max_buff_size output run
        (payload_sn + BitVec.ofNat 32 segment.start)
        (bytesOf stream segment.start segment.length)
      tcpbInputs numUpAlign max_buff_size output stream payload_sn run rest

theorem Matches.inputs (aligns : AlignsUp numUpAlign)
    (matched : Matches stream payload_sn max_buff_size buffer run)
    (clean : Lib.System.Admitted (Buffer.Clean max_buff_size)
      (Buffer.input max_buff_size (asksOf stream output)) buffer segments) :
    ∃ after, tcpbInputs numUpAlign max_buff_size output stream payload_sn run segments =
        some after ∧
      Matches stream payload_sn max_buff_size
        (segments.foldl (Buffer.input max_buff_size (asksOf stream output)) buffer) after := by
  induction segments generalizing buffer run with
  | nil => exact ⟨run, rfl, matched⟩
  | cons _ _ ih =>
    obtain ⟨_, _, input, matchedNext⟩ := matched.input aligns clean.1 output
    obtain ⟨after, inputs, matchedAfter⟩ := ih matchedNext clean.2
    refine ⟨after, ?_, matchedAfter⟩
    rw [tcpbInputs, input]
    exact inputs

theorem Only.inputs (only : Only came buffer)
    (parts : ∀ segment ∈ segments, ∀ place, segment.start ≤ place →
      place < segment.start + segment.length → came place) :
    Only came (segments.foldl (Buffer.input max_buff_size asks) buffer) := by
  induction segments generalizing buffer with
  | nil => exact only
  | cons _ _ ih =>
    rw [List.forall_mem_cons] at parts
    exact ih (only.input parts.1) parts.2

theorem Turn.inputs (turn : Turn buffer)
    (inTurn : Lib.System.Admitted Buffer.InTurn (Buffer.input max_buff_size asks) buffer segments) :
    Turn (segments.foldl (Buffer.input max_buff_size asks) buffer) := by
  induction segments generalizing buffer with
  | nil => exact turn
  | cons _ _ ih => exact ih (turn.input inTurn.1) inTurn.2

/-- For every stream, every reader and every run of segments that leave no gap within a word
and are near to what is saved: the reader is given parts of the stream, as they are there, at
the offsets where they are, and only positions that came.  When the segments that come while
nothing is saved are in turn, it takes the positions of the stream from 0 on. -/
theorem tcpb_hands_over (aligns : AlignsUp numUpAlign) (stream : Nat → UCHAR) (payload_sn : UINT)
    (output : Reader) (memory : Nat → UCHAR) (small : max_buff_size < 2 ^ 31)
    (segments : List Segment)
    (clean : Lib.System.Admitted (Buffer.Clean max_buff_size)
      (Buffer.input max_buff_size (asksOf stream output)) Buffer.empty segments) :
    ∃ run buffer, tcpbInputs numUpAlign max_buff_size output stream payload_sn
        ⟨tcbpInitNode memory max_buff_size payload_sn, []⟩ segments = some run ∧
      buffer = segments.foldl (Buffer.input max_buff_size (asksOf stream output)) Buffer.empty ∧
      run.sent = buffer.sent.map (handedBuf stream) ∧
      (∀ handed ∈ buffer.sent, handed.From fun place =>
        ∃ segment ∈ segments, segment.start ≤ place ∧ place < segment.start + segment.length) ∧
      (Lib.System.Admitted Buffer.InTurn (Buffer.input max_buff_size (asksOf stream output))
          Buffer.empty segments →
        buffer.positions = List.range buffer.positions.length) := by
  obtain ⟨run, inputs, matched⟩ := (matches_init memory small).inputs aligns clean
  refine ⟨run, _, inputs, rfl, matched.sent, ?_, ?_⟩
  · have empty : Only (fun place => ∃ segment ∈ segments, segment.start ≤ place ∧
        place < segment.start + segment.length) Buffer.empty := by
      refine ⟨?_, ?_⟩
      · simp [Buffer.empty]
      · simp [Buffer.empty]
    apply (empty.inputs _).sent
    intro segment isIn place above below
    exact ⟨segment, isIn, above, below⟩
  · intro inTurn
    have empty : Turn Buffer.empty := ⟨rfl, by simp [Buffer.empty]⟩
    exact (empty.inputs inTurn).positions

instance (start : Nat) (received : Finset Nat) (offset fits : Nat) :
    Decidable (NoGap start received offset fits) :=
  inferInstanceAs (Decidable (_ → ∀ place < offset, _))

instance (max_buff_size : Nat) (saved : Saved) (segment : Segment) :
    Decidable (saved.Clean max_buff_size segment) :=
  inferInstanceAs (Decidable (_ ∧ _ ∧ _ ∧ _))

instance (max_buff_size : Nat) (buffer : Buffer) (segment : Segment) :
    Decidable (buffer.Clean max_buff_size segment) :=
  inferInstanceAs (Decidable (_ ∨ ∀ saved ∈ buffer.saved, _))

/-- The reader keeps what it is given first, and the numbers wrap behind the second byte. -/
theorem tcpb_hands_over_kept :
    ∃ run buffer, tcpbInputs alignUp 8 (fun sent _ => if sent = [] then [0] else [])
        (fun i => BitVec.ofNat 8 i) 0xfffffffe ⟨tcbpInitNode (fun _ => 0) 8 0xfffffffe, []⟩
        [⟨0, 3, by decide⟩, ⟨3, 2, by decide⟩] = some run ∧
      buffer = [Segment.mk 0 3 (by decide), ⟨3, 2, by decide⟩].foldl (Buffer.input 8
        (asksOf (fun i => BitVec.ofNat 8 i) fun sent _ => if sent = [] then [0] else []))
        Buffer.empty ∧
      run.sent = buffer.sent.map (handedBuf fun i => BitVec.ofNat 8 i) ∧
      (∀ handed ∈ buffer.sent, handed.From fun place =>
        ∃ segment ∈ [Segment.mk 0 3 (by decide), ⟨3, 2, by decide⟩],
          segment.start ≤ place ∧ place < segment.start + segment.length) ∧
      (Lib.System.Admitted Buffer.InTurn (Buffer.input 8
          (asksOf (fun i => BitVec.ofNat 8 i) fun sent _ => if sent = [] then [0] else []))
          Buffer.empty [⟨0, 3, by decide⟩, ⟨3, 2, by decide⟩] →
        buffer.positions = List.range buffer.positions.length) :=
  tcpb_hands_over alignUp_aligns _ _ _ _ (by decide) _ (by decide +kernel)

/-- A segment that comes twice is handed over twice, to a reader that keeps nothing. -/
theorem tcpb_repeats :
    ¬ ∀ (segments : List Segment) (run : TcpbRun),
      tcpbInputs alignUp 64 (fun _ _ => []) (fun i => BitVec.ofNat 8 i) 0
          ⟨tcbpInitNode (fun _ => 0) 64 0, []⟩ segments = some run →
        ∃ length, run.sent.flatMap TcpbBuf.data = bytesOf (fun i => BitVec.ofNat 8 i) 0 length := by
  intro inOrder
  obtain ⟨length, same⟩ := inOrder [⟨0, 2, by decide⟩, ⟨0, 2, by decide⟩] _ rfl
  have long := congrArg List.length same
  have four : length = 4 := by simpa using long.symm
  rw [four] at same
  exact absurd same (by decide +kernel)

end MyCode.Tcpb
