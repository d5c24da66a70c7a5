import MyCode.DataQue

/-!
# Data queues as queues of messages

As long as the reader has left the start of the ring, and a message of no bytes does not
look like the mark at the end, the ring holds a queue of messages.
-/

namespace MyCode.DataQue

open Lib List Option Nat

/-- The message keeps the indices apart while the reader is at the start, its end is an
`int`, and without bytes it is put at the start of the ring or refused. -/
structure MessageFits (ctrl : DataQueS) (message : Message) : Prop where
  small : ctrl.write + message.data.length + 4 < 2 ^ 31
  apart : ctrl.read = 0 → ctrl.write + message.data.length + 8 < ctrl.size
  marked : message.data = [] →
    ctrl.write = 0 ∨ ctrl.write < ctrl.read ∧ ctrl.read ≤ ctrl.write + 4

def DataQueCall.Fits (run : DataQueRun) : DataQueCall → Prop
  | put message => MessageFits run.ctrl message
  | get => True

/-- The messages that were accepted and not returned. -/
def DataQueRun.unread (run : DataQueRun) : List (List UCHAR) :=
  run.accepted.drop run.returned.length

/-- Messages come out once, unmodified and in the order in which they went in; a put is
refused or accepted. -/
structure DataQueFifo (run : DataQueRun) : Prop where
  order : run.accepted = run.returned ++ run.unread
  get : ∃ after, dataQueTake run.ctrl = some (after, run.unread.head?)
  put : ∀ message, MessageFits run.ctrl message → ∃ after status,
    dataQuePush run.ctrl message = some (after, status) ∧ (status = .ok ∨ status = .full)

/-- The length and the bytes of a message stand at a place. -/
structure StoredAt (base : Block UCHAR) (place : Nat) (data : List UCHAR) : Prop where
  short : data.length < 2 ^ 31
  inside : place + 4 + data.length ≤ base.size
  length : base.slice place 4 = (List.range 4).map (uintBytes (BitVec.ofNat 32 data.length))
  data : base.slice (place + 4) data.length = data

/-- The messages stand one after the other from `start` to `stop`; one without bytes
only stands at the start of the ring. -/
inductive Stored (base : Block UCHAR) : Nat → Nat → List (List UCHAR) → Prop where
  | nil {place : Nat} : Stored base place place []
  | cons {start stop : Nat} {data : List UCHAR} {rest : List (List UCHAR)} :
      StoredAt base start data →
      (data = [] → start = 0) →
      Stored base (start + 4 + data.length) stop rest →
      Stored base start stop (data :: rest)

variable {base after : Block UCHAR} {start stop place : Nat} {data : List UCHAR}
  {messages rest : List (List UCHAR)}

theorem Stored.le (stored : Stored base start stop messages) : start ≤ stop := by
  induction stored with
  | nil => exact Nat.le_refl _
  | cons => omega

theorem StoredAt.frame (stored : StoredAt base place data) (size : after.size = base.size)
    (same : ∀ i, place ≤ i → i < place + 4 + data.length → after.cells i = base.cells i) :
    StoredAt after place data := by
  refine ⟨stored.short, by rw [size]; exact stored.inside, ?_, ?_⟩
  · rw [← stored.length]
    apply map_congr_left
    intro i inside
    have bounded := mem_range.mp inside
    apply same <;> omega
  conv_rhs => rw [← stored.data]
  apply map_congr_left
  intro i inside
  have bounded := mem_range.mp inside
  apply same <;> omega

theorem Stored.frame (stored : Stored base start stop messages) (size : after.size = base.size)
    (same : ∀ i, start ≤ i → i < stop → after.cells i = base.cells i) :
    Stored after start stop messages := by
  induction stored with
  | nil => exact .nil
  | cons first atStart others ih =>
    have beyond := others.le
    refine .cons ?_ atStart (ih ?_)
    · apply first.frame size
      intro i least most
      apply same <;> omega
    · intro i least most
      apply same <;> omega

theorem Stored.append (stored : Stored base start stop messages) (last : StoredAt base stop data)
    (atStart : data = [] → stop = 0) :
    Stored base start (stop + 4 + data.length) (messages ++ [data]) := by
  induction stored with
  | nil => exact .cons last atStart .nil
  | cons first firstAtStart _ ih => exact .cons first firstAtStart (ih last atStart)

theorem toInt_ofNat (short : data.length < 2 ^ 31) :
    (BitVec.ofNat 32 data.length).toInt = data.length := by
  rw [BitVec.toInt_eq_toNat_of_lt, BitVec.toNat_ofNat, mod_eq_of_lt (by omega)]
  rw [BitVec.toNat_ofNat, mod_eq_of_lt (by omega)]
  omega

theorem StoredAt.len (stored : StoredAt base place data) :
    dataQueLen base place = some (data.length : Int) := by
  have inside := stored.inside
  have positive : (0 : Int) ≤ place := Int.natCast_nonneg _
  have length := @Block.copyOut_eq _ base place 4 (by omega)
  rw [dataQueLen, if_pos positive, Int.toNat_natCast, length, stored.length]
  simp [bytesUint_uintBytes, toInt_ofNat stored.short]

theorem StoredAt.bytes (stored : StoredAt base place data) :
    dataQueData base place (data.length : Int) = some data := by
  have inside := stored.inside
  have positive : (0 : Int) ≤ place ∧ (0 : Int) ≤ data.length :=
    ⟨Int.natCast_nonneg _, Int.natCast_nonneg _⟩
  have behind : ((place : Int) + 4).toNat = place + 4 := by omega
  rw [dataQueData, if_pos positive, behind, Int.toNat_natCast, Block.copyOut_eq inside, stored.data]

theorem getD_range : (range data.length).map (fun i => data.getD i 0) = data := by
  apply ext_getElem
  · simp
  · intro i first second
    simp [second]

/-- The ring with a message written at a place. -/
def putAt (base : Block UCHAR) (place : Nat) (data : List UCHAR) : Block UCHAR :=
  (base.paste place (uintBytes (BitVec.ofNat 32 data.length)) 4).paste (place + 4)
    (fun i => data.getD i 0) data.length

theorem putAt_other {i : Nat} (outside : i < place ∨ place + 4 + data.length ≤ i) :
    (putAt base place data).cells i = base.cells i := by
  rw [putAt, Block.paste_old (by omega), Block.paste_old (by omega)]

theorem storedAt_putAt (short : data.length < 2 ^ 31)
    (inside : place + 4 + data.length ≤ base.size) :
    StoredAt (putAt base place data) place data := by
  refine ⟨short, inside, ?_, ?_⟩
  · rw [putAt, Block.slice_paste_other (by omega), Block.slice_paste_self]
  · rw [putAt, Block.slice_paste_self, getD_range]

theorem setLen_eq {len : Nat} (inside : place + 4 ≤ base.size) :
    dataQueSetLen base place len =
      some (base.paste place (uintBytes (BitVec.ofNat 32 len)) 4) := by
  have positive : (0 : Int) ≤ place := Int.natCast_nonneg _
  rw [dataQueSetLen, if_pos positive, Int.toNat_natCast, Block.copyIn_eq inside]
  rfl

theorem setData_eq (inside : place + 4 + data.length ≤ base.size) :
    dataQueSetData (base.paste place (uintBytes (BitVec.ofNat 32 data.length)) 4) place data =
      some (putAt base place data) := by
  have positive : (0 : Int) ≤ place := Int.natCast_nonneg _
  have behind : ((place : Int) + 4).toNat = place + 4 := by omega
  rw [dataQueSetData, if_pos positive, behind, Block.copyIn_eq (by rw [Block.size_paste]; exact inside)]
  rfl

theorem int32_eq {value : Int} (least : -2 ^ 31 ≤ value) (most : value < 2 ^ 31) :
    int32 value = value := by
  rw [int32]
  omega

structure DataQueSized (ctrl : DataQueS) (size read write : Nat) : Prop where
  small : size < 2 ^ 31
  room : ctrl.base.size = size
  size : ctrl.size = size
  read : ctrl.read = read
  write : ctrl.write = write

variable {ctrl : DataQueS} {size read write : Nat} {message : Message}
  {unread : List (List UCHAR)}

theorem dataQueShort_iff {index : Nat} (small : size < 2 ^ 31) (inside : index ≤ size) :
    dataQueShort size index ↔ size ≤ index + 4 := by
  rw [dataQueShort, int32_eq (by omega) (by omega)]
  omega

/-- Where an index goes that was moved to `index`. -/
def wrapAt (size index : Nat) : Nat :=
  if size ≤ index + 4 then 0 else index

section

variable (sized : DataQueSized ctrl size read write)

include sized

theorem DataQueSized.pop (stored : StoredAt ctrl.base read data) :
    dataQuePop ctrl read =
      some { ctrl with read := wrapAt size (read + 4 + data.length) } := by
  have inside := stored.inside
  have small := sized.small
  rw [sized.room] at inside
  have next : int32 (ctrl.read + int32 (data.length + 4)) = (read + 4 + data.length : Nat) := by
    have need : int32 ((data.length : Int) + 4) = data.length + 4 := int32_eq (by omega) (by omega)
    rw [sized.read, need, int32_eq (by omega) (by omega)]
    omega
  have wraps : (((read + 4 + data.length : Nat) : Int) ≥ ctrl.size ∨
      dataQueShort ctrl.size (read + 4 + data.length : Nat)) ↔
        size ≤ read + 4 + data.length + 4 := by
    rw [sized.size, dataQueShort_iff small inside]
    omega
  simp only [dataQuePop, stored.len, bind_eq_bind, bind_some, next, wraps, wrapAt]
  split <;> rfl

theorem DataQueSized.take (apart : read ≠ write)
    (stored : StoredAt ctrl.base read data) (atStart : data = [] → read = 0) :
    dataQueTake ctrl =
      some ({ ctrl with read := wrapAt size (read + 4 + data.length) }, some data) := by
  have differ : ¬ctrl.read = ctrl.write := by
    rw [sized.read, sized.write]
    omega
  have length := stored.len
  rw [← sized.read] at length
  have stays : (if (data.length : Int) = 0 then { ctrl with read := 0 } else ctrl) = ctrl := by
    split
    · next zero =>
      have atZero := atStart (eq_nil_of_length_eq_zero (Int.ofNat.inj zero))
      have readZero : ctrl.read = 0 := by
        rw [sized.read, atZero]
        rfl
      rw [← readZero]
    · rfl
  have found : dataQueGet ctrl = some (ctrl, some (read : Int)) := by
    simp only [dataQueGet, if_neg differ, length, bind_eq_bind, bind_some, stays]
    rw [sized.read]
  simp [dataQueTake, found, stored.len, stored.bytes, sized.pop stored]

theorem DataQueSized.get_mark (apart : read ≠ write)
    (inside : read + 4 ≤ size) (mark : ctrl.base.slice read 4 = (range 4).map (uintBytes 0)) :
    dataQueGet ctrl =
      some ({ ctrl with read := 0 }, if write = 0 then none else some 0) := by
  have differ : ¬ctrl.read = ctrl.write := by
    rw [sized.read, sized.write]
    omega
  have positive : (0 : Int) ≤ read := Int.natCast_nonneg _
  have length : dataQueLen ctrl.base ctrl.read = some 0 := by
    rw [sized.read, dataQueLen, if_pos positive, Int.toNat_natCast,
      Block.copyOut_eq (by rw [sized.room]; exact inside), mark]
    simp [bytesUint_uintBytes]
  have meets : (0 : Int) = ctrl.write ↔ write = 0 := by
    rw [sized.write]
    omega
  rw [dataQueGet, if_neg differ, length]
  simp [meets]

theorem DataQueSized.appended
    (inside : write + 4 + data.length ≤ size) (short : data.length < 2 ^ 31) :
    dataQueAppend ctrl (data.length + 4) data =
      some ({ ctrl with
        base := putAt ctrl.base write data
        write := wrapAt size (write + 4 + data.length) }, .ok) := by
  have small := sized.small
  have insideBase : write + 4 + data.length ≤ ctrl.base.size := by
    rw [sized.room]
    exact inside
  have next : int32 (ctrl.write + (data.length + 4)) = (write + 4 + data.length : Nat) := by
    rw [sized.write, int32_eq (by omega) (by omega)]
    omega
  have wraps : dataQueShort ctrl.size (write + 4 + data.length : Nat) ↔
      size ≤ write + 4 + data.length + 4 := by
    rw [sized.size, dataQueShort_iff small inside]
  have lengthIn := @setLen_eq ctrl.base write data.length (by omega)
  rw [dataQueAppend, sized.write] at *
  simp only [lengthIn, setData_eq insideBase, bind_eq_bind, bind_some, next, wraps, wrapAt]
  split <;> rfl

end

/-- The ring ends at `stop`: less room is left than a length takes, or it is marked. -/
def EndsAt (base : Block UCHAR) (size read stop : Nat) : Prop :=
  stop ≤ size ∧ size ≤ stop + 4 ∧ read < stop ∨
    stop + 4 ≤ size ∧ base.slice stop 4 = (List.range 4).map (uintBytes 0)

/-- The ring holds the messages, in one piece or turned around its end. -/
inductive DataQueHolds (ctrl : DataQueS) : List (List UCHAR) → Prop where
  | straight {size read write : Nat} {unread : List (List UCHAR)} :
      DataQueSized ctrl size read write →
      Stored ctrl.base read write unread →
      write = 0 ∨ write + 4 < size →
      DataQueHolds ctrl unread
  | turned {size read write stop : Nat} {first second : List (List UCHAR)} :
      DataQueSized ctrl size read write →
      write < read →
      Stored ctrl.base read stop first →
      EndsAt ctrl.base size read stop →
      Stored ctrl.base 0 write second →
      DataQueHolds ctrl (first ++ second)

theorem EndsAt.le {stop : Nat} (ends : EndsAt base size read stop) : stop ≤ size := by
  rcases ends with _ | _ <;> omega

theorem DataQueHolds.take_straight (sized : DataQueSized ctrl size read write)
    (stored : Stored ctrl.base read write unread) (room : write = 0 ∨ write + 4 < size) :
    ∃ after, dataQueTake ctrl = some (after, unread.head?) ∧ DataQueHolds after unread.tail := by
  cases stored with
  | nil =>
    have same : ctrl.read = ctrl.write := by rw [sized.read, sized.write]
    have found : dataQueGet ctrl = some (ctrl, none) := by rw [dataQueGet, if_pos same]
    exact ⟨ctrl, by simp [dataQueTake, found], .straight sized .nil room⟩
  | @cons _ _ data _ first atStart others =>
    have beyond := others.le
    refine ⟨_, sized.take (by omega) first atStart, ?_⟩
    have stays : wrapAt size (read + 4 + data.length) = read + 4 + data.length := if_neg (by omega)
    rw [stays]
    exact .straight ⟨sized.small, sized.room, sized.size, rfl, sized.write⟩ others room

theorem DataQueHolds.take (holds : DataQueHolds ctrl unread) :
    ∃ after, dataQueTake ctrl = some (after, unread.head?) ∧ DataQueHolds after unread.tail := by
  cases holds with
  | straight sized stored room => exact take_straight sized stored room
  | @turned size read write _ _ second sized _ stored ends storedSecond =>
    have inside := ends.le
    cases stored with
    | nil =>
      rcases ends with _ | ⟨fits, mark⟩
      · omega
      have restart : DataQueSized { ctrl with read := 0 } size 0 write :=
        ⟨sized.small, sized.room, sized.size, rfl, sized.write⟩
      have found := sized.get_mark (by omega) fits mark
      obtain ⟨after, taken, next⟩ := take_straight restart storedSecond (.inr (by omega))
      refine ⟨after, ?_, next⟩
      -- Getting from the mark gets what is at the start.
      have same : dataQueGet { ctrl with read := 0 } = dataQueGet ctrl := by
        rw [found]
        cases storedSecond with
        | nil =>
          have empty : (0 : Int) = ctrl.write := by
            rw [sized.write]
            rfl
          rw [dataQueGet, if_pos empty]
          rfl
        | @cons _ _ data _ head _ others =>
          have beyond := others.le
          have differ : ¬(0 : Int) = ctrl.write := by
            rw [sized.write]
            omega
          have length : dataQueLen ctrl.base 0 = some (data.length : Int) := head.len
          rw [dataQueGet, if_neg differ, if_neg (by omega)]
          simp [length, ite_self, if_neg differ]
      rw [dataQueTake, same] at taken
      exact taken
    | @cons _ _ data rest head atStart others =>
      have beyond := others.le
      refine ⟨_, sized.take (by omega) head atStart, ?_⟩
      rw [wrapAt]
      split
      · next last =>
        -- The last message before the end: nothing else fits behind it.
        have none_ : rest = [] := by
          cases others with
          | nil => rfl
          | @cons _ _ second _ _ otherAtStart more =>
            have further := more.le
            have someBytes : second ≠ [] := by
              intro empty
              have zero := otherAtStart empty
              omega
            have length := length_pos_iff.mpr someBytes
            omega
        subst none_
        exact .straight ⟨sized.small, sized.room, sized.size, rfl, sized.write⟩ storedSecond
          (.inr (by omega))
      · next further =>
        refine .turned ⟨sized.small, sized.room, sized.size, rfl, sized.write⟩ (by omega) others
          ?_ storedSecond
        rcases ends with ends | ends
        · exact .inl ⟨ends.1, ends.2.1, by omega⟩
        · exact .inr ends

/-- What a put may do to the messages of the ring. -/
def PutHolds (unread : List (List UCHAR)) (message : Message) :
    Option (DataQueS × BsStatus) → Prop
  | none => False
  | some (after, status) =>
    status = .ok ∧ DataQueHolds after (unread ++ [message.data]) ∨
      status = .full ∧ DataQueHolds after unread

theorem need_eq (fits : MessageFits ctrl message) (positive : 0 ≤ ctrl.write) :
    int32 (message.data.length + 4) = message.data.length + 4 := by
  have small := fits.small
  exact int32_eq (by omega) (by omega)

theorem DataQueSized.put_turned {stop : Nat} {first second : List (List UCHAR)}
    (sized : DataQueSized ctrl size read write) (less : write < read)
    (stored : Stored ctrl.base read stop first) (ends : EndsAt ctrl.base size read stop)
    (storedSecond : Stored ctrl.base 0 write second)
    (small : (write : Int) + message.data.length + 4 < 2 ^ 31)
    (marked : message.data = [] → write = 0 ∨ read ≤ write + 4) :
    PutHolds (first ++ second) message
      (if ctrl.read > ctrl.write ∧ int32 (ctrl.write + (message.data.length + 4)) ≥ ctrl.read then
        some (ctrl, .full)
      else dataQueAppend ctrl (message.data.length + 4) message.data) := by
  have beyond := stored.le
  have inside := ends.le
  have next : int32 (ctrl.write + (message.data.length + 4)) = write + 4 + message.data.length := by
    rw [sized.write, int32_eq (by omega) (by omega)]
    omega
  rw [next, sized.read, sized.write]
  split
  · exact .inr ⟨rfl, .turned sized less stored ends storedSecond⟩
  next room =>
  have before : write + 4 + message.data.length < read := by omega
  have stays : wrapAt size (write + 4 + message.data.length) = write + 4 + message.data.length := by
    rw [wrapAt, if_neg]
    rcases ends with _ | _
    · -- A message stands between the reader and the end.
      cases stored with
      | nil => omega
      | cons _ _ others =>
        have further := others.le
        omega
    · omega
  have keptSecond : Stored (putAt ctrl.base write message.data) 0 write second := by
    refine storedSecond.frame ?_ fun i _ most => putAt_other (by omega)
    rfl
  rw [sized.appended (by omega) message.short, stays]
  refine .inl ⟨rfl, ?_⟩
  rw [append_assoc]
  refine .turned ⟨sized.small, sized.room, sized.size, sized.read, rfl⟩ before
    (stored.frame rfl ?_) ?_ (keptSecond.append (storedAt_putAt message.short ?_) ?_)
  · intro i least _
    exact putAt_other (by omega)
  · rcases ends with ends | ⟨fits, mark⟩
    · exact .inl ends
    refine .inr ⟨fits, ?_⟩
    rw [← mark]
    apply map_congr_left
    intro i _
    exact putAt_other (by omega)
  · rw [sized.room]
    omega
  · intro empty
    rcases marked empty with start | _
    · exact start
    · omega

theorem DataQueSized.put_straight (sized : DataQueSized ctrl size read write)
    (stored : Stored ctrl.base read write unread) (room : write = 0 ∨ write + 4 < size)
    (fits : MessageFits ctrl message) : PutHolds unread message (dataQuePush ctrl message) := by
  have small := fits.small
  have beyond := stored.le
  have apart := fits.apart
  have marked := fits.marked
  rw [sized.write, sized.read, sized.size] at apart
  rw [sized.write, sized.read] at marked
  rw [sized.write] at small
  have need := need_eq fits (by rw [sized.write]; exact Int.natCast_nonneg _)
  have next : int32 (ctrl.write + (message.data.length + 4)) = write + 4 + message.data.length := by
    rw [sized.write, int32_eq (by omega) (by omega)]
    omega
  by_cases long : size < write + 4 + message.data.length
  · -- The end of the ring is marked, and the message goes to its start.
    have turns : ctrl.write ≥ ctrl.read ∧
        int32 (ctrl.write + (message.data.length + 4)) > ctrl.size := by
      rw [next, sized.write, sized.read, sized.size]
      omega
    have mark := @setLen_eq ctrl.base write 0 (by rw [sized.room]; omega)
    have marks : dataQueSetLen ctrl.base ctrl.write 0 =
        some (ctrl.base.paste write (uintBytes 0) 4) := by
      rw [sized.write]
      exact mark
    have turned : dataQueTurn ctrl (message.data.length + 4) =
        some { ctrl with base := ctrl.base.paste write (uintBytes 0) 4, write := 0 } := by
      rw [dataQueTurn, if_pos turns, marks]
      rfl
    simp only [dataQuePush, need, turned, bind_eq_bind, bind_some]
    have afterTurn : DataQueSized
        { ctrl with base := ctrl.base.paste write (uintBytes 0) 4, write := 0 } size read 0 :=
      ⟨sized.small, sized.room, sized.size, sized.read, rfl⟩
    have put := @put_turned _ size read 0 message write unread [] afterTurn (by omega)
      (stored.frame rfl fun i _ most => Block.paste_old (by omega))
      (.inr ⟨by omega, Block.slice_paste_self⟩) .nil (by omega) (fun _ => .inl rfl)
    rw [append_nil] at put
    exact put
  have stays : dataQueTurn ctrl (message.data.length + 4) = some ctrl := by
    rw [dataQueTurn, if_neg]
    rw [next, sized.write, sized.read, sized.size]
    omega
  have notBehind : ¬(ctrl.read > ctrl.write ∧
      int32 (ctrl.write + (message.data.length + 4)) ≥ ctrl.read) := by
    rw [sized.write, sized.read]
    omega
  have stored' : Stored (putAt ctrl.base write message.data) read
      (write + 4 + message.data.length) (unread ++ [message.data]) := by
    have kept : Stored (putAt ctrl.base write message.data) read write unread := by
      refine stored.frame ?_ fun i _ most => putAt_other (by omega)
      rfl
    refine kept.append (storedAt_putAt message.short ?_) ?_
    · rw [sized.room]
      omega
    · intro empty
      rcases marked empty with _ | _ <;> omega
  simp only [dataQuePush, need, stays, bind_eq_bind, bind_some, if_neg notBehind,
    sized.appended (Nat.not_lt.mp long) message.short, wrapAt]
  refine .inl ⟨rfl, ?_⟩
  split
  · next last =>
    -- The reader is not at the start, so the write index may go there.
    have turned := @DataQueHolds.turned _ size read 0 (write + 4 + message.data.length) _ []
      (⟨sized.small, sized.room, sized.size, sized.read, rfl⟩ : DataQueSized
        { ctrl with base := putAt ctrl.base write message.data, write := ((0 : Nat) : Int) }
        size read 0) (by omega) stored' (.inl ⟨by omega, last, by omega⟩) .nil
    rw [append_nil] at turned
    exact turned
  · next further =>
    exact .straight ⟨sized.small, sized.room, sized.size, sized.read, rfl⟩ stored'
      (.inr (by omega))

theorem DataQueHolds.put (holds : DataQueHolds ctrl unread) (fits : MessageFits ctrl message) :
    PutHolds unread message (dataQuePush ctrl message) := by
  cases holds with
  | straight sized stored room => exact sized.put_straight stored room fits
  | @turned _ read write _ _ _ sized less stored ends storedSecond =>
    have small := fits.small
    have marked := fits.marked
    rw [sized.write] at small
    rw [sized.write, sized.read] at marked
    have need := need_eq fits (by rw [sized.write]; exact Int.natCast_nonneg _)
    have stays : dataQueTurn ctrl (message.data.length + 4) = some ctrl := by
      rw [dataQueTurn, if_neg]
      rw [sized.write, sized.read]
      omega
    simp only [dataQuePush, need, stays, bind_eq_bind, bind_some]
    apply sized.put_turned less stored ends storedSecond small
    intro empty
    rcases marked empty with _ | _ <;> omega

/-- The ring holds what was accepted and not returned. -/
def DataQueRunOk (run : DataQueRun) : Prop :=
  ∃ unread, run.accepted = run.returned ++ unread ∧ DataQueHolds run.ctrl unread

variable {run next : DataQueRun} {call : DataQueCall}

theorem DataQueRunOk.step (ok : DataQueRunOk run) (fits : call.Fits run)
    (ran : call.run run = some next) : DataQueRunOk next := by
  obtain ⟨unread, order, holds⟩ := ok
  cases call with
  | put message =>
    have put := holds.put fits
    simp only [DataQueCall.run, map_eq_some_iff] at ran
    obtain ⟨⟨_, _⟩, pushed, rfl⟩ := ran
    rw [pushed] at put
    rcases put with ⟨rfl, holdsMore⟩ | ⟨rfl, holdsSame⟩
    · refine ⟨unread ++ [message.data], ?_, holdsMore⟩
      simp [order]
    · refine ⟨unread, ?_, holdsSame⟩
      simp [order]
  | get =>
    obtain ⟨_, taken, holdsRest⟩ := holds.take
    simp only [DataQueCall.run, taken, map_some, some.injEq] at ran
    subst ran
    refine ⟨unread.tail, ?_, holdsRest⟩
    cases unread with
    | nil => simp [order]
    | cons => simp [order]

theorem DataQueRunOk.fifo (ok : DataQueRunOk run) : DataQueFifo run := by
  obtain ⟨unread, order, holds⟩ := ok
  have same : run.unread = unread := by
    rw [DataQueRun.unread, order, drop_left]
  rw [← same] at order holds
  obtain ⟨after, taken, _⟩ := holds.take
  refine ⟨order, ⟨after, taken⟩, ?_⟩
  intro message fits
  have put := holds.put fits
  cases pushed : dataQuePush run.ctrl message with
  | none =>
    rw [pushed] at put
    exact put.elim
  | some result =>
    rw [pushed] at put
    rcases put with ⟨status, _⟩ | ⟨status, _⟩
    · exact ⟨result.1, result.2, rfl, .inl status⟩
    · exact ⟨result.1, result.2, rfl, .inr status⟩

theorem dataQue_fifo (reached : dataQueSystem.ReachableWhen (fun run call => call.Fits run) run) :
    DataQueFifo run := by
  apply DataQueRunOk.fifo
  refine reached.invariant ?_ fun _ _ _ ok fits ran => ok.step fits ran
  rintro _ ⟨_, _, small, rfl⟩
  exact ⟨[], rfl, .straight ⟨small, rfl, rfl, rfl, rfl⟩ .nil (.inl rfl)⟩

def emptyRing (size : Nat) : DataQueRun :=
  ⟨dataQueInit size fun _ => 0, [], []⟩

theorem emptyRing_reached {guard : DataQueRun → DataQueCall → Prop} {size : Nat}
    (small : size < 2 ^ 31) : dataQueSystem.ReachableWhen guard (emptyRing size) :=
  .start ⟨size, _, small, rfl⟩

def threeBytes : Message :=
  ⟨[1, 2, 3], by decide⟩

def ringOfThree : DataQueRun :=
  ((DataQueCall.put threeBytes).run (emptyRing 64)).getD (emptyRing 64)

theorem dataQue_fifo_three : DataQueFifo ringOfThree :=
  dataQue_fifo (.step (emptyRing_reached (by decide))
    (show (DataQueCall.put threeBytes).Fits (emptyRing 64) from
      ⟨by decide, fun _ => by decide, nofun⟩) rfl)

/-- A ring of 12 bytes that accepted a message of 4 bytes. -/
def ringFilled : DataQueRun :=
  ((DataQueCall.put ⟨[1, 2, 3, 4], by decide⟩).run (emptyRing 12)).getD (emptyRing 12)

/-- The write index comes back to the read index, and the message is not returned. -/
theorem dataQue_loses : dataQueSystem.Reachable ringFilled ∧ ¬DataQueFifo ringFilled := by
  have stepped : dataQueSystem.step (emptyRing 12) (.put ⟨[1, 2, 3, 4], by decide⟩) ringFilled :=
    rfl
  refine ⟨.step (emptyRing_reached (by decide)) trivial stepped, ?_⟩
  intro fifo
  obtain ⟨_, taken⟩ := fifo.get
  have nothing : (dataQueTake ringFilled.ctrl).map Prod.snd ≠ some (some [1, 2, 3, 4]) := by
    decide
  exact nothing (congrArg (Option.map Prod.snd) taken)

end MyCode.DataQue
