import MyCode.ByteQue
import MyCode.Lib.CyclicWindow
import MyCode.Lib.Transition

/-!
# Byte queues as bounded lists

A queue whose size fits 32 bits gives the answers of a list of at most as many bytes as
its capacity.
-/

namespace MyCode.ByteQue

open Lib BitVec List Nat Option

/-- The byte that a call returns, if there is one. -/
def byteOrErr : Option UCHAR → UINT
  | none => BYTE_QUE_POP_ERR
  | some ucChar => ucChar.setWidth 32

/-- What the calls mean for a list of at most `capacity` bytes. -/
def boundedStep (capacity : Nat) (overwrite : Bool) (bytes : List UCHAR) :
    ByteQueCall → List UCHAR × ByteQueAnswer
  | .push ucChar =>
    if bytes.length < capacity then (bytes ++ [ucChar], .status .ok)
    else if overwrite then (bytes.tail ++ [ucChar], .status .ok)
    else (bytes, .status .full)
  | .pop => (bytes.tail, .word (byteOrErr bytes.head?))
  | .popSpec uiIndex => (bytes.eraseIdx uiIndex.toNat, .word (byteOrErr bytes[uiIndex.toNat]?))
  | .popTail => (bytes.dropLast, .word (byteOrErr bytes.getLast?))
  | .peekOne uiIndex => (bytes, .word (byteOrErr bytes[uiIndex.toNat]?))
  | .peek uiIndex uiCount =>
    let pucBuf := (bytes.drop uiIndex.toNat).take uiCount.toNat
    (bytes, .bytes pucBuf (BitVec.ofNat 32 pucBuf.length))
  | .clear => ([], .done)
  | .count => (bytes, .word (BitVec.ofNat 32 bytes.length))
  | .isFull => (bytes, .flag (capacity ≤ bytes.length))

def byteQueContents (que : ByteQueCtrl) : List UCHAR :=
  cyclicWindow que.aucData.cells que.uiCapacity.toNat que.uiBase.toNat que.uiCount.toNat

def CyclicAdd (NUM_CYCLE_INDEX_ADD : UINT → UINT → UINT → UINT) : Prop :=
  ∀ index count size : UINT, index < size → count ≤ size →
    (NUM_CYCLE_INDEX_ADD index count size).toNat = (index.toNat + count.toNat) % size.toNat

/-- The queue was created with this capacity and flag and holds these bytes. -/
structure ByteQueHolds (uiCapacity uiFlag : UINT) (que : ByteQueCtrl) (bytes : List UCHAR) :
    Prop where
  capacity : que.uiCapacity = uiCapacity
  flag : que.uiFlag = uiFlag
  room : que.aucData.size = uiCapacity.toNat
  base : que.uiBase < uiCapacity
  fits : que.uiCount ≤ uiCapacity
  bytes : byteQueContents que = bytes

variable {N : UINT → UINT → UINT → UINT} {uiCapacity uiFlag : UINT} {que : ByteQueCtrl}
  {bytes rest : List UCHAR} {byte ucChar : UCHAR} {uiIndex uiCount : UINT}

section

variable (holds : ByteQueHolds uiCapacity uiFlag que bytes)

include holds

theorem ByteQueHolds.count : que.uiCount.toNat = bytes.length := by
  simp [← holds.bytes, byteQueContents]

theorem ByteQueHolds.place (adds : CyclicAdd N) {count : UINT} (few : count ≤ uiCapacity) :
    (N que.uiBase count que.uiCapacity).toNat =
      (que.uiBase.toNat + count.toNat) % que.uiCapacity.toNat := by
  apply adds
  · rw [holds.capacity]
    exact holds.base
  · rw [holds.capacity]
    exact few

theorem ByteQueHolds.positive : 0 < que.uiCapacity.toNat := by
  have inside := lt_def.mp holds.base
  rw [holds.capacity]
  omega

theorem ByteQueHolds.inside (place : Nat) : place % que.uiCapacity.toNat < que.aucData.size := by
  rw [holds.room, ← holds.capacity]
  exact mod_lt _ holds.positive

end

theorem ByteQueHolds.pop_nil (holds : ByteQueHolds uiCapacity uiFlag que []) :
    byteQuePop N que = some (que, BYTE_QUE_POP_ERR) := by
  have empty : que.uiCount = 0 := eq_of_toNat_eq holds.count
  simp [byteQuePop, empty]

theorem ByteQueHolds.pop_cons (holds : ByteQueHolds uiCapacity uiFlag que (byte :: rest))
    (adds : CyclicAdd N) :
    ∃ after, byteQuePop N que = some (after, byte.setWidth 32) ∧
      ByteQueHolds uiCapacity uiFlag after rest := by
  have count := holds.count
  have someThere : que.uiCount ≠ 0 := by
    intro empty
    simp [empty] at count
  have one_le : (1 : UINT) ≤ uiCapacity := by
    have positive := holds.positive
    rw [holds.capacity] at positive
    exact le_def.mpr positive
  have less : (que.uiCount - 1).toNat = rest.length := by
    rw [toNat_sub_of_le (by rw [le_def]; simp [count]), count]
    simp
  have next := holds.place adds one_le
  have contents := holds.bytes
  rw [byteQueContents, count, length_cons, cyclicWindow_cons, cons.injEq] at contents
  have straight := mod_eq_of_lt (lt_def.mp holds.base)
  rw [← holds.capacity] at straight
  have loaded : que.aucData.load que.uiBase.toNat = some byte := by
    rw [← contents.1, straight]
    apply Block.load_eq
    rw [← straight]
    exact holds.inside _
  refine ⟨{ que with uiBase := N que.uiBase 1 que.uiCapacity, uiCount := que.uiCount - 1 }, ?_,
    holds.capacity, holds.flag, holds.room, ?_, ?_, ?_⟩
  · rw [byteQuePop, if_neg someThere, loaded]
    rfl
  · rw [lt_def, next, ← holds.capacity]
    exact mod_lt _ holds.positive
  · have fits := le_def.mp holds.fits
    rw [le_def, less]
    rw [count, length_cons] at fits
    omega
  · simp only [byteQueContents, next, less, cyclicWindow_mod]
    exact contents.2

theorem ByteQueHolds.append (holds : ByteQueHolds uiCapacity uiFlag que bytes) (adds : CyclicAdd N)
    (room : bytes.length < uiCapacity.toNat) :
    ∃ after, byteQueAppend N que ucChar = some (after, .ok) ∧
      ByteQueHolds uiCapacity uiFlag after (bytes ++ [ucChar]) := by
  have dest := holds.place adds holds.fits
  have stored : que.aucData.store (N que.uiBase que.uiCount que.uiCapacity).toNat ucChar =
      some (que.aucData.put ((que.uiBase.toNat + que.uiCount.toNat) % que.uiCapacity.toNat)
        ucChar) := by
    rw [dest]
    exact Block.store_eq (holds.inside _)
  have more : (que.uiCount + 1).toNat = que.uiCount.toNat + 1 := by
    have count := holds.count
    simp
    omega
  refine ⟨_, congrArg (bind · _) stored, holds.capacity, holds.flag, holds.room, holds.base, ?_, ?_⟩
  · rw [le_def, more, holds.count]
    exact room
  simp only [byteQueContents, more, Block.put]
  rw [cyclicWindow_push (by rw [holds.count, holds.capacity]; exact room)]
  exact congrArg (· ++ [ucChar]) holds.bytes

theorem CyclicAdd.next (adds : CyclicAdd N) {base j : Nat} {index : UINT}
    (positive : 0 < uiCapacity.toNat) (place : index.toNat = (base + j) % uiCapacity.toNat) :
    (N index 1 uiCapacity).toNat = (base + (j + 1)) % uiCapacity.toNat := by
  have inside : index < uiCapacity := by
    rw [lt_def, place]
    exact mod_lt _ positive
  have one_le : (1 : UINT) ≤ uiCapacity := le_def.mpr positive
  rw [adds index 1 uiCapacity inside one_le, place]
  simp [add_assoc]

theorem byteQueShift_cells (adds : CyclicAdd N) {base rounds j : Nat} {uiDst : UINT}
    {aucData : Block UCHAR} (place : uiDst.toNat = (base + j) % uiCapacity.toNat)
    (room : uiCapacity.toNat ≤ aucData.size) (few : j + rounds < uiCapacity.toNat) :
    ∃ after, byteQueShift N uiCapacity rounds uiDst aucData = some after ∧
      after.size = aucData.size ∧
      (∀ k < j, after.cells ((base + k) % uiCapacity.toNat) =
        aucData.cells ((base + k) % uiCapacity.toNat)) ∧
      ∀ k, j ≤ k → k < j + rounds → after.cells ((base + k) % uiCapacity.toNat) =
        aucData.cells ((base + (k + 1)) % uiCapacity.toNat) := by
  induction rounds generalizing j uiDst aucData with
  | zero => exact ⟨aucData, rfl, rfl, fun _ _ => rfl, fun k least most => by omega⟩
  | succ _ ih =>
    have positive : 0 < uiCapacity.toNat := by omega
    have next := adds.next positive place
    have inside : ∀ i, (base + i) % uiCapacity.toNat < aucData.size := fun i =>
      lt_of_lt_of_le (mod_lt _ positive) room
    obtain ⟨after, shifted, size, kept, moved⟩ :=
      @ih (j + 1) (N uiDst 1 uiCapacity)
        (aucData.put ((base + j) % uiCapacity.toNat)
          (aucData.cells ((base + (j + 1)) % uiCapacity.toNat))) next room (by omega)
    -- Only the place of `j` was written before the other rounds.
    have other : ∀ k, k < uiCapacity.toNat → k ≠ j → (aucData.put ((base + j) % uiCapacity.toNat)
          (aucData.cells ((base + (j + 1)) % uiCapacity.toNat))).cells
            ((base + k) % uiCapacity.toNat) =
          aucData.cells ((base + k) % uiCapacity.toNat) := by
      intro k bounded differs
      apply Function.update_of_ne
      intro same
      exact differs (place_injective bounded (by omega) same)
    refine ⟨after, ?_, size, ?_, ?_⟩
    · simp only [byteQueShift, next, place, Block.load_eq (inside _), Block.store_eq (inside _)]
      exact shifted
    · intro k before
      rw [kept k (by omega), other k (by omega) (by omega)]
    intro k least most
    by_cases first : k = j
    · subst first
      rw [kept k (by omega)]
      exact Function.update_self _ _ _
    · rw [moved k (by omega) (by omega), other (k + 1) (by omega) (by omega)]

section

variable (holds : ByteQueHolds uiCapacity uiFlag que bytes)

include holds

theorem ByteQueHolds.loaded (adds : CyclicAdd N) (there : bytes[uiIndex.toNat]? = some byte) :
    que.aucData.load (N que.uiBase uiIndex que.uiCapacity).toNat = some byte := by
  have inside := (List.getElem?_eq_some_iff.mp there).1
  have few : uiIndex ≤ uiCapacity := by
    have fits := le_def.mp holds.fits
    rw [holds.count] at fits
    rw [le_def]
    omega
  rw [← holds.bytes, byteQueContents, getElem?_cyclicWindow, holds.count, if_pos inside] at there
  rw [holds.place adds few, Block.load_eq (holds.inside _)]
  exact there

theorem ByteQueHolds.index_lt : uiIndex ≥ que.uiCount ↔ bytes[uiIndex.toNat]? = none := by
  rw [List.getElem?_eq_none_iff, ← holds.count]
  exact le_def

theorem ByteQueHolds.popSpec (adds : CyclicAdd N) :
    ∃ after, byteQuePopSpec N que uiIndex = some (after, byteOrErr bytes[uiIndex.toNat]?) ∧
      ByteQueHolds uiCapacity uiFlag after (bytes.eraseIdx uiIndex.toNat) := by
  cases there : bytes[uiIndex.toNat]? with
  | none =>
    have beyond := holds.index_lt.mpr there
    refine ⟨que, by simp [byteQuePopSpec, beyond, byteOrErr], ?_⟩
    rw [eraseIdx_of_length_le (getElem?_eq_none_iff.mp there)]
    exact holds
  | some =>
    have inside := (List.getElem?_eq_some_iff.mp there).1
    have count := holds.count
    have fits := le_def.mp holds.fits
    have notBeyond : ¬uiIndex ≥ que.uiCount := by
      rw [holds.index_lt, there]
      simp
    have few : uiIndex ≤ uiCapacity := by
      rw [le_def]
      omega
    have place := holds.place adds few
    obtain ⟨after, shifted, size, kept, moved⟩ := byteQueShift_cells adds place
      (by rw [holds.room, holds.capacity])
      (show uiIndex.toNat + (que.uiCount.toNat - (uiIndex.toNat + 1)) < que.uiCapacity.toNat by
        rw [holds.capacity]
        omega)
    have less : (que.uiCount - 1).toNat = que.uiCount.toNat - 1 := by
      apply toNat_sub_of_le
      rw [le_def]
      simp
      omega
    refine ⟨{ que with aucData := after, uiCount := que.uiCount - 1 }, ?_, holds.capacity,
      holds.flag, size.trans holds.room, holds.base, ?_, ?_⟩
    · simp only [byteQuePopSpec, if_neg notBeyond, holds.loaded adds there, shifted]
      rfl
    · rw [le_def, less]
      omega
    simp only [byteQueContents, less]
    rw [cyclicWindow_erase (by omega) kept fun k least most => moved k least (by omega)]
    exact congrArg (eraseIdx · uiIndex.toNat) holds.bytes

theorem ByteQueHolds.popTail (adds : CyclicAdd N) :
    ∃ after, byteQuePopTail N que = some (after, byteOrErr bytes.getLast?) ∧
      ByteQueHolds uiCapacity uiFlag after bytes.dropLast := by
  have count := holds.count
  by_cases empty : que.uiCount = 0
  · have nil : bytes = [] := by
      apply eq_nil_of_length_eq_zero
      simp [← count, empty]
    subst nil
    exact ⟨que, by simp [byteQuePopTail, empty, byteOrErr], holds⟩
  have positive : 0 < que.uiCount.toNat := by
    apply Nat.pos_of_ne_zero
    exact fun zero => empty (eq_of_toNat_eq zero)
  have last : (que.uiCount - 1).toNat = bytes.length - 1 := by
    rw [← count]
    apply toNat_sub_of_le
    exact le_def.mpr positive
  obtain ⟨after, popped, next⟩ := @ByteQueHolds.popSpec _ _ _ _ _ (que.uiCount - 1) holds adds
  rw [last, ← getLast?_eq_getElem?, eraseIdx_length_sub_one] at *
  exact ⟨after, by rw [byteQuePopTail, if_neg empty, popped], next⟩

theorem ByteQueHolds.peekOne (adds : CyclicAdd N) :
    byteQuePeekOne N que uiIndex = some (byteOrErr bytes[uiIndex.toNat]?) := by
  cases there : bytes[uiIndex.toNat]? with
  | none => simp [byteQuePeekOne, holds.index_lt.mpr there, byteOrErr]
  | some =>
    have notBeyond : ¬uiIndex ≥ que.uiCount := by
      rw [holds.index_lt, there]
      simp
    simp [byteQuePeekOne, if_neg notBeyond, holds.loaded adds there, byteOrErr]

theorem ByteQueHolds.copy (adds : CyclicAdd N)
    {rounds base : Nat} {uiSrc : UINT} (place : uiSrc.toNat = base % que.uiCapacity.toNat) :
    byteQueCopy N que rounds uiSrc =
      some (cyclicWindow que.aucData.cells que.uiCapacity.toNat base rounds) := by
  induction rounds generalizing base uiSrc with
  | zero => rfl
  | succ _ ih =>
    have next := @CyclicAdd.next N que.uiCapacity adds base 0 uiSrc holds.positive place
    have loaded : que.aucData.load uiSrc.toNat =
        some (que.aucData.cells (base % que.uiCapacity.toNat)) := by
      rw [place]
      exact Block.load_eq (holds.inside _)
    simp only [byteQueCopy, loaded, ih next, cyclicWindow_cons, bind_eq_bind, bind_some]

theorem ByteQueHolds.peek (adds : CyclicAdd N) :
    byteQuePeek N que uiIndex uiCount =
      some ((bytes.drop uiIndex.toNat).take uiCount.toNat,
        BitVec.ofNat 32 ((bytes.drop uiIndex.toNat).take uiCount.toNat).length) := by
  have count := holds.count
  by_cases beyond : uiIndex ≥ que.uiCount
  · have empty : bytes.drop uiIndex.toNat = [] := by
      apply drop_eq_nil_of_le
      rw [← count]
      exact le_def.mp beyond
    simp [byteQuePeek, beyond, empty]
  have inside : uiIndex.toNat < que.uiCount.toNat := by
    simpa [lt_def] using beyond
  have few : uiIndex ≤ uiCapacity := by
    have fits := le_def.mp holds.fits
    rw [le_def]
    omega
  have behind := toNat_sub_of_le (le_def.mpr (le_of_lt inside))
  have copied := @ByteQueHolds.copy _ _ _ _ _ holds adds
    (if uiCount < que.uiCount - uiIndex then uiCount else que.uiCount - uiIndex).toNat _ _
    (holds.place adds few)
  have number : (if uiCount < que.uiCount - uiIndex then uiCount
      else que.uiCount - uiIndex).toNat = min uiCount.toNat (que.uiCount.toNat - uiIndex.toNat) := by
    split
    · next less =>
      rw [lt_def, behind] at less
      omega
    · next notLess =>
      rw [lt_def, behind] at notLess
      omega
  have window : (bytes.drop uiIndex.toNat).take uiCount.toNat =
      cyclicWindow que.aucData.cells que.uiCapacity.toNat (que.uiBase.toNat + uiIndex.toNat)
        (min uiCount.toNat (que.uiCount.toNat - uiIndex.toNat)) := by
    rw [← holds.bytes, byteQueContents, cyclicWindow_drop, take_eq_take_min, length_cyclicWindow]
    exact cyclicWindow_take (min_le_right _ _)
  rw [byteQuePeek, if_neg beyond]
  simp only [copied, window, length_cyclicWindow, bind_eq_bind, bind_some]
  rw [← number, ofNat_toNat, setWidth_eq]

theorem ByteQueHolds.full_iff :
    que.uiCount ≥ que.uiCapacity ↔ ¬bytes.length < uiCapacity.toNat := by
  rw [not_lt, ← holds.count, ← holds.capacity]
  exact le_def

theorem ByteQueHolds.push (adds : CyclicAdd N) :
    Follows (ByteQueHolds uiCapacity uiFlag) (byteQueStep N)
      (boundedStep uiCapacity.toNat (hasFlag uiFlag QUE_FLAG_OVERWRITE)) que bytes
      (.push ucChar) := by
  by_cases room : bytes.length < uiCapacity.toNat
  · have notFull : ¬que.uiCount ≥ que.uiCapacity := fun full => holds.full_iff.mp full room
    obtain ⟨after, appended, next⟩ := @ByteQueHolds.append _ _ _ _ _ ucChar holds adds room
    refine ⟨after, ?_, ?_⟩
    · simp [byteQueStep, byteQuePush, notFull, appended, boundedStep, room]
    · simpa [boundedStep, room] using next
  have full := holds.full_iff.mpr room
  cases overwrite : hasFlag uiFlag QUE_FLAG_OVERWRITE with
  | false =>
    refine ⟨que, ?_, ?_⟩
    · simp [byteQueStep, byteQuePush, full, holds.flag, overwrite, boundedStep, room]
    · simpa [boundedStep, room] using holds
  | true =>
    cases bytes with
    | nil =>
      have positive := holds.positive
      rw [holds.capacity] at positive
      exact absurd positive room
    | cons byte rest =>
      obtain ⟨_, pops, holdsRest⟩ := holds.pop_cons adds
      have fits := le_def.mp holds.fits
      rw [holds.count, length_cons] at fits
      obtain ⟨after, appended, next⟩ := @ByteQueHolds.append _ _ _ _ _ ucChar holdsRest adds fits
      have overwritten : boundedStep uiCapacity.toNat true (byte :: rest) (.push ucChar) =
          (rest ++ [ucChar], .status .ok) := by
        simp only [boundedStep, if_neg room]
        rfl
      rw [Follows, overwritten]
      refine ⟨after, ?_, next⟩
      simp [byteQueStep, byteQuePush, full, holds.flag, overwrite, pops, appended]

end

theorem ByteQueHolds.follows (adds : CyclicAdd N) (call : ByteQueCall)
    (holds : ByteQueHolds uiCapacity uiFlag que bytes) :
    Follows (ByteQueHolds uiCapacity uiFlag) (byteQueStep N)
      (boundedStep uiCapacity.toNat (hasFlag uiFlag QUE_FLAG_OVERWRITE)) que bytes call := by
  cases call with
  | push => exact holds.push adds
  | pop =>
    cases bytes with
    | nil => exact ⟨que, by simp [byteQueStep, holds.pop_nil, boundedStep, byteOrErr], holds⟩
    | cons =>
      obtain ⟨after, popped, next⟩ := holds.pop_cons adds
      exact ⟨after, by simp [byteQueStep, popped, boundedStep, byteOrErr], next⟩
  | popSpec uiIndex =>
    obtain ⟨after, popped, next⟩ := @ByteQueHolds.popSpec _ _ _ _ _ uiIndex holds adds
    exact ⟨after, by simp [byteQueStep, popped, boundedStep], next⟩
  | popTail =>
    obtain ⟨after, popped, next⟩ := holds.popTail adds
    exact ⟨after, by simp [byteQueStep, popped, boundedStep], next⟩
  | peekOne => exact ⟨que, by simp [byteQueStep, holds.peekOne adds, boundedStep], holds⟩
  | peek => exact ⟨que, by simp [byteQueStep, holds.peek adds, boundedStep], holds⟩
  | clear =>
    refine ⟨byteQueClear que, rfl, holds.capacity, holds.flag, holds.room, ?_, ?_, rfl⟩
    · rw [← holds.capacity]
      exact lt_def.mpr holds.positive
    · exact le_def.mpr (zero_le _)
  | count =>
    refine ⟨que, ?_, holds⟩
    simp [byteQueStep, byteQueCount, boundedStep, ← holds.count]
  | isFull =>
    refine ⟨que, ?_, holds⟩
    have full : (que.uiCapacity ≤ que.uiCount) ↔ uiCapacity.toNat ≤ bytes.length := by
      rw [← not_lt]
      exact holds.full_iff
    simp [byteQueStep, byteQueIsFull, boundedStep, full]

theorem byteQueCreate_eq {memory : Nat → UCHAR} (small : uiCapacity.toNat + 16 < 2 ^ 32) :
    byteQueCreate uiCapacity uiFlag memory =
      some ⟨uiCapacity, 0, 0, uiFlag, ⟨uiCapacity.toNat, memory⟩⟩ := by
  have size : (16 + uiCapacity).toNat = 16 + uiCapacity.toNat := by
    exact mod_eq_of_lt (by simp; omega)
  have whole : ¬16 + uiCapacity < 16 := by
    rw [lt_def, size]
    simp
  rw [byteQueCreate]
  simp only [if_neg whole, size, Nat.add_sub_cancel_left]

theorem byteQueCreate_none {memory : Nat → UCHAR} (large : ¬uiCapacity.toNat + 16 < 2 ^ 32) :
    byteQueCreate uiCapacity uiFlag memory = none := by
  have wrapped : 16 + uiCapacity < 16 := by
    bv_omega
  simp only [byteQueCreate, if_pos wrapped]

/-- From its creation on a queue gives the answers of a bounded list, call by call, and
holds the bytes of that list. -/
def ByteQueRefines (N : UINT → UINT → UINT → UINT) (uiCapacity uiFlag : UINT) : Prop :=
  ∀ (memory : Nat → UCHAR) (calls : List ByteQueCall),
    let overwrite := hasFlag uiFlag QUE_FLAG_OVERWRITE
    let bounded := replies (boundedStep uiCapacity.toNat overwrite) [] calls
    ∃ created que, byteQueCreate uiCapacity uiFlag memory = some created ∧
      runs (byteQueStep N) created calls = some (que, bounded.2) ∧
      byteQueContents que = bounded.1 ∧ bounded.1.length ≤ uiCapacity.toNat

theorem byteQue_refines (adds : CyclicAdd N) (positive : 0 < uiCapacity) :
    ByteQueRefines N uiCapacity uiFlag ↔ uiCapacity.toNat + 16 < 2 ^ 32 := by
  constructor
  · intro refines
    by_contra large
    obtain ⟨_, _, exists_, _⟩ := refines (fun _ => 0) []
    rw [byteQueCreate_none large] at exists_
    cases exists_
  · intro small memory calls
    have initially : ByteQueHolds uiCapacity uiFlag
        ⟨uiCapacity, 0, 0, uiFlag, ⟨uiCapacity.toNat, memory⟩⟩ [] :=
      ⟨rfl, rfl, rfl, positive, le_def.mpr (zero_le _), rfl⟩
    obtain ⟨que, ran, holds⟩ :=
      runs_follow (fun _ _ call holds => ByteQueHolds.follows adds call holds) calls initially
    refine ⟨_, que, byteQueCreate_eq small, ran, holds.bytes, ?_⟩
    rw [← holds.count]
    exact le_def.mp holds.fits

def cycleIndexAdd (index count size : UINT) : UINT :=
  BitVec.ofNat 32 ((index.toNat + count.toNat) % size.toNat)

theorem cyclicAdd_cycleIndexAdd : CyclicAdd cycleIndexAdd := by
  intro index count size inside _
  have positive := lt_def.mp inside
  have below : (index.toNat + count.toNat) % size.toNat < size.toNat := mod_lt _ (by omega)
  exact mod_eq_of_lt (lt_trans below size.isLt)

theorem byteQue_refines_three :
    ByteQueRefines cycleIndexAdd 3 QUE_FLAG_OVERWRITE ↔ (3 : UINT).toNat + 16 < 2 ^ 32 :=
  byteQue_refines cyclicAdd_cycleIndexAdd (by decide)

/-- Sixteen bytes of control block and `2 ^ 32 - 8` bytes of data come to eight bytes. -/
theorem byteQue_size_wraps : ¬ByteQueRefines cycleIndexAdd 0xFFFFFFF8 0 := by
  intro refines
  obtain ⟨_, _, exists_, _⟩ := refines (fun _ => 0) []
  cases exists_

end MyCode.ByteQue
