import MyCode.Bitmap.Ranges
import MyCode.Lib.Transition
import Mathlib.Order.Interval.Finset.Nat

/-!
# Data with holes

`hole_data.c`: a buffer whose bytes arrive in any order, with one bit for each
byte that has arrived.
-/

namespace MyCode.HoleData

open Bitmap BitVec Option Finset Nat

structure HoleDataS where
  data : Nat → UCHAR
  max_size : Nat
  filled_size : UINT
  bitmap : BitmapS

def holeDataInit (data : Nat → UCHAR) (max_size : Nat) : HoleDataS :=
  ⟨data, max_size, 0, bitmapCreate (BitVec.ofNat 32 max_size)⟩

/-- `memcpy(data + offset, bytes, length)`. -/
def copyBytes (data : Nat → UCHAR) (offset : Nat) (bytes : List UCHAR) : Nat → UCHAR :=
  fun place => if offset ≤ place then bytes.getD (place - offset) (data place) else data place

section Operations

variable (numUpAlign : Nat → Nat) (hole_data : HoleDataS)

/-- The second result is the number of bytes taken. -/
def holeDataInput (data : List UCHAR) (offset : Nat) : Option (HoleDataS × Nat) := do
  let len := data.length
  let copy_len := if offset + len > hole_data.max_size then hole_data.max_size - offset else len
  if copy_len = 0 then
    some (hole_data, 0)
  else
    let (bitmap, _) ← bitmapSetBits numUpAlign hole_data.bitmap offset (BitVec.ofNat 32 copy_len)
    some ({ hole_data with
      data := copyBytes hole_data.data offset (data.take copy_len)
      filled_size := hole_data.filled_size + BitVec.ofNat 32 copy_len
      bitmap := bitmap }, copy_len)

def holeDataGetFilledSize : Int :=
  hole_data.filled_size.toInt

def holeDataReset : HoleDataS :=
  if holeDataGetFilledSize hole_data > 0 then
    { hole_data with filled_size := 0, bitmap := bitmapClrAll hole_data.bitmap }
  else
    hole_data

def holeDataGetContineLen : Nat :=
  match bitmapGetFree hole_data.bitmap with
  | none => hole_data.max_size
  | some index => index

end Operations

structure Input where
  offset : Nat
  bytes : List UCHAR

def Input.positions (input : Input) : Finset Nat :=
  Ico input.offset (input.offset + input.bytes.length)

def Input.byteAt (input : Input) (place : Nat) : Option UCHAR :=
  if input.offset ≤ place then input.bytes[place - input.offset]? else none

/-- The positions that any of the inputs covers. -/
def received : List Input → Finset Nat
  | [] => ∅
  | input :: earlier => input.positions ∪ received earlier

/-- The byte of the last input, the first in the list, that covers the position. -/
def lastByte (inputs : List Input) (place : Nat) : Option UCHAR :=
  inputs.findSome? fun input => input.byteAt place

structure State where
  hole_data : HoleDataS
  inputs : List Input

def Within (hole_data : HoleDataS) (input : Input) : Prop :=
  input.offset + input.bytes.length ≤ hole_data.max_size

instance (hole_data : HoleDataS) (input : Input) : Decidable (Within hole_data input) :=
  inferInstanceAs (Decidable (_ ≤ _))

def holeDataSystem (numUpAlign : Nat → Nat) : Lib.System State Input where
  start state := ∃ data max_size, max_size < 2 ^ 31 ∧ state = ⟨holeDataInit data max_size, []⟩
  step state input next :=
    Within state.hole_data input ∧
      ∃ copied, holeDataInput numUpAlign state.hole_data input.bytes input.offset =
          some (next.hole_data, copied) ∧
        next.inputs = input :: state.inputs

/-- The largest length below which every position has been input. -/
def IsContineLen (inputs : List Input) (length : Nat) : Prop :=
  (∀ place < length, place ∈ received inputs) ∧ length ∉ received inputs

structure Faithful (state : State) : Prop where
  contine : IsContineLen state.inputs (holeDataGetContineLen state.hole_data)
  filled : holeDataGetFilledSize state.hole_data = (received state.inputs).card
  bytes : ∀ place byte, lastByte state.inputs place = some byte → state.hole_data.data place = byte

/-- Every position of the input is new, and where the range lies within a word, the
beginning of this word has been input before. -/
def Admissible (state : State) (input : Input) : Prop :=
  input.bytes = [] ∨
    Disjoint input.positions (received state.inputs) ∧
      (WithinWord input.offset (input.offset + input.bytes.length) →
        ∀ place, input.offset / 32 * 32 ≤ place → place < input.offset → place ∈ received state.inputs)

structure HoleDataOk (state : State) : Prop where
  small : state.hole_data.max_size < 2 ^ 31
  bits : state.hole_data.bitmap.ulBitNum.toNat = state.hole_data.max_size
  words : state.hole_data.bitmap.uiUintNum.toNat = (state.hole_data.max_size + 31) / 32
  isSet : ∀ place, bitmapIsSet state.hole_data.bitmap place = true ↔ place ∈ received state.inputs
  filled : state.hole_data.filled_size.toNat = (received state.inputs).card
  inside : ∀ place ∈ received state.inputs, place < state.hole_data.max_size
  bytes : ∀ place byte, lastByte state.inputs place = some byte → state.hole_data.data place = byte

variable {state next : State} {input : Input} {numUpAlign : Nat → Nat}

theorem card_received_le (ok : HoleDataOk state) :
    (received state.inputs).card ≤ state.hole_data.max_size := by
  have covered : received state.inputs ⊆ range state.hole_data.max_size := fun place isIn =>
    mem_range.mpr (ok.inside place isIn)
  simpa using card_le_card covered

theorem HoleDataOk.faithful (ok : HoleDataOk state) : Faithful state := by
  constructor
  · rw [IsContineLen, holeDataGetContineLen]
    split
    · next full =>
      constructor
      · intro place below
        rw [← ok.isSet]
        exact arrayBitGetFree_none full (by rw [ok.bits]; exact below)
      · exact fun isIn => lt_irrefl _ (ok.inside _ isIn)
    next index isFree =>
    constructor
    · intro place below
      rw [← ok.isSet]
      exact arrayBitGetFree_least isFree below
    rw [← ok.isSet]
    have free := (arrayBitGetFree_free isFree).2
    rw [bitmapIsSet, free]
    exact Bool.false_ne_true
  · have bounded := card_received_le ok
    have small := ok.small
    rw [holeDataGetFilledSize, toInt_eq_toNat_of_lt (by rw [ok.filled]; omega), ok.filled]
  · exact ok.bytes

theorem HoleDataOk.start (data : Nat → UCHAR) {max_size : Nat} (small : max_size < 2 ^ 31) :
    HoleDataOk ⟨holeDataInit data max_size, []⟩ := by
  have word : (BitVec.ofNat 32 max_size : UINT).toNat = max_size := by
    rw [toNat_ofNat, mod_eq_of_lt (by omega)]
  constructor
  · exact small
  · exact word
  · change ((BitVec.ofNat 32 max_size + 31) / 32 : UINT).toNat = (max_size + 31) / 32
    rw [toNat_udiv, toNat_add, word]
    change (max_size + 31) % 2 ^ 32 / 32 = _
    rw [mod_eq_of_lt (by omega)]
  · intro place
    simp [holeDataInit, bitmapCreate_isSet, received]
  · rfl
  · intro place isIn
    simp [received] at isIn
  · intro place byte isLast
    simp [lastByte] at isLast

theorem copyBytes_eq (data : Nat → UCHAR) (input : Input) (place : Nat) :
    copyBytes data input.offset input.bytes place = (input.byteAt place).getD (data place) := by
  rw [copyBytes, Input.byteAt]
  split
  · rw [List.getD_eq_getElem?_getD]
  · rfl

theorem holeDataInput_holds (aligns : AlignsUp numUpAlign) (ok : HoleDataOk state)
    (within : Within state.hole_data input) (any : input.bytes ≠ []) :
    ∃ bitmap, holeDataInput numUpAlign state.hole_data input.bytes input.offset =
        some ({ state.hole_data with
          data := copyBytes state.hole_data.data input.offset input.bytes
          filled_size := state.hole_data.filled_size + BitVec.ofNat 32 input.bytes.length
          bitmap := bitmap }, input.bytes.length) ∧
      bitmap.ulBitNum = state.hole_data.bitmap.ulBitNum ∧
      bitmap.uiUintNum = state.hole_data.bitmap.uiUintNum ∧
      ∀ place, bitmapIsSet bitmap place =
        (decide (Written input.offset (input.offset + input.bytes.length) place) ||
          bitmapIsSet state.hole_data.bitmap place) := by
  have small := ok.small
  have length : (BitVec.ofNat 32 input.bytes.length : UINT).toNat = input.bytes.length := by
    rw [toNat_ofNat, mod_eq_of_lt]
    have fits : input.offset + input.bytes.length ≤ state.hole_data.max_size := within
    omega
  have positive := List.length_pos_iff.mpr any
  obtain ⟨bitmap, set, bits, words, isSet⟩ := bitmapSetBits_holds aligns
    (by rw [ok.words, ok.bits]) (by rw [ok.bits]; exact small) (by rw [length]; exact positive)
    (by rw [length, ok.bits]; exact within)
  rw [length] at isSet
  refine ⟨bitmap, ?_, bits, words, isSet⟩
  have notBeyond := not_lt.mpr within
  simp only [holeDataInput, if_neg notBeyond, if_neg positive.ne', set, List.take_length,
    bind_eq_bind, bind_some]

theorem holeDataInput_nil (state : State) (offset : Nat) :
    holeDataInput numUpAlign state.hole_data [] offset = some (state.hole_data, 0) := by
  have none : (if offset + 0 > state.hole_data.max_size then
      state.hole_data.max_size - offset else 0) = 0 := by
    split <;> omega
  simp only [holeDataInput, List.length_nil, none, if_pos]

theorem lastByte_cons (input : Input) (inputs : List Input) (place : Nat) :
    lastByte (input :: inputs) place = (input.byteAt place).or (lastByte inputs place) := by
  rw [lastByte, List.findSome?_cons]
  cases input.byteAt place with
  | none => rfl
  | some => rfl

theorem written_iff (admissible : Admissible state input) (any : input.bytes ≠ []) (place : Nat) :
    Written input.offset (input.offset + input.bytes.length) place ∨ place ∈ received state.inputs ↔
      place ∈ received (input :: state.inputs) := by
  obtain ⟨-, filled⟩ := admissible.resolve_left any
  rw [received, mem_union, Input.positions, mem_Ico, Written]
  constructor
  · rintro ((covered | ⟨within, above, below⟩) | earlier)
    · exact .inl covered
    · by_cases before : place < input.offset
      · exact .inr (filled within place (by rw [within.2]; exact above) before)
      · exact .inl ⟨not_lt.mp before, below⟩
    · exact .inr earlier
  · rintro (covered | earlier)
    · exact .inl (.inl covered)
    · exact .inr earlier

theorem card_received_cons (admissible : Admissible state input) (any : input.bytes ≠ []) :
    (received (input :: state.inputs)).card = (received state.inputs).card + input.bytes.length := by
  obtain ⟨apart, -⟩ := admissible.resolve_left any
  rw [received, card_union_of_disjoint apart, Input.positions, card_Ico,
    Nat.add_sub_cancel_left, Nat.add_comm]

theorem bytes_input (ok : HoleDataOk state) {place : Nat} {byte : UCHAR}
    (isLast : lastByte (input :: state.inputs) place = some byte) :
    copyBytes state.hole_data.data input.offset input.bytes place = byte := by
  rw [lastByte_cons] at isLast
  rw [copyBytes_eq]
  cases covered : input.byteAt place with
  | some =>
    rw [covered] at isLast
    exact some.inj isLast
  | none =>
    rw [covered] at isLast
    exact ok.bytes place byte isLast

theorem HoleDataOk.input_nil {offset : Nat} (ok : HoleDataOk state) :
    HoleDataOk ⟨state.hole_data, ⟨offset, []⟩ :: state.inputs⟩ := by
  have same : received (⟨offset, []⟩ :: state.inputs) = received state.inputs := by
    simp [received, Input.positions]
  constructor
  · exact ok.small
  · exact ok.bits
  · exact ok.words
  · simpa only [same] using ok.isSet
  · simpa only [same] using ok.filled
  · simpa only [same] using ok.inside
  · intro place byte isLast
    have kept := @bytes_input state ⟨offset, []⟩ ok place byte isLast
    simpa [copyBytes] using kept

theorem HoleDataOk.step (aligns : AlignsUp numUpAlign) (ok : HoleDataOk state)
    (admissible : Admissible state input)
    (stepped : (holeDataSystem numUpAlign).step state input next) : HoleDataOk next := by
  obtain ⟨within, _, ran, inputs⟩ := stepped
  obtain ⟨_, history⟩ := next
  subst inputs
  by_cases any : input.bytes = []
  · obtain ⟨_, bytes⟩ := input
    subst any
    rw [holeDataInput_nil] at ran
    cases ran
    exact ok.input_nil
  obtain ⟨_, took, bits, words, isSet⟩ := holeDataInput_holds aligns ok within any
  rw [took] at ran
  cases ran
  have counted := card_received_cons admissible any
  have inside : ∀ place ∈ received (input :: state.inputs), place < state.hole_data.max_size := by
    intro place isIn
    rw [received, mem_union, Input.positions, mem_Ico] at isIn
    obtain covered | earlier := isIn
    · exact lt_of_lt_of_le covered.2 within
    · exact ok.inside place earlier
  constructor
  · exact ok.small
  · rw [bits]
    exact ok.bits
  · rw [words]
    exact ok.words
  · intro place
    rw [isSet, Bool.or_eq_true, decide_eq_true_iff, ok.isSet, written_iff admissible any]
  · have fits : input.offset + input.bytes.length ≤ state.hole_data.max_size := within
    have bounded := card_received_le ok
    have small := ok.small
    rw [toNat_add, toNat_ofNat, ok.filled, counted, add_mod_mod, mod_eq_of_lt (by omega)]
  · exact inside
  · exact fun place byte isLast => bytes_input ok isLast

/-- In runs of admissible inputs no input fails and the answers are those of the inputs. -/
theorem holeData_faithful (aligns : AlignsUp numUpAlign)
    (reached : (holeDataSystem numUpAlign).ReachableWhen Admissible state) :
    Faithful state ∧
      ∀ input, Within state.hole_data input →
        holeDataInput numUpAlign state.hole_data input.bytes input.offset ≠ none := by
  have ok : HoleDataOk state := by
    apply Lib.System.ReachableWhen.invariant _ _ reached
    · rintro _ ⟨data, _, small, rfl⟩
      exact HoleDataOk.start data small
    · exact fun state input next ok admissible stepped => ok.step aligns admissible stepped
  refine ⟨ok.faithful, ?_⟩
  intro input within
  by_cases any : input.bytes = []
  · rw [any, holeDataInput_nil]
    exact some_ne_none _
  obtain ⟨_, took, -⟩ := holeDataInput_holds aligns ok within any
  rw [took]
  exact some_ne_none _

def alignUp (num : Nat) : Nat :=
  (num + 31) / 32 * 32

theorem alignUp_aligns : AlignsUp alignUp := by
  constructor <;> intro num <;> rw [alignUp] <;> omega

def inputNext (state : State) (input : Input) : State :=
  match holeDataInput alignUp state.hole_data input.bytes input.offset with
  | some (hole_data, _) => ⟨hole_data, input :: state.inputs⟩
  | none => state

theorem inputNext_step (within : Within state.hole_data input)
    (taken : (holeDataInput alignUp state.hole_data input.bytes input.offset).isSome) :
    (holeDataSystem alignUp).step state input (inputNext state input) := by
  obtain ⟨⟨_, copied⟩, ran⟩ := isSome_iff_exists.mp taken
  refine ⟨within, copied, ?_, ?_⟩
  · rw [inputNext, ran]
  · rw [inputNext, ran]

def exampleStart : State :=
  ⟨holeDataInit (fun _ => 0) 64, []⟩

theorem exampleStart_start : (holeDataSystem alignUp).start exampleStart :=
  ⟨fun _ => 0, 64, by decide, rfl⟩

theorem holeData_faithful_adjacent :
    Faithful (inputNext (inputNext exampleStart ⟨0, [1, 2, 3]⟩) ⟨3, [4]⟩) ∧
      ∀ input, Within (inputNext (inputNext exampleStart ⟨0, [1, 2, 3]⟩) ⟨3, [4]⟩).hole_data input →
        holeDataInput alignUp (inputNext (inputNext exampleStart ⟨0, [1, 2, 3]⟩) ⟨3, [4]⟩).hole_data
          input.bytes input.offset ≠ none := by
  have first : (holeDataSystem alignUp).ReachableWhen Admissible
      (inputNext exampleStart ⟨0, [1, 2, 3]⟩) := by
    refine .step (.start exampleStart_start) (?_ : Admissible _ ⟨0, [1, 2, 3]⟩) ?_
    · exact .inr ⟨disjoint_empty_right _, fun within => absurd within.1 (by decide)⟩
    · exact inputNext_step (by decide) (by decide +kernel)
  have received_first : received (inputNext exampleStart ⟨0, [1, 2, 3]⟩).inputs = Ico 0 3 := by
    decide +kernel
  apply holeData_faithful alignUp_aligns
  refine .step first (?_ : Admissible _ ⟨3, [4]⟩) ?_
  · refine .inr ⟨?_, ?_⟩
    · rw [received_first]
      decide +kernel
    · intro _ place _ below
      exact mem_Ico.mpr ⟨zero_le _, below⟩
  · exact inputNext_step (by decide +kernel) (by decide +kernel)

/-- A byte at position 5 alone counts as six bytes without a hole, and a byte that comes
twice is counted twice. -/
theorem holeData_unfaithful :
    (∃ state, (holeDataSystem alignUp).Reachable state ∧ state.inputs = [⟨5, [7]⟩] ∧
        holeDataGetContineLen state.hole_data = 6 ∧ ¬ Faithful state) ∧
      ∃ state, (holeDataSystem alignUp).Reachable state ∧ state.inputs = [⟨0, [7]⟩, ⟨0, [7]⟩] ∧
        holeDataGetFilledSize state.hole_data = 2 ∧ ¬ Faithful state := by
  constructor
  · have contine : holeDataGetContineLen (inputNext exampleStart ⟨5, [7]⟩).hole_data = 6 := by
      decide +kernel
    refine ⟨inputNext exampleStart ⟨5, [7]⟩, ?_, rfl, contine, ?_⟩
    · exact .step (.start exampleStart_start) trivial (inputNext_step (by decide) (by decide +kernel))
    intro faithful
    have below := faithful.contine.1 0 (by rw [contine]; decide)
    exact absurd below (by decide +kernel)
  · have filled : holeDataGetFilledSize
        (inputNext (inputNext exampleStart ⟨0, [7]⟩) ⟨0, [7]⟩).hole_data = 2 := by
      decide +kernel
    refine ⟨inputNext (inputNext exampleStart ⟨0, [7]⟩) ⟨0, [7]⟩, ?_, rfl, filled, ?_⟩
    · apply Lib.System.ReachableWhen.step _ trivial
        (inputNext_step (by decide +kernel) (by decide +kernel))
      exact .step (.start exampleStart_start) trivial (inputNext_step (by decide) (by decide +kernel))
    · intro faithful
      have counted := faithful.filled
      exact absurd counted (by decide +kernel)

end MyCode.HoleData
