import Mathlib.Tactic.Ring
import MyCode.Types

/-!
# Rule matching by bit tables

The rule bits are the bits of the memory, from the lowest bit of its first byte on.  An input is
followed by whatever stands behind it.
-/

namespace MyCode.BitMatch

structure BitMatchS where
  tab_number : USHORT
  seg_bits : UCHAR
  max_rule_num : UINT
  rule_bits : Nat → Bool

/-- The `size` of `BITMATCH_Create`, before it is cut to an `int`. -/
def bitmatchSize (tab_number seg_bits max_rule_num : Int) : Int :=
  (tab_number * max_rule_num).tdiv 8 * 2 ^ seg_bits.toNat

def bitmatchCreate (tab_number seg_bits max_rule_num : Int) : Option BitMatchS :=
  if max_rule_num.tmod 64 = 0 then none
  else if seg_bits ≠ 2 ∧ seg_bits ≠ 4 ∧ seg_bits ≠ 8 then none
  else some ⟨BitVec.ofInt 16 tab_number, BitVec.ofInt 8 seg_bits, BitVec.ofInt 32 max_rule_num,
    fun _ => false⟩

def bitmatchGetBits (max_rule : UINT) (seg_bits tbl_index pos : Nat) : Nat :=
  (((max_rule / 8) <<< seg_bits) * BitVec.ofNat 32 tbl_index).toNat +
    (max_rule / 8 * BitVec.ofNat 32 pos).toNat

def bitmatchGetU64 (max_rule : UINT) (rules_bits : Nat → Bool) (seg_bits tbl_index pos offset : Nat) :
    UINT64 :=
  (BitVec.ofBoolListLE ((List.range 64).map fun bit =>
    rules_bits (8 * bitmatchGetBits max_rule seg_bits tbl_index pos + (64 * offset + bit)))).setWidth
      64

/-- `ArrayBit_Set` or `ArrayBit_Clr` in a row. -/
def bitmatchWrite (ctrl : BitMatchS) (tbl_index pos rule_id : Nat) (bit : Bool) : BitMatchS :=
  { ctrl with
    rule_bits := Function.update ctrl.rule_bits
      (8 * bitmatchGetBits ctrl.max_rule_num ctrl.seg_bits.toNat tbl_index pos + rule_id) bit }

def bitmatchAddRule (ctrl : BitMatchS) (tbl_index : UINT) (range_min range_max : UCHAR)
    (rule_id : UINT) : BitMatchS :=
  (List.range' range_min.toNat (range_max.toNat + 1 - range_min.toNat)).foldl
    (fun ctrl i => bitmatchWrite ctrl tbl_index.toNat i rule_id.toNat true) ctrl

def bitmatchDelRule (ctrl : BitMatchS) (rule_id : UINT) : BitMatchS :=
  let line_count := 2 ^ ctrl.seg_bits.toNat
  (List.range ctrl.tab_number.toNat).foldl (fun ctrl i =>
    (List.range line_count).foldl
      (fun ctrl j => bitmatchWrite ctrl i j rule_id.toNat false) ctrl) ctrl

/-- The mask `1 << i` is an `int`: its top bit is extended, and the shift is taken modulo 32. -/
def bitGetLowIndex64 (num : UINT64) : Int :=
  match (List.range 64).find? fun i =>
      num &&& ((1#32 <<< (i % 32)).signExtend 64) != 0 with
  | some i => i
  | none => -1

/-- `(d[i] >> shift) & mask`, for the slice with that number. -/
def bitmatchSlice (width : Nat) (mask : UCHAR) (byte : UCHAR) (slice : Nat) : Nat :=
  ((byte >>> (width * slice)) &&& mask).toNat

section MatchFirst

/-! Each byte has a number of slices of one width. -/

variable (slices width : Nat) (mask : UCHAR) (tab_num max_rule : UINT) (seg_bits : Nat)
  (rule_bits : Nat → Bool) (d : Nat → UCHAR)

def bitmatchFirstByte (offset i : Nat) (tmp : UINT64) : UINT64 :=
  (List.range slices).foldl (fun tmp slice => tmp &&&
    bitmatchGetU64 max_rule rule_bits seg_bits (slices * i + slice)
      (bitmatchSlice width mask (d i) slice) offset) tmp

def bitmatchFirstBytes (offset : Nat) : (left i : Nat) → UINT64 → UINT64
  | 0, _, tmp => tmp
  | left + 1, i, tmp =>
    let tmp := bitmatchFirstByte slices width mask max_rule seg_bits rule_bits d offset i tmp
    if tmp = 0 then tmp else bitmatchFirstBytes offset left (i + 1) tmp

/-- All ones stand for the assignment of the first word. -/
def bitmatchFirstWord (offset : Nat) : UINT64 :=
  bitmatchFirstBytes slices width mask max_rule seg_bits rule_bits d offset
    (tab_num.toNat / slices - 1) 1
    (bitmatchFirstByte slices width mask max_rule seg_bits rule_bits d offset 0 (BitVec.allOnes 64))

def bitmatchMatchFirstBy : Int :=
  ((List.range (max_rule.toNat / 64)).findSome? fun offset =>
    let tmp := bitmatchFirstWord slices width mask tab_num max_rule seg_bits rule_bits d offset
    if tmp = 0 then none else some (64 * (offset : Int) + bitGetLowIndex64 tmp)).getD (-1)

def bitmatchMatchFirst2 : Int :=
  bitmatchMatchFirstBy 4 2 0x3 tab_num max_rule seg_bits rule_bits d

def bitmatchMatchFirst4 : Int :=
  bitmatchMatchFirstBy 2 4 0xf tab_num max_rule seg_bits rule_bits d

def bitmatchMatchFirst8 : Int :=
  bitmatchMatchFirstBy 1 8 0xff tab_num max_rule seg_bits rule_bits d

def bitmatchMatchFirst : Int :=
  if seg_bits = 2 then bitmatchMatchFirst2 tab_num max_rule seg_bits rule_bits d
  else if seg_bits = 4 then bitmatchMatchFirst4 tab_num max_rule seg_bits rule_bits d
  else if seg_bits = 8 then bitmatchMatchFirst8 tab_num max_rule seg_bits rule_bits d
  else -1

end MatchFirst

/-- `memcpy` of the bytes of a row. -/
def rowCopy (size row : Nat) (rule_bits matched_bits : Nat → Bool) (bit : Nat) : Bool :=
  if bit < 8 * size then rule_bits (8 * row + bit) else matched_bits bit

/-- `ArrayBit_And64` with the words of a row. -/
def arrayBitAnd64 (u64_count row : Nat) (rule_bits matched_bits : Nat → Bool) (bit : Nat) : Bool :=
  if bit < 64 * u64_count then matched_bits bit && rule_bits (8 * row + bit) else matched_bits bit

section Match

variable (slices width : Nat) (mask : UCHAR) (tab_num max_rule : UINT) (rule_bits : Nat → Bool)
  (seg_bits : Nat) (d : Nat → UCHAR)

/-- Slices of byte `i`; all of them are looked up in one table. -/
def bitmatchAndSlices (i : Nat) (numbers : List Nat) (matched_bits : Nat → Bool) : Nat → Bool :=
  numbers.foldl (fun matched_bits slice =>
    arrayBitAnd64 (max_rule.toNat / 64)
      (bitmatchGetBits max_rule seg_bits i (bitmatchSlice width mask (d i) slice))
      rule_bits matched_bits) matched_bits

/-- The first slice is copied, the other slices of the first byte follow, and then every table
takes its byte. -/
def bitmatchMatchBy (matched_bits : Nat → Bool) : Nat → Bool :=
  let bits := bitmatchGetBits max_rule seg_bits 0 (bitmatchSlice width mask (d 0) 0)
  let matched_bits := rowCopy (max_rule.toNat / 8) bits rule_bits matched_bits
  let matched_bits := bitmatchAndSlices width mask max_rule rule_bits seg_bits d 0
    (List.range' 1 (slices - 1)) matched_bits
  (List.range tab_num.toNat).foldl (fun matched_bits i =>
    bitmatchAndSlices width mask max_rule rule_bits seg_bits d i (List.range slices) matched_bits)
    matched_bits

def bitmatchMatch2 (matched_bits : Nat → Bool) : Nat → Bool :=
  bitmatchMatchBy 4 2 0x3 tab_num max_rule rule_bits seg_bits d matched_bits

def bitmatchMatch4 (matched_bits : Nat → Bool) : Nat → Bool :=
  bitmatchMatchBy 2 4 0xf tab_num max_rule rule_bits seg_bits d matched_bits

def bitmatchMatch8 (matched_bits : Nat → Bool) : Nat → Bool :=
  bitmatchMatchBy 1 8 0xff tab_num max_rule rule_bits seg_bits d matched_bits

def bitmatchMatch (matched_bits : Nat → Bool) : Int × (Nat → Bool) :=
  if seg_bits = 2 then (0, bitmatchMatch2 tab_num max_rule rule_bits seg_bits d matched_bits)
  else if seg_bits = 4 then (0, bitmatchMatch4 tab_num max_rule rule_bits seg_bits d matched_bits)
  else if seg_bits = 8 then (0, bitmatchMatch8 tab_num max_rule rule_bits seg_bits d matched_bits)
  else (-1, matched_bits)

end Match

def bitmatchDoMatch (ctrl : BitMatchS) (data : Nat → UCHAR) (matched_bits : Nat → Bool) :
    Int × (Nat → Bool) :=
  bitmatchMatch (ctrl.tab_number.setWidth 32) ctrl.max_rule_num ctrl.rule_bits ctrl.seg_bits.toNat
    data matched_bits

def bitmatchFirstOf (ctrl : BitMatchS) (data : Nat → UCHAR) : Int :=
  bitmatchMatchFirst (ctrl.tab_number.setWidth 32) ctrl.max_rule_num ctrl.seg_bits.toNat
    ctrl.rule_bits data

end MyCode.BitMatch

/-!
## What the rule bits stand for

A rule has positions in every table.  The calls change them as sets, and the rule bits are those
sets row by row.
-/

namespace MyCode.BitMatch

inductive BitMatchCall where
  | add (tbl_index : UINT) (range_min range_max : UCHAR) (rule_id : UINT)
  | del (rule_id : UINT)
  deriving DecidableEq

def BitMatchCall.rule : BitMatchCall → UINT
  | add _ _ _ rule_id => rule_id
  | del rule_id => rule_id

def bitmatchCall (ctrl : BitMatchS) : BitMatchCall → BitMatchS
  | .add tbl_index range_min range_max rule_id =>
    bitmatchAddRule ctrl tbl_index range_min range_max rule_id
  | .del rule_id => bitmatchDelRule ctrl rule_id

def BitMatchCall.Asserted (tab_number seg_bits max_rule_num : Nat) : BitMatchCall → Prop
  | add tbl_index range_min range_max rule_id =>
    tbl_index.toNat < tab_number ∧ rule_id.toNat < max_rule_num ∧
      range_min.toNat ≤ range_max.toNat ∧ range_max.toNat < 2 ^ seg_bits
  | del rule_id => rule_id.toNat < max_rule_num

instance (tab_number seg_bits max_rule_num : Nat) :
    (call : BitMatchCall) → Decidable (call.Asserted tab_number seg_bits max_rule_num)
  | .add .. => inferInstanceAs (Decidable (_ ∧ _))
  | .del _ => inferInstanceAs (Decidable (_ < _))

abbrev Ranges := (tbl_index rule_id pos : Nat) → Prop

def Ranges.call (ranges : Ranges) : BitMatchCall → Ranges
  | .add tbl_index range_min range_max rule_id => fun tbl rule pos =>
    tbl = tbl_index.toNat ∧ rule = rule_id.toNat ∧ range_min.toNat ≤ pos ∧ pos ≤ range_max.toNat ∨
      ranges tbl rule pos
  | .del rule_id => fun tbl rule pos => rule ≠ rule_id.toNat ∧ ranges tbl rule pos

def Ranges.calls : List BitMatchCall → Ranges :=
  List.foldl Ranges.call fun _ _ _ => False

/-- The bits of the input that a table looks up. -/
def segment (seg_bits : Nat) (data : Nat → UCHAR) (tbl_index : Nat) : Nat :=
  (data (seg_bits * tbl_index / 8)).toNat / 2 ^ (seg_bits * tbl_index % 8) % 2 ^ seg_bits

/-- The range of the rule contains the segment in every table. -/
def Ranges.Matched (ranges : Ranges) (tab_number seg_bits : Nat) (data : Nat → UCHAR)
    (rule : Nat) : Prop :=
  ∀ tbl < tab_number, ranges tbl rule (segment seg_bits data tbl)

structure Fits (tab_number seg_bits max_rule_num : Nat) : Prop where
  seg : seg_bits = 2 ∨ seg_bits = 4 ∨ seg_bits = 8
  tables : 0 < tab_number ∧ tab_number < 2 ^ 16
  bytes : 8 ∣ tab_number * seg_bits
  rules : tab_number * max_rule_num < 2 ^ 31
  size : tab_number * max_rule_num / 8 * 2 ^ seg_bits < 2 ^ 31

variable {ctrl : BitMatchS} {ranges : Ranges} {tab_number seg_bits max_rule_num : Nat}

structure RulesHold (tab_number seg_bits max_rule_num : Nat) (ctrl : BitMatchS)
    (ranges : Ranges) : Prop where
  tables : ctrl.tab_number.toNat = tab_number
  seg : ctrl.seg_bits.toNat = seg_bits
  rules : ctrl.max_rule_num.toNat = max_rule_num
  inside : ∀ tbl rule pos, ranges tbl rule pos →
    tbl < tab_number ∧ rule < 64 * (max_rule_num / 64) ∧ pos < 2 ^ seg_bits
  stored : ∀ tbl rule pos, tbl < tab_number → rule < 8 * (max_rule_num / 8) → pos < 2 ^ seg_bits →
    (ctrl.rule_bits (8 * bitmatchGetBits ctrl.max_rule_num seg_bits tbl pos + rule) = true ↔
      ranges tbl rule pos)

theorem digits_inj {base high low high' low' : Nat} (less : low < base) (less' : low' < base)
    (same : base * high + low = base * high' + low') : high = high' ∧ low = low' := by
  have positive := Nat.zero_lt_of_lt less
  have highs := congrArg (· / base) same
  have lows := congrArg (· % base) same
  simp only [Nat.mul_add_div positive, Nat.div_eq_of_lt less, Nat.div_eq_of_lt less',
    Nat.add_zero] at highs
  simp only [Nat.mul_add_mod, Nat.mod_eq_of_lt less, Nat.mod_eq_of_lt less'] at lows
  exact ⟨highs, lows⟩

variable (fits : Fits tab_number seg_bits max_rule_num)

include fits in
theorem bitmatchGetBits_eq {max_rule : UINT} (rules : max_rule.toNat = max_rule_num) {tbl pos : Nat}
    (inTables : tbl < tab_number) (inTable : pos < 2 ^ seg_bits) :
    bitmatchGetBits max_rule seg_bits tbl pos = max_rule_num / 8 * (2 ^ seg_bits * tbl + pos) := by
  have size := fits.size
  have bounds := fits.tables
  have rows : tab_number * (max_rule_num / 8) ≤ tab_number * max_rule_num / 8 := by
    rw [Nat.le_div_iff_mul_le (by decide), Nat.mul_assoc]
    exact Nat.mul_le_mul_left _ (Nat.div_mul_le_self _ _)
  have total := Nat.lt_of_le_of_lt (Nat.mul_le_mul_right _ rows) size
  have table : max_rule_num / 8 * 2 ^ seg_bits * tbl < 2 ^ 32 := by
    have less : max_rule_num / 8 * 2 ^ seg_bits * tbl ≤
        max_rule_num / 8 * 2 ^ seg_bits * tab_number := Nat.mul_le_mul_left _ inTables.le
    have same : max_rule_num / 8 * 2 ^ seg_bits * tab_number =
        tab_number * (max_rule_num / 8) * 2 ^ seg_bits := by ring
    omega
  have one : max_rule_num / 8 * 2 ^ seg_bits < 2 ^ 32 := by
    have less : 1 * (max_rule_num / 8) * 2 ^ seg_bits ≤
        tab_number * (max_rule_num / 8) * 2 ^ seg_bits :=
      Nat.mul_le_mul_right _ (Nat.mul_le_mul_right _ bounds.1)
    rw [Nat.one_mul] at less
    omega
  have row := Nat.lt_of_le_of_lt (Nat.mul_le_mul_left _ inTable.le) one
  have small : tbl < 2 ^ 32 := by omega
  have short : pos < 2 ^ 32 := by
    have limit : 2 ^ seg_bits ≤ 2 ^ 8 := by
      obtain rfl | rfl | rfl := fits.seg <;> decide
    omega
  have eight : (8 : UINT).toNat = 8 := rfl
  rw [bitmatchGetBits]
  simp only [eight, BitVec.toNat_mul, BitVec.toNat_shiftLeft, BitVec.toNat_udiv, BitVec.toNat_ofNat, rules,
    Nat.shiftLeft_eq, Nat.mod_eq_of_lt small, Nat.mod_eq_of_lt short]
  rw [Nat.mod_eq_of_lt one, Nat.mod_eq_of_lt table, Nat.mod_eq_of_lt row]
  ring

include fits in
theorem row_inj {max_rule : UINT}
    (rules : max_rule.toNat = max_rule_num) {tbl pos rule tbl' pos' rule' : Nat}
    (inTables : tbl < tab_number) (inTable : pos < 2 ^ seg_bits)
    (inRow : rule < 8 * (max_rule_num / 8)) (inTables' : tbl' < tab_number)
    (inTable' : pos' < 2 ^ seg_bits) (inRow' : rule' < 8 * (max_rule_num / 8))
    (same : 8 * bitmatchGetBits max_rule seg_bits tbl pos + rule =
      8 * bitmatchGetBits max_rule seg_bits tbl' pos' + rule') :
    tbl = tbl' ∧ rule = rule' ∧ pos = pos' := by
  rw [bitmatchGetBits_eq fits rules inTables inTable,
    bitmatchGetBits_eq fits rules inTables' inTable', ← Nat.mul_assoc, ← Nat.mul_assoc] at same
  obtain ⟨rows, rules⟩ := digits_inj inRow inRow' same
  obtain ⟨tables, positions⟩ := digits_inj inTable inTable' rows
  exact ⟨tables, rules, positions⟩

theorem words_le (max_rule_num : Nat) : 64 * (max_rule_num / 64) ≤ 8 * (max_rule_num / 8) := by
  omega

def Ranges.put (ranges : Ranges) (tbl rule pos : Nat) (bit : Bool) : Ranges :=
  fun tbl' rule' pos' =>
    if tbl' = tbl ∧ rule' = rule ∧ pos' = pos then bit = true else ranges tbl' rule' pos'

variable (holds : RulesHold tab_number seg_bits max_rule_num ctrl ranges)

include fits holds in
theorem RulesHold.write {tbl rule pos : Nat} (inTables : tbl < tab_number)
    (inTable : pos < 2 ^ seg_bits) (inWords : rule < 64 * (max_rule_num / 64)) (bit : Bool) :
    RulesHold tab_number seg_bits max_rule_num (bitmatchWrite ctrl tbl pos rule bit)
      (ranges.put tbl rule pos bit) where
  tables := holds.tables
  seg := holds.seg
  rules := holds.rules
  inside := by
    intro tbl' rule' pos' ranged
    rw [Ranges.put] at ranged
    split at ranged
    · next same =>
      obtain ⟨rfl, rfl, rfl⟩ := same
      exact ⟨inTables, inWords, inTable⟩
    · exact holds.inside _ _ _ ranged
  stored := by
    intro tbl' rule' pos' inTables' inRow' inTable'
    have inRow := Nat.lt_of_lt_of_le inWords (words_le max_rule_num)
    simp only [bitmatchWrite, Ranges.put, holds.seg]
    by_cases same : tbl' = tbl ∧ rule' = rule ∧ pos' = pos
    · obtain ⟨rfl, rfl, rfl⟩ := same
      simp
    rw [if_neg same, Function.update_of_ne]
    · exact holds.stored _ _ _ inTables' inRow' inTable'
    · intro address
      exact same (row_inj fits holds.rules inTables' inTable' inRow' inTables inTable inRow address)

include holds in
theorem RulesHold.congr {others : Ranges}
    (same : ∀ tbl rule pos, others tbl rule pos ↔ ranges tbl rule pos) :
    RulesHold tab_number seg_bits max_rule_num ctrl others := by
  have equal : others = ranges := by
    funext tbl rule pos
    exact propext (same tbl rule pos)
  rwa [equal]

def Ranges.puts (ranges : Ranges) (rule : Nat) (places : Nat → Nat → Prop) (bit : Bool) : Ranges :=
  fun tbl rule' pos => bit = true ∧ rule' = rule ∧ places tbl pos ∨
    ¬(rule' = rule ∧ places tbl pos) ∧ ranges tbl rule' pos

section

variable (fits : Fits tab_number seg_bits max_rule_num)

include fits

variable (holds : RulesHold tab_number seg_bits max_rule_num ctrl ranges)

section

include holds

theorem RulesHold.line {tbl rule : Nat}
    (inTables : tbl < tab_number) (inWords : rule < 64 * (max_rule_num / 64)) (bit : Bool)
    (line : List Nat) (inTable : ∀ pos ∈ line, pos < 2 ^ seg_bits) :
    RulesHold tab_number seg_bits max_rule_num
      (line.foldl (fun ctrl i => bitmatchWrite ctrl tbl i rule bit) ctrl)
      (ranges.puts rule (fun tbl' pos => tbl' = tbl ∧ pos ∈ line) bit) := by
  induction line generalizing ctrl ranges with
  | nil =>
    refine holds.congr fun tbl' rule' pos => ?_
    simp [Ranges.puts]
  | cons pos line ih =>
    have first := holds.write fits inTables (inTable pos List.mem_cons_self) inWords bit
    have rest := ih first fun pos there => inTable pos (List.mem_cons_of_mem _ there)
    refine rest.congr fun tbl' rule' pos' => ?_
    simp only [Ranges.puts, Ranges.put, List.mem_cons]
    split
    · next same =>
      tauto
    next other =>
    have same : (rule' = rule ∧ tbl' = tbl ∧ (pos' = pos ∨ pos' ∈ line)) ↔
        (rule' = rule ∧ tbl' = tbl ∧ pos' ∈ line) := by tauto
    simp [same]

theorem RulesHold.lines {rule : Nat} (inWords : rule < 64 * (max_rule_num / 64)) (tables : List Nat)
    (inTables : ∀ tbl ∈ tables, tbl < tab_number) :
    RulesHold tab_number seg_bits max_rule_num
      (tables.foldl (fun ctrl i => (List.range (2 ^ seg_bits)).foldl
        (fun ctrl j => bitmatchWrite ctrl i j rule false) ctrl) ctrl)
      (ranges.puts rule (fun tbl pos => tbl ∈ tables ∧ pos < 2 ^ seg_bits) false) := by
  induction tables generalizing ctrl ranges with
  | nil =>
    refine holds.congr fun tbl' rule' pos => ?_
    simp [Ranges.puts]
  | cons tbl _ ih =>
    have first := holds.line fits (inTables tbl List.mem_cons_self) inWords false
      (List.range (2 ^ seg_bits)) fun pos there => List.mem_range.mp there
    have rest := ih first fun tbl there => inTables tbl (List.mem_cons_of_mem _ there)
    refine rest.congr fun tbl' rule' pos' => ?_
    simp only [Ranges.puts, List.mem_cons, List.mem_range]
    tauto

theorem RulesHold.call
    {call : BitMatchCall} (asserted : call.Asserted tab_number seg_bits max_rule_num)
    (inWords : call.rule.toNat < 64 * (max_rule_num / 64)) :
    RulesHold tab_number seg_bits max_rule_num (bitmatchCall ctrl call) (ranges.call call) := by
  cases call with
  | add _ range_min range_max =>
    obtain ⟨inTables, _, _, _⟩ := asserted
    refine (holds.line fits inTables inWords true _ fun pos there => ?_).congr
      fun tbl rule pos => ?_
    · rw [List.mem_range'_1] at there
      omega
    simp only [Ranges.call, Ranges.puts, List.mem_range'_1, BitMatchCall.rule]
    have between : range_min.toNat ≤ pos ∧
        pos < range_min.toNat + (range_max.toNat + 1 - range_min.toNat) ↔
          range_min.toNat ≤ pos ∧ pos ≤ range_max.toNat := by omega
    tauto
  | del =>
    rw [bitmatchCall, bitmatchDelRule, holds.tables, holds.seg]
    refine (holds.lines fits inWords (List.range tab_number) fun tbl there =>
      List.mem_range.mp there).congr fun tbl rule pos => ?_
    simp only [Ranges.call, Ranges.puts, List.mem_range, BitMatchCall.rule]
    have places := holds.inside tbl rule pos
    tauto

theorem RulesHold.calls {calls : List BitMatchCall}
    (asserted : ∀ call ∈ calls, call.Asserted tab_number seg_bits max_rule_num)
    (inWords : ∀ call ∈ calls, call.rule.toNat < 64 * (max_rule_num / 64)) :
    RulesHold tab_number seg_bits max_rule_num (calls.foldl bitmatchCall ctrl)
      (calls.foldl Ranges.call ranges) := by
  induction calls generalizing ctrl ranges with
  | nil => exact holds
  | cons call _ ih =>
    have first := holds.call fits (asserted call List.mem_cons_self) (inWords call List.mem_cons_self)
    exact ih first (fun call there => asserted call (List.mem_cons_of_mem _ there))
      fun call there => inWords call (List.mem_cons_of_mem _ there)

end

end

end MyCode.BitMatch
