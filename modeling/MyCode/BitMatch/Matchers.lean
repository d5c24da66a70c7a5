import Mathlib.Tactic.IntervalCases
import MyCode.BitMatch

/-!
# The two matchers

The first rule is exact up to the lower half of a word.  All rules are looked up in the tables
that have the number of a byte.
-/

namespace MyCode.BitMatch

open Function List Nat Option

variable {ctrl : BitMatchS} {ranges : Ranges} {tab_number seg_bits max_rule_num : Nat}
  {slices width : Nat} {mask : UCHAR} {data : Nat → UCHAR} {i tbl : Nat} {positions : Nat → Nat}

structure Sliced (slices width : Nat) (mask : UCHAR) : Prop where
  some : 0 < slices
  whole : width * slices = 8
  masked : mask.toNat = 2 ^ width - 1

theorem segment_lt (width : Nat) (data : Nat → UCHAR) (tbl_index : Nat) :
    segment width data tbl_index < 2 ^ width :=
  mod_lt _ (Nat.two_pow_pos width)

theorem Sliced.slice_eq (sliced : Sliced slices width mask) {slice : Nat}
    (inByte : slice < slices) :
    bitmatchSlice width mask (data i) slice = segment width data (slices * i + slice) := by
  have positive : 0 < width := by
    by_contra none
    have whole := sliced.whole
    rw [Nat.eq_zero_of_not_pos none, zero_mul] at whole
    omega
  have low : width * slice < 8 := by
    rw [← sliced.whole]
    exact mul_lt_mul_of_pos_left inByte positive
  have place : width * (slices * i + slice) = 8 * i + width * slice := by
    rw [mul_add, ← mul_assoc, sliced.whole]
  rw [bitmatchSlice, segment, place, mul_add_div (by decide), div_eq_of_lt low,
    mul_add_mod, mod_eq_of_lt low, BitVec.toNat_and, sliced.masked,
    and_two_pow_sub_one_eq_mod, BitVec.toNat_ushiftRight, shiftRight_eq_div_pow,
    add_zero]

theorem Sliced.tables {holdsAt : Nat → Prop} {bytes : Nat} (sliced : Sliced slices width mask)
    (tables : tab_number = slices * bytes) :
    (∀ tbl < tab_number, holdsAt tbl) ↔
      ∀ i < bytes, ∀ slice < slices, holdsAt (slices * i + slice) := by
  constructor
  · intro all i inBytes slice inByte
    refine all _ ?_
    calc slices * i + slice < slices * (i + 1) := by rw [mul_succ]; omega
      _ ≤ tab_number := tables ▸ mul_le_mul_left _ inBytes
  intro all tbl inTables
  rw [← div_add_mod tbl slices]
  refine all _ ?_ _ (mod_lt _ sliced.some)
  rw [div_lt_iff_lt_mul sliced.some, mul_comm, ← tables]
  exact inTables

theorem RulesHold.word (holds : RulesHold tab_number seg_bits max_rule_num ctrl ranges)
    {pos offset bit : Nat} (inTables : tbl < tab_number) (inTable : pos < 2 ^ seg_bits)
    (inWords : offset < max_rule_num / 64) (inWord : bit < 64) :
    (bitmatchGetU64 ctrl.max_rule_num ctrl.rule_bits seg_bits tbl pos offset).getLsbD bit = true ↔
      ranges tbl (64 * offset + bit) pos := by
  have inRow : 64 * offset + bit < 8 * (max_rule_num / 8) := by omega
  rw [← holds.stored tbl _ pos inTables inRow inTable, bitmatchGetU64, BitVec.getLsbD_setWidth,
    BitVec.getLsbD_ofBoolListLE, decide_eq_true inWord, Bool.true_and,
    getD_eq_getElem?_getD, getElem?_map, getElem?_range inWord]
  rfl

theorem foldl_and (words : Nat → UINT64) (numbers : List Nat) (tmp : UINT64) (bit : Nat) :
    (numbers.foldl (fun tmp x => tmp &&& words x) tmp).getLsbD bit = true ↔
      tmp.getLsbD bit = true ∧ ∀ x ∈ numbers, (words x).getLsbD bit = true := by
  induction numbers generalizing tmp with
  | nil => simp
  | cons _ _ ih =>
    rw [foldl_cons, ih, BitVec.getLsbD_and, Bool.and_eq_true, forall_mem_cons, and_assoc]

section Words

variable {offset bit bytes : Nat} (holds : RulesHold tab_number width max_rule_num ctrl ranges)
  (sliced : Sliced slices width mask) (tables : tab_number = slices * bytes)
  (inWords : offset < max_rule_num / 64) (inWord : bit < 64)

include holds sliced tables inWords inWord

theorem bitmatchFirstByte_bit (inBytes : i < bytes) (tmp : UINT64) :
    (bitmatchFirstByte slices width mask ctrl.max_rule_num width ctrl.rule_bits data offset i
        tmp).getLsbD bit = true ↔
      tmp.getLsbD bit = true ∧ ∀ slice < slices,
        ranges (slices * i + slice) (64 * offset + bit) (segment width data (slices * i + slice)) := by
  rw [bitmatchFirstByte, foldl_and]
  refine and_congr_right fun _ => ?_
  simp only [mem_range]
  refine forall₂_congr fun slice inByte => ?_
  have inTables : slices * i + slice < tab_number := by
    calc slices * i + slice < slices * (i + 1) := by rw [mul_succ]; omega
      _ ≤ tab_number := tables ▸ mul_le_mul_left _ inBytes
  rw [sliced.slice_eq inByte, holds.word inTables (segment_lt _ _ _) inWords inWord]

theorem bitmatchFirstBytes_bit (left i : Nat) (inBytes : i + left ≤ bytes) (tmp : UINT64) :
    (bitmatchFirstBytes slices width mask ctrl.max_rule_num width ctrl.rule_bits data offset left i
        tmp).getLsbD bit = true ↔
      tmp.getLsbD bit = true ∧ ∀ later, i ≤ later → later < i + left → ∀ slice < slices,
        ranges (slices * later + slice) (64 * offset + bit)
          (segment width data (slices * later + slice)) := by
  induction left generalizing i tmp with
  | zero =>
    refine (and_iff_left ?_).symm
    omega
  | succ left ih =>
    have inBytes' : i < bytes := by omega
    have turns : (∀ later, i ≤ later → later < i + (left + 1) → ∀ slice < slices,
          ranges (slices * later + slice) (64 * offset + bit)
            (segment width data (slices * later + slice))) ↔
        (∀ slice < slices, ranges (slices * i + slice) (64 * offset + bit)
          (segment width data (slices * i + slice))) ∧
        ∀ later, i + 1 ≤ later → later < i + 1 + left → ∀ slice < slices,
          ranges (slices * later + slice) (64 * offset + bit)
            (segment width data (slices * later + slice)) := by
      constructor
      · exact fun all => ⟨all i (by omega) (by omega),
          fun later behind before => all later (by omega) (by omega)⟩
      rintro ⟨first, rest⟩ later behind _
      rcases eq_or_lt_of_le behind with rfl | behind
      · exact first
      · exact rest later behind (by omega)
    rw [turns, ← and_assoc,
      ← bitmatchFirstByte_bit holds sliced tables inWords inWord inBytes' tmp, bitmatchFirstBytes]
    split
    · next zero =>
      rw [zero]
      simp
    · exact ih (i + 1) (by omega) _

theorem bitmatchFirstWord_bit {tab_num : UINT} (number : tab_num.toNat = tab_number)
    (positive : 0 < bytes) :
    (bitmatchFirstWord slices width mask tab_num ctrl.max_rule_num width ctrl.rule_bits data
        offset).getLsbD bit = true ↔
      ranges.Matched tab_number width data (64 * offset + bit) := by
  have count : tab_num.toNat / slices = bytes := by
    rw [number, tables, Nat.mul_div_cancel_left _ sliced.some]
  rw [bitmatchFirstWord, count, bitmatchFirstBytes_bit holds sliced tables inWords inWord _ _
    (by omega), bitmatchFirstByte_bit holds sliced tables inWords inWord positive,
    BitVec.getLsbD_allOnes, decide_eq_true inWord, Ranges.Matched, sliced.tables tables]
  constructor
  · rintro ⟨⟨-, first⟩, rest⟩ i _
    rcases Nat.eq_zero_or_pos i with rfl | behind
    · exact first
    · exact rest i behind (by omega)
  · exact fun all => ⟨⟨rfl, all 0 positive⟩, fun later _ before => all later (by omega)⟩

end Words

theorem lowMask_bit {bit : Nat} (inUint : i < 32) (inWord : bit < 64) :
    ((1#32 <<< (i % 32)).signExtend 64).getLsbD bit = true ↔ bit = i ∨ i = 31 ∧ 31 ≤ bit := by
  have all : ∀ i < 32, ∀ bit < 64, ((1#32 <<< (i % 32)).signExtend 64).getLsbD bit =
      (decide (bit = i) || decide (i = 31) && decide (31 ≤ bit)) := by decide +kernel
  rw [all i inUint bit inWord]
  simp

theorem bitGetLowIndex64_eq {num : UINT64} {bit : Nat} (there : num.getLsbD bit = true)
    (lowest : ∀ lower < bit, num.getLsbD lower = false) :
    bitGetLowIndex64 num = ((min bit 31 : Nat) : Int) := by
  have hit : ∀ i < 32, (num &&& ((1#32 <<< (i % 32)).signExtend 64) != 0) = true ↔
      ∃ other, num.getLsbD other = true ∧ (other = i ∨ i = 31 ∧ 31 ≤ other) := by
    intro i inUint
    rw [bne_iff_ne]
    constructor
    · intro some
      by_contra none
      push Not at none
      apply some
      apply BitVec.eq_of_getLsbD_eq
      intro other inside
      rw [BitVec.getLsbD_and, BitVec.ofNat_eq_ofNat, BitVec.getLsbD_zero, Bool.and_eq_false_iff]
      by_cases set : num.getLsbD other = true
      · right
        rw [Bool.eq_false_iff, ne_eq, lowMask_bit inUint inside]
        have none := none other set
        omega
      · exact .inl (Bool.eq_false_of_not_eq_true set)
    · rintro ⟨other, set, same⟩ zero
      have read := congrArg (fun num : UINT64 => num.getLsbD other) zero
      simp only [BitVec.getLsbD_and, set,
        (lowMask_bit inUint (BitVec.lt_of_getLsbD set)).mpr same] at read
      exact absurd read (by simp)
  have found : (range 64).find? (fun i => num &&& ((1#32 <<< (i % 32)).signExtend 64) != 0) =
      some (min bit 31) := by
    rw [find?_range_eq_some]
    refine ⟨?_, mem_range.mpr (by omega), fun lower less => ?_⟩
    · rw [hit _ (by omega)]
      exact ⟨bit, there, by omega⟩
    rw [Bool.not_eq_true', Bool.eq_false_iff, ne_eq, hit _ (by omega)]
    rintro ⟨other, set, _⟩
    have unset := lowest other (by omega)
    rw [set] at unset
    exact nomatch unset
  rw [bitGetLowIndex64, found]

section First

variable {bytes : Nat} {tab_num : UINT}
  (holds : RulesHold tab_number width max_rule_num ctrl ranges)
  (sliced : Sliced slices width mask) (tables : tab_number = slices * bytes)
  (number : tab_num.toNat = tab_number) (positive : 0 < bytes)

include holds sliced tables positive

theorem Ranges.Matched.inWords {rule : Nat} (matched : ranges.Matched tab_number width data rule) :
    rule < 64 * (max_rule_num / 64) := by
  have some : 0 < tab_number := by
    rw [tables]
    exact mul_pos sliced.some positive
  exact (holds.inside _ _ _ (matched 0 some)).2.1

include number

theorem bitmatchFirstWord_zero {offset : Nat} (inWords : offset < max_rule_num / 64) :
    bitmatchFirstWord slices width mask tab_num ctrl.max_rule_num width ctrl.rule_bits data
        offset = 0 ↔
      ∀ bit < 64, ¬ranges.Matched tab_number width data (64 * offset + bit) := by
  constructor
  · intro zero bit inWord
    rw [← bitmatchFirstWord_bit holds sliced tables inWords inWord number positive, zero]
    simp
  intro none
  apply BitVec.eq_of_getLsbD_eq
  intro bit inWord
  rw [BitVec.ofNat_eq_ofNat, BitVec.getLsbD_zero, Bool.eq_false_iff, ne_eq,
    bitmatchFirstWord_bit holds sliced tables inWords inWord number positive]
  exact none bit inWord

theorem bitmatchMatchFirstBy_none (none : ∀ rule, ¬ranges.Matched tab_number width data rule) :
    bitmatchMatchFirstBy slices width mask tab_num ctrl.max_rule_num width ctrl.rule_bits data =
      -1 := by
  have words : (range (ctrl.max_rule_num.toNat / 64)).findSome? (fun offset =>
      let tmp := bitmatchFirstWord slices width mask tab_num ctrl.max_rule_num width
        ctrl.rule_bits data offset
      if tmp = 0 then Option.none else some (64 * (offset : Int) + bitGetLowIndex64 tmp)) =
      Option.none := by
    rw [findSome?_eq_none_iff]
    intro offset inWords
    rw [mem_range, holds.rules] at inWords
    exact if_pos ((bitmatchFirstWord_zero holds sliced tables number positive inWords).mpr
      fun bit _ => none _)
  rw [bitmatchMatchFirstBy, words]
  rfl

theorem bitmatchMatchFirstBy_some {rule : Nat} (matched : ranges.Matched tab_number width data rule)
    (lowest : ∀ lower < rule, ¬ranges.Matched tab_number width data lower) :
    bitmatchMatchFirstBy slices width mask tab_num ctrl.max_rule_num width ctrl.rule_bits data =
      ((64 * (rule / 64) + min (rule % 64) 31 : Nat) : Int) := by
  have bound := matched.inWords holds sliced tables positive
  have inWords : rule / 64 < max_rule_num / 64 := by omega
  have inWord : rule % 64 < 64 := mod_lt _ (by decide)
  have place : 64 * (rule / 64) + rule % 64 = rule := div_add_mod _ _
  have low : bitGetLowIndex64 (bitmatchFirstWord slices width mask tab_num ctrl.max_rule_num width
      ctrl.rule_bits data (rule / 64)) = ((min (rule % 64) 31 : Nat) : Int) := by
    apply bitGetLowIndex64_eq
    · rw [bitmatchFirstWord_bit holds sliced tables inWords inWord number positive, place]
      exact matched
    intro lower less
    rw [Bool.eq_false_iff, ne_eq, bitmatchFirstWord_bit holds sliced tables inWords (by omega)
      number positive]
    exact lowest _ (by omega)
  have used : bitmatchFirstWord slices width mask tab_num ctrl.max_rule_num width
      ctrl.rule_bits data (rule / 64) ≠ 0 := by
    rw [ne_eq, bitmatchFirstWord_zero holds sliced tables number positive inWords]
    intro none
    refine none _ inWord ?_
    rwa [place]
  have found : (range (ctrl.max_rule_num.toNat / 64)).findSome? (fun offset =>
      let tmp := bitmatchFirstWord slices width mask tab_num ctrl.max_rule_num width
        ctrl.rule_bits data offset
      if tmp = 0 then none else some (64 * (offset : Int) + bitGetLowIndex64 tmp)) =
      some ((64 * (rule / 64) + min (rule % 64) 31 : Nat) : Int) := by
    have split : ctrl.max_rule_num.toNat / 64 =
        rule / 64 + (1 + (ctrl.max_rule_num.toNat / 64 - rule / 64 - 1)) := by
      rw [holds.rules]
      omega
    have before : (range (rule / 64)).findSome? (fun offset =>
        let tmp := bitmatchFirstWord slices width mask tab_num ctrl.max_rule_num width
          ctrl.rule_bits data offset
        if tmp = 0 then none else some (64 * (offset : Int) + bitGetLowIndex64 tmp)) = none := by
      rw [findSome?_eq_none_iff]
      intro offset earlier
      rw [mem_range] at earlier
      refine if_pos ((bitmatchFirstWord_zero holds sliced tables number positive
        (by omega)).mpr fun bit inWord => lowest _ ?_)
      omega
    rw [split, range_add, findSome?_append, before, none_or, add_comm 1,
      range_succ_eq_map, map_cons, findSome?_cons]
    simp only [add_zero, if_neg used, low]
    push_cast
    rfl
  rw [bitmatchMatchFirstBy, found]
  rfl

end First

/-- Every table takes all slices of the byte that has its number. -/
def Ranges.Looked (ranges : Ranges) (tab_number slices seg_bits : Nat) (data : Nat → UCHAR)
    (rule : Nat) : Prop :=
  ∀ i < tab_number, ∀ slice < slices,
    ranges i rule (segment seg_bits data (slices * i + slice))

section All

variable (holds : RulesHold tab_number width max_rule_num ctrl ranges)
  (sliced : Sliced slices width mask)

include holds sliced

theorem bitmatchAndSlices_bit (inTables : i < tab_number) (numbers : List Nat)
    (inByte : ∀ slice ∈ numbers, slice < slices) (matched_bits : Nat → Bool) (rule : Nat) :
    bitmatchAndSlices width mask ctrl.max_rule_num ctrl.rule_bits width data i numbers
        matched_bits rule = true ↔
      matched_bits rule = true ∧ (rule < 64 * (max_rule_num / 64) → ∀ slice ∈ numbers,
        ranges i rule (segment width data (slices * i + slice))) := by
  induction numbers generalizing matched_bits with
  | nil => simp [bitmatchAndSlices]
  | cons slice _ ih =>
    have rest := ih fun slice there => inByte slice (mem_cons_of_mem _ there)
    rw [bitmatchAndSlices, foldl_cons, ← bitmatchAndSlices, rest, arrayBitAnd64, holds.rules,
      sliced.slice_eq (inByte slice mem_cons_self)]
    split
    · next inWords =>
      have inRow := lt_of_lt_of_le inWords (words_le max_rule_num)
      rw [Bool.and_eq_true, holds.stored i rule _ inTables inRow (segment_lt _ _ _),
        forall_mem_cons]
      tauto
    · next outside => simp [outside]

theorem bitmatchMatch_loop (tables : List Nat) (inTables : ∀ i ∈ tables, i < tab_number)
    (matched_bits : Nat → Bool) (rule : Nat) :
    tables.foldl (fun matched_bits i =>
        bitmatchAndSlices width mask ctrl.max_rule_num ctrl.rule_bits width data i
          (range slices) matched_bits) matched_bits rule = true ↔
      matched_bits rule = true ∧ (rule < 64 * (max_rule_num / 64) → ∀ i ∈ tables,
        ∀ slice < slices, ranges i rule (segment width data (slices * i + slice))) := by
  induction tables generalizing matched_bits with
  | nil => simp
  | cons i _ ih =>
    rw [foldl_cons, ih fun i there => inTables i (mem_cons_of_mem _ there),
      bitmatchAndSlices_bit holds sliced (inTables i mem_cons_self) _
        fun slice there => mem_range.mp there]
    simp only [mem_range, forall_mem_cons]
    tauto

theorem bitmatchMatchBy_bit {tab_num : UINT} (number : tab_num.toNat = tab_number)
    (positive : 0 < tab_number) (matched_bits : Nat → Bool) (rule : Nat) :
    bitmatchMatchBy slices width mask tab_num ctrl.max_rule_num ctrl.rule_bits width data
        matched_bits rule = true ↔
      if rule < 8 * (max_rule_num / 8) then ranges.Looked tab_number slices width data rule
      else matched_bits rule = true := by
  have whole : ranges 0 rule (segment width data 0) → rule < 64 * (max_rule_num / 64) :=
    fun ranged => (holds.inside _ _ _ ranged).2.1
  have start : bitmatchSlice width mask (data 0) 0 = segment width data 0 := by
    rw [sliced.slice_eq sliced.some, mul_zero]
  rw [bitmatchMatchBy, bitmatchMatch_loop holds sliced _ fun i there => number ▸ mem_range.mp there,
    bitmatchAndSlices_bit holds sliced positive, rowCopy, holds.rules, start]
  · simp only [mem_range, number, mem_range'_1, mul_zero, zero_add, Ranges.Looked]
    split
    · next inRow =>
      rw [holds.stored 0 rule _ positive inRow (segment_lt _ _ _)]
      constructor
      · rintro ⟨⟨first, -⟩, all⟩
        exact all (whole first)
      intro all
      have first := all 0 positive
      simp only [mul_zero, zero_add] at first
      exact ⟨⟨first 0 sliced.some, fun _ slice there => first slice (by omega)⟩, fun _ => all⟩
    · next outside =>
      have behind : ¬rule < 64 * (max_rule_num / 64) := by omega
      simp [behind]
  · intro slice there
    rw [mem_range'_1] at there
    omega

end All

def packed (width : Nat) (positions : Nat → Nat) (i : Nat) : UCHAR :=
  (BitVec.ofBoolListLE ((List.range 8).map fun bit =>
    (positions ((8 * i + bit) / width)).testBit ((8 * i + bit) % width))).setWidth 8

theorem Sliced.unpack (sliced : Sliced slices width mask) (small : positions tbl < 2 ^ width) :
    segment width (packed width positions) tbl = positions tbl := by
  have positive : 0 < width := by
    by_contra none
    have whole := sliced.whole
    rw [Nat.eq_zero_of_not_pos none, zero_mul] at whole
    omega
  have start : width * tbl = 8 * (tbl / slices) + width * (tbl % slices) := by
    rw [← sliced.whole, mul_assoc, ← mul_add, div_add_mod]
  have room : width * (tbl % slices) + width ≤ 8 := by
    rw [← mul_succ, ← sliced.whole]
    exact mul_le_mul_left _ (mod_lt _ sliced.some)
  apply eq_of_testBit_eq
  intro bit
  rw [segment, testBit_mod_two_pow, testBit_div_two_pow, BitVec.testBit_toNat]
  by_cases inTable : bit < width
  · have low : width * (tbl % slices) < 8 := by omega
    have inByte : bit + width * (tbl % slices) < 8 := by omega
    have place : 8 * (tbl / slices) + (bit + width * (tbl % slices)) = width * tbl + bit := by omega
    rw [start, mul_add_div (by decide), mul_add_mod, div_eq_of_lt low,
      mod_eq_of_lt low, add_zero, packed, BitVec.getLsbD_setWidth,
      decide_eq_true inByte, decide_eq_true inTable, BitVec.getLsbD_ofBoolListLE,
      getD_eq_getElem?_getD, getElem?_map, getElem?_range inByte]
    simp only [map_some, getD_some, Bool.true_and, place]
    rw [mul_add_div positive, div_eq_of_lt inTable, mul_add_mod, mod_eq_of_lt inTable, add_zero]
  · rw [decide_eq_false inTable, Bool.false_and, testBit_lt_two_pow]
    exact lt_of_lt_of_le small (Nat.pow_le_pow_right (by decide) (Nat.le_of_not_lt inTable))

theorem Sliced.exists_input (sliced : Sliced slices width mask)
    (small : ∀ tbl, positions tbl < 2 ^ width) :
    ∃ data, ∀ tbl, segment width data tbl = positions tbl :=
  ⟨packed width positions, fun tbl => sliced.unpack (small tbl)⟩

/-- Each rule has an empty table or all positions of every table. -/
def Ranges.Plain (ranges : Ranges) (tab_number seg_bits : Nat) : Prop :=
  ∀ rule, (∀ tbl < tab_number, ∃ pos, ranges tbl rule pos) →
    ∀ tbl < tab_number, ∀ pos < 2 ^ seg_bits, ranges tbl rule pos

theorem Ranges.Plain.looked (plain : ranges.Plain tab_number seg_bits) (some : 0 < slices)
    (rule : Nat) :
    ranges.Looked tab_number slices seg_bits data rule ↔
      ranges.Matched tab_number seg_bits data rule := by
  constructor
  · intro looked tbl inTables
    refine plain rule (fun tbl inTables => ?_) tbl inTables _ (segment_lt _ _ _)
    exact ⟨_, looked tbl inTables 0 some⟩
  · intro matched i inTables slice _
    exact plain rule (fun tbl inTables => ⟨_, matched tbl inTables⟩) i inTables _ (segment_lt _ _ _)

theorem Ranges.plain_of_looked (sliced : Sliced slices width mask) (several : 1 < slices)
    (inside : ∀ tbl rule pos, ranges tbl rule pos → pos < 2 ^ width)
    (same : ∀ data rule, ranges.Looked tab_number slices width data rule ↔
      ranges.Matched tab_number width data rule) : ranges.Plain tab_number width := by
  intro rule all
  choose! position ranged using all
  have full : ∀ behind tbl, tbl + behind = tab_number → ∀ later < tab_number, tbl ≤ later →
      ∀ pos < 2 ^ width, ranges later rule pos := by
    intro behind
    induction behind with
    | zero =>
      intro tbl last later inTables
      omega
    | succ _ ih =>
      intro tbl last later inTables after pos inTable
      rcases eq_or_lt_of_le after with rfl | after
      · have beyond := ih (tbl + 1) (by omega)
        have next : tbl < slices * tbl + 1 := lt_succ_of_le (Nat.le_mul_of_pos_left _ sliced.some)
        have small : ∀ other, update (fun other =>
            if other < tab_number then position other else 0) (slices * tbl + 1) pos other <
            2 ^ width := by
          intro other
          rw [update_apply]
          split
          · exact inTable
          split
          · next inTables => exact inside _ _ _ (ranged other inTables)
          · exact Nat.two_pow_pos width
        obtain ⟨data, read⟩ := sliced.exists_input small
        have matched : ranges.Matched tab_number width data rule := by
          intro other inTables
          rw [read, update_apply]
          split
          · next same =>
            subst same
            exact beyond _ inTables next pos inTable
          · exact ranged other inTables
        have looked := (same data rule).mpr matched tbl inTables 1 several
        rw [read, update_self] at looked
        exact looked
      · exact ih (tbl + 1) (by omega) later inTables after pos inTable
  intro tbl inTables pos inTable
  exact full tab_number 0 (zero_add _) tbl inTables (zero_le _) pos inTable

theorem fresh_holds (fits : Fits tab_number seg_bits max_rule_num)
    (created : bitmatchCreate tab_number seg_bits max_rule_num = some ctrl) :
    RulesHold tab_number seg_bits max_rule_num ctrl fun _ _ _ => False := by
  have bounds := fits.tables
  have rules := fits.rules
  have room : 1 * max_rule_num ≤ tab_number * max_rule_num := mul_le_mul_right _ bounds.1
  have width : seg_bits < 2 ^ 8 := by
    obtain rfl | rfl | rfl := fits.seg <;> decide
  rw [bitmatchCreate] at created
  split at created
  · exact nomatch created
  split at created
  · exact nomatch created
  obtain rfl := some.inj created
  refine ⟨?_, ?_, ?_, fun _ _ _ none => none.elim, fun _ _ _ _ _ _ => by simp⟩
  · exact mod_eq_of_lt bounds.2
  · exact mod_eq_of_lt width
  · simp only [BitVec.ofInt_natCast, BitVec.toNat_ofNat]
    exact mod_eq_of_lt (by omega)

/-- `BITMATCH_DoMatch` writes the rules that match into the bytes of a row. -/
def AllExact (ctrl : BitMatchS) (ranges : Ranges) (tab_number seg_bits max_rule_num : Nat) : Prop :=
  ∀ data matched_bits, (bitmatchDoMatch ctrl data matched_bits).1 = 0 ∧ ∀ rule,
    (bitmatchDoMatch ctrl data matched_bits).2 rule = true ↔
      if rule < 8 * (max_rule_num / 8) then ranges.Matched tab_number seg_bits data rule
      else matched_bits rule = true

/-- `BITMATCH_MatchFirst` returns the lowest rule that matches, or -1. -/
def FirstExact (ctrl : BitMatchS) (ranges : Ranges) (tab_number seg_bits : Nat)
    (data : Nat → UCHAR) : Prop :=
  (∀ rule : Nat, ranges.Matched tab_number seg_bits data rule →
    (∀ lower < rule, ¬ranges.Matched tab_number seg_bits data lower) →
    bitmatchFirstOf ctrl data = rule) ∧
  ((∀ rule, ¬ranges.Matched tab_number seg_bits data rule) → bitmatchFirstOf ctrl data = -1)

section Runs

variable (holds : RulesHold tab_number width max_rule_num ctrl ranges)
  (sliced : Sliced slices width mask)

include holds sliced

theorem allExact_iff (positive : 0 < tab_number)
    (written : ∀ data matched_bits, bitmatchDoMatch ctrl data matched_bits =
      (0, bitmatchMatchBy slices width mask (ctrl.tab_number.setWidth 32) ctrl.max_rule_num
        ctrl.rule_bits width data matched_bits)) :
    AllExact ctrl ranges tab_number width max_rule_num ↔
      slices = 1 ∨ ranges.Plain tab_number width := by
  have number : (ctrl.tab_number.setWidth 32).toNat = tab_number := by
    rw [BitVec.toNat_setWidth_of_le (by decide), holds.tables]
  have result : AllExact ctrl ranges tab_number width max_rule_num ↔ ∀ data rule,
      ranges.Looked tab_number slices width data rule ↔
        ranges.Matched tab_number width data rule := by
    simp only [AllExact, written, true_and, bitmatchMatchBy_bit holds sliced number positive]
    constructor
    · intro exact data rule
      by_cases inRow : rule < 8 * (max_rule_num / 8)
      · have bits := exact data (fun _ => false) rule
        rwa [if_pos inRow, if_pos inRow] at bits
      have outside : ¬rule < 64 * (max_rule_num / 64) := by omega
      refine iff_of_false (fun looked => outside ?_) fun matched => outside ?_
      · exact (holds.inside _ _ _ (looked 0 positive 0 sliced.some)).2.1
      · exact (holds.inside _ _ _ (matched 0 positive)).2.1
    · intro same data matched_bits rule
      rw [same]
  rw [result]
  constructor
  · intro same
    rcases Nat.eq_or_lt_of_le sliced.some with one | several
    · exact .inl one.symm
    · exact .inr (Ranges.plain_of_looked sliced several
        (fun tbl rule pos ranged => (holds.inside tbl rule pos ranged).2.2) same)
  · rintro (rfl | plain) - rule
    · simp [Ranges.Looked, Ranges.Matched]
    · exact plain.looked sliced.some rule

theorem firstExact_iff {bytes : Nat} (tables : tab_number = slices * bytes) (positive : 0 < bytes)
    (found : bitmatchFirstOf ctrl data = bitmatchMatchFirstBy slices width mask
      (ctrl.tab_number.setWidth 32) ctrl.max_rule_num width ctrl.rule_bits data) :
    FirstExact ctrl ranges tab_number width data ↔ ∀ rule,
      ranges.Matched tab_number width data rule → 32 ≤ rule % 64 →
        ∃ lower < rule, ranges.Matched tab_number width data lower := by
  have number : (ctrl.tab_number.setWidth 32).toNat = tab_number := by
    rw [BitVec.toNat_setWidth_of_le (by decide), holds.tables]
  rw [FirstExact, found]
  constructor
  · intro exact rule matched high
    by_contra none
    push Not at none
    have same := exact.1 rule matched none
    rw [bitmatchMatchFirstBy_some holds sliced tables number positive matched none] at same
    omega
  intro lower
  refine ⟨fun rule matched lowest => ?_, fun none => ?_⟩
  · rw [bitmatchMatchFirstBy_some holds sliced tables number positive matched lowest]
    have low : rule % 64 < 32 := by
      by_contra high
      obtain ⟨other, less, matches'⟩ := lower rule matched (Nat.le_of_not_lt high)
      exact lowest other less matches'
    omega
  · exact bitmatchMatchFirstBy_none holds sliced tables number positive none

end Runs

/-- After calls for rules of whole words, all matching rules are found exactly at width 8 or when
the ranges select nothing, and the first one exactly when it stands in the lower half of its
word. -/
theorem bitmatch_runs (fits : Fits tab_number seg_bits max_rule_num)
    (created : bitmatchCreate tab_number seg_bits max_rule_num = some ctrl)
    (calls : List BitMatchCall)
    (asserted : ∀ call ∈ calls, call.Asserted tab_number seg_bits max_rule_num)
    (inWords : ∀ call ∈ calls, call.rule.toNat < 64 * (max_rule_num / 64)) :
    (AllExact (calls.foldl bitmatchCall ctrl) (Ranges.calls calls) tab_number seg_bits
        max_rule_num ↔
      seg_bits = 8 ∨ (Ranges.calls calls).Plain tab_number seg_bits) ∧
    ∀ data, FirstExact (calls.foldl bitmatchCall ctrl) (Ranges.calls calls) tab_number seg_bits
        data ↔
      ∀ rule, (Ranges.calls calls).Matched tab_number seg_bits data rule → 32 ≤ rule % 64 →
        ∃ lower < rule, (Ranges.calls calls).Matched tab_number seg_bits data lower := by
  have holds := (fresh_holds fits created).calls fits asserted inWords
  have tables := fits.tables
  have bytes := fits.bytes
  rw [← Ranges.calls] at holds
  have seg := holds.seg
  obtain rfl | rfl | rfl := fits.seg
  · have sliced : Sliced 4 2 0x3 := ⟨by decide, by decide, by decide⟩
    have whole : tab_number = 4 * (tab_number / 4) := by omega
    refine ⟨?_, fun data => firstExact_iff holds sliced whole (by omega) ?_⟩
    · rw [allExact_iff holds sliced tables.1 fun data matched_bits => by
        rw [bitmatchDoMatch, seg, bitmatchMatch, if_pos rfl, bitmatchMatch2]]
      simp
    · rw [bitmatchFirstOf, seg, bitmatchMatchFirst, if_pos rfl, bitmatchMatchFirst2]
  · have sliced : Sliced 2 4 0xf := ⟨by decide, by decide, by decide⟩
    have whole : tab_number = 2 * (tab_number / 2) := by omega
    refine ⟨?_, fun data => firstExact_iff holds sliced whole (by omega) ?_⟩
    · rw [allExact_iff holds sliced tables.1 fun data matched_bits => by
        rw [bitmatchDoMatch, seg, bitmatchMatch, if_neg (by decide), if_pos rfl, bitmatchMatch4]]
      simp
    · rw [bitmatchFirstOf, seg, bitmatchMatchFirst, if_neg (by decide), if_pos rfl,
        bitmatchMatchFirst4]
  · have sliced : Sliced 1 8 0xff := ⟨by decide, by decide, by decide⟩
    refine ⟨?_, fun data => firstExact_iff holds sliced (one_mul _).symm tables.1 ?_⟩
    · rw [allExact_iff holds sliced tables.1 fun data matched_bits => by
        rw [bitmatchDoMatch, seg, bitmatchMatch, if_neg (by decide), if_neg (by decide), if_pos rfl,
          bitmatchMatch8]]
      simp
    · rw [bitmatchFirstOf, seg, bitmatchMatchFirst, if_neg (by decide), if_neg (by decide),
        if_pos rfl, bitmatchMatchFirst8]

theorem bitmatch_runs_one :
    AllExact (bitmatchAddRule ⟨1, 8, 65, fun _ => false⟩ 0 3 5 7)
      (Ranges.calls [.add 0 3 5 7]) 1 8 65 ∧
    ∀ data, FirstExact (bitmatchAddRule ⟨1, 8, 65, fun _ => false⟩ 0 3 5 7)
      (Ranges.calls [.add 0 3 5 7]) 1 8 data := by
  have fits : Fits 1 8 65 := ⟨by decide, by decide, by decide, by decide, by decide⟩
  have both := bitmatch_runs fits rfl [.add 0 3 5 7] (by decide) (by decide)
  refine ⟨both.1.mpr (.inl rfl), fun data => (both.2 data).mpr fun rule matched high => ?_⟩
  have ranged := matched 0 (by decide)
  simp only [Ranges.calls, foldl_cons, foldl_nil, Ranges.call, or_false] at ranged
  rw [ranged.2.1] at high
  exact absurd high (by decide)

/-- A rule that only one table narrows is dropped at width 2, and rule 32 is reported as 31. -/
theorem bitmatch_misses :
    let calls : List BitMatchCall := [.add 0 0 0 0, .add 1 1 1 0, .add 2 0 3 0, .add 3 0 3 0,
      .add 0 0 3 32, .add 1 0 3 32, .add 2 0 3 32, .add 3 0 3 32]
    let ctrl : BitMatchS := ⟨4, 2, 100, fun _ => false⟩
    let after := calls.foldl bitmatchCall ctrl
    bitmatchCreate 4 2 100 = some ctrl ∧ (∀ call ∈ calls, call.Asserted 4 2 100) ∧
      (Ranges.calls calls).Matched 4 2 (fun _ => 4) 0 ∧ bitmatchFirstOf after (fun _ => 4) = 0 ∧
      (bitmatchDoMatch after (fun _ => 4) fun _ => false).2 0 = false ∧
      (Ranges.calls calls).Matched 4 2 (fun _ => 0) 32 ∧
      ¬(Ranges.calls calls).Matched 4 2 (fun _ => 0) 31 ∧
      bitmatchFirstOf after (fun _ => 0) = 31 ∧
      (bitmatchDoMatch after (fun _ => 0) fun _ => false).2 32 = true := by
  refine ⟨rfl, by decide, ?_, by decide +kernel, by decide +kernel, ?_, ?_, by decide +kernel,
    by decide +kernel⟩
  · intro tbl inTables
    interval_cases tbl <;> simp [Ranges.calls, Ranges.call, segment]
  · intro tbl inTables
    interval_cases tbl <;> simp [Ranges.calls, Ranges.call, segment]
  intro matched
  have ranged := matched 0 (by decide)
  simp [Ranges.calls, Ranges.call, segment] at ranged

end MyCode.BitMatch
