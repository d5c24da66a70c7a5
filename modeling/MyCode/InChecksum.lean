import MyCode.Lib.OnesComplement
import MyCode.Net
import Mathlib.Algebra.Order.BigOperators.Group.Finset

/-!
# The internet checksum

`IN_CHKSUM_*`: the checksum of a block, and its two updates for words of the
block that are replaced.  The update of `IN_CHKSUM_DelRaw` and `IN_CHKSUM_AddRaw`
works in network order, that of `IN_CHKSUM_Change` in the order of the host.
-/

namespace MyCode.InChecksum

open Lib List Nat

def inChksumHigh (byte : UCHAR) : UINT :=
  byte.setWidth 32 <<< 8 &&& 0xFF00

def inChksumLow (byte : UCHAR) : UINT :=
  byte.setWidth 32 &&& 0xFF

def inChksumAddWords (uiCheckSum : UINT) : List UCHAR → UINT
  | first :: second :: rest =>
    inChksumAddWords (uiCheckSum + (inChksumHigh first + inChksumLow second)) rest
  | [last] => uiCheckSum + inChksumHigh last
  | [] => uiCheckSum

theorem and_high_eq_zero (sum : UINT) : sum &&& 0xffff0000 = 0 ↔ sum.toNat < 2 ^ 16 := by
  have low : (sum &&& 0xffff).toNat = sum.toNat % 2 ^ 16 := and_two_pow_sub_one_eq_mod sum.toNat 16
  constructor
  · intro none
    have whole : (sum &&& 0xffff0000) ||| (sum &&& 0xffff) = sum := by
      rw [← BitVec.and_or_distrib_left]
      exact BitVec.and_allOnes
    rw [← whole, none, show (0 : UINT) ||| (sum &&& 0xffff) = _ from BitVec.zero_or, low]
    exact mod_lt _ (by decide)
  · intro short
    have whole := BitVec.eq_of_toNat_eq (low.trans (mod_eq_of_lt short))
    rw [← whole, BitVec.and_assoc]
    exact BitVec.and_zero

theorem toNat_carry (sum : UINT) : ((sum &&& (0xffff : UINT)) + sum >>> 16).toNat =
    sum.toNat % 2 ^ 16 + sum.toNat / 2 ^ 16 := by
  have low : (sum &&& 0xffff).toNat = sum.toNat % 2 ^ 16 := and_two_pow_sub_one_eq_mod sum.toNat 16
  rw [BitVec.toNat_add, low, BitVec.toNat_ushiftRight, shiftRight_eq_div_pow]
  omega

theorem carry_masked (sum : UINT) : sum >>> 16 &&& (0xFFFF : UINT) = sum >>> 16 := by
  apply BitVec.eq_of_toNat_eq
  have short : (sum >>> 16).toNat < 2 ^ 16 := by
    rw [BitVec.toNat_ushiftRight, shiftRight_eq_div_pow]
    omega
  exact (and_two_pow_sub_one_eq_mod _ 16).trans (mod_eq_of_lt short)

def inChksumFold (uiCheckSum : UINT) : UINT :=
  if uiCheckSum &&& 0xffff0000 = 0 then
    uiCheckSum
  else
    inChksumFold ((uiCheckSum &&& (0xFFFF : UINT)) + (uiCheckSum >>> 16 &&& 0xFFFF))
termination_by uiCheckSum.toNat
decreasing_by
  next carries =>
  rw [and_high_eq_zero] at carries
  rw [carry_masked, toNat_carry]
  omega

def inChksumAddRaw (usCurrentSum : USHORT) (data : List UCHAR) : USHORT :=
  (inChksumFold (inChksumAddWords (usCurrentSum.setWidth 32) data)).setWidth 16

def inChksumDelWord (uiCheckSum usWork : UINT) : UINT :=
  if uiCheckSum < usWork then uiCheckSum + 0xffff - usWork else uiCheckSum - usWork

def inChksumDelWords (uiCheckSum : UINT) : List UCHAR → UINT
  | first :: second :: rest =>
    inChksumDelWords (inChksumDelWord uiCheckSum (inChksumHigh first + inChksumLow second)) rest
  | [last] => inChksumDelWord uiCheckSum (inChksumHigh last)
  | [] => uiCheckSum

def inChksumDelRaw (usCurrentSum : USHORT) (data : List UCHAR) : USHORT :=
  (inChksumDelWords (usCurrentSum.setWidth 32) data).setWidth 16

def inChksumWrap (usRawCheckSum : USHORT) : USHORT :=
  htons (~~~usRawCheckSum)

def inChksumUnWrap (usCheckSum : USHORT) : USHORT :=
  htons (~~~usCheckSum)

def inChksumCheckSum (data : List UCHAR) : USHORT :=
  inChksumWrap (inChksumAddRaw 0 data)

def inChksumChange (olddata newdata : List USHORT) (old_checksum : USHORT) : USHORT :=
  let sum := (~~~old_checksum).setWidth 32
  let sum := olddata.foldl (fun sum word => sum + (~~~word).setWidth 32) sum
  let sum := newdata.foldl (fun sum word => sum + word.setWidth 32) sum
  let sum := (sum &&& (0xffff : UINT)) + sum >>> 16
  let sum := (sum &&& (0xffff : UINT)) + sum >>> 16
  if sum = 0xffff then sum.setWidth 16 else (~~~sum).setWidth 16

theorem toNat_bytes (first second : UCHAR) :
    (inChksumHigh first + inChksumLow second).toNat = 256 * first.toNat + second.toNat := by
  have high : ∀ byte, (inChksumHigh byte).toNat = 256 * byte.toNat := by decide
  have low : ∀ byte, (inChksumLow byte).toNat = byte.toNat := by decide
  rw [BitVec.toNat_add, high, low]
  omega

theorem toNat_high (last : UCHAR) : (inChksumHigh last).toNat = 256 * last.toNat := by
  revert last
  decide

/-- The sum of the words in network order. -/
def total (data : List UCHAR) : Nat :=
  (bigWords (data.map BitVec.toNat)).sum

theorem toNat_addWords (uiCheckSum : UINT) (data : List UCHAR)
    (few : uiCheckSum.toNat + total data < 2 ^ 32) :
    (inChksumAddWords uiCheckSum data).toNat = uiCheckSum.toNat + total data := by
  fun_induction inChksumAddWords uiCheckSum data with
  | case1 uiCheckSum first second rest ih =>
    simp only [total, map_cons, bigWords, sum_cons] at few ih ⊢
    have added := BitVec.toNat_add_of_lt (x := uiCheckSum)
      (y := inChksumHigh first + inChksumLow second) (by rw [toNat_bytes]; omega)
    rw [toNat_bytes] at added
    omega
  | case2 uiCheckSum last =>
    simp only [total, map_cons, map_nil, bigWords, sum_singleton] at few ⊢
    rw [BitVec.toNat_add_of_lt (by rw [toNat_high]; exact few), toNat_high]
  | case3 => rfl

theorem inChksumFold_spec (uiCheckSum : UINT) : (inChksumFold uiCheckSum).toNat ≤ 0xffff ∧
    (inChksumFold uiCheckSum).toNat ≡ uiCheckSum.toNat [MOD 0xffff] ∧
    ((inChksumFold uiCheckSum).toNat = 0 ↔ uiCheckSum.toNat = 0) := by
  fun_induction inChksumFold uiCheckSum with
  | case1 uiCheckSum short =>
    rw [and_high_eq_zero] at short
    exact ⟨by omega, rfl, .rfl⟩
  | case2 uiCheckSum _ ih =>
    obtain ⟨le, congruent, zero⟩ := ih
    rw [carry_masked] at le congruent zero ⊢
    rw [toNat_carry] at congruent zero
    refine ⟨le, congruent.trans ?_, zero.trans (by omega)⟩
    rw [ModEq]
    omega

/-- Less than `0xffff` is left unless nothing is subtracted from it. -/
structure Subtracts (before after amount : Nat) : Prop where
  le : after ≤ 0xffff
  congruent : after + amount ≡ before [MOD 0xffff]
  full : after = 0xffff → before = 0xffff ∧ amount = 0

theorem inChksumDelWord_spec {uiCheckSum usWork : UINT} (sum_le : uiCheckSum.toNat ≤ 0xffff)
    (work_le : usWork.toNat ≤ 0xffff) :
    Subtracts uiCheckSum.toNat (inChksumDelWord uiCheckSum usWork).toNat usWork.toNat := by
  unfold inChksumDelWord
  split
  · next less =>
    have value : (uiCheckSum + 0xffff - usWork).toNat = uiCheckSum.toNat + 0xffff - usWork.toNat := by
      bv_omega
    rw [BitVec.lt_def] at less
    refine ⟨by omega, ?_, by omega⟩
    rw [ModEq]
    omega
  · next enough =>
    rw [BitVec.not_lt] at enough
    rw [BitVec.toNat_sub_of_le enough]
    refine ⟨by omega, ?_, by omega⟩
    rw [Nat.sub_add_cancel enough]

theorem inChksumDelWords_spec (uiCheckSum : UINT) (data : List UCHAR)
    (sum_le : uiCheckSum.toNat ≤ 0xffff) :
    Subtracts uiCheckSum.toNat (inChksumDelWords uiCheckSum data).toNat (total data) := by
  fun_induction inChksumDelWords uiCheckSum data with
  | case1 uiCheckSum first second rest ih =>
    have first_spec := @inChksumDelWord_spec _ (inChksumHigh first + inChksumLow second)
      sum_le (by rw [toNat_bytes]; omega)
    obtain ⟨le, congruent, full⟩ := ih first_spec.le
    have before := first_spec.congruent
    have value : total (first :: second :: rest) = (inChksumHigh first + inChksumLow second).toNat +
        total rest := by
      rw [toNat_bytes]
      rfl
    refine ⟨le, ?_, fun isFull => ?_⟩
    · rw [ModEq] at congruent before ⊢
      omega
    have later := full isFull
    have sooner := first_spec.full later.1
    omega
  | case2 uiCheckSum last =>
    have value : total [last] = (inChksumHigh last).toNat := by
      rw [toNat_high]
      rfl
    rw [value]
    exact inChksumDelWord_spec sum_le (by rw [toNat_high]; omega)
  | case3 => exact ⟨sum_le, rfl, fun full => ⟨full, rfl⟩⟩

/-- A word of a block as the host reads it; a last byte is followed by a zero. -/
def inWord (data : List UCHAR) (i : Nat) : USHORT :=
  data.getD (2 * i + 1) 0 ++ data.getD (2 * i) 0

/-- The block with a checksum stored by the host. -/
def inStore (data : List UCHAR) (field : Nat) (usCheckSum : USHORT) : List UCHAR :=
  (data.set (2 * field) (usCheckSum.setWidth 8)).set (2 * field + 1) (usCheckSum.extractLsb' 8 8)

def inBytes (data : List UCHAR) (places : List Nat) : List UCHAR :=
  places.flatMap fun i => [data.getD (2 * i) 0, data.getD (2 * i + 1) 0]

/-- The update of the stored checksum for the words at some places. -/
def inRaw (data after : List UCHAR) (field : Nat) (places : List Nat) : USHORT :=
  inChksumWrap (inChksumAddRaw
    (inChksumDelRaw (inChksumUnWrap (inWord data field)) (inBytes data places))
    (inBytes after places))

def inChange (data after : List UCHAR) (field : Nat) (places : List Nat) : USHORT :=
  inChksumChange (places.map (inWord data)) (places.map (inWord after)) (inWord data field)

/-- The words at the places may be replaced, apart from the checksum `field`. -/
structure Replaced (data after : List UCHAR) (field : Nat) (places : List Nat) : Prop where
  length_eq : after.length = data.length
  field_lt : 2 * field + 1 < data.length
  nodup : places.Nodup
  whole : ∀ i ∈ places, i ≠ field ∧ 2 * i + 1 < data.length
  kept : ∀ i, i ≠ field → i ∉ places → inWord after i = inWord data i

structure Updated (after : List UCHAR) (field : Nat) (usCheckSum : USHORT) : Prop where
  verifies : inChksumCheckSum (inStore after field usCheckSum) = 0
  congruent : usCheckSum.toNat ≡
    (inChksumCheckSum (inStore after field 0)).toNat [MOD 0xffff]

section

variable {usCurrentSum usCheckSum : USHORT} {data after : List UCHAR} {field : Nat}
  {places : List Nat}

theorem inChksumAddRaw_spec (few : total data + 0xffff < 2 ^ 32) :
    (inChksumAddRaw usCurrentSum data).toNat ≡ usCurrentSum.toNat + total data [MOD 0xffff] ∧
    ((inChksumAddRaw usCurrentSum data).toNat = 0 ↔ usCurrentSum.toNat + total data = 0) := by
  have start : (usCurrentSum.setWidth 32).toNat = usCurrentSum.toNat :=
    BitVec.toNat_setWidth_of_le (by decide)
  have added := toNat_addWords (usCurrentSum.setWidth 32) data (by omega)
  obtain ⟨le, congruent, zero⟩ := inChksumFold_spec
    (inChksumAddWords (usCurrentSum.setWidth 32) data)
  rw [added] at congruent zero
  rw [inChksumAddRaw, BitVec.toNat_setWidth, mod_eq_of_lt (by omega)]
  exact ⟨congruent, zero⟩

theorem inChksumDelRaw_spec (usCurrentSum : USHORT) (data : List UCHAR) :
    Subtracts usCurrentSum.toNat (inChksumDelRaw usCurrentSum data).toNat (total data) := by
  have start : (usCurrentSum.setWidth 32).toNat = usCurrentSum.toNat :=
    BitVec.toNat_setWidth_of_le (by decide)
  have deleted := inChksumDelWords_spec (usCurrentSum.setWidth 32) data (by omega)
  have le := deleted.le
  rwa [inChksumDelRaw, BitVec.toNat_setWidth, mod_eq_of_lt (by omega)]

theorem toNat_htons (value : USHORT) :
    (htons value).toNat = value.toNat % 2 ^ 8 * 2 ^ 8 + value.toNat / 2 ^ 8 := by
  simp only [htons, toNat_append, BitVec.extractLsb'_toNat, shiftRight_eq_div_pow]
  omega

theorem htons_modEq (value : USHORT) : (htons value).toNat ≡ 256 * value.toNat [MOD 0xffff] := by
  rw [toNat_htons, ModEq]
  omega

theorem htons_not (value : USHORT) :
    (htons (~~~value)).toNat + (htons value).toNat = 0xffff := by
  rw [toNat_htons, toNat_htons, BitVec.toNat_not]
  omega

def netWord (data : List UCHAR) (i : Nat) : Nat :=
  (htons (inWord data i)).toNat

theorem netWord_eq (data : List UCHAR) (i : Nat) :
    netWord data i = 256 * (data.getD (2 * i) 0).toNat + (data.getD (2 * i + 1) 0).toNat := by
  rw [netWord, toNat_htons, inWord, toNat_append]
  omega

theorem total_eq_sum : ∀ data : List UCHAR,
    total data = (Finset.range ((data.length + 1) / 2)).sum (netWord data)
  | [] => rfl
  | [last] => by
    rw [show ([last].length + 1) / 2 = 1 by simp, Finset.sum_range_one, netWord_eq]
    rfl
  | first :: second :: rest => by
    have count : ((first :: second :: rest).length + 1) / 2 = (rest.length + 1) / 2 + 1 := by
      simp only [length_cons]
      omega
    have later (i : Nat) : netWord (first :: second :: rest) (i + 1) = netWord rest i := by
      rfl
    have rest_sum := total_eq_sum rest
    simp only [count, Finset.sum_range_succ', later, ← rest_sum]
    rw [netWord_eq, add_comm]
    rfl

theorem total_le (data : List UCHAR) : total data ≤ (data.length + 1) / 2 * 0xffff := by
  rw [total_eq_sum]
  refine (Finset.sum_le_card_nsmul _ _ 0xffff fun i _ => ?_).trans_eq ?_
  · rw [netWord]
    omega
  · rw [Finset.card_range]
    rfl

theorem inChksumCheckSum_eq_zero (few : data.length ≤ 65535) :
    inChksumCheckSum data = 0 ↔ total data ≡ 0 [MOD 0xffff] ∧ total data ≠ 0 := by
  have le := total_le data
  obtain ⟨congruent, zero⟩ := @inChksumAddRaw_spec 0 data (by omega)
  have none : (0 : USHORT).toNat = 0 := rfl
  rw [ModEq] at congruent ⊢
  rw [inChksumCheckSum, inChksumWrap, ← BitVec.toNat_inj, none, toNat_htons, BitVec.toNat_not]
  omega

theorem inBytes_total (data : List UCHAR) (places : List Nat) :
    total (inBytes data places) = (places.map (netWord data)).sum := by
  induction places with
  | nil => rfl
  | cons i _ ih =>
    rw [map_cons, sum_cons, ← ih, netWord_eq]
    rfl

theorem inBytes_modEq (data : List UCHAR) (places : List Nat) :
    total (inBytes data places) ≡ 256 * ((places.map (inWord data)).map BitVec.toNat).sum
      [MOD 0xffff] := by
  rw [inBytes_total]
  induction places with
  | nil => rfl
  | cons i _ ih =>
    simp only [map_cons, sum_cons, mul_add]
    exact (htons_modEq _).add ih

theorem netWord_store (inside : 2 * field + 1 < data.length) (i : Nat) :
    netWord (inStore data field usCheckSum) i =
      if i = field then (htons usCheckSum).toNat else netWord data i := by
  split
  · next same =>
    subst same
    have before : 2 * i < data.length := by omega
    simp [netWord_eq, inStore, toNat_htons, inside, before]
    omega
  next differs =>
  have first : 2 * field ≠ 2 * i := by omega
  have second : 2 * field + 1 ≠ 2 * i := by omega
  have third : 2 * field ≠ 2 * i + 1 := by omega
  have fourth : 2 * field + 1 ≠ 2 * i + 1 := by omega
  simp [netWord_eq, inStore, getElem?_set_ne first, getElem?_set_ne second, getElem?_set_ne third,
    getElem?_set_ne fourth]

theorem sum_split {n : Nat} (nodup : places.Nodup) (inside : ∀ i ∈ places, i < n)
    (f : Nat → Nat) : (Finset.range n).sum f =
      (Finset.range n \ places.toFinset).sum f + (places.map f).sum := by
  have within : places.toFinset ⊆ Finset.range n := fun i placed =>
    Finset.mem_range.mpr (inside i (mem_toFinset.mp placed))
  rw [← Finset.sum_sdiff within, sum_toFinset f nodup]

section

variable (replaced : Replaced data after field places)

include replaced

theorem Replaced.total_store : ∃ rest,
    total data = rest + ((htons (inWord data field)).toNat + total (inBytes data places)) ∧
    ∀ usCheckSum, total (inStore after field usCheckSum) =
      rest + ((htons usCheckSum).toNat + total (inBytes after places)) := by
  have inside : ∀ i ∈ field :: places, i < (data.length + 1) / 2 := by
    rintro i (_ | ⟨_, placed⟩)
    · have := replaced.field_lt
      omega
    · have := (replaced.whole i placed).2
      omega
  have nodup := nodup_cons.mpr ⟨fun placed => (replaced.whole field placed).1 rfl, replaced.nodup⟩
  have field_lt := replaced.length_eq ▸ replaced.field_lt
  rw [inBytes_total, inBytes_total]
  refine ⟨_, (total_eq_sum data).trans (sum_split nodup inside _), fun usCheckSum => ?_⟩
  have length_eq : (inStore after field usCheckSum).length = data.length := by
    rw [inStore, length_set, length_set, replaced.length_eq]
  have same : places.map (netWord (inStore after field usCheckSum)) = places.map (netWord after) :=
    map_congr_left fun i placed => by rw [netWord_store field_lt, if_neg (replaced.whole i placed).1]
  rw [total_eq_sum, length_eq, sum_split nodup inside, map_cons, sum_cons, same,
    netWord_store field_lt, if_pos rfl]
  refine congrArg (· + _) (Finset.sum_congr rfl fun i left => ?_)
  obtain ⟨other, unplaced⟩ : i ≠ field ∧ i ∉ places := by
    simpa using (Finset.mem_sdiff.mp left).2
  rw [netWord_store field_lt, if_neg other, netWord, replaced.kept i other unplaced, netWord]

theorem Replaced.updated (few : data.length ≤ 65535) (verifies : inChksumCheckSum data = 0)
    (balanced : (htons usCheckSum).toNat + total (inBytes after places) ≡
      (htons (inWord data field)).toNat + total (inBytes data places) [MOD 0xffff])
    (nonzero : (htons usCheckSum).toNat + total (inBytes after places) = 0 →
      (htons (inWord data field)).toNat + total (inBytes data places) = 0) :
    Updated after field usCheckSum := by
  obtain ⟨rest, old, new⟩ := replaced.total_store
  have length_le (usCheckSum : USHORT) : (inStore after field usCheckSum).length ≤ 65535 := by
    rwa [inStore, length_set, length_set, replaced.length_eq]
  obtain ⟨multiple, positive⟩ := (inChksumCheckSum_eq_zero few).mp verifies
  have sum := new usCheckSum
  rw [ModEq] at multiple balanced
  constructor
  · rw [inChksumCheckSum_eq_zero (length_le usCheckSum), ModEq]
    omega
  have le := total_le (inStore after field 0)
  have short := length_le 0
  have raw := (@inChksumAddRaw_spec 0 (inStore after field 0) (by omega)).1
  have none : (0 : USHORT).toNat = 0 ∧ (htons 0).toNat = 0 := ⟨rfl, rfl⟩
  have value : htons (inChksumCheckSum (inStore after field 0)) =
      ~~~inChksumAddRaw 0 (inStore after field 0) := ntohs_htons _
  have words : 256 * usCheckSum.toNat ≡
      256 * (inChksumCheckSum (inStore after field 0)).toNat [MOD 0xffff] := by
    refine (htons_modEq _).symm.trans (.trans ?_ (htons_modEq _))
    rw [new 0, none.1, none.2] at raw
    rw [value, BitVec.toNat_not]
    rw [ModEq] at raw ⊢
    omega
  exact words.cancel_left_of_coprime (by decide)

theorem Replaced.places_le (few : data.length ≤ 65535) : places.length ≤ 32767 := by
  have within : places.toFinset ⊆ Finset.range 32767 := fun i placed => by
    have := (replaced.whole i (mem_toFinset.mp placed)).2
    rw [Finset.mem_range]
    omega
  have count := Finset.card_le_card within
  rwa [toFinset_card_of_nodup replaced.nodup, Finset.card_range] at count

theorem Replaced.raw (few : data.length ≤ 65535) (verifies : inChksumCheckSum data = 0) :
    Updated after field (inRaw data after field places) := by
  have many := replaced.places_le few
  have le := total_le (inBytes after places)
  rw [show (inBytes after places).length = 2 * places.length by simp [inBytes, mul_comm]] at le
  obtain ⟨del_le, deletes, full⟩ :=
    inChksumDelRaw_spec (inChksumUnWrap (inWord data field)) (inBytes data places)
  obtain ⟨congruent, zero⟩ := @inChksumAddRaw_spec (inChksumDelRaw (inChksumUnWrap (inWord data field))
    (inBytes data places)) (inBytes after places) (by omega)
  rw [inRaw]
  generalize inChksumAddRaw _ (inBytes after places) = sum at congruent zero ⊢
  have unwrapped : (inChksumUnWrap (inWord data field)).toNat + _ = 0xffff :=
    htons_not (inWord data field)
  have wrapped : (htons (inChksumWrap sum)).toNat = 0xffff - sum.toNat := by
    rw [inChksumWrap, show htons (htons (~~~sum)) = ~~~sum from ntohs_htons _, BitVec.toNat_not]
  rw [ModEq] at congruent deletes
  refine replaced.updated few verifies ?_ (by omega)
  rw [wrapped, ModEq]
  omega

end

theorem toNat_foldl (words : List USHORT) (sum : UINT)
    (few : sum.toNat + (words.map BitVec.toNat).sum < 2 ^ 32) :
    (words.foldl (fun sum word => sum + word.setWidth 32) sum).toNat =
      sum.toNat + (words.map BitVec.toNat).sum := by
  induction words generalizing sum with
  | nil => rfl
  | cons word _ ih =>
    rw [map_cons, sum_cons] at few ⊢
    have same : (word.setWidth 32).toNat = word.toNat := BitVec.toNat_setWidth_of_le (by decide)
    have added := BitVec.toNat_add_of_lt (x := sum) (y := word.setWidth 32) (by omega)
    rw [foldl_cons, ih _ (by omega), added]
    omega

theorem sum_not (words : List USHORT) :
    ((words.map (~~~·)).map BitVec.toNat).sum + (words.map BitVec.toNat).sum =
      words.length * 0xffff := by
  induction words with
  | nil => rfl
  | cons word _ ih =>
    simp only [map_cons, sum_cons, length_cons, BitVec.toNat_not] at ih ⊢
    omega

theorem carry_twice (sum : UINT) :
    ((((sum &&& (0xffff : UINT)) + sum >>> 16) &&& (0xffff : UINT)) +
      ((sum &&& (0xffff : UINT)) + sum >>> 16) >>> 16).toNat ≤ 0xffff ∧
    ((((sum &&& (0xffff : UINT)) + sum >>> 16) &&& (0xffff : UINT)) +
      ((sum &&& (0xffff : UINT)) + sum >>> 16) >>> 16).toNat ≡ sum.toNat [MOD 0xffff] := by
  rw [toNat_carry, toNat_carry, ModEq]
  omega

theorem inChksumChange_spec {olddata newdata : List USHORT} (many : olddata.length ≤ 32767)
    (same : newdata.length = olddata.length) (old_checksum : USHORT) :
    (inChksumChange olddata newdata old_checksum).toNat + (newdata.map BitVec.toNat).sum ≡
      old_checksum.toNat + (olddata.map BitVec.toNat).sum [MOD 0xffff] ∧
    (inChksumChange olddata newdata old_checksum).toNat ≠ 0 := by
  have nots := sum_not olddata
  have new_le : (newdata.map BitVec.toNat).sum ≤ newdata.length * 0xffff := by
    refine (sum_le_card_nsmul _ 0xffff fun _ inside => ?_).trans_eq (by rw [length_map]; rfl)
    obtain ⟨word, -, rfl⟩ := mem_map.mp inside
    exact le_of_lt_succ word.isLt
  have start : ((~~~old_checksum).setWidth 32).toNat = 0xffff - old_checksum.toNat := by
    rw [BitVec.toNat_setWidth_of_le (by decide), BitVec.toNat_not]
  have deleted := toNat_foldl (olddata.map (~~~·)) ((~~~old_checksum).setWidth 32) (by omega)
  rw [foldl_map] at deleted
  have added := toNat_foldl newdata _ (by rw [deleted]; omega)
  simp only [inChksumChange]
  generalize newdata.foldl _ _ = sum at added
  obtain ⟨le, congruent⟩ := carry_twice sum
  generalize _ + ((sum &&& (0xffff : UINT)) + sum >>> 16) >>> 16 = folded at le congruent ⊢
  have complement : folded.toNat + (if folded = 0xffff then folded.setWidth 16
      else (~~~folded).setWidth 16 : USHORT).toNat ≡ 0 [MOD 0xffff] ∧
      (if folded = 0xffff then folded.setWidth 16 else (~~~folded).setWidth 16 : USHORT).toNat ≠ 0 := by
    split
    · next ones =>
      rw [ones]
      decide
    next others =>
    rw [← BitVec.toNat_inj, show (0xffff : UINT).toNat = 0xffff from rfl] at others
    rw [BitVec.toNat_setWidth, BitVec.toNat_not, ModEq]
    omega
  generalize (if folded = 0xffff then folded.setWidth 16
    else (~~~folded).setWidth 16 : USHORT).toNat = result at complement ⊢
  refine ⟨?_, complement.2⟩
  rw [ModEq] at congruent complement ⊢
  omega

/-- Both updates of the stored checksum fit the block with the replaced words. -/
theorem inChksum_replaced (replaced : Replaced data after field places)
    (few : data.length ≤ 65535) (verifies : inChksumCheckSum data = 0) :
    Updated after field (inRaw data after field places) ∧
    Updated after field (inChange data after field places) := by
  refine ⟨replaced.raw few verifies, ?_⟩
  obtain ⟨congruent, nonzero⟩ := @inChksumChange_spec (places.map (inWord data))
    (places.map (inWord after)) (by rw [length_map]; exact replaced.places_le few)
    (by rw [length_map, length_map]) (inWord data field)
  refine replaced.updated few verifies ?_ ?_
  · have scaled := congruent.mul_left 256
    rw [mul_add, mul_add] at scaled
    exact ((htons_modEq _).add (inBytes_modEq after places)).trans
      (scaled.trans ((htons_modEq _).add (inBytes_modEq data places)).symm)
  · rw [inChange, toNat_htons]
    omega

theorem inChksum_replaced_first :
    Updated [9, 8, 0xfe, 0xfd] 1 (inRaw [1, 2, 0xfe, 0xfd] [9, 8, 0xfe, 0xfd] 1 [0]) ∧
    Updated [9, 8, 0xfe, 0xfd] 1 (inChange [1, 2, 0xfe, 0xfd] [9, 8, 0xfe, 0xfd] 1 [0]) := by
  have replaced : Replaced [1, 2, 0xfe, 0xfd] [9, 8, 0xfe, 0xfd] 1 [0] := by
    refine ⟨rfl, by decide, by decide, by decide, fun i other unplaced => ?_⟩
    match i with
    | 0 => exact absurd mem_cons_self unplaced
    | 1 => exact absurd rfl other
    | i + 2 => rfl
  exact inChksum_replaced replaced (by decide) (by
    rw [inChksumCheckSum, inChksumAddRaw, inChksumFold, if_pos (by decide)]
    decide)

/-- A block with its own checksum verifies, and one with another word in it only where the
words are equal or are the two zeros. -/
theorem inChksum_guards (inside : 2 * field + 1 < data.length) (few : data.length ≤ 65535) :
    let sent := inStore data field (inChksumCheckSum (inStore data field 0))
    inChksumCheckSum sent = 0 ∧ ∀ i word, 2 * i + 1 < data.length →
      inChksumCheckSum (inStore sent i word) = 0 →
      word.toNat ≡ (inWord sent i).toNat [MOD 0xffff] := by
  intro sent
  have length_eq (data : List UCHAR) (i : Nat) (word : USHORT) :
      (inStore data i word).length = data.length := by simp [inStore]
  have stores {data : List UCHAR} {i : Nat} (inside : 2 * i + 1 < data.length) :=
    (show Replaced data data i [] from ⟨rfl, inside, nodup_nil, by simp, by simp⟩).total_store
  have verifies : inChksumCheckSum sent = 0 := by
    obtain ⟨rest, -, new⟩ := stores inside
    have le := total_le (inStore data field 0)
    rw [length_eq] at le
    obtain ⟨congruent, zero⟩ := @inChksumAddRaw_spec 0 (inStore data field 0) (by omega)
    have value : htons (inChksumCheckSum (inStore data field 0)) =
        ~~~inChksumAddRaw 0 (inStore data field 0) := ntohs_htons _
    have none : (0 : USHORT).toNat = 0 ∧ (htons 0).toNat = 0 := ⟨rfl, rfl⟩
    rw [new 0, none.1, none.2] at congruent zero
    rw [inChksumCheckSum_eq_zero (by rwa [length_eq]), new, value, BitVec.toNat_not]
    rw [ModEq] at congruent ⊢
    omega
  refine ⟨verifies, fun i word within again => ?_⟩
  rw [← length_eq data field] at within few
  obtain ⟨rest, old, new⟩ := stores within
  have before := ((inChksumCheckSum_eq_zero few).mp verifies).1
  have after := ((inChksumCheckSum_eq_zero (by rwa [length_eq])).mp again).1
  rw [old, ← add_assoc, add_right_comm] at before
  rw [new, ← add_assoc, add_right_comm] at after
  have words := (htons_modEq word).symm.trans ((after.trans before.symm).add_left_cancel' _)
  exact (words.trans (htons_modEq _)).cancel_left_of_coprime (by decide)

theorem inChksum_guards_three : inChksumCheckSum (inStore [1, 2, 9, 9, 5] 1
    (inChksumCheckSum (inStore [1, 2, 9, 9, 5] 1 0))) = 0 :=
  (inChksum_guards (by decide) (by decide)).1

end

end MyCode.InChecksum
