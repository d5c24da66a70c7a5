import MyCode.Mbuf.Edits
import Mathlib.Data.Nat.Find
import Mathlib.Order.Bounds.Basic

/-!
# Finding bytes in mbufs

`MBUF_NFind`.  An iterator that stands in the blocks has the bytes from its position on before
it; the search runs on them as on a list.  `none` is a read through NULL.
-/

namespace MyCode.Mbuf

open Lib List Nat Option

variable {mbuf : MbufS} {blocks : List MbufMblkS} {ulOffset ulLen place : Nat}
  {data left pMemToFind : List UCHAR} {itor : MbufItorS}

/-- The block with those behind it; there is none where `pstMblk` is NULL. -/
structure MbufItorS where
  pstMblk : List MbufMblkS
  ulOffset : Nat

/-- The byte under the pointer that goes with an iterator. -/
def MbufItorS.char (itor : MbufItorS) : Option UCHAR :=
  match itor.pstMblk with
  | [] => none
  | pstMblk :: _ => pstMblk.pstCluster.pucData.load (pstMblk.headFree + itor.ulOffset)

def mbufGetChar : List MbufMblkS → Nat → MbufItorS
  | [], ulOffset => ⟨[], ulOffset⟩
  | pstMblk :: rest, ulOffset =>
    if ulOffset ≥ pstMblk.ulLen then mbufGetChar rest (ulOffset - pstMblk.ulLen)
    else ⟨pstMblk :: rest, ulOffset⟩

/-- The loop of `_MBUF_GetNextChar`. -/
def nextCharLoop : List MbufMblkS → Nat → MbufItorS
  | [], ulOffset => ⟨[], ulOffset⟩
  | pstMblk :: rest, ulOffset =>
    if ulOffset ≥ pstMblk.ulLen then nextCharLoop rest 0 else ⟨pstMblk :: rest, ulOffset⟩

def mbufGetNextChar (itor : MbufItorS) : MbufItorS :=
  nextCharLoop itor.pstMblk (itor.ulOffset + 1)

def agreeLoop : List UCHAR → MbufItorS → Option Bool
  | [], _ => some true
  | byte :: pMemToFind, stItorTmp => do
      let pucData ← stItorTmp.char
      if pucData ≠ byte then some false
      else agreeLoop pMemToFind (mbufGetNextChar stItorTmp)

/-- The offset is returned as an `INT`. -/
def nFindLoop (pMemToFind : List UCHAR) : Nat → Nat → MbufItorS → Option Int
  | 0, ulOffset, _ => some (if pMemToFind = [] then (BitVec.ofNat 32 ulOffset).toInt else -1)
  | ulLen + 1, ulOffset, stItor =>
    if ulLen + 1 < pMemToFind.length then
      some (-1)
    else do
      let agree ← agreeLoop pMemToFind stItor
      if agree then some (BitVec.ofNat 32 ulOffset).toInt
      else nFindLoop pMemToFind ulLen ((ulOffset + 1) % 2 ^ 32) (mbufGetNextChar stItor)

def mbufNFind (mbuf : MbufS) (ulStartOffset ulLen : Nat) (pMemToFind : List UCHAR) :
    Option Int :=
  if ulLen < pMemToFind.length then
    some (-1)
  else
    nFindLoop pMemToFind ulLen ulStartOffset (mbufGetChar mbuf.stMblkHead ulStartOffset)

inductive Reads : MbufItorS → List UCHAR → Prop where
  | done {ulOffset : Nat} : Reads ⟨[], ulOffset⟩ []
  | within {mblk : MbufMblkS} {rest : List MbufMblkS} {others left : List UCHAR} {ulOffset : Nat}
      (ok : MblkOk mblk) (behind : Holds rest others) (inside : ulOffset < mblk.ulLen)
      (same : left = mblk.bytes.drop ulOffset ++ others) : Reads ⟨mblk :: rest, ulOffset⟩ left

theorem Holds.getChar (holds : Holds blocks data) (ulOffset : Nat) :
    Reads (mbufGetChar blocks ulOffset) (data.drop ulOffset) := by
  induction holds generalizing ulOffset with
  | nil =>
    rw [drop_nil]
    exact .done
  | @cons mblk _ others _ ok behind same ih =>
    rw [mbufGetChar, same]
    split
    · next further =>
      have gone : (mblk.bytes ++ others).drop ulOffset = others.drop (ulOffset - mblk.ulLen) := by
        simp [drop_append, further]
      rw [gone]
      exact ih (ulOffset - mblk.ulLen)
    · next here =>
      refine .within ok behind (not_le.mp here) ?_
      exact drop_append_of_le_length (by rw [length_bytes]; omega)

theorem Holds.nextChar (holds : Holds blocks data) : Reads (nextCharLoop blocks 0) data := by
  induction holds with
  | nil => exact .done
  | @cons mblk _ _ _ ok behind same ih =>
    rw [nextCharLoop]
    split
    · next empty =>
      have none : mblk.bytes = [] := by
        apply eq_nil_of_length_eq_zero
        rw [length_bytes]
        omega
      rw [same, none]
      exact ih
    · exact .within ok behind (by omega) same

theorem Reads.next {itor : MbufItorS} (reads : Reads itor left) :
    Reads (mbufGetNextChar itor) (left.drop 1) := by
  cases reads with
  | done => exact .done
  | @within mblk _ others _ ulOffset ok behind _ same =>
    have front : left.drop 1 = mblk.bytes.drop (ulOffset + 1) ++ others := by
      rw [same, drop_append_of_le_length, drop_drop]
      rw [length_drop, length_bytes]
      omega
    rw [mbufGetNextChar, nextCharLoop]
    split
    · rw [front, drop_eq_nil_of_le (by rw [length_bytes]; omega)]
      exact behind.nextChar
    · exact .within ok behind (by omega) front

theorem Reads.char (reads : Reads itor left) : itor.char = left.head? := by
  cases reads with
  | done => rfl
  | @within mblk rest _ _ ulOffset ok _ inside same =>
    have window := ok.inside
    have parts : mblk.bytes.drop ulOffset = mblk.pstCluster.pucData.slice
        (mblk.headFree + ulOffset) (1 + (mblk.ulLen - ulOffset - 1)) := by
      rw [MbufMblkS.bytes, Block.drop_slice (by omega)]
      congr 1
      omega
    have read : (⟨mblk :: rest, ulOffset⟩ : MbufItorS).char =
        some (mblk.pstCluster.pucData.cells (mblk.headFree + ulOffset)) := by
      apply Block.load_eq
      rw [ok.size]
      simp only
      omega
    rw [same, parts, Block.slice_add, read]
    rfl

theorem Reads.agree (reads : Reads itor left) :
    agreeLoop pMemToFind itor =
      if pMemToFind <+: left then some true
      else if left <+: pMemToFind then none else some false := by
  induction pMemToFind generalizing itor left with
  | nil => simp [agreeLoop]
  | cons byte _ ih =>
    rw [agreeLoop, reads.char]
    cases left with
    | nil => simp
    | cons first =>
      have next := ih reads.next
      by_cases same : first = byte
      · simp [same, next]
      · simp [same, Ne.symm same]

def Occurs (pMemToFind data : List UCHAR) (ulStartOffset ulLen place : Nat) : Prop :=
  ulStartOffset ≤ place ∧ place + pMemToFind.length ≤ ulStartOffset + ulLen ∧
    pMemToFind <+: data.drop place

/-- What is left at a place of the range is a beginning of the bytes. -/
def EndsWithin (pMemToFind data : List UCHAR) (ulStartOffset ulLen place : Nat) : Prop :=
  ulStartOffset ≤ place ∧ place + pMemToFind.length ≤ ulStartOffset + ulLen ∧
    data.drop place <+: pMemToFind

section

variable (reads : Reads itor (data.drop ulOffset)) (word : data.length < 2 ^ 32)

include reads word

theorem nFindLoop_step (long : pMemToFind.length ≤ ulLen + 1)
    (other : ¬pMemToFind <+: data.drop ulOffset) (enough : ¬data.drop ulOffset <+: pMemToFind) :
    Reads (mbufGetNextChar itor) (data.drop (ulOffset + 1)) ∧
      nFindLoop pMemToFind (ulLen + 1) ulOffset itor =
        nFindLoop pMemToFind ulLen (ulOffset + 1) (mbufGetNextChar itor) := by
  have next := reads.next
  rw [drop_drop] at next
  have inside : ulOffset < data.length := by
    by_contra behind
    rw [drop_eq_nil_of_le (not_lt.mp behind)] at enough
    exact enough nil_prefix
  refine ⟨next, ?_⟩
  rw [nFindLoop, if_neg (not_lt.mpr long), reads.agree, if_neg other, if_neg enough,
    mod_eq_of_lt (by omega)]
  rfl

theorem nFindLoop_found (filled : 0 < pMemToFind.length)
    (least : IsLeast {place | Occurs pMemToFind data ulOffset ulLen place} place) :
    nFindLoop pMemToFind ulLen ulOffset itor = some (BitVec.ofNat 32 place).toInt := by
  induction ulLen generalizing ulOffset itor with
  | zero =>
    obtain ⟨⟨_, _, _⟩, _⟩ := least
    omega
  | succ ulLen ih =>
    obtain ⟨⟨after, _, found⟩, first⟩ := least
    rcases eq_or_lt_of_le after with rfl | further
    · rw [nFindLoop, if_neg (by omega), reads.agree, if_pos found]
      rfl
    have room := found.length_le
    rw [length_drop] at room
    have other : ¬pMemToFind <+: data.drop ulOffset := fun here => by
      have := first ⟨le_refl _, by omega, here⟩
      omega
    have enough : ¬data.drop ulOffset <+: pMemToFind := fun short => by
      have := short.length_le
      rw [length_drop] at this
      omega
    obtain ⟨next, step⟩ := nFindLoop_step reads word (show _ ≤ ulLen + 1 by omega) other enough
    rw [step]
    refine ih next ⟨⟨further, by omega, found⟩, fun earlier occurs => ?_⟩
    obtain ⟨_, _, there⟩ := occurs
    exact first ⟨by omega, by omega, there⟩

theorem nFindLoop_absent (filled : 0 < pMemToFind.length)
    (absent : ∀ place, ¬Occurs pMemToFind data ulOffset ulLen place) :
    nFindLoop pMemToFind ulLen ulOffset itor = some (-1) ↔
      ∀ place, ¬EndsWithin pMemToFind data ulOffset ulLen place := by
  induction ulLen generalizing ulOffset itor with
  | zero =>
    refine iff_of_true ?_ ?_
    · rw [nFindLoop, if_neg (ne_nil_of_length_pos filled)]
    · rintro _ ⟨_, _, _⟩
      omega
  | succ ulLen ih =>
    by_cases long : ulLen + 1 < pMemToFind.length
    · refine iff_of_true ?_ ?_
      · rw [nFindLoop, if_pos long]
      · rintro _ ⟨_, _, _⟩
        omega
    have other : ¬pMemToFind <+: data.drop ulOffset := fun here =>
      absent ulOffset ⟨le_refl _, by omega, here⟩
    by_cases short : data.drop ulOffset <+: pMemToFind
    · refine iff_of_false ?_ fun none => none ulOffset ⟨le_refl _, by omega, short⟩
      rw [nFindLoop, if_neg long, reads.agree, if_neg other, if_pos short]
      exact nofun
    obtain ⟨next, step⟩ := nFindLoop_step reads word (not_lt.mp long) other short
    rw [step, ih next]
    · refine ⟨fun none place ends => ?_, fun none place ends => ?_⟩
      · obtain ⟨after, _, left⟩ := ends
        rcases eq_or_lt_of_le after with rfl | further
        · exact short left
        · exact none place ⟨further, by omega, left⟩
      · obtain ⟨_, _, left⟩ := ends
        exact none place ⟨by omega, by omega, left⟩
    · rintro place ⟨_, _, there⟩
      exact absent place ⟨by omega, by omega, there⟩

end

theorem Carries.nFind_found (carries : Carries mbuf data) (filled : pMemToFind ≠ [])
    (least : IsLeast {place | Occurs pMemToFind data ulOffset ulLen place} place) :
    mbufNFind mbuf ulOffset ulLen pMemToFind = some (BitVec.ofNat 32 place).toInt := by
  obtain ⟨⟨_, _, _⟩, _⟩ := id least
  rw [mbufNFind, if_neg (by omega)]
  exact nFindLoop_found (carries.holds.getChar _) carries.word (length_pos_of_ne_nil filled) least

/-- The search gives the least place in the range, and -1 where there is none. -/
def FindsFirst (mbuf : MbufS) (data : List UCHAR) (ulStartOffset ulLen : Nat)
    (pMemToFind : List UCHAR) : Prop :=
  ∃ result, mbufNFind mbuf ulStartOffset ulLen pMemToFind = some result ∧
    ((∃ place : Nat, IsLeast {place | Occurs pMemToFind data ulStartOffset ulLen place} place ∧
      result = place) ∨
    (∀ place, ¬Occurs pMemToFind data ulStartOffset ulLen place) ∧ result = -1)

/-- The least occurrence is found when it is below 2^31.  Without one the search fails when it
meets another byte at every place of the range before the data ends. -/
theorem mbuf_finds (carries : Carries mbuf data) (ulStartOffset ulLen : Nat)
    (filled : pMemToFind ≠ []) :
    FindsFirst mbuf data ulStartOffset ulLen pMemToFind ↔
      (∃ place, IsLeast {place | Occurs pMemToFind data ulStartOffset ulLen place} place ∧
        place < 2 ^ 31) ∨
      (∀ place, ¬Occurs pMemToFind data ulStartOffset ulLen place) ∧
        ∀ place, ¬EndsWithin pMemToFind data ulStartOffset ulLen place := by
  have bytes := length_pos_of_ne_nil filled
  have word := carries.word
  by_cases absent : ∀ place, ¬Occurs pMemToFind data ulStartOffset ulLen place
  · have ends : mbufNFind mbuf ulStartOffset ulLen pMemToFind = some (-1) ↔
        ∀ place, ¬EndsWithin pMemToFind data ulStartOffset ulLen place := by
      rw [mbufNFind]
      split
      · refine iff_of_true rfl ?_
        rintro _ ⟨_, _, _⟩
        omega
      · exact nFindLoop_absent (carries.holds.getChar _) word bytes absent
    constructor
    · rintro ⟨_, run, ⟨place, least, _⟩ | ⟨_, rfl⟩⟩
      · exact absurd least.1 (absent place)
      · exact Or.inr ⟨absent, ends.mp run⟩
    · rintro (⟨place, least, _⟩ | ⟨_, none⟩)
      · exact absurd least.1 (absent place)
      · exact ⟨-1, ends.mpr none, Or.inr ⟨absent, rfl⟩⟩
  · simp only [not_forall, not_not] at absent
    classical
    have least : IsLeast {place | Occurs pMemToFind data ulStartOffset ulLen place}
        (Nat.find absent) := ⟨Nat.find_spec absent, fun _ => Nat.find_min' absent⟩
    generalize Nat.find absent = first at least
    have room := least.1.2.2.length_le
    rw [length_drop] at room
    have value : (BitVec.ofNat 32 first).toInt = first ↔ first < 2 ^ 31 := by
      rw [BitVec.toInt_eq_toNat_cond, BitVec.toNat_ofNat, mod_eq_of_lt (by omega)]
      split <;> omega
    have some : ¬∀ place, ¬Occurs pMemToFind data ulStartOffset ulLen place :=
      fun none => none first least.1
    rw [FindsFirst, carries.nFind_found filled least]
    simp only [Option.some.injEq, some, false_and, or_false]
    constructor
    · rintro ⟨_, rfl, place, other, same⟩
      obtain rfl := other.unique least
      exact ⟨place, other, value.mp same⟩
    · rintro ⟨place, other, small⟩
      obtain rfl := other.unique least
      exact ⟨_, rfl, place, other, value.mpr small⟩

/-- The second byte of one block and the first of the next. -/
theorem mbuf_finds_counting :
    FindsFirst ⟨[countingMblk 2, countingMblk 2], 4⟩ [0, 1, 0, 1] 0 4 [1, 0] := by
  have ok : MblkOk (countingMblk 2) := ⟨rfl, rfl, by decide⟩
  have sums : Sums ⟨[countingMblk 2, countingMblk 2], 4⟩ [0, 1, 0, 1] 4 :=
    ⟨.cons ok (.single ok rfl) rfl, rfl⟩
  refine (mbuf_finds (sums.carries rfl (by decide)) 0 4 (by decide)).mpr (Or.inl ⟨1, ?_, by decide⟩)
  refine ⟨⟨zero_le _, by decide, by decide⟩, ?_⟩
  rintro (_ | -) ⟨_, _, there⟩
  · exact absurd there (by decide)
  · exact le_add_left _ _

def filledMblk (byte : UCHAR) (ulLen : Nat) : MbufMblkS :=
  ⟨0, ulLen, ⟨1, ⟨CLUSTER_SIZE, fun _ => byte⟩⟩⟩

theorem holds_filled {byte : UCHAR} (blocks : Nat) (less : ulLen ≤ CLUSTER_SIZE) :
    Holds (replicate blocks (filledMblk byte ulLen))
      (replicate (blocks * ulLen) byte) := by
  induction blocks with
  | zero =>
    rw [Nat.zero_mul]
    exact .nil
  | succ _ ih =>
    have ok : MblkOk (filledMblk byte ulLen) := ⟨rfl, rfl, by simpa [filledMblk] using less⟩
    refine .cons ok ih ?_
    rw [succ_mul, Nat.add_comm, replicate_add]
    simp [MbufMblkS.bytes, filledMblk, Block.slice]

/-- A byte behind as many others is found at a negative place. -/
theorem Carries.finds_negative {many : Nat} (carries : Carries mbuf (replicate many 0 ++ [7]))
    (far : 2 ^ 31 ≤ many) : ¬FindsFirst mbuf (replicate many 0 ++ [7]) 0 (many + 1) [7] := by
  have word := carries.word
  rw [length_append, length_replicate, length_singleton] at word
  have least : IsLeast {place | Occurs [7] (replicate many 0 ++ [7]) 0 (many + 1) place} many := by
    refine ⟨⟨zero_le _, by simp, by simp⟩, ?_⟩
    rintro _ ⟨_, _, _, there⟩
    by_contra before
    have head := congrArg head? there
    rw [head?_drop, getElem?_append_left (by simpa using before),
      getElem?_replicate, if_pos (not_le.mp before)] at head
    exact absurd (some.inj head) (by decide)
  rintro ⟨_, run, ⟨_, _, same⟩ | ⟨none, _⟩⟩
  · rw [carries.nFind_found (by decide) least, some.injEq, same,
      BitVec.toInt_eq_toNat_cond, BitVec.toNat_ofNat, mod_eq_of_lt (by omega)] at run
    split at run <;> omega
  · exact none many least.1

theorem mbuf_finds_behind_int :
    Carries ⟨replicate (2 ^ 20) (filledMblk 0 2048) ++ [filledMblk 7 1], 2 ^ 31 + 1⟩
        (replicate (2 ^ 31) 0 ++ [7]) ∧
      ¬FindsFirst
        ⟨replicate (2 ^ 20) (filledMblk 0 2048) ++ [filledMblk 7 1], 2 ^ 31 + 1⟩
        (replicate (2 ^ 31) 0 ++ [7]) 0 (2 ^ 31 + 1) [7] := by
  have zeroes := @holds_filled 2048 0 (2 ^ 20) (le_refl _)
  have sums : Sums ⟨replicate (2 ^ 20) (filledMblk 0 2048) ++ [filledMblk 7 1], 2 ^ 31 + 1⟩
      (replicate (2 ^ 31) 0 ++ [7]) (2 ^ 31 + 1) :=
    ⟨zeroes.append (.single ⟨rfl, rfl, by decide⟩ rfl), rfl⟩
  have length : (replicate (2 ^ 31) (0 : UCHAR) ++ [7]).length = 2 ^ 31 + 1 := by
    rw [length_append, length_replicate, length_singleton]
  have carries := sums.carries length.symm (by omega)
  exact ⟨carries, carries.finds_negative (le_refl _)⟩

end MyCode.Mbuf
