import MyCode.Net
import Mathlib.Data.List.Induction

/-!
# Bitmap of IP prefixes

`ipmask_bitmap.c`: one bit for each leading part of the configured depth.  The
caller hands in the table, `IPMASK_BITMAP_DEPTH_2_BYTES(depth)` bytes with any
content; an access behind it has no result.
-/

namespace MyCode.IpmaskBitmap

open List Nat

structure IpmaskBitmapS where
  depth : Nat
  bits : Nat → UCHAR

/-- `PREFIX_2_COUNT`. -/
def prefix2Count (depth : Nat) : Nat :=
  2 ^ depth

/-- `PREFIX_2_CAPACITY`. -/
def prefix2Capacity (ucPrefixLen : Nat) : UINT :=
  (1 : UINT) <<< (32 - ucPrefixLen)

/-- `IPMASK_BITMAP_DEPTH_2_BYTES`. -/
def ipmaskBitmapDepth2Bytes (depth : Nat) : Nat :=
  prefix2Count depth >>> 3

/-- `memset` to zero of the first `count` bytes of a table of `size` bytes. -/
def clearBytes (size count : Nat) (bits : Nat → UCHAR) : Option (Nat → UCHAR) :=
  if count ≤ size then
    some fun place => if place < count then 0 else bits place
  else
    none

def ipmaskBitmapInit (bits : Nat → UCHAR) (depth : Nat) : Option IpmaskBitmapS :=
  let count := prefix2Capacity depth
  (clearBytes (ipmaskBitmapDepth2Bytes depth) (count >>> 3).toNat bits).map fun bits =>
    { depth := depth, bits := bits }

section Operations

variable (ctrl : IpmaskBitmapS)

def inTable (index : UINT) : Bool :=
  (index >>> 3).toNat < ipmaskBitmapDepth2Bytes ctrl.depth

def writeBit (index : UINT) (on : Bool) : Option IpmaskBitmapS :=
  if inTable ctrl index then
    let place := (index >>> 3).toNat
    let bit := BitVec.twoPow 8 (index &&& 7).toNat
    some { ctrl with
      bits := Function.update ctrl.bits place
        (if on then ctrl.bits place ||| bit else ctrl.bits place &&& ~~~bit) }
  else
    none

/-- One turn of the loop of `ipmaskbitmap_Set`. -/
def setTurn (start : UINT) (on : Bool) (i : Nat) : Option IpmaskBitmapS :=
  let index := start + BitVec.ofNat 32 i
  if index < BitVec.ofNat 32 (prefix2Count ctrl.depth) then
    writeBit ctrl index on
  else
    some ctrl

def ipmaskbitmapSet (ip mask : UINT) (on : Bool) : Option (IpmaskBitmapS × BsStatus) :=
  let ctrl_mask := prefix2Mask ctrl.depth
  if mask &&& ~~~ctrl_mask ≠ 0 then
    some (ctrl, .badPara)
  else
    let offset := (mask ^^^ ctrl_mask) >>> (32 - ctrl.depth)
    let start := (ip &&& mask) >>> (32 - ctrl.depth)
    ((List.range (offset.toNat + 1)).foldlM (fun ctrl i => setTurn ctrl start on i) ctrl).map
      fun ctrl => (ctrl, .ok)

def ipmaskBitmapAdd (ip mask : UINT) : Option (IpmaskBitmapS × BsStatus) :=
  ipmaskbitmapSet ctrl ip mask true

def ipmaskBitmapDel (ip mask : UINT) : Option (IpmaskBitmapS × BsStatus) :=
  ipmaskbitmapSet ctrl ip mask false

def ipmaskBitmapIsSet (ip : UINT) : Option Bool :=
  let index := ip >>> (32 - ctrl.depth)
  if inTable ctrl index then
    some ((ctrl.bits (index >>> 3).toNat).getLsbD (index &&& 7).toNat)
  else
    none

end Operations

variable {ctrl after : IpmaskBitmapS} {depth : Nat} {bits : Nat → UCHAR} {ip index : UINT}
  {on : Bool}

def bitAt (bits : Nat → UCHAR) (index : Nat) : Bool :=
  (bits (index / 8)).getLsbD (index % 8)

theorem toNat_place (index : UINT) : (index >>> 3).toNat = index.toNat / 8 := by
  rw [BitVec.toNat_ushiftRight, shiftRight_eq_div_pow]

theorem toNat_bit (index : UINT) : (index &&& 7).toNat = index.toNat % 8 := by
  change (index &&& 7).toNat = index.toNat % 2 ^ 3
  rw [BitVec.toNat_and, ← and_two_pow_sub_one_eq_mod]
  rfl

theorem ipmaskBitmapDepth2Bytes_eq (deep : 3 ≤ depth) :
    ipmaskBitmapDepth2Bytes depth = 2 ^ (depth - 3) := by
  rw [ipmaskBitmapDepth2Bytes, prefix2Count, shiftRight_eq_div_pow, Nat.pow_div deep (by decide)]

variable (deep : 3 ≤ ctrl.depth)

include deep in
theorem inTable_iff : inTable ctrl index ↔ index.toNat < 2 ^ ctrl.depth := by
  have split : 2 ^ ctrl.depth = 2 ^ (ctrl.depth - 3) * 8 := by
    rw [← Nat.pow_add (m := ctrl.depth - 3) (n := 3), Nat.sub_add_cancel deep]
  rw [inTable, decide_eq_true_iff, ipmaskBitmapDepth2Bytes_eq deep, toNat_place, split]
  omega

theorem bitAt_update (place : Nat) (word : UCHAR) (j : Nat) :
    bitAt (Function.update bits place word) j =
      if j / 8 = place then word.getLsbD (j % 8) else bitAt bits j := by
  simp only [bitAt, Function.update_apply]
  split <;> rfl

theorem getLsbD_twoPow_of_byte {i j : Nat} (inByte : j / 8 = i / 8) :
    (BitVec.twoPow 8 (i % 8)).getLsbD (j % 8) = decide (j = i) := by
  have position := mod_lt i (show 0 < 8 by decide)
  rw [BitVec.getLsbD_twoPow, decide_eq_true position, Bool.true_and, decide_eq_decide]
  omega

include deep in
theorem writeBit_holds (inside : index.toNat < 2 ^ ctrl.depth) :
    ∃ after, writeBit ctrl index on = some after ∧ after.depth = ctrl.depth ∧
      ∀ j, bitAt after.bits j = if j = index.toNat then on else bitAt ctrl.bits j := by
  refine ⟨_, if_pos ((inTable_iff deep).mpr inside), rfl, ?_⟩
  intro j
  have eight := mod_lt j (show 0 < 8 by decide)
  simp only [bitAt_update, toNat_place, toNat_bit]
  by_cases inByte : j / 8 = index.toNat / 8
  · rw [if_pos inByte, bitAt, inByte]
    cases on with
    | true =>
      simp only [if_true, BitVec.getLsbD_or, getLsbD_twoPow_of_byte inByte]
      by_cases same : j = index.toNat <;> simp [same]
    | false =>
      simp only [Bool.false_eq_true, if_false, BitVec.getLsbD_and, BitVec.getLsbD_not,
        getLsbD_twoPow_of_byte inByte]
      by_cases same : j = index.toNat <;> simp [same, eight]
  · have differs : j ≠ index.toNat := fun same => inByte (by rw [same])
    rw [if_neg inByte, if_neg differs]

variable (shallow : ctrl.depth ≤ 31)

include deep shallow in
theorem setTurns_hold (start : UINT)
    (on : Bool) (turns : Nat) (inside : start.toNat + turns ≤ 2 ^ ctrl.depth) :
    ∃ after, (range turns).foldlM (fun ctrl i => setTurn ctrl start on i) ctrl = some after ∧
      after.depth = ctrl.depth ∧
      ∀ j, bitAt after.bits j =
        if start.toNat ≤ j ∧ j < start.toNat + turns then on else bitAt ctrl.bits j := by
  induction turns with
  | zero =>
    refine ⟨ctrl, rfl, rfl, ?_⟩
    intro j
    rw [if_neg (by omega)]
  | succ turns ih =>
    obtain ⟨before, ran, sameDepth, _⟩ := ih (by omega)
    have table : 2 ^ ctrl.depth ≤ 2 ^ 31 := Nat.pow_le_pow_right (by decide) shallow
    have position : (start + BitVec.ofNat 32 turns).toNat = start.toNat + turns := by
      rw [BitVec.toNat_add, BitVec.toNat_ofNat, add_mod_mod, mod_eq_of_lt (by omega)]
    have counted : start + BitVec.ofNat 32 turns < BitVec.ofNat 32 (prefix2Count before.depth) := by
      rw [BitVec.lt_def, position, sameDepth, prefix2Count, BitVec.toNat_ofNat,
        mod_eq_of_lt (by omega)]
      omega
    obtain ⟨after, wrote, keptDepth, _⟩ := @writeBit_holds before
      (start + BitVec.ofNat 32 turns) on (sameDepth ▸ deep) (by rw [position, sameDepth]; omega)
    refine ⟨after, ?_, keptDepth.trans sameDepth, ?_⟩
    · rw [range_succ, foldlM_append, ran]
      simp [setTurn, if_pos counted, wrote]
    · intro j
      grind

theorem prefix2Mask_covered {short : Nat} (inside : depth ≤ 32) (nested : short ≤ depth) :
    prefix2Mask short &&& ~~~prefix2Mask depth = 0 := by
  apply BitVec.eq_of_getLsbD_eq
  intro bit low
  simp only [BitVec.getLsbD_and, BitVec.getLsbD_not, getLsbD_prefix2Mask inside,
    getLsbD_prefix2Mask (le_trans nested inside), BitVec.ofNat_eq_ofNat, BitVec.getLsbD_zero]
  by_cases masked : 32 - short ≤ bit
  · have deeper : 32 - depth ≤ bit := by omega
    simp [low, deeper]
  · simp [masked]

theorem toNat_offset {short : Nat} (inside : depth ≤ 32) (nested : short ≤ depth) :
    ((prefix2Mask short ^^^ prefix2Mask depth) >>> (32 - depth)).toNat = 2 ^ (depth - short) - 1 := by
  have ones : (prefix2Mask short ^^^ prefix2Mask depth) >>> (32 - depth) =
      BitVec.ofNat 32 (2 ^ (depth - short) - 1) := by
    apply BitVec.eq_of_getLsbD_eq
    intro bit low
    simp only [BitVec.getLsbD_ushiftRight, BitVec.getLsbD_xor, getLsbD_prefix2Mask inside,
      getLsbD_prefix2Mask (le_trans nested inside), BitVec.getLsbD_ofNat,
      testBit_two_pow_sub_one]
    by_cases deep : bit < depth - short
    · have shallow : ¬ 32 - short ≤ 32 - depth + bit := by omega
      have inWord : 32 - depth + bit < 32 := by omega
      simp [low, deep, shallow, inWord]
    by_cases inWord : 32 - depth + bit < 32
    · have above : 32 - short ≤ 32 - depth + bit := by omega
      simp [deep, above, inWord]
    · simp [deep, inWord]
  have small : 2 ^ (depth - short) ≤ 2 ^ 32 := Nat.pow_le_pow_right (by decide) (by omega)
  rw [ones, BitVec.toNat_ofNat, mod_eq_of_lt (by omega)]

theorem toNat_start {short : Nat} (inside : depth ≤ 32) (nested : short ≤ depth) (ip : UINT) :
    ((ip &&& prefix2Mask short) >>> (32 - depth)).toNat = leading short ip * 2 ^ (depth - short) := by
  have split : 2 ^ (32 - short) = 2 ^ (depth - short) * 2 ^ (32 - depth) := by
    rw [← pow_add]
    congr 1
    omega
  rw [BitVec.toNat_ushiftRight, shiftRight_eq_div_pow,
    toNat_and_prefix2Mask (le_trans nested inside), split, ← mul_assoc,
    Nat.mul_div_cancel _ (Nat.pow_pos (by decide))]

include deep shallow in
theorem ipmaskbitmapSet_holds {short : Nat} (nested : short ≤ ctrl.depth) (ip : UINT) (on : Bool) :
    ∃ after, ipmaskbitmapSet ctrl ip (prefix2Mask short) on = some (after, .ok) ∧
      after.depth = ctrl.depth ∧
      ∀ target, bitAt after.bits (leading ctrl.depth target) =
        if leading short target = leading short ip then on
        else bitAt ctrl.bits (leading ctrl.depth target) := by
  have inside : ctrl.depth ≤ 32 := by omega
  have positive := Nat.pow_pos (n := ctrl.depth - short) (show 0 < 2 by decide)
  have start := toNat_start inside nested ip
  have whole : 2 ^ ctrl.depth = 2 ^ short * 2 ^ (ctrl.depth - short) := by
    rw [← pow_add, Nat.add_sub_cancel' nested]
  have fits : (leading short ip + 1) * 2 ^ (ctrl.depth - short) ≤ 2 ^ ctrl.depth := by
    rw [whole]
    exact mul_le_mul_right _ (leading_lt (le_trans nested inside) ip)
  have turns : ((prefix2Mask short ^^^ prefix2Mask ctrl.depth) >>> (32 - ctrl.depth)).toNat + 1 =
      2 ^ (ctrl.depth - short) := by
    rw [toNat_offset inside nested]
    omega
  obtain ⟨after, ran, sameDepth, written⟩ := setTurns_hold deep shallow
    ((ip &&& prefix2Mask short) >>> (32 - ctrl.depth)) on
    (2 ^ (ctrl.depth - short)) (by rw [start]; rw [add_mul, one_mul] at fits; exact fits)
  refine ⟨after, ?_, sameDepth, ?_⟩
  · have notBad : ¬ prefix2Mask short &&& ~~~prefix2Mask ctrl.depth ≠ 0 :=
      fun bad => bad (prefix2Mask_covered inside nested)
    simp only [ipmaskbitmapSet, if_neg notBad, turns, ran, Option.map_some]
  intro target
  have range : leading short ip * 2 ^ (ctrl.depth - short) ≤ leading ctrl.depth target ∧
      leading ctrl.depth target < leading short ip * 2 ^ (ctrl.depth - short) +
        2 ^ (ctrl.depth - short) ↔ leading short target = leading short ip := by
    rw [leading_of_le nested inside target, Nat.div_eq_iff positive]
    omega
  rw [written, start]
  simp [range]

include deep shallow in
theorem ipmaskBitmapIsSet_holds (ip : UINT) :
    ipmaskBitmapIsSet ctrl ip = some (bitAt ctrl.bits (leading ctrl.depth ip)) := by
  have index : (ip >>> (32 - ctrl.depth)).toNat = leading ctrl.depth ip := by
    rw [BitVec.toNat_ushiftRight, shiftRight_eq_div_pow, leading]
  have inside : inTable ctrl (ip >>> (32 - ctrl.depth)) := by
    rw [inTable_iff deep, index]
    exact leading_lt (by omega) ip
  simp only [ipmaskBitmapIsSet, if_pos inside, toNat_place, toNat_bit, index, bitAt]

theorem toNat_prefix2Capacity (deep : 3 ≤ depth) :
    (prefix2Capacity depth >>> 3).toNat = 2 ^ (32 - depth) / 8 := by
  have small : 2 ^ (32 - depth) < 2 ^ 32 := Nat.pow_lt_pow_right (by decide) (by omega)
  rw [toNat_place, prefix2Capacity, BitVec.toNat_shiftLeft, shiftLeft_eq]
  change 1 * _ % _ / 8 = _
  rw [one_mul, mod_eq_of_lt small]

/-- The bytes of the table behind those that the initialisation clears. -/
def Uncleared (depth place : Nat) : Prop :=
  2 ^ (32 - depth) / 8 ≤ place ∧ place < ipmaskBitmapDepth2Bytes depth

theorem clears_iff (deep : 3 ≤ depth) (shallow : depth ≤ 31) :
    (prefix2Capacity depth >>> 3).toNat ≤ ipmaskBitmapDepth2Bytes depth ↔ 16 ≤ depth := by
  rw [toNat_prefix2Capacity deep, ipmaskBitmapDepth2Bytes_eq deep]
  constructor
  · intro fits
    by_contra less
    have grows : 2 ^ (depth - 3) < 2 ^ (29 - depth) := Nat.pow_lt_pow_right (by decide) (by omega)
    have split : 2 ^ (32 - depth) = 2 ^ (29 - depth) * 8 := by
      rw [← Nat.pow_add (m := 29 - depth) (n := 3)]
      congr 1
      omega
    omega
  · intro half
    have grows : 2 ^ (32 - depth) ≤ 2 ^ depth := Nat.pow_le_pow_right (by decide) (by omega)
    have split : 2 ^ depth = 2 ^ (depth - 3) * 8 := by
      rw [← Nat.pow_add (m := depth - 3) (n := 3), Nat.sub_add_cancel deep]
    omega

theorem ipmaskBitmapInit_holds (deep : 3 ≤ depth) (shallow : depth ≤ 31) (half : 16 ≤ depth)
    (bits : Nat → UCHAR) :
    ipmaskBitmapInit bits depth =
      some ⟨depth, fun place => if place < 2 ^ (32 - depth) / 8 then 0 else bits place⟩ := by
  have fits := (clears_iff deep shallow).mpr half
  rw [toNat_prefix2Capacity deep] at fits
  simp [ipmaskBitmapInit, clearBytes, toNat_prefix2Capacity deep, if_pos fits]

structure Operation where
  on : Bool
  ip : UINT
  short : Nat

/-- `IPMASK_BITMAP_Add` or `IPMASK_BITMAP_Del` of a prefix. -/
def Operation.run (ctrl : IpmaskBitmapS) (operation : Operation) : Option IpmaskBitmapS :=
  (if operation.on then
    ipmaskBitmapAdd ctrl operation.ip (prefix2Mask operation.short)
  else
    ipmaskBitmapDel ctrl operation.ip (prefix2Mask operation.short)).map Prod.fst

def Operation.Covers (operation : Operation) (ip : UINT) : Prop :=
  ip &&& prefix2Mask operation.short = operation.ip &&& prefix2Mask operation.short

instance (operation : Operation) (ip : UINT) : Decidable (operation.Covers ip) :=
  inferInstanceAs (Decidable (_ = _))

/-- The effect of the last operation whose prefix covers the address. -/
def lastEffect (operations : List Operation) (ip : UINT) : Bool :=
  match operations.reverse.find? fun operation => operation.Covers ip with
  | some operation => operation.on
  | none => false

def runs (ctrl : IpmaskBitmapS) (operations : List Operation) : Option IpmaskBitmapS :=
  operations.foldlM Operation.run ctrl

/-- Whatever is added and deleted, every access stays in the table and every address
shows the last operation on it. -/
def Tracks (bits : Nat → UCHAR) (depth : Nat) : Prop :=
  ∀ operations : List Operation, (∀ operation ∈ operations, operation.short ≤ depth) →
    ∃ ctrl, (ipmaskBitmapInit bits depth).bind (fun ctrl => runs ctrl operations) = some ctrl ∧
      ∀ ip, ipmaskBitmapIsSet ctrl ip = some (lastEffect operations ip)

/-- The bytes that the initialisation leaves are clear already. -/
def StartsClear (bits : Nat → UCHAR) (depth : Nat) : Prop :=
  ∀ place, Uncleared depth place → bits place = 0

theorem lastEffect_append (operations : List Operation) (operation : Operation) (ip : UINT) :
    lastEffect (operations ++ [operation]) ip =
      if operation.Covers ip then operation.on else lastEffect operations ip := by
  rw [lastEffect, reverse_append, reverse_singleton, singleton_append, find?_cons]
  by_cases covered : operation.Covers ip
  · simp [covered]
  · simp [covered, lastEffect]

include deep shallow in
theorem Operation.run_holds {operation : Operation} (nested : operation.short ≤ ctrl.depth) :
    ∃ after, operation.run ctrl = some after ∧ after.depth = ctrl.depth ∧
      ∀ target, bitAt after.bits (leading ctrl.depth target) =
        if operation.Covers target then operation.on
        else bitAt ctrl.bits (leading ctrl.depth target) := by
  have inside : operation.short ≤ 32 := by omega
  obtain ⟨after, ran, sameDepth, bit⟩ := ipmaskbitmapSet_holds deep shallow nested operation.ip operation.on
  refine ⟨after, ?_, sameDepth, ?_⟩
  · rw [Operation.run]
    cases isOn : operation.on with
    | true =>
      rw [isOn] at ran
      simp [ipmaskBitmapAdd, ran]
    | false =>
      rw [isOn] at ran
      simp [ipmaskBitmapDel, ran]
  · intro target
    rw [bit]
    simp [Operation.Covers, and_prefix2Mask_eq_iff inside]

include deep shallow in
theorem runs_hold
    (clear : ∀ target, bitAt ctrl.bits (leading ctrl.depth target) = false)
    (operations : List Operation) (nested : ∀ operation ∈ operations, operation.short ≤ ctrl.depth) :
    ∃ after, runs ctrl operations = some after ∧ after.depth = ctrl.depth ∧
      ∀ target, bitAt after.bits (leading ctrl.depth target) = lastEffect operations target := by
  induction operations using reverseRecOn with
  | nil => exact ⟨ctrl, rfl, rfl, clear⟩
  | append_singleton _ operation ih =>
    obtain ⟨_, ran, sameDepth, bits⟩ := ih fun earlier isEarlier =>
      nested earlier (mem_append_left _ isEarlier)
    have last := nested operation (mem_append_right _ (mem_singleton_self _))
    rw [← sameDepth] at deep shallow last
    obtain ⟨after, ranLast, keptDepth, bit⟩ := Operation.run_holds deep shallow last
    refine ⟨after, ?_, keptDepth.trans sameDepth, ?_⟩
    · rw [runs] at ran ⊢
      rw [foldlM_append, ran]
      simp [ranLast]
    · intro target
      rw [lastEffect_append, ← bits target, ← sameDepth, bit]

theorem bitAt_leading_clear (deep : 3 ≤ depth) (shallow : depth ≤ 31)
    (clear : StartsClear bits depth) (target : UINT) :
    bitAt (fun place => if place < 2 ^ (32 - depth) / 8 then 0 else bits place)
      (leading depth target) = false := by
  have whole : 2 ^ depth = 2 ^ (depth - 3) * 8 := by
    rw [← Nat.pow_add (m := depth - 3) (n := 3), Nat.sub_add_cancel deep]
  have bounded := leading_lt (show depth ≤ 32 by omega) target
  rw [bitAt]
  split
  · exact BitVec.getLsbD_zero
  next behind =>
  have zero := clear (leading depth target / 8)
    ⟨by omega, by rw [ipmaskBitmapDepth2Bytes_eq deep]; omega⟩
  rw [zero]
  exact BitVec.getLsbD_zero

theorem StartsClear.of_tracks (deep : 3 ≤ depth) (shallow : depth ≤ 31) (half : 16 ≤ depth)
    (tracks : Tracks bits depth) : StartsClear bits depth := by
  intro place uncleared
  obtain ⟨_, started, shown⟩ := tracks [] (by simp)
  rw [ipmaskBitmapInit_holds deep shallow half] at started
  cases started
  have whole : 2 ^ depth = 2 ^ (depth - 3) * 8 := by
    rw [← Nat.pow_add (m := depth - 3) (n := 3), Nat.sub_add_cancel deep]
  have inTable := uncleared.2
  rw [ipmaskBitmapDepth2Bytes_eq deep] at inTable
  apply BitVec.eq_of_getLsbD_eq
  intro bit low
  obtain ⟨ip, isLeading⟩ := exists_leading_eq (show depth ≤ 32 by omega)
    (show place * 8 + bit < 2 ^ depth by omega)
  have clear := shown ip
  rw [ipmaskBitmapIsSet_holds deep shallow ip] at clear
  have position : (place * 8 + bit) / 8 = place := by omega
  have remainder : (place * 8 + bit) % 8 = bit := by omega
  simp only [isLeading, bitAt, position, remainder, if_neg (not_lt.mpr uncleared.1)] at clear
  simpa [lastEffect] using clear

/-- The table shows the operations exactly if the initialisation stays in it and leaves
no byte that is not clear. -/
theorem ipmaskBitmap_tracks (deep : 3 ≤ depth) (shallow : depth ≤ 31) :
    Tracks bits depth ↔ 16 ≤ depth ∧ StartsClear bits depth := by
  constructor
  · intro tracks
    have half : 16 ≤ depth := by
      by_contra less
      obtain ⟨_, started, -⟩ := tracks [] (by simp)
      have outside := fun fits => less ((clears_iff deep shallow).mp fits)
      rw [ipmaskBitmapInit, clearBytes, if_neg outside] at started
      cases started
    exact ⟨half, StartsClear.of_tracks deep shallow half tracks⟩
  · rintro ⟨half, clear⟩ operations nested
    rw [ipmaskBitmapInit_holds deep shallow half]
    obtain ⟨after, ran, sameDepth, bit⟩ := @runs_hold ⟨depth, _⟩ deep shallow
      (bitAt_leading_clear deep shallow clear) operations nested
    refine ⟨after, ran, ?_⟩
    intro ip
    change after.depth = depth at sameDepth
    rw [← sameDepth] at deep shallow
    rw [ipmaskBitmapIsSet_holds deep shallow, ← bit ip, sameDepth]

theorem ipmaskBitmap_tracks_sixteen :
    Tracks (fun _ => 0xff) 16 ↔ 16 ≤ 16 ∧ StartsClear (fun _ => 0xff) 16 :=
  ipmaskBitmap_tracks (by decide) (by decide)

/-- At depth 24 all but 32 bytes of the table keep what was in the memory. -/
theorem ipmaskBitmap_uncleared :
    (ipmaskBitmapInit (fun _ => 0xff) 24).bind (fun ctrl => ipmaskBitmapIsSet ctrl 0x0a000000) =
        some true ∧
      ¬ Tracks (fun _ => 0xff) 24 := by
  refine ⟨by decide +kernel, ?_⟩
  intro tracks
  have clear := StartsClear.of_tracks (by decide) (by decide) (by decide) tracks 32 ⟨by decide, by decide⟩
  exact absurd clear (by decide)

end MyCode.IpmaskBitmap
