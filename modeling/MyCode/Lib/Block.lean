import Mathlib.Data.List.Basic

/-!
# Blocks of memory

A block has a size, and an access outside it yields `none`.  Every access inside it is
one to the cells, which is how proofs about checked accesses become proofs about
functions.  Replacing some elements of a list of two parts happens in one of them, or
at the seam in both.
-/

namespace MyCode.Lib

open List

universe u

variable {α : Type u} {list front back inserted more : List α} {offset count : Nat}

/-- The list with `count` elements from `offset` on replaced. -/
def splice (list : List α) (offset count : Nat) (inserted : List α) : List α :=
  list.take offset ++ inserted ++ list.drop (offset + count)

@[simp]
theorem splice_nothing : splice list offset 0 [] = list := by
  simp [splice]

theorem length_splice (inside : offset ≤ list.length) :
    (splice list offset count inserted).length =
      offset + inserted.length + (list.length - (offset + count)) := by
  simp [splice, inside, Nat.add_assoc]

theorem splice_front (inside : offset + count ≤ front.length) :
    splice (front ++ back) offset count inserted =
      splice front offset count inserted ++ back := by
  have left : offset ≤ front.length := by omega
  simp [splice, take_append_of_le_length left, drop_append_of_le_length inside]

theorem splice_back (behind : front.length ≤ offset) :
    splice (front ++ back) offset count inserted =
      front ++ splice back (offset - front.length) count inserted := by
  have further : offset + count - front.length = offset - front.length + count := by omega
  simp [splice, take_append, drop_append, take_of_length_le behind,
    drop_eq_nil_of_le (show front.length ≤ offset + count by omega), further]

theorem splice_seam (before : offset ≤ front.length) (behind : front.length ≤ offset + count) :
    splice (front ++ back) offset count (inserted ++ more) =
      front.take offset ++ inserted ++ splice back 0 (offset + count - front.length) more := by
  simp [splice, take_append_of_le_length before, drop_append, drop_eq_nil_of_le behind]

/-- A block of `size` cells; the cells from `size` on are never read or written. -/
structure Block (α : Type u) where
  size : Nat
  cells : Nat → α

namespace Block

variable {α : Type u} {block : Block α} {place offset count : Nat} {value : α} {source : Nat → α}
  {start length : Nat}

def put (block : Block α) (place : Nat) (value : α) : Block α :=
  { block with cells := Function.update block.cells place value }

/-- The cells with `count` of them replaced by those of `source`. -/
def paste (block : Block α) (offset : Nat) (source : Nat → α) (count : Nat) : Block α :=
  { block with
    cells := fun place =>
      if offset ≤ place ∧ place < offset + count then source (place - offset)
      else block.cells place }

/-- `count` cells from `offset` on. -/
def slice (block : Block α) (offset count : Nat) : List α :=
  (List.range count).map fun i => block.cells (offset + i)

def load (block : Block α) (place : Nat) : Option α :=
  if place < block.size then some (block.cells place) else none

def store (block : Block α) (place : Nat) (value : α) : Option (Block α) :=
  if place < block.size then some (block.put place value) else none

/-- Copy `count` cells of a buffer into the block. -/
def copyIn (block : Block α) (offset : Nat) (source : Nat → α) (count : Nat) :
    Option (Block α) :=
  if offset + count ≤ block.size then some (block.paste offset source count) else none

/-- Copy `count` cells of the block out of it. -/
def copyOut (block : Block α) (offset count : Nat) : Option (List α) :=
  if offset + count ≤ block.size then some (block.slice offset count) else none

/-- Copy cells of a block into a block; all of them are read before one is written. -/
def transfer (target : Block α) (offset : Nat) (source : Block α) (start count : Nat) :
    Option (Block α) :=
  if start + count ≤ source.size then
    target.copyIn offset (fun i => source.cells (start + i)) count
  else none

theorem load_eq (inside : place < block.size) : block.load place = some (block.cells place) := by
  simp [load, inside]

theorem store_eq (inside : place < block.size) :
    block.store place value = some (block.put place value) := by
  simp [store, inside]

theorem copyIn_eq (inside : offset + count ≤ block.size) :
    block.copyIn offset source count = some (block.paste offset source count) := by
  simp [copyIn, inside]

theorem copyOut_eq (inside : offset + count ≤ block.size) :
    block.copyOut offset count = some (block.slice offset count) := by
  simp [copyOut, inside]

theorem transfer_eq {target : Block α} (readable : start + count ≤ block.size)
    (writable : offset + count ≤ target.size) :
    target.transfer offset block start count =
      some (target.paste offset (fun i => block.cells (start + i)) count) := by
  rw [transfer, if_pos readable, copyIn_eq writable]

@[simp]
theorem size_paste : (block.paste offset source count).size = block.size := rfl

@[simp]
theorem length_slice : (block.slice offset count).length = count := by
  simp [slice]

@[simp]
theorem paste_zero : block.paste offset source 0 = block := by
  have nowhere : ∀ place, ¬(offset ≤ place ∧ place < offset) := by omega
  simp [paste, nowhere]

theorem paste_new {i : Nat} (inside : i < count) :
    (block.paste offset source count).cells (offset + i) = source i := by
  simp [paste, inside]

theorem paste_old (outside : place < offset ∨ offset + count ≤ place) :
    (block.paste offset source count).cells place = block.cells place := by
  have other : ¬(offset ≤ place ∧ place < offset + count) := by omega
  simp [paste, other]

theorem slice_paste_start (less : length ≤ count) :
    (block.paste offset source count).slice offset length = (range length).map source :=
  map_congr_left fun _ inside => paste_new (Nat.lt_of_lt_of_le (mem_range.mp inside) less)

theorem slice_paste_self :
    (block.paste offset source count).slice offset count = (range count).map source :=
  slice_paste_start (Nat.le_refl count)

theorem slice_paste_other (apart : start + length ≤ offset ∨ offset + count ≤ start) :
    (block.paste offset source count).slice start length = block.slice start length := by
  apply map_congr_left
  intro i inside
  have bounded := mem_range.mp inside
  apply paste_old
  omega

theorem slice_add (first second : Nat) :
    block.slice offset (first + second) =
      block.slice offset first ++ block.slice (offset + first) second := by
  simp [slice, range_add, Nat.add_assoc]

theorem take_slice (less : offset ≤ count) :
    (block.slice place count).take offset = block.slice place offset := by
  have whole := @slice_add _ block place offset (count - offset)
  rw [Nat.add_sub_cancel' less] at whole
  rw [whole, take_left' length_slice]

theorem drop_slice (less : offset ≤ count) :
    (block.slice place count).drop offset = block.slice (place + offset) (count - offset) := by
  have whole := @slice_add _ block place offset (count - offset)
  rw [Nat.add_sub_cancel' less] at whole
  rw [whole, drop_left' length_slice]

theorem slice_paste (inside : offset + count ≤ length) :
    (block.paste (place + offset) source count).slice place length =
      splice (block.slice place length) offset count ((range count).map source) := by
  have parts : length = offset + (count + (length - (offset + count))) := by omega
  rw [splice, take_slice (by omega), drop_slice inside]
  conv_lhs => rw [parts, slice_add, slice_add]
  rw [slice_paste_self, slice_paste_other (by omega), slice_paste_other (by omega),
    Nat.add_assoc, append_assoc]

end Block

end MyCode.Lib
