import Mathlib.Data.List.Perm.Basic
import Mathlib.Order.Basic

/-!
# Lists in ascending order

Insertion before the first element that stops the search, and searches that end
at the first element behind the one looked for.
-/

namespace MyCode.Lib

open List

universe u v

variable {α : Type u} {κ : Type v}

/-- Insert before the first element that passes `stop`, or at the end. -/
def insertWhen (stop : α → Bool) (new : α) : List α → List α
  | [] => [new]
  | element :: rest =>
    if stop element then new :: element :: rest else element :: insertWhen stop new rest

variable {stop : α → Bool} {new : α} {elements : List α}

theorem insertWhen_perm (stop : α → Bool) (new : α) (elements : List α) :
    (insertWhen stop new elements).Perm (new :: elements) := by
  induction elements with
  | nil => exact .refl _
  | cons element rest ih =>
    rw [insertWhen]
    split
    · exact .refl _
    · exact (ih.cons element).trans (.swap new element rest)

@[simp]
theorem mem_insertWhen {element : α} :
    element ∈ insertWhen stop new elements ↔ element = new ∨ element ∈ elements := by
  rw [(insertWhen_perm stop new elements).mem_iff, mem_cons]

theorem insertWhen_place (stop : α → Bool) (new : α) (elements : List α) :
    ∃ front behind, front ++ behind = elements ∧
      insertWhen stop new elements = front ++ new :: behind := by
  induction elements with
  | nil => exact ⟨[], [], rfl, rfl⟩
  | cons element rest ih =>
    rw [insertWhen]
    split
    · exact ⟨[], element :: rest, rfl, rfl⟩
    obtain ⟨front, behind, same, inserted⟩ := ih
    refine ⟨element :: front, behind, ?_, ?_⟩
    · rw [cons_append, same]
    · rw [inserted, cons_append]

theorem pairwise_insertWhen {before : α → α → Prop}
    (trans : ∀ first second third, before first second → before second third → before first third)
    (sorted : elements.Pairwise before)
    (stops : ∀ element ∈ elements, stop element = true → before new element)
    (passes : ∀ element ∈ elements, stop element = false → before element new) :
    (insertWhen stop new elements).Pairwise before := by
  induction elements with
  | nil => exact pairwise_singleton _ _
  | cons element _ ih =>
    obtain ⟨isFirst, sortedRest⟩ := pairwise_cons.mp sorted
    rw [insertWhen]
    split
    · next stopped =>
      apply pairwise_cons.mpr ⟨_, sorted⟩
      have first := stops element mem_cons_self stopped
      intro other inside
      rcases mem_cons.mp inside with rfl | inRest
      · exact first
      · exact trans _ _ _ first (isFirst other inRest)
    next passed =>
    apply pairwise_cons.mpr
    constructor
    · intro other inside
      rcases mem_insertWhen.mp inside with rfl | inRest
      · exact passes element mem_cons_self (Bool.not_eq_true _ ▸ passed)
      · exact isFirst other inRest
    · exact ih sortedRest (fun other inRest => stops other (mem_cons_of_mem _ inRest))
        (fun other inRest => passes other (mem_cons_of_mem _ inRest))

/-- Insertion of the elements one after the other. -/
def insertAll (stops : α → α → Bool) (elements : List α) : List α :=
  elements.foldl (fun sorted new => insertWhen (stops new) new sorted) []

theorem insertAll_perm (stops : α → α → Bool) (elements : List α) :
    (insertAll stops elements).Perm elements := by
  have inserted : ∀ sorted, (elements.foldl (fun sorted new =>
      insertWhen (stops new) new sorted) sorted).Perm (sorted ++ elements) := by
    induction elements with
    | nil =>
      intro sorted
      rw [append_nil]
      exact .refl _
    | cons new rest ih =>
      intro sorted
      have placed := (insertWhen_perm (stops new) new sorted).append_right rest
      exact (ih _).trans (placed.trans perm_middle.symm)
  exact inserted []

theorem pairwise_insertAll {before : α → α → Prop} {stops : α → α → Bool}
    (trans : ∀ first second third, before first second → before second third → before first third)
    (stopped : ∀ new element, stops new element = true → before new element)
    (passed : ∀ new element, stops new element = false → before element new) (elements : List α) :
    (insertAll stops elements).Pairwise before := by
  have inserted : ∀ sorted : List α, sorted.Pairwise before →
      (elements.foldl (fun sorted new => insertWhen (stops new) new sorted) sorted).Pairwise
        before := by
    induction elements with
    | nil => exact fun sorted ordered => ordered
    | cons new _ ih =>
      intro sorted ordered
      apply ih
      exact pairwise_insertWhen trans ordered (fun element _ => stopped new element)
        (fun element _ => passed new element)
  exact inserted [] .nil

section Ascending

variable [Preorder κ] (key : α → κ)

def Ascending (elements : List α) : Prop :=
  elements.Pairwise fun first second => key first < key second

variable {key}

theorem Ascending.tail {element : α} (ascending : Ascending key (element :: elements)) :
    Ascending key elements :=
  (pairwise_cons.mp ascending).2

theorem Ascending.head {element other : α} (ascending : Ascending key (element :: elements))
    (inside : other ∈ elements) : key element < key other :=
  (pairwise_cons.mp ascending).1 other inside

theorem Ascending.insertWhen (ascending : Ascending key elements)
    (stops : ∀ element ∈ elements, stop element = true → key new < key element)
    (passes : ∀ element ∈ elements, stop element = false → key element < key new) :
    Ascending key (insertWhen stop new elements) :=
  pairwise_insertWhen (fun _ _ _ first second => lt_trans first second) ascending stops passes

end Ascending

end MyCode.Lib
