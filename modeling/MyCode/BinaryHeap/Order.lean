import MyCode.BinaryHeap
import MyCode.Lib.ArrayHeap
import Mathlib.Data.Multiset.Basic

/-!
# Heap order

What is stored is what was inserted and not taken out, in heap order, as long as the array
can grow.
-/

namespace MyCode.BinaryHeap

open Darray Lib Option List Nat Prod

variable {α : Type} {from_ : Nat} {deleted : α}

structure Compares (pfCmp : α → α → Int) : Prop where
  flip : ∀ a b, pfCmp a b < 0 ↔ 0 < pfCmp b a
  trans : ∀ a b c, pfCmp a b ≤ 0 → pfCmp b c ≤ 0 → pfCmp a c ≤ 0

/-- The first `count` slots hold these elements, and none sorts before its parent. -/
structure Stores (heap : BinaryHeapS α) (elements : List α) : Prop where
  count : elements.length = heap.count
  slots : ∀ i, i < heap.count → darrayGet heap.hDarray i = elements[i]?
  order : ∀ i child parent, 0 < i → elements[i]? = some child →
    elements[(i - 1) / 2]? = some parent → 0 ≤ heap.pfCmp child parent

/-- The answer of a call and what is stored after it. -/
def HeapCall.Answers (pfCmp : α → α → Int) (stored : Multiset α) :
    HeapCall α → HeapAnswer α → Multiset α → Prop
  | insert new_data, .status status, after => status = .ok ∧ after = new_data ::ₘ stored
  | removeIndex index, .data (some deleted), _after =>
    stored = deleted ::ₘ _after ∧ index < stored.card ∧
      (index = 0 → ∀ element ∈ stored, pfCmp deleted element ≤ 0)
  | removeIndex index, .data none, after => after = stored ∧ stored.card ≤ index
  | removeData data, .status status, after =>
    (status = .ok ∧ ∃ deleted, pfCmp data deleted = 0 ∧ stored = deleted ::ₘ after) ∨
      (status = .notFound ∧ after = stored ∧ ∀ element ∈ stored, pfCmp data element ≠ 0)
  | _, _, _ => False

/-- Every state of the run is a heap of what was inserted and not taken out. -/
def HeapRuns : BinaryHeapS α → Multiset α → List (HeapCall α) → Prop
  | heap, stored, [] => ∃ elements, Stores heap elements ∧ elements = stored
  | heap, stored, call :: rest =>
    (∃ elements, Stores heap elements ∧ elements = stored) ∧
      ∃ after answer left, call.run heap = some (after, answer) ∧
        call.Answers heap.pfCmp stored answer left ∧ HeapRuns after left rest

theorem HeapRuns.start {heap : BinaryHeapS α} {stored : Multiset α} {calls : List (HeapCall α)}
    (runs : HeapRuns heap stored calls) : ∃ elements, Stores heap elements ∧ elements = stored := by
  cases calls with
  | nil => exact runs
  | cons => exact runs.1

/-- The elements that an array of less than 2^32 bytes can hold. -/
def HEAP_MAX : Nat := 2 ^ 29 - 128

/-- Nothing is inserted into a heap of `HEAP_MAX` elements. -/
def Fits : BinaryHeapS α → List (HeapCall α) → Prop
  | _, [] => True
  | heap, call :: rest =>
    (∀ new_data, call = .insert new_data → heap.count < HEAP_MAX) ∧
      ∀ after answer, call.run heap = some (after, answer) → Fits after rest

def Before (pfCmp : α → α → Int) (first second : α) : Prop :=
  pfCmp first second ≤ 0

variable {pfCmp : α → α → Int} {a b current other x : α} {elements : List α}
  {hDarray : DarrayCtrl α} {heap : BinaryHeapS α} {free i c : Nat}

variable (total : Compares pfCmp)

section

include total

theorem Compares.before_of_not (notBefore : ¬ pfCmp a b < 0) : Before pfCmp b a := by
  rw [total.flip] at notBefore
  exact Int.not_lt.mp notBefore

theorem Compares.before : Before pfCmp a b ↔ 0 ≤ pfCmp b a := by
  have flip := total.flip b a
  rw [Before]
  omega

theorem Compares.before_trans (a b c : α) :
    Before pfCmp a b → Before pfCmp b c → Before pfCmp a c :=
  total.trans a b c

theorem Compares.refl (a : α) : Before pfCmp a a := by
  have flip := total.flip a a
  rw [Before]
  omega

end

def place (elements : List α) (other : α) (i : Nat) : α :=
  elements.getD i other

theorem place_get (found : elements[i]? = some x) : place elements other i = x := by
  rw [place, getD_eq_getElem?_getD, found]
  rfl

theorem place_append (inside : i < elements.length) :
    place (elements ++ [x]) other i = place elements other i := by
  simp [place, getElem?_append_left inside]

variable (inside : c < elements.length)

include inside in
theorem place_set :
    place (elements.set c x) other = Function.update (place elements other) c x := by
  funext i
  by_cases same : i = c
  · subst same
    simp [place, inside]
  · simp [place, same, Ne.symm same]

def InOrder (pfCmp : α → α → Int) (elements : List α) : Prop :=
  ∀ other, ArrayHeap.Ordered (Before pfCmp) (place elements other) elements.length

theorem inOrder_of (ordered : ArrayHeap.Ordered (Before pfCmp) (place elements other)
    elements.length) : InOrder pfCmp elements := by
  intro another
  apply ordered.congr
  intro i inside
  simp [place, inside]

/-- The array with a hole, which holds the elements of `start` once `current` is in it. -/
structure Placed (current : α) (start : List α) (free : Nat) (before after : DarrayCtrl α)
    (hole : Nat) (left : List α) : Prop where
  filled : Filled after left free
  step : after.step_num = before.step_num
  inside : hole < left.length
  perm : (left.set hole current).Perm start

variable (found : elements[from_]? = some x) (insideFrom : from_ < elements.length)

include inside found insideFrom in
/-- One element is moved from `from_` into the hole. -/
theorem place_move (apart : c ≠ from_) :
    place ((elements.set c x).set from_ current) other =
      ArrayHeap.exchange (place (elements.set c current) other) c from_ := by
  rw [place_set (by simpa using insideFrom), place_set inside, place_set inside]
  simp [ArrayHeap.exchange, apart.symm, place_get found]

include inside found insideFrom in
theorem perm_move (apart : c ≠ from_) :
    ((elements.set c x).set from_ current).Perm (elements.set c current) := by
  have swapped := @set_set_perm _ (elements.set c current) c from_ (by simpa using inside)
    (by simpa using insideFrom)
  have there := (List.getElem?_eq_some_iff.mp found).2
  simpa [getElem_set, apart, there] using swapped

structure MovedUp (pfCmp : α → α → Int) (current other : α) (start : List α) (c free : Nat)
    (before after : DarrayCtrl α) (hole : Nat) (left : List α) : Prop
    extends Placed current start free before after hole left where
  down : ArrayHeap.BrokenDown (Before pfCmp) (place (left.set hole current) other) start.length c
  order : ArrayHeap.BrokenUp (Before pfCmp) (place start other) start.length c →
    InOrder pfCmp (left.set hole current)

variable (filled : Filled hDarray elements free)

include inside filled in
theorem MovedUp.stop
    (broken : ArrayHeap.Broken (Before pfCmp) (place (elements.set c current) other)
      (elements.set c current).length c)
    (above : 0 < c → Before pfCmp (place (elements.set c current) other (ArrayHeap.parent c))
      current) :
    MovedUp pfCmp current other (elements.set c current) c free hDarray hDarray c elements := by
  have here : place (elements.set c current) other c = current := place_get (by simp [inside])
  have inOrder : 0 < c → Before pfCmp (place (elements.set c current) other (ArrayHeap.parent c))
      (place (elements.set c current) other c) := by
    intro positive
    rw [here]
    exact above positive
  refine ⟨⟨filled, rfl, inside, Perm.refl _⟩, ⟨broken, inOrder⟩, ?_⟩
  intro brokenUp
  exact inOrder_of (brokenUp.ordered inOrder)

include total inside found insideFrom in
theorem MovedUp.move {hole : Nat} {after between : DarrayCtrl α} {left : List α}
    (lower : from_ < c)
    (step : between.step_num = hDarray.step_num)
    (brokenUp : ArrayHeap.BrokenUp (Before pfCmp) (place ((elements.set c x).set from_ current) other) (elements.set c current).length from_)
    (moved : MovedUp pfCmp current other ((elements.set c x).set from_ current) from_ free between after hole left) :
    MovedUp pfCmp current other (elements.set c current) c free hDarray after hole left := by
  have size : left.length = elements.length := by
    have lengths := moved.perm.length_eq
    simpa using lengths
  have ordered : InOrder pfCmp (left.set hole current) := by
    apply moved.order
    simpa using brokenUp
  refine ⟨⟨moved.filled, moved.step.trans step, moved.inside, ?_⟩, ?_, fun _ => ordered⟩
  · exact moved.perm.trans (perm_move inside found insideFrom (by omega))
  have down := ArrayHeap.Ordered.brokenDown total.before_trans (ordered other)
    (by simpa [size] using inside : c < (left.set hole current).length)
  simpa [size] using down

include total inside filled in
theorem upLoop_holds (rounds : Nat) (enough : c < rounds)
    (broken : ArrayHeap.Broken (Before pfCmp) (place (elements.set c current) other)
      (elements.set c current).length c) :
    ∃ after hole left, binaryheapUpLoop pfCmp (some current) rounds hDarray c = some (after, hole) ∧
      MovedUp pfCmp current other (elements.set c current) c free hDarray after hole left := by
  induction rounds generalizing hDarray elements c with
  | zero => omega
  | succ _ ih =>
    rw [binaryheapUpLoop]
    split
    · next positive =>
      have lower := ArrayHeap.parent_lt positive
      have parentInside : (c - 1) / 2 < elements.length := by omega
      have found := getElem?_eq_getElem parentInside
      have atParent : place (elements.set c current) other (ArrayHeap.parent c) =
          elements[(c - 1) / 2] := by
        apply place_get
        rw [ArrayHeap.parent, getElem?_set_ne (by omega)]
        exact found
      have here : place (elements.set c current) other c = current := place_get (by simp [inside])
      simp only [filled.get, found, callCmp, bind_eq_bind, bind_some]
      split
      · next stops =>
        refine ⟨hDarray, c, elements, rfl, MovedUp.stop inside filled broken ?_⟩
        intro _
        rw [atParent]
        exact total.before.mpr stops
      next before =>
      obtain ⟨_, set, filledBetween, step⟩ :=
        @Filled.set _ _ _ _ _ elements[(c - 1) / 2] filled inside
      rw [set, bind_some]
      have brokenUp := broken.swapUp total.before_trans positive (by simpa using inside) (by
        rw [here, atParent, Before]
        omega)
      rw [ArrayHeap.parent, ← place_move inside found parentInside (by omega)] at brokenUp
      obtain ⟨after, hole, left, run, moved⟩ := ih
        (by simpa using parentInside) filledBetween (by omega) (by simpa using brokenUp.toBroken)
      exact ⟨after, hole, left, run,
        MovedUp.move total inside found parentInside lower step brokenUp moved⟩
    · next root =>
      refine ⟨hDarray, c, elements, rfl, MovedUp.stop inside filled broken ?_⟩
      intro positive
      exact absurd positive root

variable (few : elements.length < 2 ^ 31)

include total inside filled few in
theorem getMinChild_holds :
    binaryheapGetMinChild pfCmp hDarray elements.length c = some DARRAY_INVALID_INDEX ∧
        elements.length ≤ 2 * c + 1 ∨
      ∃ n next, binaryheapGetMinChild pfCmp hDarray elements.length c = some n ∧
        0 < n ∧ (n - 1) / 2 = c ∧ elements[n]? = some next ∧
        ∀ i sibling, 0 < i → (i - 1) / 2 = c → elements[i]? = some sibling →
          Before pfCmp next sibling := by
  have left : (2 * c + 1) % 2 ^ 32 = 2 * c + 1 := mod_eq_of_lt (by omega)
  have right : (2 * c + 1 + 1) % 2 ^ 32 = 2 * c + 2 := mod_eq_of_lt (by omega)
  have children : ∀ i, 0 < i → (i - 1) / 2 = c → i = 2 * c + 1 ∨ i = 2 * c + 2 := by
    intro i positive under
    omega
  have least {n : Nat} {next : α} (found : elements[n]? = some next) (under : 0 < n ∧ (n - 1) / 2 = c)
      (ofLeft : ∀ sibling, elements[2 * c + 1]? = some sibling → Before pfCmp next sibling)
      (ofRight : ∀ sibling, elements[2 * c + 2]? = some sibling → Before pfCmp next sibling) :
      0 < n ∧ (n - 1) / 2 = c ∧ elements[n]? = some next ∧ ∀ i sibling, 0 < i → (i - 1) / 2 = c →
        elements[i]? = some sibling → Before pfCmp next sibling := by
    refine ⟨under.1, under.2, found, fun i sibling positive under found => ?_⟩
    rcases children i positive under with rfl | rfl
    · exact ofLeft sibling found
    · exact ofRight sibling found
  have same {n : Nat} {next sibling : α} (first : elements[n]? = some next)
      (second : elements[n]? = some sibling) : Before pfCmp next sibling := by
    cases first.symm.trans second
    exact total.refl _
  simp only [binaryheapGetMinChild, left, right]
  split
  · next leaf => exact Or.inl ⟨rfl, leaf⟩
  next some =>
  have leftInside : 2 * c + 1 < elements.length := by omega
  have leftFound := getElem?_eq_getElem leftInside
  right
  split
  · next single =>
    refine ⟨_, _, rfl, least leftFound (by omega) (fun _ => same leftFound) fun sibling found => ?_⟩
    have inside := (List.getElem?_eq_some_iff.mp found).1
    omega
  next both =>
  have rightFound := getElem?_eq_getElem (show 2 * c + 2 < elements.length by omega)
  simp only [filled.get, leftFound, rightFound, callCmp, bind_eq_bind, bind_some]
  split
  · next before =>
    refine ⟨_, _, rfl, least leftFound (by omega) (fun _ => same leftFound) fun sibling found => ?_⟩
    cases rightFound.symm.trans found
    exact Int.le_of_lt before
  next notBefore =>
  refine ⟨_, _, rfl, least rightFound (by omega) (fun sibling found => ?_) fun _ => same rightFound⟩
  cases leftFound.symm.trans found
  exact total.before_of_not notBefore

variable (broken : ArrayHeap.BrokenDown (Before pfCmp) (place (elements.set c current) other)
  (elements.set c current).length c)

include inside filled broken in
theorem stopDown
    (below : ∀ i sibling, 0 < i → (i - 1) / 2 = c → elements[i]? = some sibling →
      Before pfCmp current sibling) :
    Placed current (elements.set c current) free hDarray hDarray c elements ∧
      InOrder pfCmp (elements.set c current) := by
  refine ⟨⟨filled, rfl, inside, Perm.refl _⟩, inOrder_of (broken.ordered ?_)⟩
  intro i positive insideI under
  have lower := ArrayHeap.parent_lt positive
  have here : place (elements.set c current) other c = current := place_get (by simp [inside])
  rw [length_set] at insideI
  have found : (elements.set c current)[i]? = some elements[i] := by
    rw [getElem?_set_ne (by omega)]
    exact getElem?_eq_getElem insideI
  rw [here, place_get found]
  exact below i _ positive under (getElem?_eq_getElem insideI)

include total inside filled few broken in
theorem downLoop_holds (rounds : Nat) (enough : elements.length - c < rounds) :
    ∃ after hole left,
      binaryheapDownLoop pfCmp elements.length (some current) rounds hDarray c = some (after, hole) ∧
        Placed current (elements.set c current) free hDarray after hole left ∧
        InOrder pfCmp (left.set hole current) := by
  induction rounds generalizing hDarray elements c with
  | zero => omega
  | succ _ ih =>
    rw [binaryheapDownLoop, if_pos inside]
    rcases getMinChild_holds total inside filled few with
      ⟨child, _⟩ | ⟨n, next, child, positive, under, found, least⟩
    · rw [child]
      refine ⟨hDarray, c, elements, rfl, stopDown inside filled broken ?_⟩
      intro i sibling positive under found
      have insideI := (List.getElem?_eq_some_iff.mp found).1
      omega
    have insideN := (List.getElem?_eq_some_iff.mp found).1
    have valid : n ≠ DARRAY_INVALID_INDEX := by
      rw [DARRAY_INVALID_INDEX]
      omega
    simp only [child, filled.get, found, callCmp, bind_eq_bind, bind_some, if_neg valid]
    split
    · next stops =>
      refine ⟨hDarray, c, elements, rfl, stopDown inside filled broken ?_⟩
      intro i sibling positiveI underI foundI
      exact total.before_trans _ _ _ stops (least i sibling positiveI underI foundI)
    next before =>
    obtain ⟨_, set, filledBetween, step⟩ := @Filled.set _ _ _ _ _ next filled inside
    rw [set, bind_some]
    have here : place (elements.set c current) other c = current := place_get (by simp [inside])
    have kept : ∀ i, i ≠ c → (elements.set c current)[i]? = elements[i]? := by
      intro i notHole
      exact getElem?_set_ne (Ne.symm notHole)
    have there : place (elements.set c current) other n = next :=
      place_get ((kept n (by omega)).trans found)
    have down := broken.swapDown positive (by simpa using insideN) under
      (by
        rw [here, there, Before]
        have flip := total.flip next current
        omega)
      (by
        intro i positiveI insideI underI
        rw [length_set] at insideI
        have lowerI := ArrayHeap.parent_lt positiveI
        have foundI := getElem?_eq_getElem insideI
        rw [there, place_get ((kept i (by omega)).trans foundI)]
        exact least i _ positiveI underI foundI)
    rw [← place_move inside found insideN (by omega)] at down
    have size : (elements.set c next).length = elements.length := length_set
    obtain ⟨after, hole, left, run, placed, ordered⟩ := ih
      (by simpa using insideN) filledBetween (by simpa using few) (by simpa using down)
      (by rw [size]; omega)
    rw [size] at run
    refine ⟨after, hole, left, run, ⟨placed.filled, placed.step.trans step, placed.inside, ?_⟩,
      ordered⟩
    exact placed.perm.trans (perm_move inside found insideN (by omega))

/-- What the calls keep: the array is filled from the start, and its size is a multiple of
the step. -/
structure HeapOk (pfCmp : α → α → Int) (heap : BinaryHeapS α) (elements : List α) : Prop where
  cmp : heap.pfCmp = pfCmp
  step : heap.hDarray.step_num = 128
  count : heap.count = elements.length
  filled : ∃ free, Filled heap.hDarray elements free ∧ 128 ∣ elements.length + free ∧
    elements.length + free ≤ HEAP_MAX
  order : InOrder pfCmp elements

theorem heapMax_eq : HEAP_MAX = 2 ^ 29 - 128 := rfl

theorem set_found (found : elements[c]? = some x) : elements.set c x = elements := by
  obtain ⟨inside, there⟩ := List.getElem?_eq_some_iff.mp found
  rw [← there]
  exact set_getElem_self inside

include total in
theorem up_holds (cmp : heap.pfCmp = pfCmp)
    (filled : Filled heap.hDarray elements free) (found : elements[c]? = some current)
    (broken : ArrayHeap.Broken (Before pfCmp) (place elements other) elements.length c) :
    ∃ after left, binaryheapUp heap c = some { heap with hDarray := after } ∧
      Filled after left free ∧ after.step_num = heap.hDarray.step_num ∧ left.Perm elements ∧
      ArrayHeap.BrokenDown (Before pfCmp) (place left other) left.length c ∧
      (ArrayHeap.BrokenUp (Before pfCmp) (place elements other) elements.length c →
        InOrder pfCmp left) := by
  have inside := (List.getElem?_eq_some_iff.mp found).1
  have unchanged := set_found found
  obtain ⟨_, hole, left, run, moved⟩ := @upLoop_holds _ _ current other _ _ _ _ total inside
    filled (c + 1) (by omega) (by rw [unchanged]; exact broken)
  obtain ⟨after, set, filledAfter, step⟩ := @Filled.set _ _ _ _ _ current moved.filled moved.inside
  have perm := moved.perm
  have down := moved.down
  have order := moved.order
  rw [unchanged] at perm down order
  refine ⟨after, left.set hole current, ?_, filledAfter, step.trans moved.step, perm, ?_, order⟩
  · simp [binaryheapUp, cmp, filled.get, found, run, set]
  · rw [perm.length_eq]
    exact down

include total in
theorem down_holds (cmp : heap.pfCmp = pfCmp)
    (count : heap.count = elements.length) (few : elements.length < 2 ^ 31)
    (filled : Filled heap.hDarray elements free) (found : elements[c]? = some current)
    (broken : ArrayHeap.BrokenDown (Before pfCmp) (place elements other) elements.length c) :
    ∃ after left, binaryheapDown heap c = some { heap with hDarray := after } ∧
      Filled after left free ∧ after.step_num = heap.hDarray.step_num ∧ left.Perm elements ∧
      InOrder pfCmp left := by
  have inside := (List.getElem?_eq_some_iff.mp found).1
  have unchanged := set_found found
  obtain ⟨_, hole, left, run, placed, ordered⟩ := @downLoop_holds _ _ current other _ _ _ _
    total inside filled few (by rw [unchanged]; exact broken) (elements.length + 1) (by omega)
  obtain ⟨after, set, filledAfter, step⟩ :=
    @Filled.set _ _ _ _ _ current placed.filled placed.inside
  have perm := placed.perm
  rw [unchanged] at perm
  refine ⟨after, left.set hole current, ?_, filledAfter, step.trans placed.step, perm, ordered⟩
  simp [binaryheapDown, cmp, count, filled.get, found, run, set]

variable (ok : HeapOk pfCmp heap elements)

include ok in
theorem HeapOk.add (room : heap.count < HEAP_MAX) :
    ∃ after free, darrayAdd heap.hDarray x = some (after, elements.length) ∧
      Filled after (elements ++ [x]) free ∧ after.step_num = 128 ∧
      128 ∣ (elements ++ [x]).length + free ∧ (elements ++ [x]).length + free ≤ HEAP_MAX := by
  obtain ⟨free, filled, _, _⟩ := ok.filled
  have max := heapMax_eq
  have count := ok.count
  have step := ok.step
  have size : (elements ++ [x]).length = elements.length + 1 := length_append
  cases free with
  | zero =>
    obtain ⟨after, run, filledAfter, kept⟩ :=
      @Filled.expandAndAdd _ _ _ x filled (by omega) (by omega)
    exact ⟨after, _, run, filledAfter, kept.trans step, by omega, by omega⟩
  | succ =>
    obtain ⟨after, run, filledAfter, kept⟩ := @Filled.addToSpace _ _ _ _ x filled
    exact ⟨after, _, run, filledAfter, kept.trans step, by omega, by omega⟩

include total ok in
theorem HeapOk.insert (room : heap.count < HEAP_MAX) :
    ∃ after left, binaryHeapInsert heap x = some after ∧ HeapOk pfCmp after left ∧
      left.Perm (elements ++ [x]) := by
  obtain ⟨added, free, run, filled, step, whole, fits⟩ := @HeapOk.add _ _ x _ _ ok room
  have max := heapMax_eq
  have count : (heap.count + 1) % 2 ^ 32 = (elements ++ [x]).length := by
    rw [length_append, length_singleton, ← ok.count]
    exact mod_eq_of_lt (by omega)
  have brokenUp := ((ok.order x).congr fun i inside => @place_append _ x x elements i inside).append
  have size : (elements ++ [x]).length = elements.length + 1 := length_append
  rw [← size] at brokenUp
  obtain ⟨after, left, up, filledAfter, stepAfter, perm, _, order⟩ :=
    @up_holds _ pfCmp x x (elements ++ [x])
      { heap with hDarray := added, count := (heap.count + 1) % 2 ^ 32 } free elements.length total
      ok.cmp filled (by simp) brokenUp.toBroken
  refine ⟨⟨after, heap.pfCmp, (heap.count + 1) % 2 ^ 32⟩, left, ?_,
    ⟨ok.cmp, stepAfter.trans step, ?_, ⟨free, filledAfter, ?_, ?_⟩, order brokenUp⟩, perm⟩
  · simp only [binaryHeapInsert, run, bind_eq_bind, bind_some, up]
  · rw [perm.length_eq]
    exact count
  · rw [perm.length_eq]
    exact whole
  · rw [perm.length_eq]
    exact fits

include ok in
/-- A full heap of `HEAP_MAX` elements cannot grow. -/
theorem HeapOk.insert_fails (full : HEAP_MAX ≤ heap.count) : binaryHeapInsert heap x = none := by
  obtain ⟨free, filled, _, _⟩ := ok.filled
  have count := ok.count
  have top : free = 0 ∧ elements.length = HEAP_MAX := by omega
  obtain ⟨noFree, size⟩ := top
  subst noFree
  have stuck := @Filled.expand_fails _ _ _ x filled ok.step size
  simp [binaryHeapInsert, stuck]

include total ok in
theorem HeapOk.first
    (found : elements[0]? = some x) (inside : a ∈ elements) : Before pfCmp x a := by
  obtain ⟨_, bound, there⟩ := mem_iff_getElem.mp inside
  have root := ArrayHeap.Ordered.root total.before_trans total.refl (ok.order x) bound
  rw [place_get found, place_get (List.getElem?_eq_some_iff.mpr ⟨bound, there⟩)] at root
  exact root

theorem perm_replace {last : α} (found : elements[i]? = some deleted) :
    (deleted :: elements.set i last).Perm (elements ++ [last]) := by
  obtain ⟨inside, there⟩ := List.getElem?_eq_some_iff.mp found
  have swapped := @set_set_perm _ (last :: elements) 0 (i + 1) (by simp) (by simpa using inside)
  simp only [getElem_cons_succ, getElem_cons_zero, set_cons_zero, set_cons_succ, there] at swapped
  exact swapped.trans (perm_append_singleton last elements).symm

include total ok in
theorem HeapOk.removeIndex (found : elements[i]? = some deleted) :
    ∃ after left, binaryHeapRemoveIndex heap i = some (after, some deleted) ∧
      HeapOk pfCmp after left ∧ elements.Perm (deleted :: left) := by
  obtain ⟨inside, _⟩ := List.getElem?_eq_some_iff.mp found
  have count := ok.count
  obtain ⟨free, filled, _, _⟩ := ok.filled
  obtain ⟨before, last, rfl⟩ : ∃ before last, elements = before ++ [last] :=
    (eq_nil_or_concat' elements).resolve_left (by intro empty; simp [empty] at inside)
  have size : (before ++ [last]).length = before.length + 1 := length_append
  obtain ⟨cleared, clear, filledCleared, stepCleared⟩ := filled.clear
  have lastIndex : heap.count - 1 = before.length := by omega
  have lastFound : darrayGet heap.hDarray before.length = some last := by
    rw [filled.get]
    simp
  have shorter := (ok.order last).shorter (show before.length ≤ (before ++ [last]).length by omega)
  have ordered := inOrder_of (shorter.congr fun i inside => (place_append inside).symm)
  by_cases atLast : i = before.length
  · subst atLast
    have same : last = deleted := by simpa using found
    subst same
    refine ⟨⟨cleared, heap.pfCmp, heap.count - 1⟩, before, ?_,
      ⟨ok.cmp, stepCleared.trans ok.step, lastIndex, ⟨free + 1, filledCleared, by omega, by omega⟩,
        ordered⟩, perm_append_singleton last before⟩
    have present : ¬ before.length ≥ heap.count := by omega
    simp [binaryHeapRemoveIndex, if_neg present, lastIndex, lastFound, clear, bind_eq_bind,
      bind_some]
  have insideBefore : i < before.length := by omega
  have foundBefore : before[i]? = some deleted := by
    rw [getElem?_append_left insideBefore] at found
    exact found
  obtain ⟨replaced, set, filledReplaced, stepReplaced⟩ :=
    @Filled.set _ _ _ _ _ last filledCleared insideBefore
  have broken := ArrayHeap.Ordered.update (x := last) total.before_trans (ordered last)
    insideBefore
  rw [← place_set insideBefore] at broken
  obtain ⟨raised, between, up, filledRaised, stepRaised, permUp, down, _⟩ :=
    @up_holds _ pfCmp last last (before.set i last)
      { heap with hDarray := replaced, count := heap.count - 1 } (free + 1) i total ok.cmp
      filledReplaced (by simp [insideBefore]) (by simpa using broken)
  have sizeUp : between.length = before.length := by
    rw [permUp.length_eq, length_set]
  have foundUp := getElem?_eq_getElem (show i < between.length by omega)
  have max := heapMax_eq
  obtain ⟨after, left, downRun, filledAfter, stepAfter, permDown, order⟩ :=
    @down_holds _ pfCmp _ last between
      { heap with hDarray := raised, count := heap.count - 1 } (free + 1) i total ok.cmp
      (by simp only; omega) (by omega) filledRaised foundUp down
  have sizeDown : left.length = before.length := by
    rw [permDown.length_eq, sizeUp]
  refine ⟨⟨after, heap.pfCmp, heap.count - 1⟩, left, ?_,
    ⟨ok.cmp, ?_, by simp only; omega, ⟨free + 1, filledAfter, by omega, by omega⟩, order⟩, ?_⟩
  · have present : ¬ i ≥ heap.count := by omega
    simp only [binaryHeapRemoveIndex, if_neg present, lastIndex, lastFound, clear,
      bind_eq_bind, bind_some, if_neg atLast, filledCleared.get, foundBefore, set]
    rw [lastIndex] at up downRun
    rw [up, bind_some, downRun, bind_some]
  · exact stepAfter.trans (stepRaised.trans (stepReplaced.trans (stepCleared.trans ok.step)))
  · have kept := permDown.trans permUp
    exact (perm_replace foundBefore).symm.trans (Perm.cons deleted kept.symm)

theorem getIndexFrom_holds (cmp : heap.pfCmp = pfCmp) (filled : Filled heap.hDarray elements free)
    (left : Nat) (range : i + left = elements.length) :
    (∃ index element, binaryheapGetIndexFrom heap x left i = some index ∧
        elements[index]? = some element ∧ pfCmp x element = 0) ∨
      binaryheapGetIndexFrom heap x left i = some DARRAY_INVALID_INDEX ∧
        ∀ index element, i ≤ index → elements[index]? = some element → pfCmp x element ≠ 0 := by
  induction left generalizing i with
  | zero =>
    right
    refine ⟨rfl, ?_⟩
    intro index element from_ found
    have inside := (List.getElem?_eq_some_iff.mp found).1
    omega
  | succ _ ih =>
    have found := getElem?_eq_getElem (show i < elements.length by omega)
    simp only [binaryheapGetIndexFrom, filled.get, found, callCmp, bind_eq_bind, bind_some, cmp]
    split
    · next same => exact Or.inl ⟨i, _, rfl, found, same⟩
    next other =>
    rcases ih (i := i + 1) (by omega) with there | ⟨run, none⟩
    · exact Or.inl there
    refine Or.inr ⟨run, ?_⟩
    intro index element from_ foundIndex
    by_cases here : index = i
    · cases found.symm.trans (here ▸ foundIndex)
      exact other
    · exact none index element (by omega) foundIndex

include total ok in
theorem HeapOk.removeData :
    (∃ after left deleted, binaryHeapRemoveData heap x = some (after, .ok) ∧
        HeapOk pfCmp after left ∧ pfCmp x deleted = 0 ∧ elements.Perm (deleted :: left)) ∨
      binaryHeapRemoveData heap x = some (heap, .notFound) ∧
        ∀ element ∈ elements, pfCmp x element ≠ 0 := by
  obtain ⟨_, filled, _, _⟩ := ok.filled
  have max := heapMax_eq
  rcases getIndexFrom_holds (i := 0) (x := x) ok.cmp filled elements.length (Nat.zero_add _) with
    ⟨index, deleted, search, found, same⟩ | ⟨search, none⟩
  · obtain ⟨after, left, run, okAfter, perm⟩ := ok.removeIndex total found
    have inside := (List.getElem?_eq_some_iff.mp found).1
    have valid : index ≠ DARRAY_INVALID_INDEX := by
      rw [DARRAY_INVALID_INDEX]
      omega
    left
    refine ⟨after, left, deleted, ?_, okAfter, same, perm⟩
    simp [binaryHeapRemoveData, binaryheapGetIndex, ok.count, search, if_neg valid, run]
  right
  refine ⟨?_, ?_⟩
  · simp only [binaryHeapRemoveData, binaryheapGetIndex, ok.count, search, bind_eq_bind,
      bind_some, if_pos]
  intro element inside
  obtain ⟨index, bound, there⟩ := mem_iff_getElem.mp inside
  exact none index element (zero_le _) (List.getElem?_eq_some_iff.mpr ⟨bound, there⟩)

include total ok in
theorem HeapOk.stores : Stores heap elements := by
  obtain ⟨_, filled, _⟩ := ok.filled
  refine ⟨ok.count.symm, fun i _ => filled.get i, ?_⟩
  intro i child parent positive foundChild foundParent
  have inside := (List.getElem?_eq_some_iff.mp foundChild).1
  have ordered := ok.order child i positive inside
  rw [ArrayHeap.parent, place_get foundParent, place_get foundChild] at ordered
  rw [ok.cmp]
  exact total.before.mp ordered

include ok in
theorem HeapOk.unique {others : List α} (stores : Stores heap others) : others = elements := by
  obtain ⟨_, filled, _⟩ := ok.filled
  apply ext_getElem?
  intro i
  by_cases inside : i < heap.count
  · rw [← stores.slots i inside]
    exact filled.get i
  · rw [getElem?_eq_none (by rw [stores.count]; omega),
      getElem?_eq_none (by rw [← ok.count]; omega)]

include total ok in
theorem HeapOk.call (call : HeapCall α)
    (room : ∀ new_data, call = .insert new_data → heap.count < HEAP_MAX) :
    ∃ after answer left, call.run heap = some (after, answer) ∧ HeapOk pfCmp after left ∧
      call.Answers pfCmp elements answer left := by
  cases call with
  | insert new_data =>
    obtain ⟨after, left, run, okAfter, perm⟩ := ok.insert (x := new_data) total (room _ rfl)
    refine ⟨after, .status .ok, left, ?_, okAfter, rfl, ?_⟩
    · simp [HeapCall.run, run]
    · exact Multiset.coe_eq_coe.mpr (perm.trans (perm_append_singleton new_data elements))
  | removeIndex index =>
    by_cases inside : index < elements.length
    · have found := getElem?_eq_getElem inside
      obtain ⟨after, left, run, okAfter, perm⟩ := ok.removeIndex total found
      refine ⟨after, .data (some elements[index]), left, ?_, okAfter, ?_, ?_, ?_⟩
      · simp [HeapCall.run, run]
      · exact Multiset.coe_eq_coe.mpr perm
      · exact inside
      rintro rfl element stored
      exact ok.first total found (Multiset.mem_coe.mp stored)
    · refine ⟨heap, .data none, elements, ?_, ok, rfl, ?_⟩
      · have absent := ok.count ▸ not_lt.mp inside
        simp [HeapCall.run, binaryHeapRemoveIndex, if_pos absent]
      · rw [Multiset.coe_card]
        omega
  | removeData data =>
    rcases ok.removeData (x := data) total with
      ⟨after, left, deleted, run, okAfter, same, perm⟩ | ⟨run, none⟩
    · refine ⟨after, .status .ok, left, ?_, okAfter, Or.inl ⟨rfl, deleted, same, ?_⟩⟩
      · simp [HeapCall.run, run]
      · exact Multiset.coe_eq_coe.mpr perm
    refine ⟨heap, .status .notFound, elements, ?_, ok, Or.inr ⟨rfl, rfl, ?_⟩⟩
    · simp [HeapCall.run, run]
    · intro element stored
      exact none element (Multiset.mem_coe.mp stored)

include total ok in
theorem HeapOk.runs
    (calls : List (HeapCall α)) : HeapRuns heap elements calls ↔ Fits heap calls := by
  induction calls generalizing heap elements with
  | nil => exact ⟨fun _ => trivial, fun _ => ⟨elements, ok.stores total, rfl⟩⟩
  | cons call rest ih =>
    constructor
    · rintro ⟨_, _, _, left, run, _, runs⟩
      have room : ∀ new_data, call = .insert new_data → heap.count < HEAP_MAX := by
        intro new_data same
        by_contra full
        have stuck := ok.insert_fails (x := new_data) (not_lt.mp full)
        rw [same] at run
        simp [HeapCall.run, stuck] at run
      obtain ⟨_, _, stored, step, okState, _⟩ := ok.call total call room
      cases step.symm.trans run
      refine ⟨room, fun _ _ again => ?_⟩
      cases step.symm.trans again
      obtain ⟨_, stores, holds⟩ := runs.start
      rw [okState.unique stores] at holds
      rw [← holds] at runs
      exact (ih okState).mp runs
    · rintro ⟨room, fits⟩
      obtain ⟨after, answer, left, run, okAfter, answers⟩ := ok.call total call room
      refine ⟨⟨elements, ok.stores total, rfl⟩, after, answer, left, run, ?_, ?_⟩
      · rw [ok.cmp]
        exact answers
      · exact (ih okAfter).mpr (fits after answer run)

theorem heapOk_init (pfCmp : α → α → Int) : HeapOk pfCmp (binaryHeapInit pfCmp 0) [] := by
  refine ⟨rfl, rfl, rfl, ⟨1024, rfl, ⟨8, rfl⟩, ?_⟩, ?_⟩
  · simp [HEAP_MAX]
  · intro other i _ inside
    simp at inside

include total ok in
theorem HeapOk.fits_insert {rest : List (HeapCall α)} (room : heap.count < HEAP_MAX)
    (fits : ∀ after left, HeapOk pfCmp after left → left.length = (elements ++ [x]).length →
      Fits after rest) : Fits heap (.insert x :: rest) := by
  obtain ⟨after, left, run, okAfter, perm⟩ := ok.insert (x := x) total room
  have step : HeapCall.run heap (.insert x) = some (after, .status .ok) := by
    simp [HeapCall.run, run]
  refine ⟨fun _ _ => room, fun _ _ again => ?_⟩
  cases step.symm.trans again
  exact fits after left okAfter perm.length_eq

/-- The heap is right in every state, for every total preorder and every run, exactly when
its memory held the count 0 and no element is inserted into a heap of `HEAP_MAX`
elements. -/
theorem binaryHeap_runs (total : Compares pfCmp) (count : Nat) (calls : List (HeapCall α)) :
    HeapRuns (binaryHeapInit pfCmp count) 0 calls ↔
      count = 0 ∧ Fits (binaryHeapInit pfCmp count) calls := by
  have ok := heapOk_init pfCmp
  constructor
  · intro runs
    obtain ⟨elements, stores, empty⟩ := runs.start
    cases (Multiset.coe_eq_zero elements).mp empty
    obtain rfl : 0 = count := stores.count
    exact ⟨rfl, (ok.runs total calls).mp runs⟩
  · rintro ⟨rfl, fits⟩
    exact (ok.runs total calls).mpr fits

def natCmp (first second : Nat) : Int :=
  first - second

theorem natCmp_compares : Compares natCmp := by
  refine ⟨?_, ?_⟩
  · intro a b
    rw [natCmp, natCmp]
    omega
  · intro a b c first second
    rw [natCmp] at *
    omega

theorem binaryHeap_runs_three :
    HeapRuns (binaryHeapInit natCmp 0) 0 [.insert 5, .insert 3, .removeIndex 0] := by
  apply (binaryHeap_runs natCmp_compares 0 _).mpr
  refine ⟨rfl, (heapOk_init natCmp).fits_insert natCmp_compares (by decide) fun _ _ ok size => ?_⟩
  have room := ok.count.trans size
  exact ok.fits_insert natCmp_compares (by rw [room]; decide) fun _ _ _ _ =>
    ⟨nofun, fun _ _ _ => trivial⟩

/-- A count of 1 in the memory of the caller: after two insertions the removal hands NULL to
the compare function. -/
theorem binaryHeap_count_left : Compares natCmp ∧
    ¬ HeapRuns (binaryHeapInit natCmp 1) 0 [.insert 5, .insert 3, .removeIndex 0] ∧
    ((binaryHeapInsert (binaryHeapInit natCmp 1) 5).bind fun heap =>
      (binaryHeapInsert heap 3).bind fun heap => binaryHeapRemoveIndex heap 0).isNone = true := by
  refine ⟨natCmp_compares, ?_, by decide +kernel⟩
  rintro ⟨⟨elements, stores, empty⟩, _⟩
  cases (Multiset.coe_eq_zero elements).mp empty
  have count := stores.count
  exact absurd count (by decide)

/-- What the removals of the first element hand out. -/
def heapDrain (heap : BinaryHeapS α) : Nat → Option (List α)
  | 0 => some []
  | more + 1 => do
    let (heap, data) ← binaryHeapRemoveIndex heap 0
    let first ← data
    (heapDrain heap more).map (first :: ·)

section

include total

theorem HeapOk.fill (ok : HeapOk pfCmp heap elements) (data : List α)
    (room : elements.length + data.length ≤ HEAP_MAX) :
    ∃ after left, data.foldlM binaryHeapInsert heap = some after ∧ HeapOk pfCmp after left ∧
      left.Perm (elements ++ data) := by
  induction data generalizing heap elements with
  | nil => exact ⟨heap, elements, rfl, ok, by simp⟩
  | cons x data ih =>
    rw [length_cons] at room
    obtain ⟨between, stored, run, okBetween, perm⟩ :=
      ok.insert (x := x) total (by rw [ok.count]; omega)
    have size : stored.length = elements.length + 1 := perm.length_eq.trans length_append
    obtain ⟨after, left, runs, okAfter, perms⟩ := ih okBetween (by omega)
    refine ⟨after, left, ?_, okAfter, perms.trans ?_⟩
    · rw [foldlM_cons, run]
      exact runs
    · simpa using perm.append_right data

theorem HeapOk.drain (ok : HeapOk pfCmp heap elements) :
    ∃ sorted, heapDrain heap elements.length = some sorted ∧ sorted.Perm elements ∧
      sorted.Pairwise (Before pfCmp) := by
  induction size : elements.length generalizing heap elements with
  | zero =>
    obtain rfl := eq_nil_of_length_eq_zero size
    exact ⟨[], rfl, .refl _, .nil⟩
  | succ count ih =>
    obtain ⟨first, found⟩ : ∃ first, elements[0]? = some first :=
      ⟨_, getElem?_eq_getElem (by omega)⟩
    obtain ⟨after, left, run, okAfter, perm⟩ := ok.removeIndex total found
    have fewer : left.length = count := by
      have length := perm.length_eq
      rw [length_cons] at length
      omega
    obtain ⟨sorted, runs, same, ordered⟩ := ih okAfter fewer
    refine ⟨first :: sorted, ?_, (same.cons first).trans perm.symm, ?_⟩
    · simp [heapDrain, run, runs]
    · refine pairwise_cons.mpr ⟨fun element inside => ?_, ordered⟩
      exact ok.first total found (perm.symm.subset (mem_cons_of_mem _ (same.subset inside)))

end

end MyCode.BinaryHeap
