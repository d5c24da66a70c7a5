import Mathlib.Data.Finset.Card

/-!
# Enumeration by the next element below

A next function that picks an element of greatest rank below the current one
enumerates a list in descending order.  Elements of rank zero are not picked,
and of the elements of one rank only one is.  A next function that picks a least element above the current
one enumerates in ascending order.
-/

namespace MyCode.Lib

open List Nat Option

universe u

variable {α : Type u} {rank : α → Nat} {elements : List α} {next : Option α → Option α}
  {current : Option α} {element : α} {found : List α}

/-- Where there is a current element, another one has less rank. -/
def Below (rank : α → Nat) (current : Option α) (element : α) : Prop :=
  ∀ upper, current = some upper → rank element < rank upper

/-- `next` picks an element of greatest positive rank below the current one. -/
structure PicksBelow (rank : α → Nat) (elements : List α) (next : Option α → Option α) : Prop where
  picked : ∀ current element, next current = some element →
    (element ∈ elements ∧ Below rank current element ∧ 0 < rank element) ∧
      ∀ other ∈ elements, Below rank current other → rank other ≤ rank element
  exhausted : ∀ current, next current = none →
    ∀ other ∈ elements, Below rank current other → rank other = 0

/-- The elements that `next` yields after the current one until it fails. -/
inductive Enumerates (next : Option α → Option α) : Option α → List α → Prop where
  | done {current : Option α} : next current = none → Enumerates next current []
  | more {current : Option α} {element : α} {rest : List α} :
      next current = some element →
      Enumerates next (some element) rest →
      Enumerates next current (element :: rest)

theorem below_none (rank : α → Nat) (element : α) : Below rank none element :=
  nofun

theorem Below.trans {upper : α} (below : Below rank current upper)
    (less : rank element < rank upper) : Below rank current element :=
  fun top same => lt_trans less (below top same)

section

variable (picks : PicksBelow rank elements next)

include picks

theorem PicksBelow.terminates (current : Option α) : ∃ found, Enumerates next current found := by
  have descend : ∀ bound element, rank element < bound →
      ∃ found, Enumerates next (some element) found := by
    intro bound
    induction bound with
    | zero => exact fun _ impossible => (not_lt_zero _ impossible).elim
    | succ _ ih =>
      intro element less
      cases step : next (some element) with
      | none => exact ⟨[], .done step⟩
      | some lower =>
        have below := (picks.picked _ _ step).1.2.1 element rfl
        obtain ⟨rest, enumerated⟩ := ih lower (lt_of_lt_of_le below (Nat.lt_succ_iff.mp less))
        exact ⟨lower :: rest, .more step enumerated⟩
  cases step : next current with
  | none => exact ⟨[], .done step⟩
  | some element =>
    obtain ⟨rest, enumerated⟩ := descend (rank element + 1) element (lt_succ_self _)
    exact ⟨element :: rest, .more step enumerated⟩

theorem Enumerates.mem (enumerated : Enumerates next current found) :
    ∀ element ∈ found, element ∈ elements ∧ Below rank current element ∧ 0 < rank element := by
  induction enumerated with
  | done => exact nofun
  | more step _ ih =>
    obtain ⟨picked, -⟩ := picks.picked _ _ step
    intro element inside
    rcases mem_cons.mp inside with rfl | inRest
    · exact picked
    · obtain ⟨stored, below, positive⟩ := ih element inRest
      exact ⟨stored, picked.2.1.trans (below _ rfl), positive⟩

theorem Enumerates.descending (enumerated : Enumerates next current found) :
    found.Pairwise fun upper lower => rank lower < rank upper := by
  induction enumerated with
  | done => exact Pairwise.nil
  | more _ rest ih =>
    refine pairwise_cons.mpr ⟨fun lower inside => ?_, ih⟩
    exact (rest.mem picks lower inside).2.1 _ rfl

theorem Enumerates.complete (enumerated : Enumerates next current found) :
    ∀ element ∈ elements, Below rank current element → 0 < rank element →
      ∃ other ∈ found, rank other = rank element := by
  induction enumerated with
  | done step =>
    intro element stored below positive
    exact absurd (picks.exhausted _ step element stored below) (ne_of_gt positive)
  | more step _ ih =>
    intro element stored below positive
    have most := (picks.picked _ _ step).2 element stored below
    rcases lt_or_eq_of_le most with less | same
    · obtain ⟨other, inRest, equal⟩ := ih element stored
        (fun upper top => by rw [← some.inj top]; exact less) positive
      exact ⟨other, mem_cons_of_mem _ inRest, equal⟩
    · exact ⟨_, mem_cons_self, same.symm⟩

end

theorem Enumerates.after (enumerated : Enumerates next current found) (inside : element ∈ found) :
    (∃ before, next before = some element) ∧
      ∃ passed rest, found = passed ++ element :: rest ∧ Enumerates next (some element) rest := by
  induction enumerated with
  | done => nomatch inside
  | @more current first rest step enumerated ih =>
    rcases mem_cons.mp inside with rfl | inRest
    · exact ⟨⟨current, step⟩, [], rest, rfl, enumerated⟩
    · obtain ⟨before, passed, later, same, enumeratedLater⟩ := ih inRest
      exact ⟨before, first :: passed, later, by rw [same]; rfl, enumeratedLater⟩

theorem Enumerates.congr {other : Option α → Option α} (enumerated : Enumerates next current found)
    (agree : ∀ reached, reached = current ∨ reached ∈ found.map some →
      other reached = next reached) : Enumerates other current found := by
  induction enumerated with
  | done step => exact .done ((agree _ (.inl rfl)).trans step)
  | more step _ ih =>
    refine .more ((agree _ (.inl rfl)).trans step) (ih fun reached either => ?_)
    apply agree
    rcases either with rfl | inRest
    · exact .inr mem_cons_self
    · exact .inr (mem_cons_of_mem _ inRest)

theorem Enumerates.perm_iff (picks : PicksBelow rank elements next)
    (enumerated : Enumerates next none found) :
    found.Perm elements ↔ (∀ element ∈ elements, 0 < rank element) ∧
      elements.Pairwise fun first second => rank first ≠ rank second := by
  have distinct : (found.map rank).Nodup :=
    pairwise_map.mpr ((enumerated.descending picks).imp fun less => ne_of_gt less)
  constructor
  · intro same
    refine ⟨fun element stored => ?_, ?_⟩
    · exact (enumerated.mem picks element (same.mem_iff.mpr stored)).2.2
    · exact pairwise_map.mp ((same.map rank).nodup_iff.mp distinct)
  rintro ⟨positive, ranks⟩
  have nodup : (elements.map rank).Nodup := pairwise_map.mpr ranks
  refine (perm_ext_iff_of_nodup distinct.of_map nodup.of_map).mpr fun element => ?_
  constructor
  · exact fun inside => (enumerated.mem picks element inside).1
  intro stored
  obtain ⟨other, inside, same⟩ := enumerated.complete picks element stored
    (below_none rank element) (positive element stored)
  have equal := inj_on_of_nodup_map nodup (enumerated.mem picks other inside).1 stored same
  exact equal ▸ inside

theorem Enumerates.unique {others : List α} (enumerated : Enumerates next current found)
    (again : Enumerates next current others) : found = others := by
  induction enumerated generalizing others with
  | done step =>
    cases again with
    | done => rfl
    | more other => exact absurd (step.symm.trans other) (by simp)
  | more step _ ih =>
    cases again with
    | done other => exact absurd (step.symm.trans other) (by simp)
    | more other rest =>
      cases step.symm.trans other
      rw [ih rest]

theorem Enumerates.not_of_cycle {cycle : α → Prop}
    (turns : ∀ element, cycle element → ∃ later, cycle later ∧ next (some element) = some later)
    (inside : cycle element) : ¬ Enumerates next (some element) found := by
  induction found generalizing element with
  | nil =>
    rintro ⟨stops⟩
    obtain ⟨_, -, step⟩ := turns element inside
    exact absurd (step.symm.trans stops) (by simp)
  | cons _ _ ih =>
    intro enumerated
    cases enumerated with
    | more step enumerated =>
      obtain ⟨_, inCycle, other⟩ := turns element inside
      cases step.symm.trans other
      exact ih inCycle enumerated

theorem Enumerates.of_successor {element : Option α} :
    (∀ passed current rest, found = passed ++ current :: rest → next (some current) = rest.head?) →
    next element = found.head? →
    Enumerates next element found := by
  induction found generalizing element with
  | nil => exact fun _ first => .done first
  | cons head rest ih =>
    intro successor first
    refine .more first (ih (fun passed current later same => ?_) ?_)
    · apply successor (head :: passed)
      rw [same]
      rfl
    · exact successor [] head rest rfl

section Above

variable {before : α → α → Prop} [IsStrictOrder α before] {stored : Finset α}

/-- Where there is a current element, it comes before another one. -/
def Above (before : α → α → Prop) (current : Option α) (element : α) : Prop :=
  ∀ lower, current = some lower → before lower element

/-- `next` picks a least stored element above the current one. -/
structure PicksAbove (before : α → α → Prop) (stored : Finset α) (next : Option α → Option α) :
    Prop where
  picked : ∀ current element, next current = some element →
    element ∈ stored ∧ Above before current element ∧
      ∀ other ∈ stored, Above before current other → ¬ before other element
  exhausted : ∀ current, next current = none → ∀ other ∈ stored, ¬ Above before current other

theorem Above.trans (above : Above before current element) {other : α}
    (later : before element other) : Above before current other :=
  fun lower same => trans_of before (above lower same) later

section

variable (picks : PicksAbove before stored next)

include picks

theorem PicksAbove.ends (current : Option α) : ∃ found, Enumerates next current found := by
  classical
  have descend : ∀ bound current, (stored.filter (Above before current)).card < bound →
      ∃ found, Enumerates next current found := by
    intro bound
    induction bound with
    | zero => exact fun _ impossible => (not_lt_zero _ impossible).elim
    | succ _ ih =>
      intro current less
      cases step : next current with
      | none => exact ⟨[], .done step⟩
      | some element =>
        obtain ⟨inside, above, -⟩ := picks.picked current element step
        have fewer : (stored.filter (Above before (some element))).card <
            (stored.filter (Above before current)).card := by
          apply Finset.card_lt_card
          refine Finset.ssubset_iff_of_subset ?_ |>.mpr ⟨element, ?_, ?_⟩
          · intro other inFilter
            obtain ⟨isStored, later⟩ := Finset.mem_filter.mp inFilter
            exact Finset.mem_filter.mpr ⟨isStored, above.trans (later element rfl)⟩
          · exact Finset.mem_filter.mpr ⟨inside, above⟩
          · intro inFilter
            exact irrefl_of before element ((Finset.mem_filter.mp inFilter).2 element rfl)
        obtain ⟨rest, enumerated⟩ := ih (some element)
          (lt_of_lt_of_le fewer (Nat.lt_succ_iff.mp less))
        exact ⟨element :: rest, .more step enumerated⟩
  exact descend _ current (lt_succ_self _)

theorem Enumerates.mem_above (enumerated : Enumerates next current found) :
    ∀ element ∈ found, element ∈ stored ∧ Above before current element := by
  induction enumerated with
  | done => exact nofun
  | more step _ ih =>
    obtain ⟨isStored, above, -⟩ := picks.picked _ _ step
    intro element inside
    rcases mem_cons.mp inside with rfl | inRest
    · exact ⟨isStored, above⟩
    · obtain ⟨alsoStored, later⟩ := ih element inRest
      exact ⟨alsoStored, above.trans (later _ rfl)⟩

theorem Enumerates.ascending
    (enumerated : Enumerates next current found) : found.Pairwise before := by
  induction enumerated with
  | done => exact Pairwise.nil
  | more _ rest ih =>
    refine pairwise_cons.mpr ⟨fun later inside => ?_, ih⟩
    exact (rest.mem_above picks later inside).2 _ rfl

omit [IsStrictOrder α before] in
theorem Enumerates.covers (enumerated : Enumerates next current found) :
    ∀ element ∈ stored, Above before current element →
      ∃ other ∈ found, ¬ before other element ∧ ¬ before element other := by
  induction enumerated with
  | done step =>
    exact fun element isStored above => absurd above (picks.exhausted _ step element isStored)
  | @more _ first _ step _ ih =>
    intro element isStored above
    have least := (picks.picked _ _ step).2.2 element isStored above
    by_cases later : before first element
    · obtain ⟨other, inRest, same⟩ := ih element isStored
        fun lower isLower => by rw [← some.inj isLower]; exact later
      exact ⟨other, mem_cons_of_mem _ inRest, same⟩
    · exact ⟨first, mem_cons_self, later, least⟩

end

end Above

theorem enumerates_of_next (first : next none = elements.head?)
    (after : ∀ passed element rest, elements = passed ++ element :: rest →
      next (some element) = rest.head?) : Enumerates next none elements := by
  have suffix (rest passed : List α) (element : α) (split : elements = passed ++ element :: rest) :
      Enumerates next (some element) rest := by
    induction rest generalizing passed element with
    | nil => exact .done (after passed element [] split)
    | cons _ _ ih =>
      apply Enumerates.more (after passed element _ split)
      apply ih (passed ++ [element])
      rw [split, append_assoc]
      rfl
  cases same : elements with
  | nil =>
    rw [same] at first
    exact .done first
  | cons element rest =>
    rw [same] at first
    exact .more first (suffix rest [] element same)

theorem Enumerates.picked (enumerated : Enumerates next current found) (inside : element ∈ found) :
    next current = some element ∨ ∃ other ∈ found, next (some other) = some element := by
  induction enumerated with
  | done => nomatch inside
  | @more _ first _ step _ ih =>
    rcases mem_cons.mp inside with rfl | inRest
    · exact .inl step
    rcases ih inRest with isNext | ⟨other, isOther, isNext⟩
    · exact .inr ⟨first, mem_cons_self, isNext⟩
    · exact .inr ⟨other, mem_cons_of_mem _ isOther, isNext⟩

theorem findSome?_range'_eq_some {α : Type} {f : Nat → Option α} {found : α} :
    ∀ {num start : Nat}, (range' start num).findSome? f = some found →
      ∃ p, start ≤ p ∧ p < start + num ∧ f p = some found ∧
        ∀ q, start ≤ q → q < p → f q = none := by
  intro num
  induction num with
  | zero => exact nofun
  | succ _ ih =>
    intro start isFound
    rw [range'_succ, findSome?_cons] at isFound
    split at isFound
    · next first =>
      cases isFound
      exact ⟨start, le_refl _, by omega, first, fun q lower upper => by omega⟩
    next absent =>
    obtain ⟨p, _, _, atP, before⟩ := ih isFound
    refine ⟨p, by omega, by omega, atP, fun q fromStart toP => ?_⟩
    rcases eq_or_lt_of_le fromStart with rfl | later
    · exact absent
    · exact before q later toP

theorem findSome?_range'_eq_none {α : Type} {f : Nat → Option α} {start num : Nat}
    (absent : (range' start num).findSome? f = none) :
    ∀ q, start ≤ q → q < start + num → f q = none := by
  intro q lower upper
  exact findSome?_eq_none_iff.mp absent q (mem_range'_1.mpr ⟨lower, upper⟩)

theorem findSome?_range_eq_some_iff {α : Type} {probe : Nat → Option α} {n : Nat} {result : α} :
    (range n).findSome? probe = some result ↔
      ∃ i, i < n ∧ probe i = some result ∧ ∀ j, j < i → probe j = none := by
  induction n with
  | zero => simp
  | succ n ih =>
    rw [range_succ, findSome?_append, or_eq_some_iff, ih, findSome?_eq_none_iff]
    constructor
    · rintro (⟨i, inside, found, first⟩ | ⟨missed, found⟩)
      · exact ⟨i, lt_succ_of_lt inside, found, first⟩
      · refine ⟨n, lt_succ_self n, ?_, fun j inside => missed j (mem_range.mpr inside)⟩
        simpa using found
    rintro ⟨i, inside, found, first⟩
    rcases Nat.lt_succ_iff_lt_or_eq.mp inside with earlier | rfl
    · exact .inl ⟨i, earlier, found, first⟩
    · exact .inr ⟨fun j before => first j (mem_range.mp before), by simpa using found⟩

theorem findSome?_range_eq_none_iff {α : Type} {probe : Nat → Option α} {n : Nat} :
    (range n).findSome? probe = none ↔ ∀ i, i < n → probe i = none := by
  simp

end MyCode.Lib
