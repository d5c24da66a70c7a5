import MyCode.Lib.SortedList
import Mathlib.Data.Int.Order.Basic
import Mathlib.Data.List.Pairwise

/-!
# Ranges of integers

A sweep over the neighbours of a list of ranges: it drops ranges that end in an
earlier one, cuts the begin of those that overlap, or joins those that touch.
-/

namespace MyCode.Lib.Ranges

open List

universe u

/-- Something that stands for the integers from `first` to `last`, none where they are the other
way round. -/
class Ranged (ρ : Type u) where
  first : ρ → Int
  last : ρ → Int

open Ranged

section

variable {ρ : Type u}

/-- Each range against the next one: `absorb` takes the next one into it, else `trim` cuts the next
one. -/
def sweepFrom (absorb : ρ → ρ → Option ρ) (trim : ρ → ρ → ρ) : ρ → List ρ → List ρ
  | node, [] => [node]
  | node, next :: rest =>
    match absorb node next with
    | some joined => sweepFrom absorb trim joined rest
    | none => node :: sweepFrom absorb trim (trim node next) rest

def sweep (absorb : ρ → ρ → Option ρ) (trim : ρ → ρ → ρ) : List ρ → List ρ
  | [] => []
  | node :: rest => sweepFrom absorb trim node rest

variable {absorb : ρ → ρ → Option ρ} {trim : ρ → ρ → ρ} {node next joined : ρ}
  {rest : List ρ}

theorem sweepFrom_some (absorbed : absorb node next = some joined) :
    sweepFrom absorb trim node (next :: rest) = sweepFrom absorb trim joined rest := by
  rw [sweepFrom, absorbed]

theorem sweepFrom_none (apart : absorb node next = none) :
    sweepFrom absorb trim node (next :: rest) =
      node :: sweepFrom absorb trim (trim node next) rest := by
  rw [sweepFrom, apart]

end

variable {ρ : Type u} [Ranged ρ] {absorb : ρ → ρ → Option ρ} {trim : ρ → ρ → ρ}
  {node next : ρ} {rest ranges : List ρ} {number : Int}

def Covers (range : ρ) (number : Int) : Prop :=
  first range ≤ number ∧ number ≤ last range

instance (range : ρ) (number : Int) : Decidable (Covers range number) :=
  inferInstanceAs (Decidable (_ ∧ _))

def Covered (ranges : List ρ) (number : Int) : Prop :=
  ∃ range ∈ ranges, Covers range number

@[simp]
theorem covered_cons :
    Covered (node :: rest) number ↔ Covers node number ∨ Covered rest number := by
  simp [Covered]

/-- All of the first range lies in the second one. -/
def Within (inner outer : ρ) : Prop :=
  first outer ≤ first inner ∧ last inner ≤ last outer

theorem Within.covers {inner outer : ρ} (within : Within inner outer)
    (covers : Covers inner number) : Covers outer number :=
  ⟨le_trans within.1 covers.1, le_trans covers.2 within.2⟩

/-- The begins ascend, and of two with the same begin the longer one comes first. -/
def LongestFirst (before after : ρ) : Prop :=
  first before < first after ∨ first before = first after ∧ last after ≤ last before

def Climbs (before after : ρ) : Prop :=
  first before < first after ∧ last before < last after

/-- In ascending order without a common number. -/
def Apart (before after : ρ) : Prop :=
  Climbs before after ∧ last before < first after

/-- In ascending order with a number between them. -/
def Gapped (before after : ρ) : Prop :=
  Climbs before after ∧ last before + 1 < first after

/-- A range takes in those that do not end behind it. -/
def DropsNested (absorb : ρ → ρ → Option ρ) : Prop :=
  ∀ node next, absorb node next = if last next ≤ last node then some node else none

/-- The part of a range that the one before it has is cut off. -/
def CutsOverlap (trim : ρ → ρ → ρ) : Prop :=
  ∀ node next, last node < last next →
    first (trim node next) = max (first next) (last node + 1) ∧
      last (trim node next) = last next

/-- A range is joined with the one that begins behind its end. -/
def JoinsAdjacent (absorb : ρ → ρ → Option ρ) : Prop :=
  ∀ node next, last node < last next →
    if first next = last node + 1 then
      ∃ joined, absorb node next = some joined ∧ first joined = first node ∧
        last joined = last next
    else absorb node next = none

/-- What the ranges still to come have of `node`, whose begin may have been cut already. -/
def Follows (node : ρ) (rest : List ρ) : Prop :=
  ∀ range ∈ rest, last node < last range →
    first node < first range ∨ first node ≤ last node

theorem Follows.of_sorted (sorted : (node :: rest).Pairwise LongestFirst) : Follows node rest := by
  intro range inside behind
  rcases (pairwise_cons.mp sorted).1 range inside with before | ⟨_, shorter⟩
  · exact .inl before
  · exact absurd behind (not_lt.mpr shorter)

theorem Follows.tail (follows : Follows node (next :: rest)) : Follows node rest :=
  fun range inside => follows range (mem_cons_of_mem _ inside)

theorem CutsOverlap.apart (cuts : CutsOverlap trim) (follows : Follows node (next :: rest))
    (behind : last node < last next) : Apart node (trim node next) := by
  obtain ⟨begins, ends⟩ := cuts node next behind
  have lower := follows next mem_cons_self behind
  simp only [Apart, Climbs, begins, ends]
  omega

theorem CutsOverlap.follows (cuts : CutsOverlap trim)
    (sorted : (next :: rest).Pairwise LongestFirst)
    (behind : last node < last next) : Follows (trim node next) rest := by
  intro range inside longer
  obtain ⟨_, ends⟩ := cuts node next behind
  rw [ends] at longer
  rcases (pairwise_cons.mp sorted).1 range inside with _ | ⟨_, shorter⟩
  · omega
  · exact absurd longer (not_lt.mpr shorter)

section

variable (drops : DropsNested absorb) (cuts : CutsOverlap trim)

include drops cuts

section

variable (sorted : rest.Pairwise LongestFirst) (follows : Follows node rest)

include sorted follows

theorem sweepFrom_behind :
    ∀ range ∈ sweepFrom absorb trim node rest,
      first node ≤ first range ∧ last node ≤ last range := by
  induction rest generalizing node with
  | nil =>
    intro range inside
    rw [mem_singleton.mp inside]
    exact ⟨le_refl _, le_refl _⟩
  | cons next _ ih =>
    have sortedRest := (pairwise_cons.mp sorted).2
    have dropped := drops node next
    by_cases nested : last next ≤ last node
    · rw [if_pos nested] at dropped
      rw [sweepFrom_some dropped]
      exact ih sortedRest follows.tail
    rw [if_neg nested] at dropped
    have behind := not_le.mp nested
    rw [sweepFrom_none dropped]
    intro range inside
    rcases mem_cons.mp inside with rfl | later
    · exact ⟨le_refl _, le_refl _⟩
    obtain ⟨⟨begins, ends⟩, _⟩ := cuts.apart follows behind
    obtain ⟨lower, upper⟩ := ih sortedRest (cuts.follows sorted behind) range later
    exact ⟨le_trans begins.le lower, le_trans ends.le upper⟩

theorem sweepFrom_apart : (sweepFrom absorb trim node rest).Pairwise Apart := by
  induction rest generalizing node with
  | nil => exact pairwise_singleton _ _
  | cons next _ ih =>
    have sortedRest := (pairwise_cons.mp sorted).2
    have dropped := drops node next
    by_cases nested : last next ≤ last node
    · rw [if_pos nested] at dropped
      rw [sweepFrom_some dropped]
      exact ih sortedRest follows.tail
    rw [if_neg nested] at dropped
    have behind := not_le.mp nested
    have followsNext := cuts.follows sorted behind
    rw [sweepFrom_none dropped]
    apply pairwise_cons.mpr
    constructor
    · intro range later
      obtain ⟨⟨begins, ends⟩, disjoint⟩ := cuts.apart follows behind
      obtain ⟨lower, upper⟩ := sweepFrom_behind drops cuts sortedRest followsNext range later
      exact ⟨⟨lt_of_lt_of_le begins lower, lt_of_lt_of_le ends upper⟩,
        lt_of_lt_of_le disjoint lower⟩
    · exact ih sortedRest followsNext

/-- From the begin of the current range on nothing is lost.  What a cut takes off lies in the range
before. -/
theorem sweepFrom_covered (reached : first node ≤ number) :
    Covered (sweepFrom absorb trim node rest) number ↔ Covered (node :: rest) number := by
  induction rest generalizing node with
  | nil => exact Iff.rfl
  | cons next _ ih =>
    obtain ⟨isFirst, sortedRest⟩ := pairwise_cons.mp sorted
    have dropped := drops node next
    by_cases nested : last next ≤ last node
    · rw [if_pos nested] at dropped
      rw [sweepFrom_some dropped, ih sortedRest follows.tail reached]
      have inNode : Covers next number → Covers node number :=
        fun covers => ⟨reached, le_trans covers.2 nested⟩
      rw [covered_cons, covered_cons, covered_cons, ← or_assoc, or_iff_left_of_imp inNode]
    rw [if_neg nested] at dropped
    have behind := not_le.mp nested
    have followsNext := cuts.follows sorted behind
    obtain ⟨_, ends⟩ := cuts node next behind
    rw [sweepFrom_none dropped, covered_cons, covered_cons]
    by_cases inNode : number ≤ last node
    · simp [Covers, reached, inNode]
    simp only [Covers, inNode, and_false, false_or]
    by_cases begun : first (trim node next) ≤ number
    · have same : Covers (trim node next) number ↔ Covers next number := by
        rw [Covers, Covers, ends]
        omega
      rw [ih sortedRest followsNext begun, covered_cons, covered_cons, same]
    -- Between the two ranges there is nothing.
    apply iff_of_false
    · rintro ⟨range, later, _, _⟩
      have := (sweepFrom_behind drops cuts sortedRest followsNext range later).1
      omega
    rintro ⟨range, inside, _, _⟩
    rcases mem_cons.mp inside with rfl | inRest
    · omega
    · rcases isFirst range inRest with _ | ⟨_, _⟩ <;> omega

end

theorem sweep_apart
    (sorted : ranges.Pairwise LongestFirst) : (sweep absorb trim ranges).Pairwise Apart := by
  cases ranges with
  | nil => exact .nil
  | cons => exact sweepFrom_apart drops cuts (pairwise_cons.mp sorted).2 (.of_sorted sorted)

theorem sweep_covered (sorted : ranges.Pairwise LongestFirst) :
    Covered (sweep absorb trim ranges) number ↔ Covered ranges number := by
  cases ranges with
  | nil => exact Iff.rfl
  | cons node =>
    obtain ⟨isFirst, sortedRest⟩ := pairwise_cons.mp sorted
    by_cases reached : first node ≤ number
    · exact sweepFrom_covered drops cuts sortedRest (.of_sorted sorted) reached
    apply iff_of_false
    · rintro ⟨range, inside, _, _⟩
      have := (sweepFrom_behind drops cuts sortedRest (.of_sorted sorted) range inside).1
      omega
    rintro ⟨range, inside, _, _⟩
    rcases mem_cons.mp inside with rfl | inRest
    · omega
    · rcases isFirst range inRest with _ | ⟨_, _⟩ <;> omega

end

def Separate (before after : ρ) : Prop :=
  ∀ number, ¬ (Covers before number ∧ Covers after number)

instance : Std.Symm (@Separate ρ _) where
  symm _ _ separate number both := separate number both.symm

theorem Climbs.apart_iff {before after : ρ} (climbs : Climbs before after) :
    Apart before after ↔ Separate before after := by
  constructor
  · rintro ⟨_, _⟩ _ ⟨⟨_, _⟩, _, _⟩
    omega
  intro separate
  refine ⟨climbs, ?_⟩
  by_contra overlap
  have begins : first after ≤ last before := by omega
  exact separate (first after) ⟨⟨climbs.1.le, begins⟩, le_refl _, le_trans begins climbs.2.le⟩

/-- Two ranges that share a number lie in one range of the list. -/
def OverlapsNest (ranges : List ρ) : Prop :=
  ∀ before ∈ ranges, ∀ after ∈ ranges, ∀ number, Covers before number → Covers after number →
    ∃ outer ∈ ranges, Within before outer ∧ Within after outer

/-- What is left of sorted ranges when those that end in an earlier one are dropped. -/
structure Outermost (ranges outermost : List ρ) : Prop where
  sublist : outermost.Sublist ranges
  climbs : outermost.Pairwise Climbs
  within : ∀ inner ∈ ranges, ∃ outer ∈ outermost, Within inner outer

theorem Outermost.covered {outermost : List ρ} (reduced : Outermost ranges outermost) :
    Covered outermost number ↔ Covered ranges number := by
  constructor
  · rintro ⟨range, inside, covers⟩
    exact ⟨range, reduced.sublist.subset inside, covers⟩
  rintro ⟨range, inside, covers⟩
  obtain ⟨outer, kept, within⟩ := reduced.within range inside
  exact ⟨outer, kept, within.covers covers⟩

theorem pairwise_climbs_within {outermost : List ρ} (climbs : outermost.Pairwise Climbs)
    {inner outer : ρ} (innerKept : inner ∈ outermost) (outerKept : outer ∈ outermost)
    (within : Within inner outer) : inner = outer := by
  induction climbs with
  | nil => cases innerKept
  | cons isFirst _ ih =>
    obtain ⟨begins, ends⟩ := within
    rcases mem_cons.mp innerKept with rfl | innerLater
    · rcases mem_cons.mp outerKept with rfl | outerLater
      · rfl
      · exact absurd (isFirst outer outerLater).1 (not_lt.mpr begins)
    · rcases mem_cons.mp outerKept with rfl | outerLater
      · exact absurd (isFirst inner innerLater).2 (not_lt.mpr ends)
      · exact ih innerLater outerLater

/-- The outermost ranges have no number in common exactly where overlapping ranges lie in a third
one. -/
theorem Outermost.apart_iff {outermost : List ρ} (reduced : Outermost ranges outermost) :
    outermost.Pairwise Apart ↔ OverlapsNest ranges := by
  have separate : outermost.Pairwise Apart ↔ outermost.Pairwise Separate := by
    constructor
    · exact fun apart => apart.imp fun disjoint => (Climbs.apart_iff disjoint.1).mp disjoint
    · exact fun disjoint => (reduced.climbs.and disjoint).imp fun both =>
        (Climbs.apart_iff both.1).mpr both.2
  rw [separate]
  constructor
  · intro disjoint before beforeIn after afterIn number inBefore inAfter
    obtain ⟨outer, outerKept, beforeWithin⟩ := reduced.within before beforeIn
    obtain ⟨other, otherKept, afterWithin⟩ := reduced.within after afterIn
    have same : outer = other := by
      by_contra different
      have apart := disjoint.forall outerKept otherKept different
      exact apart number ⟨beforeWithin.covers inBefore, afterWithin.covers inAfter⟩
    exact ⟨outer, reduced.sublist.subset outerKept, beforeWithin, same ▸ afterWithin⟩
  intro nest
  have climbs := reduced.climbs
  apply climbs.imp_of_mem
  intro before after beforeKept afterKept climbing number both
  obtain ⟨range, inside, beforeWithin, afterWithin⟩ := nest before
    (reduced.sublist.subset beforeKept) after (reduced.sublist.subset afterKept) number both.1
    both.2
  obtain ⟨outer, outerKept, within⟩ := reduced.within range inside
  have isOuter : ∀ inner ∈ outermost, Within inner range → inner = outer :=
    fun inner innerKept inRange => pairwise_climbs_within climbs innerKept outerKept
      ⟨le_trans within.1 inRange.1, le_trans inRange.2 within.2⟩
  rw [isOuter before beforeKept beforeWithin, isOuter after afterKept afterWithin] at climbing
  exact lt_irrefl _ climbing.1

theorem sweepFrom_outermost (drops : DropsNested absorb)
    (keeps : ∀ node next, first node < first next → trim node next = next)
    (sorted : (node :: rest).Pairwise LongestFirst) :
    Outermost (node :: rest) (sweepFrom absorb trim node rest) ∧
      ∀ range ∈ sweepFrom absorb trim node rest,
        first node ≤ first range ∧ last node ≤ last range := by
  induction rest generalizing node with
  | nil =>
    refine ⟨⟨.refl _, pairwise_singleton _ _, ?_⟩, ?_⟩
    · exact fun inner inside => ⟨inner, inside, le_refl _, le_refl _⟩
    intro range inside
    rw [mem_singleton.mp inside]
    exact ⟨le_refl _, le_refl _⟩
  | cons next rest ih =>
    obtain ⟨isFirst, sortedRest⟩ := pairwise_cons.mp sorted
    have dropped := drops node next
    by_cases nested : last next ≤ last node
    · have sortedNode := sorted.sublist ((sublist_cons_self next rest).cons_cons node)
      rw [if_pos nested] at dropped
      rw [sweepFrom_some dropped]
      obtain ⟨reduced, behind⟩ := ih sortedNode
      refine ⟨⟨?_, reduced.climbs, ?_⟩, behind⟩
      · exact reduced.sublist.trans ((sublist_cons_self next rest).cons_cons node)
      intro inner inside
      rcases mem_cons.mp inside with rfl | later
      · exact reduced.within _ mem_cons_self
      rcases mem_cons.mp later with rfl | inRest
      · obtain ⟨outer, kept, begins, ends⟩ := reduced.within node mem_cons_self
        have order : first node ≤ first inner := by
          rcases isFirst inner mem_cons_self with _ | ⟨_, _⟩ <;> omega
        exact ⟨outer, kept, le_trans begins order, le_trans nested ends⟩
      · exact reduced.within inner (mem_cons_of_mem _ inRest)
    rw [if_neg nested] at dropped
    have behind := not_le.mp nested
    have begins : first node < first next := by
      rcases isFirst next mem_cons_self with before | ⟨_, shorter⟩
      · exact before
      · exact absurd shorter nested
    rw [sweepFrom_none dropped, keeps node next begins]
    obtain ⟨reduced, later⟩ := ih sortedRest
    have climbs : ∀ range ∈ sweepFrom absorb trim next rest, Climbs node range :=
      fun range inside => ⟨lt_of_lt_of_le begins (later range inside).1,
        lt_of_lt_of_le behind (later range inside).2⟩
    refine ⟨⟨reduced.sublist.cons_cons node, pairwise_cons.mpr ⟨climbs, reduced.climbs⟩, ?_⟩, ?_⟩
    · intro inner inside
      rcases mem_cons.mp inside with rfl | inRest
      · exact ⟨inner, mem_cons_self, le_refl _, le_refl _⟩
      · obtain ⟨outer, kept, within⟩ := reduced.within inner inRest
        exact ⟨outer, mem_cons_of_mem _ kept, within⟩
    · intro range inside
      rcases mem_cons.mp inside with rfl | inRest
      · exact ⟨le_refl _, le_refl _⟩
      · exact ⟨(climbs range inRest).1.le, (climbs range inRest).2.le⟩

theorem sweep_outermost (drops : DropsNested absorb)
    (keeps : ∀ node next, first node < first next → trim node next = next)
    (sorted : ranges.Pairwise LongestFirst) : Outermost ranges (sweep absorb trim ranges) := by
  cases ranges with
  | nil => exact ⟨.slnil, .nil, nofun⟩
  | cons => exact (sweepFrom_outermost drops keeps sorted).1

theorem sweepFrom_joined (joins : JoinsAdjacent absorb) (apart : (node :: rest).Pairwise Apart) :
    (sweepFrom absorb (fun _ next => next) node rest).Pairwise Gapped ∧
      (∀ number, Covered (sweepFrom absorb (fun _ next => next) node rest) number ↔
        Covered (node :: rest) number) ∧
      ∀ range ∈ sweepFrom absorb (fun _ next => next) node rest,
        first node ≤ first range ∧ last node ≤ last range := by
  induction rest generalizing node with
  | nil =>
    refine ⟨pairwise_singleton _ _, fun number => Iff.rfl, ?_⟩
    intro range inside
    rw [mem_singleton.mp inside]
    exact ⟨le_refl _, le_refl _⟩
  | cons next rest ih =>
    obtain ⟨isFirst, apartRest⟩ := pairwise_cons.mp apart
    obtain ⟨⟨begins, ends⟩, _⟩ := isFirst next mem_cons_self
    have adjacent := joins node next ends
    by_cases touch : first next = last node + 1
    · rw [if_pos touch] at adjacent
      obtain ⟨joined, absorbed, sameFirst, sameLast⟩ := adjacent
      have apartJoined : (joined :: rest).Pairwise Apart := by
        obtain ⟨behind, apartLater⟩ := pairwise_cons.mp apartRest
        refine pairwise_cons.mpr ⟨fun range inside => ?_, apartLater⟩
        obtain ⟨⟨climbs, longer⟩, after⟩ := behind range inside
        rw [Apart, Climbs, sameFirst, sameLast]
        exact ⟨⟨lt_trans begins climbs, longer⟩, after⟩
      obtain ⟨gapped, covered, lower⟩ := ih apartJoined
      rw [sweepFrom_some absorbed]
      refine ⟨gapped, fun number => ?_, fun range inside => ?_⟩
      · have both : Covers joined number ↔ Covers node number ∨ Covers next number := by
          rw [Covers, Covers, Covers, sameFirst, sameLast]
          omega
        rw [covered number, covered_cons, covered_cons, covered_cons, both, or_assoc]
      · have := lower range inside
        omega
    rw [if_neg touch] at adjacent
    obtain ⟨gapped, covered, lower⟩ := ih apartRest
    rw [sweepFrom_none adjacent]
    refine ⟨pairwise_cons.mpr ⟨fun range inside => ?_, gapped⟩, fun number => ?_, ?_⟩
    · have := lower range inside
      rw [Gapped, Climbs]
      omega
    · rw [covered_cons, covered_cons, covered number]
    intro range inside
    rcases mem_cons.mp inside with rfl | later
    · exact ⟨le_refl _, le_refl _⟩
    · have := lower range later
      omega

theorem sweep_joined (joins : JoinsAdjacent absorb) (apart : ranges.Pairwise Apart) :
    (sweep absorb (fun _ next => next) ranges).Pairwise Gapped ∧
      ∀ number, Covered (sweep absorb (fun _ next => next) ranges) number ↔
        Covered ranges number := by
  cases ranges with
  | nil => exact ⟨.nil, fun number => Iff.rfl⟩
  | cons =>
    obtain ⟨gapped, covered, _⟩ := sweepFrom_joined joins apart
    exact ⟨gapped, covered⟩

theorem LongestFirst.trans {before between after : ρ} (earlier : LongestFirst before between)
    (later : LongestFirst between after) : LongestFirst before after := by
  rw [LongestFirst] at *
  omega

/-- Ascending, without a common number, and with the numbers of the list. -/
structure DisjointCover (ranges result : List ρ) : Prop where
  apart : result.Pairwise Apart
  covered : ∀ number, Covered result number ↔ Covered ranges number

/-- Ascending, with a number between any two ranges, and with the numbers of the list. -/
structure GappedCover (ranges result : List ρ) : Prop where
  gapped : result.Pairwise Gapped
  covered : ∀ number, Covered result number ↔ Covered ranges number

theorem covered_perm {others : List ρ} (perm : ranges.Perm others) :
    Covered ranges number ↔ Covered others number := by
  simp [Covered, perm.mem_iff]

theorem DisjointCover.sweep {result : List ρ} (joins : JoinsAdjacent absorb)
    (disjoint : DisjointCover ranges result) :
    GappedCover ranges (sweep absorb (fun _ next => next) result) := by
  obtain ⟨gapped, covered⟩ := sweep_joined joins disjoint.apart
  exact ⟨gapped, fun number => (covered number).trans (disjoint.covered number)⟩

end MyCode.Lib.Ranges
