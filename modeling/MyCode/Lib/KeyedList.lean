import Mathlib.Data.List.Basic
import Mathlib.Data.List.Nodup

/-!
# Lists of elements with distinct keys

A search by key finds the only element with it, so changing or erasing the
first match changes or erases every match.  A rule that names several keys is
filed under each of them.
-/

namespace MyCode.Lib

open List Bool

universe u v

variable {α : Type u} {κ : Type v} {key : α → κ} {element : α} {change : α → α}

def DistinctKeys (key : α → κ) (elements : List α) : Prop :=
  elements.Pairwise fun first second => key first ≠ key second

theorem DistinctKeys.eq_of_key {elements : List α} (distinct : DistinctKeys key elements)
    {first second : α} (inside : first ∈ elements) (also : second ∈ elements)
    (same : key first = key second) : first = second :=
  inj_on_of_nodup_map (pairwise_map.mpr distinct) inside also same

/-- Change the first element that passes a test. -/
def updateFirst (test : α → Bool) (change : α → α) : List α → List α
  | [] => []
  | element :: rest =>
    if test element then change element :: rest else element :: updateFirst test change rest

section Search

variable {k : κ} {test : α → Bool} {elements : List α}
  (tests : ∀ element ∈ elements, test element = true ↔ key element = k)

include tests

section

variable (distinct : DistinctKeys key elements)

include distinct

theorem find?_eq_some_iff_key {element : α} :
    elements.find? test = some element ↔ element ∈ elements ∧ key element = k := by
  induction elements with
  | nil => simp
  | cons head _ ih =>
    obtain ⟨different, distinctRest⟩ := pairwise_cons.mp distinct
    have testsRest := fun other inside => tests other (mem_cons_of_mem _ inside)
    cases passed : test head with
    | true =>
      have same := (tests head mem_cons_self).mp passed
      rw [find?_cons_of_pos passed]
      constructor
      · rintro ⟨⟩
        exact ⟨mem_cons_self, same⟩
      rintro ⟨inside, equal⟩
      rcases mem_cons.mp inside with rfl | inRest
      · rfl
      · exact absurd (same.trans equal.symm) (different _ inRest)
    | false =>
      have other : key head ≠ k := fun same =>
        false_ne_true (passed.symm.trans ((tests head mem_cons_self).mpr same))
      rw [find?_cons_of_neg (by rw [passed]; exact false_ne_true),
        ih testsRest distinctRest, mem_cons]
      constructor
      · exact fun found => ⟨.inr found.1, found.2⟩
      rintro ⟨rfl | inRest, equal⟩
      · exact absurd equal other
      · exact ⟨inRest, equal⟩

theorem mem_updateFirst {change : α → α} {element : α} :
    element ∈ updateFirst test change elements ↔
      (∃ old ∈ elements, key old = k ∧ element = change old) ∨
        element ∈ elements ∧ key element ≠ k := by
  induction elements with
  | nil => simp [updateFirst]
  | cons head rest ih =>
    obtain ⟨different, distinctRest⟩ := pairwise_cons.mp distinct
    have testsRest := fun other inside => tests other (mem_cons_of_mem _ inside)
    rw [updateFirst]
    by_cases same : key head = k
    · have restOther : ∀ other ∈ rest, key other ≠ k := fun other inside equal =>
        different other inside (same.trans equal.symm)
      rw [if_pos ((tests head mem_cons_self).mpr same)]
      simp only [mem_cons, or_and_right, exists_or, exists_eq_left]
      constructor
      · rintro (rfl | inRest)
        · exact .inl (.inl ⟨same, rfl⟩)
        · exact .inr (.inr ⟨inRest, restOther _ inRest⟩)
      rintro ((⟨-, rfl⟩ | ⟨old, inRest, equal, -⟩) | ⟨rfl, other⟩ | ⟨inRest, -⟩)
      · exact .inl rfl
      · exact absurd equal (restOther old inRest)
      · exact absurd same other
      · exact .inr inRest
    rw [if_neg fun passed => same ((tests head mem_cons_self).mp passed)]
    simp only [mem_cons, ih testsRest distinctRest, exists_or, exists_eq_left, or_and_right]
    constructor
    · rintro (rfl | changed | kept)
      · exact .inr (.inl ⟨rfl, same⟩)
      · exact .inl (.inr changed)
      · exact .inr (.inr kept)
    rintro ((⟨equal, -⟩ | changed) | ⟨rfl, -⟩ | kept)
    · exact absurd equal same
    · exact .inr (.inl changed)
    · exact .inl rfl
    · exact .inr (.inr kept)

theorem mem_eraseP_iff {element : α} :
    element ∈ elements.eraseP test ↔ element ∈ elements ∧ key element ≠ k := by
  induction elements with
  | nil => simp
  | cons head _ ih =>
    obtain ⟨different, distinctRest⟩ := pairwise_cons.mp distinct
    have testsRest := fun other inside => tests other (mem_cons_of_mem _ inside)
    by_cases same : key head = k
    · rw [eraseP_cons_of_pos ((tests head mem_cons_self).mpr same), mem_cons]
      constructor
      · exact fun inRest => ⟨.inr inRest, fun equal =>
          different _ inRest (same.trans equal.symm)⟩
      rintro ⟨rfl | inRest, other⟩
      · exact absurd same other
      · exact inRest
    rw [eraseP_cons_of_neg fun passed => same ((tests head mem_cons_self).mp passed),
      mem_cons, ih testsRest distinctRest, mem_cons, or_and_right]
    constructor
    · rintro (rfl | kept)
      · exact .inl ⟨rfl, same⟩
      · exact .inr kept
    · rintro (⟨rfl, -⟩ | kept)
      · exact .inl rfl
      · exact .inr kept

theorem perm_cons_eraseP (inside : element ∈ elements) (same : key element = k) :
    elements.Perm (element :: elements.eraseP test) := by
  obtain ⟨first, _, _, -, passed, split, erased⟩ :=
    exists_of_eraseP inside ((tests element inside).mpr same)
  have first_mem := split ▸ mem_append_right _ mem_cons_self
  have isFirst :=
    distinct.eq_of_key first_mem inside (((tests first first_mem).mp passed).trans same.symm)
  rw [erased, ← isFirst]
  conv_lhs => rw [split]
  exact perm_middle

theorem updateFirst_perm (inside : element ∈ elements) (same : key element = k) :
    ∃ rest, elements.Perm (element :: rest) ∧
      (updateFirst test change elements).Perm (change element :: rest) := by
  induction elements with
  | nil => nomatch inside
  | cons head rest ih =>
    obtain ⟨different, distinctRest⟩ := pairwise_cons.mp distinct
    rw [updateFirst]
    rcases mem_cons.mp inside with rfl | later
    · rw [if_pos ((tests element mem_cons_self).mpr same)]
      exact ⟨rest, Perm.refl _, Perm.refl _⟩
    have other : key head ≠ k := fun equal => different element later (equal.trans same.symm)
    rw [if_neg fun passed => other ((tests head mem_cons_self).mp passed)]
    obtain ⟨left, perm, changed⟩ := ih
      (fun other inside => tests other (mem_cons_of_mem _ inside)) distinctRest later
    exact ⟨head :: left, (perm.cons head).trans (Perm.swap ..),
      (changed.cons head).trans (Perm.swap ..)⟩

end

end Search

theorem updateFirst_congr {test : α → Bool} {other : α → α} {elements : List α}
    (same : ∀ element ∈ elements, test element = true → change element = other element) :
    updateFirst test change elements = updateFirst test other elements := by
  induction elements with
  | nil => rfl
  | cons head _ ih =>
    rw [updateFirst, updateFirst, ih fun element inside => same element (mem_cons_of_mem _ inside)]
    split
    · next passes => rw [same head mem_cons_self passes]
    · rfl

theorem map_key_updateFirst {test : α → Bool}
    (keeps : ∀ element, key (change element) = key element) (elements : List α) :
    (updateFirst test change elements).map key = elements.map key := by
  induction elements with
  | nil => rfl
  | cons _ _ ih =>
    rw [updateFirst]
    split
    · rw [map_cons, map_cons, keeps]
    · rw [map_cons, map_cons, ih]

theorem distinctKeys_iff_nodup {elements : List α} :
    DistinctKeys key elements ↔ (elements.map key).Nodup :=
  pairwise_map.symm

theorem DistinctKeys.updateFirst {elements : List α} (distinct : DistinctKeys key elements)
    {test : α → Bool} (keeps : ∀ element, key (change element) = key element) :
    DistinctKeys key (updateFirst test change elements) := by
  rw [distinctKeys_iff_nodup, map_key_updateFirst keeps]
  exact distinctKeys_iff_nodup.mp distinct

theorem DistinctKeys.eraseP {elements : List α} (distinct : DistinctKeys key elements)
    (test : α → Bool) : DistinctKeys key (elements.eraseP test) :=
  distinct.sublist eraseP_sublist

theorem DistinctKeys.map {elements : List α} (distinct : DistinctKeys key elements)
    (keeps : ∀ element, key (change element) = key element) :
    DistinctKeys key (elements.map change) := by
  rw [distinctKeys_iff_nodup, map_map]
  have same : key ∘ change = key := funext keeps
  rw [same]
  exact distinctKeys_iff_nodup.mp distinct

theorem DistinctKeys.append_singleton {elements : List α} (distinct : DistinctKeys key elements)
    (absent : ∀ other ∈ elements, key other ≠ key element) :
    DistinctKeys key (elements ++ [element]) := by
  refine pairwise_append.mpr ⟨distinct, pairwise_singleton _ _, fun other inside last same => ?_⟩
  rw [mem_singleton.mp same]
  exact absent other inside

theorem DistinctKeys.perm {elements others : List α} (distinct : DistinctKeys key elements)
    (same : elements.Perm others) : DistinctKeys key others :=
  (same.pairwise_iff fun differs equal => differs equal.symm).mp distinct

section Changed

variable {test : κ → α → Bool} (tests : ∀ k element, test k element = true ↔ key element = k)
  {elements others : List α}

include tests

theorem find?_perm_key (distinct : DistinctKeys key elements) (same : elements.Perm others)
    (k : κ) : elements.find? (test k) = others.find? (test k) := by
  have left (element : α) := @find?_eq_some_iff_key _ _ _ _ _ _ (fun other _ => tests k other)
    distinct element
  have right (element : α) := @find?_eq_some_iff_key _ _ _ _ _ _ (fun other _ => tests k other)
    (distinct.perm same) element
  apply Option.ext
  intro element
  rw [left, right, same.mem_iff]

theorem find?_updateFirst_key [DecidableEq κ]
    (keeps : ∀ element, key (change element) = key element) (k other : κ) :
    (updateFirst (test k) change elements).find? (test other) =
      if other = k then (elements.find? (test k)).map change else elements.find? (test other) := by
  have testChanged (element : α) : test other (change element) = test other element := by
    rw [Bool.eq_iff_iff, tests, tests, keeps]
  induction elements with
  | nil => simp [updateFirst]
  | cons element _ ih =>
    rw [updateFirst]
    cases passed : test k element with
    | true =>
      have isKey := (tests k element).mp passed
      rw [if_pos rfl, find?_cons, find?_cons, find?_cons, testChanged, passed]
      by_cases same : other = k
      · rw [if_pos same, same, passed]
        rfl
      have differs : test other element = false := by
        rw [← not_eq_true, tests, isKey]
        exact fun equal => same equal.symm
      rw [if_neg same, differs]
    | false =>
      rw [if_neg Bool.false_ne_true, find?_cons, find?_cons, find?_cons, passed, ih]
      by_cases same : other = k
      · rw [if_pos same, if_pos same, same, passed]
      · rw [if_neg same, if_neg same]

theorem find?_eraseP_key [DecidableEq κ] (distinct : DistinctKeys key elements) (k other : κ) :
    (elements.eraseP (test k)).find? (test other) =
      if other = k then none else elements.find? (test other) := by
  have left (element : α) := @find?_eq_some_iff_key _ _ _ _ _ _ (fun other' _ => tests other other')
    (distinct.eraseP (test k)) element
  have right (element : α) := @find?_eq_some_iff_key _ _ _ _ _ _
    (fun other' _ => tests other other') distinct element
  apply Option.ext
  intro element
  rw [left, mem_eraseP_iff (fun other' _ => tests k other') distinct]
  split
  · next same =>
    constructor
    · rintro ⟨⟨-, differs⟩, isKey⟩
      exact absurd (isKey.trans same) differs
    · intro absent
      cases absent
  next differs =>
  rw [right]
  constructor
  · rintro ⟨⟨inside, -⟩, isKey⟩
    exact ⟨inside, isKey⟩
  · rintro ⟨inside, isKey⟩
    exact ⟨⟨inside, fun equal => differs (isKey.symm.trans equal)⟩, isKey⟩

end Changed


structure KeyedRule (Key : Type u) (Trigger : Type v) (Act : Type w) where
  keys : List Key
  triggers : List Trigger
  act : Act

variable {Key : Type u} {Trigger : Type v} {Act : Type w}

def KeyedRule.entries (rule : KeyedRule Key Trigger Act) : List (Key × Trigger × Act) :=
  rule.keys.flatMap fun key => rule.triggers.map fun trigger => (key, trigger, rule.act)

theorem KeyedRule.mem_entries {rule : KeyedRule Key Trigger Act} {entry : Key × Trigger × Act} :
    entry ∈ rule.entries ↔
      entry.1 ∈ rule.keys ∧ entry.2.1 ∈ rule.triggers ∧ entry.2.2 = rule.act := by
  obtain ⟨key, trigger, -⟩ := entry
  simp only [KeyedRule.entries, mem_flatMap, mem_map, Prod.mk.injEq]
  constructor
  · rintro ⟨_, key_mem, _, trigger_mem, rfl, rfl, rfl⟩
    exact ⟨key_mem, trigger_mem, rfl⟩
  · rintro ⟨key_mem, trigger_mem, rfl⟩
    exact ⟨key, key_mem, trigger, trigger_mem, rfl, rfl, rfl⟩

variable [DecidableEq Key] [DecidableEq Trigger]

def KeyedRule.names (rule : KeyedRule Key Trigger Act) (key : Key) (trigger : Trigger) : Bool :=
  decide (key ∈ rule.keys ∧ trigger ∈ rule.triggers)

theorem KeyedRule.find?_entries (rule : KeyedRule Key Trigger Act) (key : Key) (trigger : Trigger) :
    rule.entries.find? (fun entry => entry.1 = key ∧ entry.2.1 = trigger) =
      if rule.names key trigger then some (key, trigger, rule.act) else none := by
  cases found : rule.entries.find? (fun entry => entry.1 = key ∧ entry.2.1 = trigger) with
  | none =>
    have absent : rule.names key trigger = false := by
      rw [KeyedRule.names, decide_eq_false_iff_not]
      rintro ⟨key_mem, trigger_mem⟩
      have filed : (key, trigger, rule.act) ∈ rule.entries :=
        KeyedRule.mem_entries.mpr ⟨key_mem, trigger_mem, rfl⟩
      simpa using find?_eq_none.mp found _ filed
    simp [absent]
  | some entry =>
    obtain ⟨key_mem, trigger_mem, act⟩ := KeyedRule.mem_entries.mp (mem_of_find?_eq_some found)
    have matched := find?_some found
    obtain ⟨rfl, rfl⟩ := of_decide_eq_true matched
    have named : rule.names entry.1 entry.2.1 = true := decide_eq_true ⟨key_mem, trigger_mem⟩
    rw [if_pos named, ← act]

theorem find?_entries (rules : List (KeyedRule Key Trigger Act)) (key : Key) (trigger : Trigger) :
    (rules.flatMap KeyedRule.entries).find? (fun entry => entry.1 = key ∧ entry.2.1 = trigger) =
      (rules.find? fun rule => rule.names key trigger).map fun rule => (key, trigger, rule.act) := by
  induction rules with
  | nil => rfl
  | cons rule _ ih =>
    rw [flatMap_cons, find?_append, KeyedRule.find?_entries, ih, find?_cons]
    cases rule.names key trigger <;> simp

end MyCode.Lib
