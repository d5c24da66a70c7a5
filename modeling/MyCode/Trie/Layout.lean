import MyCode.Trie.Table

/-!
# What the node layouts have in common

Each layout is seen as a tree in the memory: the child of a node for a digit, and the
step that finds or makes it.  A byte is one, two or four digits.
-/

namespace MyCode.Trie

open MyCode.Bitmap MyCode.Lib Function Option Nat

structure TrieLayout (Links : Type) where
  zero : Links
  next : TrieHeap Links → Nat → UCHAR → Option Nat
  insert : TrieHeap Links → Nat → UCHAR → TrieHeap Links × Option Nat
  /-- What a layout keeps besides the tree. -/
  Consistent : TrieHeap Links → Prop

variable {Links : Type}

structure TrieLayout.Ok (layout : TrieLayout Links) (heap : TrieHeap Links) : Prop where
  tree : IsTree (layout.next heap) 0
  apart : ∀ node, heap.used ≤ node → IsApart (layout.next heap) node
  root : 0 < heap.used
  consistent : layout.Consistent heap

/-- What a step does where there is no child: it makes one, or the memory is exhausted. -/
structure TrieLayout.Makes (layout : TrieLayout Links) (heap : TrieHeap Links) (cur : Nat)
    (digit : UCHAR) (after : TrieHeap Links) (result : Option Nat) : Prop where
  consistent : layout.Consistent after
  used : heap.used ≤ after.used
  common : ∀ node, node < heap.used → (after.node node).common = (heap.node node).common
  outcome : (result = none ∧ layout.next after = layout.next heap) ∨
    (result = some heap.used ∧ heap.used < after.used ∧
      layout.next after = grow (layout.next heap) cur digit heap.used ∧
      (after.node heap.used).common = ⟨0, 0⟩)

structure TrieLayout.Lawful (layout : TrieLayout Links) : Prop where
  found : ∀ heap cur digit child, layout.next heap cur digit = some child →
    layout.insert heap cur digit = (heap, some child)
  missed : ∀ heap cur digit after result, layout.Ok heap → cur < heap.used →
    layout.next heap cur digit = none → layout.insert heap cur digit = (after, result) →
    layout.Makes heap cur digit after result
  setCommon : ∀ heap address common, layout.next (heap.setCommon address common) = layout.next heap ∧
    (layout.Consistent heap → layout.Consistent (heap.setCommon address common))
  setLeft : ∀ (heap : TrieHeap Links) left,
    layout.next { heap with left := left } = layout.next heap ∧
    (layout.Consistent heap → layout.Consistent { heap with left := left })
  start : ∀ left, layout.next ⟨fun _ => ⟨⟨0, 0⟩, layout.zero⟩, 1, left⟩ = (fun _ _ => none) ∧
    layout.Consistent ⟨fun _ => ⟨⟨0, 0⟩, layout.zero⟩, 1, left⟩

section Memory

variable {heap after : TrieHeap Links} {zero links : Links} {address node : Nat} {common : TrieCommon}
  {result : Option Nat}

@[simp]
theorem setLinks_self : ((heap.setLinks address links).node address).links = links := by
  simp [TrieHeap.setLinks]

theorem setLinks_of_ne (differs : node ≠ address) :
    (heap.setLinks address links).node node = heap.node node :=
  update_of_ne differs _ _

@[simp]
theorem setLinks_common :
    ((heap.setLinks address links).node node).common = (heap.node node).common := by
  by_cases same : node = address
  · rw [same]
    simp [TrieHeap.setLinks]
  · rw [setLinks_of_ne same]

@[simp]
theorem setLinks_used : (heap.setLinks address links).used = heap.used := rfl

@[simp]
theorem setCommon_links :
    ((heap.setCommon address common).node node).links = (heap.node node).links := by
  by_cases same : node = address
  · rw [same]
    simp [TrieHeap.setCommon]
  · simp [TrieHeap.setCommon, update_of_ne same]

theorem zMalloc_cases (allocated : heap.zMalloc zero = (after, result)) :
    (result = none ∧ after = heap) ∨
    (result = some heap.used ∧ after.used = heap.used + 1 ∧ after.node heap.used = ⟨⟨0, 0⟩, zero⟩ ∧
      ∀ node, node ≠ heap.used → after.node node = heap.node node) := by
  rw [TrieHeap.zMalloc] at allocated
  split at allocated
  · cases allocated
    exact .inl ⟨rfl, rfl⟩
  cases allocated
  refine .inr ⟨rfl, rfl, update_self _ _ _, fun node differs => ?_⟩
  exact update_of_ne differs _ _

theorem malloc_fst (heap : TrieHeap Links) :
    heap.malloc.1.node = heap.node ∧ heap.malloc.1.used = heap.used := by
  rw [TrieHeap.malloc]
  split
  · exact ⟨rfl, rfl⟩
  · exact ⟨rfl, rfl⟩

end Memory

structure TrieAdded (heap : TrieHeap Links) (cur : Nat) (parentLinks childLinks : Links)
    (after : TrieHeap Links) : Prop where
  used : after.used = heap.used + 1
  parent : (after.node cur).links = parentLinks
  parentCommon : (after.node cur).common = (heap.node cur).common
  child : after.node heap.used = ⟨⟨0, 0⟩, childLinks⟩
  others : ∀ node, node ≠ cur → node ≠ heap.used → after.node node = heap.node node

theorem TrieAdded.common {heap after : TrieHeap Links} {cur node : Nat}
    {parentLinks childLinks : Links} (added : TrieAdded heap cur parentLinks childLinks after)
    (inside : node < heap.used) : (after.node node).common = (heap.node node).common := by
  by_cases isCur : node = cur
  · rw [isCur, added.parentCommon]
  · rw [added.others node isCur (Nat.ne_of_lt inside)]

theorem TrieAdded.makes {layout : TrieLayout Links} {heap after : TrieHeap Links} {cur : Nat}
    {digit : UCHAR} {parentLinks childLinks : Links}
    (added : TrieAdded heap cur parentLinks childLinks after) (consistent : layout.Consistent after)
    (next : layout.next after = grow (layout.next heap) cur digit heap.used) :
    layout.Makes heap cur digit after (some heap.used) := by
  refine ⟨consistent, ?_, fun _ inside => added.common inside, .inr ⟨rfl, ?_, next, ?_⟩⟩
  · rw [added.used]
    exact le_succ _
  · rw [added.used]
    exact lt_succ_self _
  · rw [added.child]

def nextLayout : TrieLayout NextLinks where
  zero := nextZero
  next heap node := (heap.node node).links
  insert := trieTryInsert
  Consistent _ := True

theorem nextLayout_lawful : nextLayout.Lawful where
  found heap cur digit child reached := by
    have isChild : (heap.node cur).links digit = some child := reached
    change trieTryInsert heap cur digit = _
    rw [trieTryInsert, isChild]
  missed heap cur digit after result ok used absent inserted := by
    have absent : (heap.node cur).links digit = none := absent
    have inserted : trieTryInsert heap cur digit = (after, result) := inserted
    rw [trieTryInsert, absent] at inserted
    cases allocated : heap.zMalloc nextZero with
    | mk heapNew =>
      rw [allocated] at inserted
      rcases zMalloc_cases allocated with ⟨rfl, rfl⟩ | ⟨rfl, isUsed, isNew, others⟩
      · cases inserted
        exact ⟨trivial, Nat.le_refl _, fun _ _ => rfl, .inl ⟨rfl, rfl⟩⟩
      cases inserted
      have isCur := others cur (Nat.ne_of_lt used)
      refine ⟨trivial, by simp [isUsed], fun node inside => ?_, .inr ⟨rfl, by simp [isUsed], ?_, ?_⟩⟩
      · rw [setLinks_common, others node (Nat.ne_of_lt inside)]
      · funext node other
        change ((heapNew.setLinks cur _).node node).links other = _
        by_cases atCur : node = cur
        · rw [atCur, setLinks_self, isCur]
          by_cases same : other = digit
          · rw [same, update_self, grow, if_pos ⟨rfl, rfl⟩]
          · rw [update_of_ne same, grow, if_neg (fun both => same both.2)]
            rfl
        rw [setLinks_of_ne atCur, grow, if_neg (fun both => atCur both.1)]
        by_cases atNew : node = heap.used
        · rw [atNew, isNew]
          exact ((ok.apart heap.used (Nat.le_refl _)).leaf other).symm
        · rw [others node atNew]
          rfl
      · rw [setLinks_common, isNew]
  setCommon heap address common := by
    refine ⟨?_, fun _ => trivial⟩
    funext node digit
    exact congrFun setCommon_links digit
  setLeft _ _ := ⟨rfl, fun _ => trivial⟩
  start _ := ⟨rfl, trivial⟩

section Grown

variable {layout : TrieLayout Links} {heap middle after : TrieHeap Links} {cur node : Nat}
  {digit : UCHAR} {path digits : List UCHAR} {result : Option Nat}

theorem TrieLayout.Ok.walk_lt (ok : layout.Ok heap)
    (reached : walk (layout.next heap) 0 path = some node) : node < heap.used := by
  by_contra beyond
  have outside := Nat.le_of_not_lt beyond
  have notRoot := Nat.ne_of_gt (Nat.lt_of_lt_of_le ok.root outside)
  exact walk_ne_of_isApart (ok.apart node outside) notRoot path reached

/-- Old paths lead where they led, with the same data, and new ones to nodes without data. -/
structure TrieLayout.Grown (layout : TrieLayout Links) (heap after : TrieHeap Links) : Prop where
  ok : layout.Ok after
  used : heap.used ≤ after.used
  common : ∀ node, node < heap.used → (after.node node).common = (heap.node node).common
  reach : ∀ path node, walk (layout.next heap) 0 path = some node →
    walk (layout.next after) 0 path = some node
  fresh : ∀ path node, walk (layout.next after) 0 path = some node →
    walk (layout.next heap) 0 path = some node ∨
      heap.used ≤ node ∧ (after.node node).common = ⟨0, 0⟩

theorem TrieLayout.Grown.refl (ok : layout.Ok heap) : layout.Grown heap heap :=
  ⟨ok, Nat.le_refl _, fun _ _ => rfl, fun _ _ reached => reached, fun _ _ reached => .inl reached⟩

theorem TrieLayout.Grown.trans (first : layout.Grown heap middle)
    (second : layout.Grown middle after) :
    layout.Grown heap after where
  ok := second.ok
  used := Nat.le_trans first.used second.used
  common node inside :=
    (second.common node (Nat.lt_of_lt_of_le inside first.used)).trans (first.common node inside)
  reach path node reached := second.reach path node (first.reach path node reached)
  fresh path node reached := by
    rcases second.fresh path node reached with middleReached | ⟨outside, zero⟩
    · rcases first.fresh path node middleReached with old | ⟨outside, zero⟩
      · exact .inl old
      · refine .inr ⟨outside, ?_⟩
        rw [second.common node (first.ok.walk_lt middleReached), zero]
    · exact .inr ⟨Nat.le_trans first.used outside, zero⟩

theorem TrieLayout.Lawful.insert_grown (lawful : layout.Lawful) (ok : layout.Ok heap)
    (reached : walk (layout.next heap) 0 path = some cur)
    (inserted : layout.insert heap cur digit = (after, result)) :
    layout.Grown heap after ∧ ∀ child, result = some child →
      walk (layout.next after) 0 (path ++ [digit]) = some child := by
  cases absent : layout.next heap cur digit with
  | some child =>
    obtain ⟨rfl, rfl⟩ := Prod.mk.inj ((lawful.found heap cur digit child absent).symm.trans inserted)
    refine ⟨.refl ok, ?_⟩
    rintro _ ⟨rfl⟩
    rw [walk_concat, reached, bind_some, absent]
  | none =>
    have inside := ok.walk_lt reached
    have made := lawful.missed heap cur digit after result ok inside absent inserted
    rcases made.outcome with ⟨rfl, same⟩ | ⟨rfl, more, grown, zero⟩
    · refine ⟨⟨⟨?_, ?_, Nat.lt_of_lt_of_le ok.root made.used, made.consistent⟩, made.used, made.common,
        ?_, ?_⟩, nofun⟩
      · rw [same]
        exact ok.tree
      · intro node outside
        rw [same]
        exact ok.apart node (Nat.le_trans made.used outside)
      · intro path node old
        rw [same]
        exact old
      · intro path node new
        rw [same] at new
        exact .inl new
    have apart := ok.apart heap.used (Nat.le_refl _)
    have notRoot := Nat.ne_of_gt ok.root
    have walks := ok.tree.walk_grow apart notRoot reached absent
    refine ⟨⟨⟨?_, ?_, Nat.lt_of_lt_of_le ok.root made.used, made.consistent⟩, made.used, made.common,
      ?_, ?_⟩, ?_⟩
    · rw [grown]
      exact ok.tree.grow apart notRoot
    · intro node outside
      have beyond := Nat.le_trans made.used outside
      have notNew := Nat.ne_of_gt (Nat.lt_of_lt_of_le more outside)
      have notCur := Nat.ne_of_gt (Nat.lt_of_lt_of_le inside beyond)
      rw [grown]
      constructor
      · intro parent other
        rw [grow]
        split
        · exact fun same => notNew (some.inj same).symm
        · exact (ok.apart node beyond).unreached parent other
      · intro other
        rw [grow, if_neg fun both => notCur both.1]
        exact (ok.apart node beyond).leaf other
    · intro other node old
      rw [grown, walks, if_neg]
      · exact old
      rintro rfl
      rw [walk_concat, reached, bind_some, absent] at old
      cases old
    · intro other node new
      rw [grown, walks] at new
      split at new
      · cases new
        exact .inr ⟨Nat.le_refl _, zero⟩
      · exact .inl new
    · rintro _ ⟨rfl⟩
      rw [grown, walks, if_pos rfl]

def TrieLayout.insertAll (layout : TrieLayout Links) :
    TrieHeap Links → Nat → List UCHAR → TrieHeap Links × Option Nat
  | heap, cur, [] => (heap, some cur)
  | heap, cur, digit :: rest =>
    match layout.insert heap cur digit with
    | (heap, none) => (heap, none)
    | (heap, some child) => layout.insertAll heap child rest

theorem TrieLayout.Lawful.insertAll_grown (lawful : layout.Lawful) (ok : layout.Ok heap)
    (reached : walk (layout.next heap) 0 path = some cur)
    (inserted : layout.insertAll heap cur digits = (after, result)) :
    layout.Grown heap after ∧ ∀ node, result = some node →
      walk (layout.next after) 0 (path ++ digits) = some node := by
  induction digits generalizing heap cur path with
  | nil =>
    cases inserted
    refine ⟨.refl ok, ?_⟩
    rintro _ ⟨rfl⟩
    rw [List.append_nil]
    exact reached
  | cons digit _ ih =>
    rw [TrieLayout.insertAll] at inserted
    cases step : layout.insert heap cur digit with
    | mk _ child =>
      rw [step] at inserted
      obtain ⟨grown, isChild⟩ := lawful.insert_grown ok reached step
      cases child with
      | none =>
        cases inserted
        exact ⟨grown, nofun⟩
      | some child =>
        obtain ⟨grownRest, isNode⟩ := ih grown.ok (isChild child rfl) inserted
        refine ⟨grown.trans grownRest, fun node found => ?_⟩
        have result := isNode node found
        rw [List.append_assoc] at result
        exact result

end Grown

end MyCode.Trie
