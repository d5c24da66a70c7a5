import MyCode.Trie.Layout
import Mathlib.Data.List.Find
import Mathlib.Data.List.ReduceOption

/-!
# Layouts with a list of children

The nodes of `trie_ll.c` and `trie_darray.c` have a bit for the byte of each child and
look for the child in a list.
-/

namespace MyCode.Trie

open MyCode.Bitmap MyCode.Lib List Nat Prod

variable {Links : Type} {result : Option Darray}

/-- How links with a list of children and a bit for each of their bytes are read. -/
structure ListView (Links : Type) where
  children : Links → List Nat
  bits : Links → Nat → UINT
  byte : Links → UCHAR

section ListView

variable (view : ListView Links) {heap after : TrieHeap Links} {cur : Nat} {c : UCHAR}
  {parentLinks childLinks : Links}

def ListView.next (heap : TrieHeap Links) (node : Nat) (c : UCHAR) : Option Nat :=
  if arrayBitTest (view.bits (heap.node node).links) c.toNat then
    (view.children (heap.node node).links).find? fun child => view.byte (heap.node child).links == c
  else
    none

/-- The children exist, and their bits are set. -/
def ListView.Consistent (heap : TrieHeap Links) : Prop :=
  ∀ node, ∀ child ∈ view.children (heap.node node).links, child < heap.used ∧
    arrayBitTest (view.bits (heap.node node).links) (view.byte (heap.node child).links).toNat = true

structure ListView.Bare (links : Links) (c : UCHAR) : Prop where
  children : view.children links = []
  bits : view.bits links = fun _ => 0
  byte : view.byte links = c

theorem arrayBitTest_set_byte (data : Nat → UINT) (c other : UCHAR) :
    arrayBitTest (arrayBitSet data c.toNat) other.toNat =
      (decide (other = c) || arrayBitTest data other.toNat) := by
  rw [arrayBitTest_set]
  simp [BitVec.toNat_inj]

theorem ListView.Bare.next {view : ListView Links} {node : Nat}
    (bare : view.Bare (heap.node node).links c) (other : UCHAR) : view.next heap node other = none := by
  simp [ListView.next, bare.children]

theorem ListView.find_congr {children : List Nat}
    (bytes : ∀ child ∈ children,
      view.byte (after.node child).links = view.byte (heap.node child).links) (c : UCHAR) :
    children.find? (fun child => view.byte (after.node child).links == c) =
      children.find? (fun child => view.byte (heap.node child).links == c) := by
  apply find?_congr
  intro child inside
  rw [bytes child inside]

variable (added : TrieAdded heap cur parentLinks childLinks after)
  (sameByte : view.byte parentLinks = view.byte (heap.node cur).links)

include added sameByte

theorem ListView.bytes {child : Nat} (old : child < heap.used) :
    view.byte (after.node child).links = view.byte (heap.node child).links := by
  by_cases isCur : child = cur
  · rw [isCur, added.parent, sameByte]
  · rw [added.others child isCur (Nat.ne_of_lt old)]

variable (consistent : view.Consistent heap) (apart : ∀ digit, view.next heap heap.used digit = none)
  (bare : view.Bare childLinks c)

include consistent bare

include apart in
theorem ListView.next_other {node : Nat} (notCur : node ≠ cur) (other : UCHAR) :
    view.next after node other = view.next heap node other := by
  by_cases isNew : node = heap.used
  · have bareNew : view.Bare (after.node heap.used).links c := by
      rw [added.child]
      exact bare
    rw [isNew, apart, bareNew.next]
  · rw [ListView.next, ListView.next, added.others node notCur isNew, view.find_congr]
    intro child inside
    exact view.bytes added sameByte (consistent node child inside).1

theorem ListView.consistent_other {node : Nat} (notCur : node ≠ cur) :
    ∀ child ∈ view.children (after.node node).links, child < after.used ∧
      arrayBitTest (view.bits (after.node node).links)
        (view.byte (after.node child).links).toNat = true := by
  intro child inside
  by_cases isNew : node = heap.used
  · rw [isNew, added.child, bare.children] at inside
    cases inside
  rw [added.others node notCur isNew] at inside ⊢
  obtain ⟨bounded, bit⟩ := consistent node child inside
  rw [view.bytes added sameByte bounded, added.used]
  exact ⟨lt_succ_of_lt bounded, bit⟩

section Kept

variable (children : view.children parentLinks = view.children (heap.node cur).links)
  (bits : view.bits parentLinks = view.bits (heap.node cur).links)

include children bits

include apart in
theorem ListView.kept_next : view.next after = view.next heap := by
  funext node other
  by_cases isCur : node = cur
  · rw [isCur, ListView.next, ListView.next, added.parent, children, bits, view.find_congr]
    intro child inside
    exact view.bytes added sameByte (consistent cur child inside).1
  · exact view.next_other added sameByte consistent apart bare isCur other

theorem ListView.kept_consistent : view.Consistent after := by
  intro node
  by_cases isCur : node = cur
  · intro child inside
    rw [isCur, added.parent, children] at inside
    obtain ⟨bounded, bit⟩ := consistent cur child inside
    rw [isCur, added.parent, bits, view.bytes added sameByte bounded, added.used]
    exact ⟨lt_succ_of_lt bounded, bit⟩
  · exact view.consistent_other added sameByte consistent bare isCur

end Kept

section Grown

variable {front back : List Nat}
  (children : view.children parentLinks = front ++ heap.used :: back)
  (before : view.children (heap.node cur).links = front ++ back)
  (bits : view.bits parentLinks = arrayBitSet (view.bits (heap.node cur).links) c.toNat)

include children before bits

include apart in
theorem ListView.grown_next (absent : view.next heap cur c = none) :
    view.next after = grow (view.next heap) cur c heap.used := by
  have olds (child : Nat) (inside : child ∈ front ++ back) : child < heap.used ∧
      arrayBitTest (view.bits (heap.node cur).links) (view.byte (heap.node child).links).toNat = true :=
    consistent cur child (before ▸ inside)
  have byteNew : view.byte (after.node heap.used).links = c := by
    rw [added.child, bare.byte]
  funext node other
  rw [grow]
  by_cases isCur : node = cur
  · simp only [isCur, true_and, ListView.next, added.parent, children, before, bits,
      arrayBitTest_set_byte, find?_append, find?_cons, byteNew]
    rw [view.find_congr fun child inside =>
        view.bytes added sameByte (olds child (mem_append_left _ inside)).1,
      view.find_congr fun child inside =>
        view.bytes added sameByte (olds child (mem_append_right _ inside)).1]
    by_cases same : other = c
    · -- A child with this byte would have been found.
      have noFront : front.find? (fun child => view.byte (heap.node child).links == c) = none := by
        apply find?_eq_none.mpr
        intro child inside isByte
        have isByte : view.byte (heap.node child).links = c := by simpa using isByte
        obtain ⟨-, bit⟩ := olds child (mem_append_left _ inside)
        rw [ListView.next, ← isByte, if_pos bit, before] at absent
        have missed := find?_eq_none.mp absent child (mem_append_left _ inside)
        exact missed (beq_self_eq_true _)
      simp [same, noFront]
    · have differs : (c == other) = false := by
        rw [beq_eq_false_iff_ne]
        exact fun equal => same equal.symm
      simp [same, differs]
  · rw [if_neg (fun both => isCur both.1)]
    exact view.next_other added sameByte consistent apart bare isCur other

theorem ListView.grown_consistent : view.Consistent after := by
  intro node
  by_cases isCur : node = cur
  · intro child inside
    rw [isCur, added.parent, children] at inside
    rw [isCur, added.parent, bits, arrayBitTest_set_byte, added.used]
    by_cases isNew : child = heap.used
    · rw [isNew, added.child, bare.byte]
      simp
    have old : child ∈ front ++ back := by
      rcases mem_append.mp inside with inFront | inRest
      · exact mem_append_left _ inFront
      · exact mem_append_right _ ((mem_cons.mp inRest).resolve_left isNew)
    obtain ⟨bounded, bit⟩ := consistent cur child (before ▸ old)
    rw [view.bytes added sameByte bounded, bit, Bool.or_true]
    exact ⟨lt_succ_of_lt bounded, rfl⟩
  · exact view.consistent_other added sameByte consistent bare isCur

end Grown

end ListView

def llView : ListView LlLinks :=
  ⟨LlLinks.next, LlLinks.bits, LlLinks.c⟩

def llLayout : TrieLayout LlLinks where
  zero := llZero
  next := triellGetNode
  insert := triellInsert
  Consistent := llView.Consistent

theorem triellGetNode_eq : triellGetNode = llView.next := by
  funext heap node c
  change (if (!arrayBitTest (heap.node node).links.bits c.toNat) = true then none else _) =
    if arrayBitTest (heap.node node).links.bits c.toNat = true then _ else none
  cases arrayBitTest (heap.node node).links.bits c.toNat <;> rfl

theorem triellCreateNode_cases {heap after : TrieHeap LlLinks} {cur : Nat} {c : UCHAR}
    {result : Option Nat} (used : cur < heap.used)
    (created : triellCreateNode heap cur c = (after, result)) :
    (result = none ∧ after = heap) ∨
    (result = some heap.used ∧ TrieAdded heap cur { (heap.node cur).links with
        next := heap.used :: (heap.node cur).links.next
        bits := arrayBitSet (heap.node cur).links.bits c.toNat }
      { llZero with c := c } after) := by
  rw [triellCreateNode] at created
  cases allocated : heap.zMalloc llZero with
  | mk =>
    rw [allocated] at created
    rcases zMalloc_cases allocated with ⟨rfl, rfl⟩ | ⟨rfl, isUsed, isNew, others⟩
    · cases created
      exact .inl ⟨rfl, rfl⟩
    have curNe := Nat.ne_of_lt used
    simp only [setLinks_of_ne curNe, others cur curNe, isNew] at created
    obtain ⟨rfl, rfl⟩ := mk.inj created
    refine .inr ⟨rfl, isUsed, setLinks_self, ?_, ?_, fun node notCur notNew => ?_⟩
    · rw [setLinks_common, setLinks_common, others cur curNe]
    · rw [setLinks_of_ne curNe.symm]
      simp [TrieHeap.setLinks, isNew]
    · rw [setLinks_of_ne notCur, setLinks_of_ne notNew, others node notNew]

theorem ListView.setCommon (view : ListView Links) (heap : TrieHeap Links) (address : Nat)
    (common : TrieCommon) :
    view.next (heap.setCommon address common) = view.next heap ∧
      (view.Consistent heap → view.Consistent (heap.setCommon address common)) := by
  constructor
  · funext node c
    simp [ListView.next, setCommon_links]
  intro consistent node child inside
  rw [setCommon_links] at inside ⊢
  rw [setCommon_links]
  exact consistent node child inside

theorem llLayout_lawful : llLayout.Lawful where
  found heap cur digit child reached := by
    change triellInsert heap cur digit = _
    rw [triellInsert, show triellGetNode heap cur digit = some child from reached]
  missed heap cur digit after result ok used absent inserted := by
    have absent : triellGetNode heap cur digit = none := absent
    have inserted : triellInsert heap cur digit = (after, result) := inserted
    rw [triellInsert, absent] at inserted
    rcases triellCreateNode_cases used inserted with ⟨rfl, rfl⟩ | ⟨rfl, added⟩
    · exact ⟨ok.consistent, le_refl _, fun _ _ => rfl, .inl ⟨rfl, rfl⟩⟩
    have apart := (ok.apart heap.used (le_refl _)).leaf
    have bare : llView.Bare { llZero with c := digit } digit := ⟨rfl, rfl, rfl⟩
    change ∀ other, triellGetNode heap heap.used other = none at apart
    rw [triellGetNode_eq] at apart absent
    refine added.makes (@ListView.grown_consistent _ llView _ _ _ _ _ _ added rfl ok.consistent bare
      [] _ rfl rfl rfl) ?_
    change triellGetNode after = grow (triellGetNode heap) cur digit heap.used
    rw [triellGetNode_eq]
    exact @ListView.grown_next _ llView _ _ _ _ _ _ added rfl ok.consistent apart bare [] _ rfl rfl rfl
      absent
  setCommon heap address common := by
    change triellGetNode _ = triellGetNode _ ∧ _
    rw [triellGetNode_eq]
    exact llView.setCommon heap address common
  setLeft _ _ := ⟨rfl, id⟩
  start left := by
    refine ⟨?_, nofun⟩
    funext node digit
    simp [llLayout, triellGetNode, llZero]

def darrayNodes : Option Darray → List Nat
  | none => []
  | some array => array.phArray.reduceOption

def darrayView : ListView DarrayLinks :=
  ⟨fun links => darrayNodes links.nexts, DarrayLinks.bits, DarrayLinks.c⟩

structure DarrayConsistent (heap : TrieHeap DarrayLinks) : Prop where
  view : darrayView.Consistent heap
  steps : ∀ node array, (heap.node node).links.nexts = some array → 0 < array.step_num

def darrayLayout : TrieLayout DarrayLinks where
  zero := darrayZero
  next := triedarrayGetNode
  insert := triedarrayInsert
  Consistent := DarrayConsistent

theorem findSome?_slots (slots : List (Option Nat)) (isByte : Nat → Bool) :
    (slots.findSome? fun slot => slot.bind fun node => if isByte node then some node else none) =
      slots.reduceOption.find? isByte := by
  induction slots with
  | nil => rfl
  | cons slot _ ih =>
    cases slot with
    | none =>
      rw [reduceOption_cons_of_none, ← ih]
      rfl
    | some node =>
      rw [reduceOption_cons_of_some, find?_cons, findSome?_cons, ih]
      cases isNode : isByte node <;> simp [isNode]

theorem triedarrayGetNode_eq : triedarrayGetNode = darrayView.next := by
  funext heap node c
  change (if (!arrayBitTest (heap.node node).links.bits c.toNat) = true then none else _) =
    if arrayBitTest (heap.node node).links.bits c.toNat = true then
      (darrayNodes (heap.node node).links.nexts).find? _ else none
  cases arrayBitTest (heap.node node).links.bits c.toNat with
  | false => rfl
  | true =>
    cases (heap.node node).links.nexts with
    | none => rfl
    | some array => exact findSome?_slots array.phArray _

theorem darrayAdd_slots {heap after : TrieHeap DarrayLinks} {array : Darray} {hData : Nat}
    (steps : 0 < array.step_num) (added : darrayAdd heap array hData = (after, result)) :
    after.node = heap.node ∧ after.used = heap.used ∧
      ∀ grown, result = some grown → 0 < grown.step_num ∧
        ∃ front back, grown.phArray.reduceOption = front ++ hData :: back ∧
          array.phArray.reduceOption = front ++ back := by
  rw [darrayAdd, darrayAddToSpace] at added
  by_cases free : none ∈ array.phArray
  · rw [if_pos free] at added
    obtain ⟨rfl, rfl⟩ := mk.inj added
    refine ⟨rfl, rfl, ?_⟩
    rintro _ ⟨rfl⟩
    obtain ⟨front, back, split, before⟩ := eq_append_cons_of_mem free
    refine ⟨steps, front.reduceOption, back.reduceOption, ?_, ?_⟩
    · rw [split, idxOf_append_of_notMem before, idxOf_cons_self]
      simp [reduceOption_append]
    · rw [split, reduceOption_append, reduceOption_cons_of_none]
  rw [if_neg free] at added
  have kept := malloc_fst heap
  rw [darrayExpandAndAdd] at added
  cases allocated : heap.malloc with
  | mk _ success =>
    rw [allocated] at added kept
    cases success with
    | false =>
      obtain ⟨rfl, rfl⟩ := mk.inj added
      exact ⟨kept.1, kept.2, nofun⟩
    | true =>
      obtain ⟨rfl, rfl⟩ := mk.inj added
      refine ⟨kept.1, kept.2, ?_⟩
      rintro _ ⟨rfl⟩
      obtain ⟨_, isMore⟩ := exists_eq_succ_of_ne_zero (ne_of_gt steps)
      refine ⟨steps, array.phArray.reduceOption, [], ?_, (append_nil _).symm⟩
      rw [isMore, replicate_succ, set_append_right _ _ (le_refl _), Nat.sub_self,
        set_cons_zero, reduceOption_append, reduceOption_cons_of_some,
        reduceOption_replicate_none]

theorem darrayCreate_cases {heap after : TrieHeap DarrayLinks} {init_num step_num : Nat}
    (created : darrayCreate heap init_num step_num = (after, result)) :
    after.node = heap.node ∧ after.used = heap.used ∧
      (result = none ∨ result = some ⟨step_num, replicate init_num none⟩) := by
  rw [darrayCreate] at created
  have first := malloc_fst heap
  cases allocated : heap.malloc with
  | mk heapCtrl success =>
    rw [allocated] at created first
    cases success with
    | false =>
      cases created
      exact ⟨first.1, first.2, .inl rfl⟩
    | true =>
      have second := malloc_fst heapCtrl
      cases array : heapCtrl.malloc with
      | mk _ success =>
        simp only [array] at created second
        cases success with
        | false =>
          cases created
          exact ⟨second.1.trans first.1, second.2.trans first.2, .inl rfl⟩
        | true =>
          cases created
          exact ⟨second.1.trans first.1, second.2.trans first.2, .inr rfl⟩

theorem triedarrayNexts_cases {heap after : TrieHeap DarrayLinks} {cur : Nat}
    (steps : ∀ array, (heap.node cur).links.nexts = some array → 0 < array.step_num)
    (got : triedarrayNexts heap cur = (after, result)) :
    after.used = heap.used ∧ (after.node cur).common = (heap.node cur).common ∧
      (∀ node, node ≠ cur → after.node node = heap.node node) ∧
      ∃ nexts, (after.node cur).links = { (heap.node cur).links with nexts := nexts } ∧
        (∀ array, nexts = some array → 0 < array.step_num) ∧
        darrayNodes nexts = darrayNodes (heap.node cur).links.nexts ∧
        ∀ array, result = some array → nexts = some array := by
  rw [triedarrayNexts] at got
  cases old : (heap.node cur).links.nexts with
  | some array =>
    rw [old] at got
    cases got
    refine ⟨rfl, rfl, fun _ _ => rfl, some array, by rw [← old], fun other isOther => ?_, rfl,
      fun _ isOther => isOther⟩
    exact steps other (old.trans isOther)
  | none =>
    rw [old] at got
    cases created : darrayCreate heap 1 1 with
    | mk =>
      obtain ⟨nodes, used, isArray⟩ := darrayCreate_cases created
      rcases isArray with rfl | rfl
      · simp only [created] at got
        cases got
        refine ⟨used, by rw [nodes], fun _ _ => by rw [nodes], none, ?_,
          nofun, rfl, nofun⟩
        rw [nodes, ← old]
      simp only [created] at got
      cases got
      refine ⟨used, by rw [setLinks_common, nodes], fun node differs => ?_, some ⟨1, [none]⟩, ?_,
        ?_, rfl, fun _ isArray => isArray⟩
      · rw [setLinks_of_ne differs, nodes]
      · rw [setLinks_self, nodes]
        rfl
      · rintro _ ⟨rfl⟩
        exact Nat.one_pos

/-- What an attempt to add a child makes of the children and the bits. -/
inductive DarrayOutcome (heap : TrieHeap DarrayLinks) (cur : Nat) (c : UCHAR)
    (links : DarrayLinks) (byte : UCHAR) : Option Nat → Prop where
  | failed : darrayNodes links.nexts = darrayNodes (heap.node cur).links.nexts →
      links.bits = (heap.node cur).links.bits → DarrayOutcome heap cur c links byte none
  | added (front back : List Nat) :
      darrayNodes links.nexts = front ++ heap.used :: back →
      darrayNodes (heap.node cur).links.nexts = front ++ back →
      links.bits = arrayBitSet (heap.node cur).links.bits c.toNat → byte = c →
      DarrayOutcome heap cur c links byte (some heap.used)

theorem triedarrayCreateNode_cases {heap after : TrieHeap DarrayLinks} {cur : Nat} {c : UCHAR}
    {result : Option Nat} (used : cur < heap.used)
    (steps : ∀ array, (heap.node cur).links.nexts = some array → 0 < array.step_num)
    (created : triedarrayCreateNode heap cur c = (after, result)) :
    (result = none ∧ after = heap) ∨
    ∃ links byte, TrieAdded heap cur links { darrayZero with c := byte } after ∧
      links.c = (heap.node cur).links.c ∧ (∀ array, links.nexts = some array → 0 < array.step_num) ∧
      DarrayOutcome heap cur c links byte result := by
  rw [triedarrayCreateNode] at created
  have curNe := Nat.ne_of_lt used
  cases allocated : heap.zMalloc darrayZero with
  | mk heapNode =>
    rw [allocated] at created
    rcases zMalloc_cases allocated with ⟨rfl, rfl⟩ | ⟨rfl, isUsed, isNew, others⟩
    · cases created
      exact .inl ⟨rfl, rfl⟩
    right
    have isCur := others cur curNe
    cases got : triedarrayNexts heapNode cur with
    | mk heapNexts array =>
      simp only [got] at created
      obtain ⟨usedNexts, commonNexts, othersNexts, nexts, linksNexts, stepsNexts, nodesNexts,
        isArray⟩ := triedarrayNexts_cases (isCur ▸ steps) got
      rw [isCur] at commonNexts linksNexts nodesNexts
      have newNexts : heapNexts.node heap.used = ⟨⟨0, 0⟩, darrayZero⟩ := by
        rw [othersNexts heap.used curNe.symm, isNew]
      have oldNexts (node : Nat) (notCur : node ≠ cur) (notNew : node ≠ heap.used) :
          heapNexts.node node = heap.node node := by
        rw [othersNexts node notCur, others node notNew]
      cases array with
      | none =>
        cases created
        exact ⟨_, 0, ⟨usedNexts.trans isUsed, linksNexts, commonNexts, newNexts, oldNexts⟩, rfl,
          stepsNexts, .failed nodesNexts rfl⟩
      | some array =>
        simp only [newNexts] at created
        cases added : darrayAdd (heapNexts.setLinks heap.used { darrayZero with c := c }) array
          heap.used with
        | mk heapAdded grown =>
          rw [added] at created
          obtain ⟨nodes, usedAdded, isGrown⟩ :=
            darrayAdd_slots (stepsNexts array (isArray array rfl)) added
          have atCur : heapAdded.node cur = heapNexts.node cur := by
            rw [nodes, setLinks_of_ne curNe]
          have atNew : heapAdded.node heap.used = ⟨⟨0, 0⟩, { darrayZero with c := c }⟩ := by
            rw [nodes]
            simp [TrieHeap.setLinks, newNexts]
          have atOld (node : Nat) (notCur : node ≠ cur) (notNew : node ≠ heap.used) :
              heapAdded.node node = heap.node node := by
            rw [nodes, setLinks_of_ne notNew, oldNexts node notCur notNew]
          have usedAfter := usedAdded.trans (usedNexts.trans isUsed)
          cases grown with
          | none =>
            cases created
            exact ⟨{ (heap.node cur).links with nexts := nexts }, c,
              ⟨usedAfter, by rw [atCur, linksNexts], by rw [atCur, commonNexts], atNew, atOld⟩,
              rfl, stepsNexts, .failed nodesNexts rfl⟩
          | some grown =>
            obtain ⟨stepsGrown, front, back, after, before⟩ := isGrown grown rfl
            simp only [atCur, linksNexts] at created
            cases created
            rw [isArray array rfl] at nodesNexts
            refine ⟨_, c, ⟨usedAfter, setLinks_self, by rw [setLinks_common, atCur, commonNexts],
              ?_, fun node notCur notNew => ?_⟩, rfl, ?_,
              .added front back after (nodesNexts.symm.trans before) rfl rfl⟩
            · rw [setLinks_of_ne curNe.symm, atNew]
            · rw [setLinks_of_ne notCur, atOld node notCur notNew]
            · rintro _ ⟨rfl⟩
              exact stepsGrown

theorem darrayAdded_steps {heap after : TrieHeap DarrayLinks} {cur : Nat} {links : DarrayLinks}
    {byte : UCHAR} (consistent : DarrayConsistent heap)
    (added : TrieAdded heap cur links { darrayZero with c := byte } after)
    (steps : ∀ array, links.nexts = some array → 0 < array.step_num) :
    ∀ node array, (after.node node).links.nexts = some array → 0 < array.step_num := by
  intro node array isArray
  by_cases isCur : node = cur
  · rw [isCur, added.parent] at isArray
    exact steps array isArray
  by_cases isNew : node = heap.used
  · rw [isNew, added.child] at isArray
    cases isArray
  · rw [added.others node isCur isNew] at isArray
    exact consistent.steps node array isArray

theorem darrayLayout_lawful : darrayLayout.Lawful where
  found heap cur digit child reached := by
    change triedarrayInsert heap cur digit = _
    rw [triedarrayInsert, show triedarrayGetNode heap cur digit = some child from reached]
  missed heap cur digit after result ok used absent inserted := by
    have absent : triedarrayGetNode heap cur digit = none := absent
    have inserted : triedarrayInsert heap cur digit = (after, result) := inserted
    rw [triedarrayInsert, absent] at inserted
    have consistent := ok.consistent
    have apart := (ok.apart heap.used (le_refl _)).leaf
    change ∀ other, triedarrayGetNode heap heap.used other = none at apart
    rw [triedarrayGetNode_eq] at apart absent
    rcases triedarrayCreateNode_cases used (consistent.steps cur) inserted with
      ⟨rfl, rfl⟩ | ⟨_, byte, added, sameByte, steps, outcome⟩
    · exact ⟨ok.consistent, le_refl _, fun _ _ => rfl, .inl ⟨rfl, rfl⟩⟩
    have bare : darrayView.Bare { darrayZero with c := byte } byte := ⟨rfl, rfl, rfl⟩
    have stepsAfter := darrayAdded_steps consistent added steps
    cases outcome with
    | failed children bits =>
      have next := darrayView.kept_next added sameByte consistent.view apart bare children bits
      rw [← triedarrayGetNode_eq] at next
      refine ⟨⟨darrayView.kept_consistent added sameByte consistent.view bare children bits,
        stepsAfter⟩, ?_, fun _ inside => added.common inside, .inl ⟨rfl, next⟩⟩
      rw [added.used]
      exact le_succ _
    | added _ _ children before bits isByte =>
      subst isByte
      refine added.makes ⟨darrayView.grown_consistent added sameByte consistent.view bare children
        before bits, stepsAfter⟩ ?_
      change triedarrayGetNode after = grow (triedarrayGetNode heap) cur byte heap.used
      rw [triedarrayGetNode_eq]
      exact darrayView.grown_next added sameByte consistent.view apart bare children before bits absent
  setCommon heap address common := by
    obtain ⟨next, consistent⟩ := darrayView.setCommon heap address common
    change triedarrayGetNode _ = triedarrayGetNode _ ∧ _
    rw [triedarrayGetNode_eq]
    refine ⟨next, fun before => ⟨consistent before.view, fun node array isArray => ?_⟩⟩
    rw [setCommon_links] at isArray
    exact before.steps node array isArray
  setLeft _ _ := ⟨rfl, fun before => ⟨before.view, before.steps⟩⟩
  start left := by
    have consistent : DarrayConsistent ⟨fun _ => ⟨⟨0, 0⟩, darrayZero⟩, 1, left⟩ := ⟨nofun, nofun⟩
    refine ⟨?_, consistent⟩
    funext node digit
    simp [darrayLayout, triedarrayGetNode, darrayZero]

end MyCode.Trie
