import MyCode.Trie.Lists

/-!
# The entries of a trie

Every layout is a tree of digits, so that each string has a node of its own.  The nodes
of the inserted strings hold their entries, and all others hold nothing.
-/

namespace MyCode.Trie

open MyCode.Lib Function List Option

variable {Links : Type}

/-- The functions of a type are steps for the digits of a byte. -/
structure TrieCoded (funcs : TrieFuncs Links) (layout : TrieLayout Links)
    (code : UCHAR → List UCHAR) : Prop where
  lawful : layout.Lawful
  zero : funcs.zero = layout.zero
  find : ∀ heap cur c, funcs.findNode heap cur c = walk (layout.next heap) cur (code c)
  insert : ∀ heap cur c, funcs.insert heap cur c = layout.insertAll heap cur (code c)
  width : ∃ width, 0 < width ∧ ∀ c, (code c).length = width
  injective : Injective code

theorem insertAll_singleton (layout : TrieLayout Links) (heap : TrieHeap Links) (cur : Nat)
    (c : UCHAR) : layout.insertAll heap cur [c] = layout.insert heap cur c := by
  rw [TrieLayout.insertAll]
  cases layout.insert heap cur c with
  | mk _ child => cases child <;> rfl

theorem walk_singleton (layout : TrieLayout Links) (heap : TrieHeap Links) (cur : Nat) (c : UCHAR) :
    walk (layout.next heap) cur [c] = layout.next heap cur c := by
  simp [walk]

theorem TrieCoded.ofLayout {layout : TrieLayout Links} (lawful : layout.Lawful) :
    TrieCoded ⟨layout.zero, layout.insert, layout.next⟩ layout (fun c => [c]) where
  lawful := lawful
  zero := rfl
  find heap cur c := (walk_singleton layout heap cur c).symm
  insert heap cur c := (insertAll_singleton layout heap cur c).symm
  width := ⟨1, Nat.one_pos, fun _ => rfl⟩
  injective _ _ same := singleton_inj.mp same

def fourBitDigits (c : UCHAR) : List UCHAR :=
  [c >>> 4 &&& 0xf, c &&& 0xf]

def twoBitDigits (c : UCHAR) : List UCHAR :=
  [c >>> 6 &&& 0x3, c >>> 4 &&& 0x3, c >>> 2 &&& 0x3, c &&& 0x3]

theorem fourBitDigits_injective : Injective fourBitDigits := by
  have decoded : ∀ c : UCHAR, ((c >>> 4 &&& 0xf) <<< 4) ||| (c &&& 0xf) = c := by decide +kernel
  intro first second same
  obtain ⟨high, low⟩ := cons.inj same
  rw [← decoded first, ← decoded second, high, (cons.inj low).1]

theorem twoBitDigits_injective : Injective twoBitDigits := by
  have decoded : ∀ c : UCHAR, ((c >>> 6 &&& 0x3) <<< 6) ||| ((c >>> 4 &&& 0x3) <<< 4) |||
      ((c >>> 2 &&& 0x3) <<< 2) ||| (c &&& 0x3) = c := by
    decide +kernel
  intro first second same
  obtain ⟨bits6, rest⟩ := cons.inj same
  obtain ⟨bits4, rest⟩ := cons.inj rest
  obtain ⟨bits2, rest⟩ := cons.inj rest
  rw [← decoded first, ← decoded second, bits6, bits4, bits2, (cons.inj rest).1]

theorem walk_cons (layout : TrieLayout Links) (heap : TrieHeap Links) (cur : Nat) (digit : UCHAR)
    (rest : List UCHAR) :
    walk (layout.next heap) cur (digit :: rest) =
      (layout.next heap cur digit).bind fun child => walk (layout.next heap) child rest :=
  rfl

theorem insertAll_cons (layout : TrieLayout Links) (heap : TrieHeap Links) (cur : Nat)
    (digit : UCHAR) (rest : List UCHAR) :
    layout.insertAll heap cur (digit :: rest) =
      match layout.insert heap cur digit with
      | (heap, none) => (heap, none)
      | (heap, some child) => layout.insertAll heap child rest :=
  rfl

theorem nextLayout_next (heap : TrieHeap NextLinks) (cur : Nat) (digit : UCHAR) :
    nextLayout.next heap cur digit = (heap.node cur).links digit :=
  rfl

theorem nextLayout_insert : nextLayout.insert = trieTryInsert := rfl

theorem fourBits_coded :
    TrieCoded ⟨nextZero, trie4bInsert, trie4bFindNode⟩ nextLayout fourBitDigits where
  lawful := nextLayout_lawful
  zero := rfl
  find heap cur c := by
    change trie4bFindNode heap cur c = _
    rw [trie4bFindNode, fourBitDigits, walk_cons, nextLayout_next]
    generalize c >>> 4 &&& 0xf = high
    cases (heap.node cur).links high with
    | none => rfl
    | some found => exact (walk_singleton nextLayout heap found _).symm
  insert heap cur c := by
    change trie4bInsert heap cur c = _
    rw [trie4bInsert, fourBitDigits, insertAll_cons, nextLayout_insert, trie4bTryInsert4bits]
    generalize c >>> 4 &&& 0xf = high
    cases trieTryInsert heap cur high with
    | mk after child =>
      cases child with
      | none => rfl
      | some child => exact (insertAll_singleton nextLayout after child _).symm
  width := ⟨2, Nat.two_pos, fun _ => rfl⟩
  injective := fourBitDigits_injective

theorem twoBits_coded :
    TrieCoded ⟨nextZero, trie2bInsert, trie2bFindNode⟩ nextLayout twoBitDigits where
  lawful := nextLayout_lawful
  zero := rfl
  find heap cur c := by
    change trie2bFindNode heap cur c = _
    rw [trie2bFindNode, twoBitDigits]
    simp only [walk_cons, nextLayout_next]
    generalize c >>> 6 &&& 0x3 = first
    generalize c >>> 4 &&& 0x3 = second
    generalize c >>> 2 &&& 0x3 = third
    cases (heap.node cur).links first with
    | none => rfl
    | some found =>
      simp only [bind_some]
      cases (heap.node found).links second with
      | none => rfl
      | some found =>
        simp only [bind_some]
        cases (heap.node found).links third with
        | none => rfl
        | some found => exact (walk_singleton nextLayout heap found _).symm
  insert heap cur c := by
    change trie2bInsert heap cur c = _
    rw [trie2bInsert, twoBitDigits, trie2bTryInsert2bits]
    simp only [insertAll_cons, nextLayout_insert]
    generalize c >>> 6 &&& 0x3 = first
    generalize c >>> 4 &&& 0x3 = second
    generalize c >>> 2 &&& 0x3 = third
    cases trieTryInsert heap cur first with
    | mk heap child =>
      cases child with
      | none => rfl
      | some child =>
        simp only
        cases trieTryInsert heap child second with
        | mk heap child =>
          cases child with
          | none => rfl
          | some child =>
            simp only
            cases trieTryInsert heap child third with
            | mk heap child =>
              cases child with
              | none => rfl
              | some child => exact (insertAll_singleton nextLayout heap child _).symm
  width := ⟨4, by decide, fun _ => rfl⟩
  injective := twoBitDigits_injective

theorem TrieType.coded (type : TrieType) : ∃ layout code, TrieCoded type.funcTbl layout code := by
  cases type with
  | simple => exact ⟨_, _, .ofLayout nextLayout_lawful⟩
  | ll => exact ⟨_, _, .ofLayout llLayout_lawful⟩
  | darray => exact ⟨_, _, .ofLayout darrayLayout_lawful⟩
  | fourBits => exact ⟨_, _, fourBits_coded⟩
  | twoBits => exact ⟨_, _, twoBits_coded⟩

section Coded

variable {funcs : TrieFuncs Links} {layout : TrieLayout Links} {code : UCHAR → List UCHAR}
  {heap : TrieHeap Links} {cur node : Nat} {data : List UCHAR}
  (coded : TrieCoded funcs layout code)

include coded

theorem TrieCoded.digits_injective : Injective fun data : List UCHAR => data.flatMap code := by
  obtain ⟨width, _, isWidth⟩ := coded.width
  intro first
  induction first with
  | nil =>
    intro second same
    cases second with
    | nil => rfl
    | cons =>
      have length := congrArg length same
      simp only [flatMap_nil, flatMap_cons, length_append, isWidth, length_nil] at length
      omega
  | cons c _ ih =>
    intro second same
    cases second with
    | nil =>
      have length := congrArg length same
      simp only [flatMap_nil, flatMap_cons, length_append, isWidth, length_nil] at length
      omega
    | cons d =>
      obtain ⟨byte, bytes⟩ := append_inj same ((isWidth c).trans (isWidth d).symm)
      rw [coded.injective byte, ih bytes]

omit coded in
theorem insertAll_append (layout : TrieLayout Links) (heap : TrieHeap Links) (cur : Nat)
    (first second : List UCHAR) :
    layout.insertAll heap cur (first ++ second) =
      match layout.insertAll heap cur first with
      | (heap, none) => (heap, none)
      | (heap, some node) => layout.insertAll heap node second := by
  induction first generalizing heap cur with
  | nil => rfl
  | cons digit _ ih =>
    rw [cons_append, insertAll_cons, insertAll_cons]
    cases layout.insert heap cur digit with
    | mk middle child =>
      cases child with
      | none => rfl
      | some child => exact ih middle child

theorem TrieCoded.insertNodes (heap : TrieHeap Links) (cur : Nat) (data : List UCHAR) :
    trieInsertNodes funcs heap cur data = layout.insertAll heap cur (data.flatMap code) := by
  induction data generalizing heap cur with
  | nil => rfl
  | cons c _ ih =>
    rw [trieInsertNodes, coded.insert, flatMap_cons, insertAll_append]
    cases layout.insertAll heap cur (code c) with
    | mk middle child =>
      cases child with
      | none => rfl
      | some child => exact ih middle child

end Coded

/-- The nodes of inserted strings hold their entries, and those of others hold nothing. -/
structure TrieOk (layout : TrieLayout Links) (code : UCHAR → List UCHAR) (heap : TrieHeap Links)
    (entries : List UCHAR → Option TrieEntry) : Prop where
  ok : layout.Ok heap
  stored : ∀ data entry, entries data = some entry → data ≠ [] ∧
    walk (layout.next heap) trieRoot (data.flatMap code) = some entry.node ∧
    (heap.node entry.node).common = entry.common ∧
    hasFlag entry.common.flag trieNodeFlagMatched = true
  unstored : ∀ data node, entries data = none →
    walk (layout.next heap) trieRoot (data.flatMap code) = some node →
    (heap.node node).common = ⟨0, 0⟩

section Steps

variable {funcs : TrieFuncs Links} {layout : TrieLayout Links} {code : UCHAR → List UCHAR}
  {heap after : TrieHeap Links} {node : Nat} {data : List UCHAR} {result : Option Nat}
  {entries : List UCHAR → Option TrieEntry} (coded : TrieCoded funcs layout code)

include coded

theorem TrieCoded.start : TrieOk layout code (trieCreate funcs) fun _ => none := by
  obtain ⟨next, consistent⟩ := coded.lawful.start 0
  rw [← coded.zero] at next consistent
  have absent (node : Nat) (digit : UCHAR) : layout.next (trieCreate funcs) node digit = none :=
    congrFun (congrFun next node) digit
  refine ⟨⟨⟨?_, ?_⟩, fun node _ => ⟨?_, absent node⟩, Nat.one_pos, consistent⟩,
    nofun, fun _ _ _ _ => rfl⟩
  · intro parent digit other otherDigit child reached
    rw [absent] at reached
    cases reached
  · intro parent digit
    simp [absent]
  · intro parent digit
    simp [absent]

section

variable (holds : TrieOk layout code heap entries)

include holds

theorem TrieOk.write (nonempty : data ≠ [])
    (reached : walk (layout.next heap) trieRoot (data.flatMap code) = some node)
    (common : TrieCommon) (entry : Option TrieEntry)
    (isEntry : ∀ stored, entry = some stored → stored = ⟨node, common⟩ ∧
      hasFlag common.flag trieNodeFlagMatched = true)
    (noEntry : entry = none → common = ⟨0, 0⟩) :
    TrieOk layout code (heap.setCommon node common) (update entries data entry) := by
  obtain ⟨next, consistent⟩ := coded.lawful.setCommon heap node common
  have others {other : List UCHAR} {otherNode : Nat} (differs : other ≠ data)
      (otherReached : walk (layout.next heap) trieRoot (other.flatMap code) = some otherNode) :
      (heap.setCommon node common).node otherNode = heap.node otherNode := by
    apply update_of_ne
    rintro rfl
    exact differs (coded.digits_injective (holds.ok.tree.walk_injective otherReached reached))
  have written : ((heap.setCommon node common).node node).common = common := by
    simp [TrieHeap.setCommon]
  refine ⟨⟨?_, ?_, holds.ok.root, consistent holds.ok.consistent⟩, fun other stored isStored => ?_,
    fun other otherNode absent otherReached => ?_⟩
  · rw [next]
    exact holds.ok.tree
  · rw [next]
    exact holds.ok.apart
  · rw [next]
    by_cases same : other = data
    · rw [same, update_self] at isStored
      obtain ⟨rfl, matched⟩ := isEntry stored isStored
      rw [same]
      exact ⟨nonempty, reached, written, matched⟩
    rw [update_of_ne same] at isStored
    obtain ⟨otherNonempty, otherReached, isCommon, matched⟩ := holds.stored other stored isStored
    rw [others same otherReached]
    exact ⟨otherNonempty, otherReached, isCommon, matched⟩
  rw [next] at otherReached
  by_cases same : other = data
  · rw [same, update_self] at absent
    rw [same, reached] at otherReached
    rw [← some.inj otherReached, written]
    exact noEntry absent
  · rw [update_of_ne same] at absent
    rw [others same otherReached]
    exact holds.unstored other otherNode absent otherReached

omit coded in
theorem TrieOk.grown (grown : layout.Grown heap after) :
    TrieOk layout code after entries where
  ok := grown.ok
  stored other stored isStored := by
    obtain ⟨nonempty, reached, isCommon, matched⟩ := holds.stored other stored isStored
    refine ⟨nonempty, grown.reach _ _ reached, ?_, matched⟩
    rw [grown.common _ (holds.ok.walk_lt reached), isCommon]
  unstored other otherNode absent reached := by
    rcases grown.fresh _ _ reached with old | ⟨-, zero⟩
    · rw [grown.common _ (holds.ok.walk_lt old)]
      exact holds.unstored other otherNode absent old
    · exact zero

omit coded in
theorem TrieOk.common (reached : walk (layout.next heap) trieRoot (data.flatMap code) = some node) :
    (heap.node node).common = ((entries data).map TrieEntry.common).getD ⟨0, 0⟩ := by
  cases stored : entries data with
  | none => exact holds.unstored data node stored reached
  | some entry =>
    obtain ⟨-, isNode, isCommon, -⟩ := holds.stored data entry stored
    rw [reached] at isNode
    rw [some.inj isNode, isCommon]
    rfl

theorem TrieOk.setLeft (left : Nat) :
    TrieOk layout code { heap with left := left } entries := by
  obtain ⟨next, consistent⟩ := coded.lawful.setLeft heap left
  refine ⟨⟨?_, ?_, holds.ok.root, consistent holds.ok.consistent⟩, ?_, ?_⟩
  · rw [next]
    exact holds.ok.tree
  · rw [next]
    exact holds.ok.apart
  · rw [next]
    exact holds.stored
  · rw [next]
    exact holds.unstored

theorem TrieOk.insertNodes (inserted : trieInsertNodes funcs heap trieRoot data = (after, result)) :
    TrieOk layout code after entries ∧ ∀ node, result = some node →
      walk (layout.next after) trieRoot (data.flatMap code) = some node := by
  rw [coded.insertNodes] at inserted
  have atRoot : walk (layout.next heap) 0 [] = some trieRoot := rfl
  obtain ⟨grown, isNode⟩ := coded.lawful.insertAll_grown holds.ok atRoot inserted
  exact ⟨holds.grown grown, isNode⟩

theorem TrieOk.insert (nonempty : data ≠ [])
    {flag : UINT} {ud : Nat} (inserted : trieInsert funcs heap data flag ud = (after, result)) :
    TrieOk layout code after (trieEntered entries data flag ud result) := by
  rw [trieInsert, trieInsertEx, if_neg nonempty] at inserted
  cases step : trieInsertNodes funcs heap trieRoot data with
  | mk middle found =>
    obtain ⟨kept, isNode⟩ := holds.insertNodes coded step
    rw [step] at inserted
    cases found with
    | none =>
      cases inserted
      exact kept
    | some node =>
      cases inserted
      have reached := isNode node rfl
      have flags : (middle.node node).common.flag =
          ((entries data).map fun entry => entry.common.flag).getD 0 := by
        rw [kept.common reached]
        cases entries data with
        | none => rfl
        | some => rfl
      simp only [flags, trieDftSetUd, trieEntered]
      refine kept.write coded nonempty reached _ _ ?_ (nofun)
      rintro _ ⟨rfl⟩
      refine ⟨rfl, ?_⟩
      rw [hasFlag_or, hasFlag_or]
      simp [hasFlag, trieNodeFlagMatched]

end

end Steps

end MyCode.Trie
