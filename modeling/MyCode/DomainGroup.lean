import Mathlib.Data.List.TakeWhile
import MyCode.RuleList
import MyCode.Trie.Match

/-!
# Domain groups

`domain_group_utl.c`, with the domain rule of `domain_acl.c`.  A text is its bytes before the
terminating zero.
-/

namespace MyCode.DomainGroup

open RuleList Trie

def domainNameMaxLen : Nat := 255

def star : UCHAR := 0x2a

/-- The texts of the rules, and a trie of the type `TRIE_TYPE_4BITS`. -/
structure DomainGroupList where
  stRuleList : List (RuleNodeS (List UCHAR))
  hTrie : TrieHeap TrieType.fourBits.Links

def domainGroupAddList : DomainGroupList :=
  ⟨[], trieCreate TrieType.fourBits.funcTbl⟩

/-- The texts that `_domain_group_check_domain` lets pass. -/
def domainGroupCheckDomain (pcDomain : List UCHAR) : Bool :=
  decide (pcDomain.length ≤ domainNameMaxLen) && !(pcDomain.drop 1).contains star

def memReplaceOneChar (src dst : UCHAR) : List UCHAR → List UCHAR
  | [] => []
  | c :: rest => if c = src then dst :: rest else c :: memReplaceOneChar src dst rest

/-- What the trie is asked for: the inverted text up to the first zero. -/
def domainKey (pcDomain : List UCHAR) : List UCHAR :=
  (memReplaceOneChar star 0 pcDomain.reverse).takeWhile fun c => c ≠ 0

section Operations

variable (pstList : DomainGroupList) (pcDomain : List UCHAR)

def domainGroupFindNode : Option (RuleNodeS (List UCHAR)) :=
  pstList.stRuleList.find? fun node => node.rule = pcDomain

/-- `memory` tells whether there is memory for the node, and `left` how much for the trie. -/
def domainGroupAddDomain (memory : Bool) (left : Nat) : DomainGroupList × BsStatus :=
  if !domainGroupCheckDomain pcDomain then (pstList, .badPara)
  else if (domainGroupFindNode pstList pcDomain).isSome then (pstList, .ok)
  else if !memory then (pstList, .noMemory)
  else
    match trieInsert TrieType.fourBits.funcTbl { pstList.hTrie with left := left }
        (domainKey pcDomain) trieNodeFlagWildcard 0 with
    | (hTrie, none) => ({ pstList with hTrie := hTrie }, .noMemory)
    | (hTrie, some _) => (⟨ruleListAdd pstList.stRuleList 0 pcDomain, hTrie⟩, .ok)

def domainGroupDelDomain : DomainGroupList × BsStatus :=
  match domainGroupFindNode pstList pcDomain with
  | none => (pstList, .ok)
  | some _ =>
    (⟨pstList.stRuleList.eraseP fun node => node.rule = pcDomain,
      (trieDel TrieType.fourBits.funcTbl pstList.hTrie (domainKey pcDomain)).1⟩, .ok)

def domainGroupMatch : Bool :=
  (trieMatch TrieType.fourBits.funcTbl pstList.hTrie (domainKey pcDomain) .wildcard).isSome

end Operations

/-- The part of `_domainacl_MatchByRule` for `DOMAINACL_KEY_DOMAIN`. -/
def domainaclMatchDomain (pcPattern szDomain : List UCHAR) : Bool :=
  let pcPattern := if pcPattern.head? = some star then pcPattern.tail else pcPattern
  if szDomain.length < pcPattern.length then false
  else szDomain.drop (szDomain.length - pcPattern.length) == pcPattern

end MyCode.DomainGroup

/-!
## Domain groups agree with the single-domain rule

The trie knows the texts without their star, each once.  It loses one that two stored texts share
when the first of them is deleted.
-/

namespace MyCode.DomainGroup

open RuleList Trie Lib

def dropStar (text : List UCHAR) : List UCHAR :=
  if text.head? = some star then text.tail else text

def CString (text : List UCHAR) : Prop :=
  0 ∉ text

instance (text : List UCHAR) : Decidable (CString text) :=
  inferInstanceAs (Decidable (0 ∉ text))

structure Pattern (text : List UCHAR) : Prop where
  cString : CString text
  checked : domainGroupCheckDomain text = true

variable {text other domain : List UCHAR}

theorem memReplaceOneChar_cut (clean : 0 ∉ text) :
    ((memReplaceOneChar star 0 text).takeWhile fun c => c ≠ 0) =
      text.takeWhile fun c => c ≠ star := by
  induction text with
  | nil => rfl
  | cons c _ ih =>
    rw [List.mem_cons, not_or] at clean
    rw [memReplaceOneChar]
    by_cases isStar : c = star
    · simp [isStar]
    · rw [if_neg isStar, List.takeWhile_cons, List.takeWhile_cons, ih clean.2]
      simp only [isStar, Ne.symm clean.1, ne_eq, not_false_eq_true, decide_true]

theorem domainKey_eq (clean : CString text) :
    domainKey text = text.reverse.takeWhile fun c => c ≠ star :=
  memReplaceOneChar_cut fun inside => clean (List.mem_reverse.mp inside)

theorem Pattern.star_notMem (pattern : Pattern text) : star ∉ dropStar text := by
  have checked := pattern.checked
  rw [domainGroupCheckDomain, Bool.and_eq_true] at checked
  have behind : star ∉ text.drop 1 := by
    intro inside
    have contains := checked.2
    rw [List.contains_iff_mem.mpr inside] at contains
    exact nomatch contains
  rw [dropStar]
  cases text with
  | nil => exact List.not_mem_nil
  | cons =>
    split
    · exact behind
    next first =>
    rintro (_ | ⟨_, inside⟩)
    · exact first rfl
    · exact behind inside

theorem Pattern.key (pattern : Pattern text) : domainKey text = (dropStar text).reverse := by
  have plain : ∀ c ∈ (dropStar text).reverse, decide (c ≠ star) = true := by
    intro c inside
    apply decide_eq_true
    rintro rfl
    exact pattern.star_notMem (List.mem_reverse.mp inside)
  rw [domainKey_eq pattern.cString]
  rw [dropStar] at plain ⊢
  split at plain
  · next first =>
    obtain ⟨_, rfl⟩ := List.head?_eq_some_iff.mp first
    rw [List.tail_cons] at plain
    rw [List.reverse_cons, List.takeWhile_append_of_pos plain, if_pos first]
    simp
  · next first =>
    rw [if_neg first]
    exact List.takeWhile_eq_self_iff.mpr plain

theorem prefix_takeWhile {accepts : UCHAR → Bool} {first whole : List UCHAR}
    (all : ∀ c ∈ first, accepts c = true) :
    first <+: whole.takeWhile accepts ↔ first <+: whole := by
  constructor
  · exact fun isPrefix => isPrefix.trans (List.takeWhile_prefix _)
  rintro ⟨-, rfl⟩
  rw [List.takeWhile_append_of_pos all]
  exact List.prefix_append _ _

theorem Pattern.prefix_iff (pattern : Pattern text) (clean : CString domain) :
    domainKey text <+: domainKey domain ↔ dropStar text <:+ domain := by
  rw [pattern.key, domainKey_eq clean, prefix_takeWhile, List.reverse_prefix]
  intro c inside
  apply decide_eq_true
  rintro rfl
  exact pattern.star_notMem (List.mem_reverse.mp inside)

theorem domainaclMatchDomain_iff (text domain : List UCHAR) :
    domainaclMatchDomain text domain = true ↔ dropStar text <:+ domain := by
  have same : domainaclMatchDomain text domain =
      if domain.length < (dropStar text).length then false
      else domain.drop (domain.length - (dropStar text).length) == dropStar text := rfl
  rw [same, List.suffix_iff_eq_drop]
  split
  · next short =>
    refine iff_of_false Bool.false_ne_true fun suffix => ?_
    have length := congrArg List.length suffix
    rw [List.length_drop] at length
    omega
  · rw [beq_iff_eq, eq_comm]

theorem group_coded : TrieCoded TrieType.fourBits.funcTbl nextLayout fourBitDigits :=
  fourBits_coded

variable {pstList after : DomainGroupList}

/-- The trie knows the keys of the stored texts, and no others. -/
structure Agrees (pstList : DomainGroupList) (entries : List UCHAR → Option TrieEntry) : Prop where
  trie : TrieOk nextLayout fourBitDigits pstList.hTrie entries
  wildcard : ∀ key entry, entries key = some entry →
    hasFlag entry.common.flag trieNodeFlagWildcard = true
  known : ∀ key, (entries key).isSome = true ↔
    ∃ node ∈ pstList.stRuleList, domainKey node.rule = key
  patterns : ∀ node ∈ pstList.stRuleList, Pattern node.rule
  distinct : (pstList.stRuleList.map RuleNodeS.rule).Nodup

theorem Agrees.start : Agrees domainGroupAddList fun _ => none where
  trie := TrieCoded.start fourBits_coded
  wildcard := nofun
  known := fun key => by simp [domainGroupAddList]
  patterns := nofun
  distinct := List.nodup_nil

variable {entries : List UCHAR → Option TrieEntry}

theorem findNode_none (missing : domainGroupFindNode pstList text = none) :
    ∀ node ∈ pstList.stRuleList, node.rule ≠ text := by
  intro node inside same
  exact List.find?_eq_none.mp missing node inside (decide_eq_true same)

theorem mem_ruleListAdd {rules : List (RuleNodeS (List UCHAR))} {node : RuleNodeS (List UCHAR)} :
    node ∈ ruleListAdd rules 0 text ↔ node = ⟨0, text⟩ ∨ node ∈ rules := by
  rw [ruleListAdd]
  split
  · rw [List.mem_append, List.mem_singleton, or_comm]
  split
  · rw [List.mem_append, List.mem_singleton, or_comm]
  · exact mem_insertWhen

theorem ruleListAdd_perm (rules : List (RuleNodeS (List UCHAR))) (text : List UCHAR) :
    (ruleListAdd rules 0 text).Perm (⟨0, text⟩ :: rules) := by
  have last (new : RuleNodeS (List UCHAR)) : (rules ++ [new]).Perm (new :: rules) :=
    List.perm_append_singleton _ _
  rw [ruleListAdd]
  split
  · exact last _
  split
  · exact last _
  · exact insertWhen_perm _ _ _

theorem Agrees.match_iff (agrees : Agrees pstList entries) (clean : CString domain) :
    domainGroupMatch pstList domain = true ↔
      ∃ node ∈ pstList.stRuleList, dropStar node.rule <:+ domain := by
  let run : TrieRun .fourBits := ⟨pstList.hTrie, entries⟩
  have trie : TrieOk nextLayout fourBitDigits run.heap run.entries := agrees.trie
  have answers := trieMatch_answers group_coded trie (domainKey domain) .wildcard
  rw [domainGroupMatch]
  generalize trieMatch TrieType.fourBits.funcTbl pstList.hTrie (domainKey domain) .wildcard =
    result at answers
  cases result with
  | none =>
    refine iff_of_false Bool.false_ne_true ?_
    rintro ⟨node, inside, suffix⟩
    have stored := (agrees.known _).mpr ⟨node, inside, rfl⟩
    obtain ⟨entry, isEntry⟩ := Option.isSome_iff_exists.mp stored
    have isPrefix := ((agrees.patterns node inside).prefix_iff clean).mpr suffix
    exact answers _ entry ⟨isEntry, isPrefix, .inr (.inr ⟨rfl, agrees.wildcard _ _ isEntry⟩)⟩
  | some =>
    refine iff_of_true rfl ?_
    obtain ⟨key, entry, accepted, -⟩ := answers
    obtain ⟨node, inside, rfl⟩ :=
      (agrees.known key).mp (Option.isSome_iff_exists.mpr ⟨entry, accepted.inserted⟩)
    exact ⟨node, inside, ((agrees.patterns node inside).prefix_iff clean).mp accepted.isPrefix⟩

theorem Agrees.add (agrees : Agrees pstList entries) (clean : CString text) (memory : Bool)
    (left : Nat) : ∃ entries, Agrees (domainGroupAddDomain pstList text memory left).1 entries := by
  rw [domainGroupAddDomain]
  split
  · exact ⟨entries, agrees⟩
  next checked =>
  split
  · exact ⟨entries, agrees⟩
  next missing =>
  split
  · exact ⟨entries, agrees⟩
  have checked : domainGroupCheckDomain text = true := by
    cases passed : domainGroupCheckDomain text with
    | false => exact absurd (congrArg not passed) checked
    | true => rfl
  have fresh := findNode_none (Option.not_isSome_iff_eq_none.mp missing)
  split
  · next hTrie inserted =>
    by_cases empty : domainKey text = []
    · rw [trieInsert, trieInsertEx, if_pos empty] at inserted
      obtain ⟨rfl, -⟩ := Prod.mk.inj inserted
      exact ⟨entries, { agrees with trie := agrees.trie.setLeft fourBits_coded left }⟩
    · have trie := (agrees.trie.setLeft fourBits_coded left).insert fourBits_coded empty inserted
      exact ⟨entries, { agrees with trie := trie }⟩
  next hTrie node inserted =>
  have some : domainKey text ≠ [] := by
    intro empty
    rw [trieInsert, trieInsertEx, if_pos empty] at inserted
    cases (Prod.mk.inj inserted).2
  have trie := (agrees.trie.setLeft fourBits_coded left).insert fourBits_coded some inserted
  refine ⟨_, trie, fun key entry isEntry => ?_, fun key => ?_, fun other inside => ?_, ?_⟩
  · rw [trieEntered, Function.update_apply] at isEntry
    split at isEntry
    · obtain rfl := Option.some.inj isEntry
      rw [hasFlag_or]
      simp [hasFlag, trieNodeFlagWildcard]
    · exact agrees.wildcard key entry isEntry
  · rw [trieEntered, Function.update_apply]
    split
    · next same =>
      refine iff_of_true rfl ⟨⟨0, text⟩, mem_ruleListAdd.mpr (.inl rfl), same.symm⟩
    next different =>
    rw [agrees.known]
    constructor
    · rintro ⟨other, inside, isKey⟩
      exact ⟨other, mem_ruleListAdd.mpr (.inr inside), isKey⟩
    rintro ⟨other, inside, isKey⟩
    rcases mem_ruleListAdd.mp inside with rfl | inside
    · exact absurd isKey.symm different
    · exact ⟨other, inside, isKey⟩
  · rcases mem_ruleListAdd.mp inside with rfl | inside
    · exact ⟨clean, checked⟩
    · exact agrees.patterns other inside
  · have parts := (ruleListAdd_perm pstList.stRuleList text).map RuleNodeS.rule
    rw [parts.nodup_iff, List.map_cons, List.nodup_cons]
    refine ⟨fun inside => ?_, agrees.distinct⟩
    obtain ⟨other, there, same⟩ := List.mem_map.mp inside
    exact fresh other there same

theorem mem_eraseText {rules : List (RuleNodeS (List UCHAR))} {node : RuleNodeS (List UCHAR)}
    (distinct : (rules.map RuleNodeS.rule).Nodup) (text : List UCHAR) :
    node ∈ rules.eraseP (fun node => node.rule = text) ↔ node ∈ rules ∧ node.rule ≠ text := by
  induction rules with
  | nil => simp
  | cons first _ ih =>
    rw [List.map_cons, List.nodup_cons] at distinct
    by_cases same : first.rule = text
    · rw [List.eraseP_cons_of_pos (by simp [same]), List.mem_cons]
      constructor
      · intro inside
        refine ⟨.inr inside, fun again => distinct.1 ?_⟩
        exact List.mem_map.mpr ⟨node, inside, again.trans same.symm⟩
      · rintro ⟨rfl | inside, other⟩
        · exact absurd same other
        · exact inside
    rw [List.eraseP_cons_of_neg (by simp [same]), List.mem_cons, List.mem_cons,
      ih distinct.2]
    constructor
    · rintro (rfl | ⟨inside, other⟩)
      · exact ⟨.inl rfl, same⟩
      · exact ⟨.inr inside, other⟩
    · rintro ⟨rfl | inside, other⟩
      · exact .inl rfl
      · exact .inr ⟨inside, other⟩

/-- No other stored text differs from this one in a leading star only. -/
def Alone (pstList : DomainGroupList) (text : List UCHAR) : Prop :=
  ∀ node ∈ pstList.stRuleList, node.rule ≠ text → dropStar node.rule ≠ dropStar text

theorem Agrees.del (agrees : Agrees pstList entries)
    (alone : (domainGroupFindNode pstList text).isSome = true → Alone pstList text) :
    ∃ entries, Agrees (domainGroupDelDomain pstList text).1 entries := by
  rw [domainGroupDelDomain]
  split
  · exact ⟨entries, agrees⟩
  next found there =>
  have alone := alone (Option.isSome_iff_exists.mpr ⟨found, there⟩)
  have inside := List.mem_of_find?_eq_some there
  have isText : found.rule = text := by
    have accepted := List.find?_some there
    exact of_decide_eq_true accepted
  have pattern := isText ▸ agrees.patterns found inside
  have stored := (agrees.known (domainKey text)).mpr ⟨found, inside, by rw [isText]⟩
  obtain ⟨entry, isEntry⟩ := Option.isSome_iff_exists.mp stored
  have some := (agrees.trie.stored _ entry isEntry).1
  have rest (node : RuleNodeS (List UCHAR)) := @mem_eraseText _ node agrees.distinct text
  let run : TrieRun .fourBits := ⟨pstList.hTrie, entries⟩
  have trie : TrieOk nextLayout fourBitDigits run.heap run.entries := agrees.trie
  refine ⟨_, trie.del group_coded some, fun key other isOther => ?_,
    fun key => ?_, fun node isRest => agrees.patterns node ((rest node).mp isRest).1, ?_⟩
  · rw [Function.update_apply] at isOther
    split at isOther
    · exact nomatch isOther
    · exact agrees.wildcard key other isOther
  · rw [Function.update_apply]
    split
    · next same =>
      refine iff_of_false Bool.false_ne_true ?_
      rintro ⟨node, isRest, isKey⟩
      obtain ⟨isNode, other⟩ := (rest node).mp isRest
      rw [same, (agrees.patterns node isNode).key, pattern.key] at isKey
      exact alone node isNode other (List.reverse_injective isKey)
    next different =>
    rw [agrees.known]
    refine exists_congr fun node => ?_
    rw [rest]
    constructor
    · rintro ⟨isNode, isKey⟩
      exact ⟨⟨isNode, fun same => different (by rw [← isKey, same])⟩, isKey⟩
    · rintro ⟨⟨isNode, -⟩, isKey⟩
      exact ⟨isNode, isKey⟩
  · exact agrees.distinct.sublist (List.eraseP_sublist.map _)

inductive DomainGroupCall where
  | add (pcDomain : List UCHAR) (memory : Bool) (left : Nat)
  | del (pcDomain : List UCHAR)

def DomainGroupCall.pcDomain : DomainGroupCall → List UCHAR
  | add pcDomain _ _ => pcDomain
  | del pcDomain => pcDomain

def DomainGroupCall.run (pstList : DomainGroupList) : DomainGroupCall → DomainGroupList
  | add pcDomain memory left => (domainGroupAddDomain pstList pcDomain memory left).1
  | del pcDomain => (domainGroupDelDomain pstList pcDomain).1

def domainGroup : System DomainGroupList DomainGroupCall where
  start pstList := pstList = domainGroupAddList
  step pstList call after := CString call.pcDomain ∧ after = call.run pstList

/-- A stored text is deleted only while its twin with or without the star is not stored. -/
def DomainGroupCall.Apart (pstList : DomainGroupList) : DomainGroupCall → Prop
  | add .. => True
  | del pcDomain => (domainGroupFindNode pstList pcDomain).isSome = true → Alone pstList pcDomain

theorem Agrees.reached
    (reached : domainGroup.ReachableWhen (fun state call => call.Apart state) pstList) :
    ∃ entries, Agrees pstList entries := by
  apply System.ReachableWhen.invariant _ _ reached
  · rintro _ rfl
    exact ⟨_, .start⟩
  rintro _ call _ ⟨_, agrees⟩ apart ⟨clean, rfl⟩
  cases call with
  | add _ memory left => exact agrees.add clean memory left
  | del => exact agrees.del apart

/-- In runs that delete no text beside its twin, a domain matches exactly when a stored text
without its star ends it, which is the single-domain rule for one of them. -/
theorem domainGroup_agrees
    (reached : domainGroup.ReachableWhen (fun state call => call.Apart state) pstList)
    (clean : CString domain) :
    (domainGroupMatch pstList domain = true ↔
      ∃ node ∈ pstList.stRuleList, dropStar node.rule <:+ domain) ∧
    (domainGroupMatch pstList domain = true ↔
      ∃ node ∈ pstList.stRuleList, domainaclMatchDomain node.rule domain = true) := by
  obtain ⟨_, agrees⟩ := Agrees.reached reached
  have suffixes := agrees.match_iff clean
  simp only [domainaclMatchDomain_iff]
  exact ⟨suffixes, suffixes⟩

/-- The texts `*a` and `b`, of which `b` is deleted again. -/
def exampleCalls : List DomainGroupCall :=
  [.add [0x2a, 0x61] true 100, .add [0x62] true 100, .del [0x62]]

theorem exampleCalls_reached :
    domainGroup.ReachableWhen (fun state call => call.Apart state)
      (exampleCalls.foldl DomainGroupCall.run domainGroupAddList) := by
  have steps (state : DomainGroupList) (call : DomainGroupCall)
      (admitted : call.Apart state ∧ CString call.pcDomain) :
      call.Apart state ∧ domainGroup.step state call (call.run state) :=
    ⟨admitted.1, admitted.2, rfl⟩
  refine .foldl steps (.start rfl) ⟨⟨trivial, by decide⟩, ⟨trivial, by decide⟩, ⟨?_, by decide⟩,
    trivial⟩
  intro _ node inside other
  rcases List.mem_cons.mp inside with rfl | inside
  · exact absurd rfl other
  · obtain rfl := List.mem_singleton.mp inside
    decide

theorem domainGroup_agrees_deleted :
    domainGroupMatch (exampleCalls.foldl DomainGroupCall.run domainGroupAddList) [0x78, 0x61] =
        true ↔
      ∃ node ∈ (exampleCalls.foldl DomainGroupCall.run domainGroupAddList).stRuleList,
        dropStar node.rule <:+ [0x78, 0x61] :=
  (domainGroup_agrees exampleCalls_reached (by decide)).1

/-- The text `*a` stays stored when `a` is deleted, and is not found. -/
theorem domainGroup_loses_twin :
    ∃ pstList, domainGroup.Reachable pstList ∧
      pstList.stRuleList.map RuleNodeS.rule = [[0x2a, 0x61]] ∧
      domainaclMatchDomain [0x2a, 0x61] [0x61] = true ∧ domainGroupMatch pstList [0x61] = false := by
  refine ⟨[.add [0x2a, 0x61] true 100, .add [0x61] true 100, .del [0x61]].foldl
    DomainGroupCall.run domainGroupAddList, ?_, by decide +kernel, by decide, by decide +kernel⟩
  have steps (state : DomainGroupList) (call : DomainGroupCall) (clean : CString call.pcDomain) :
      True ∧ domainGroup.step state call (call.run state) :=
    ⟨trivial, clean, rfl⟩
  exact .foldl steps (.start rfl) ⟨by decide, by decide, by decide, trivial⟩

end MyCode.DomainGroup
