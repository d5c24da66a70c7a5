import MyCode.Trie.Entries

/-!
# Tries answer like the table of their entries

The loop of `prefix_match` keeps the longest accepted string among those that it has
read.  A node that is missing on its way ends all strings that go on.
-/

namespace MyCode.Trie

open MyCode.Lib Function List Option

section Loop

variable {Links : Type} {funcs : TrieFuncs Links} {layout : TrieLayout Links}
  {code : UCHAR → List UCHAR} {heap : TrieHeap Links} {entries : List UCHAR → Option TrieEntry}
  {match_type : TrieMatchType} {data : List UCHAR} {found : Nat} {best : Option Nat}
  {accepts : List UCHAR → TrieEntry → Prop} {func : Option Nat → Nat → Nat → Option Nat}

theorem trieMatchFunc_eq (heap : TrieHeap Links) (data_len : Nat) (match_type : TrieMatchType)
    (old : Option Nat) (cur matched_len : Nat) :
    trieMatchFunc heap data_len match_type old cur matched_len =
      if matched_len = data_len ∨ match_type = .maxLen ∨ match_type = .wildcard ∧
          hasFlag (heap.node cur).common.flag trieNodeFlagWildcard = true then
        some cur
      else
        none := by
  cases match_type with
  | exact => simp [trieMatchFunc, trieExactMatch]
  | maxLen => simp [trieMatchFunc, trieMaxMatch]
  | wildcard =>
    by_cases whole : matched_len = data_len
    · simp [trieMatchFunc, trieWildcardMatch, whole]
    · simp [trieMatchFunc, trieWildcardMatch, whole]

/-- What is remembered when the bytes `done` of the data have been read. -/
def TrieRemembers (heap : TrieHeap Links) (accepts : List UCHAR → TrieEntry → Prop)
    (done : List UCHAR) : Option Nat → Prop
  | none => ∀ found entry, accepts found entry → ¬ found <+: done
  | some node => ∃ found entry, accepts found entry ∧ found <+: done ∧ entry.node = node ∧
      (heap.node node).common = entry.common ∧
      ∀ other otherEntry, accepts other otherEntry → other <+: done → other.length ≤ found.length

/-- A function for `prefix_match` takes the nodes of the accepted entries. -/
structure TrieTakes (heap : TrieHeap Links) (entries : List UCHAR → Option TrieEntry)
    (data : List UCHAR) (accepts : List UCHAR → TrieEntry → Prop)
    (func : Option Nat → Nat → Nat → Option Nat) : Prop where
  inserted : ∀ found entry, accepts found entry → entries found = some entry
  takes : ∀ best found entry, entries found = some entry → found <+: data →
    (heap.node entry.node).common = entry.common →
    accepts found entry ∧ func best entry.node found.length = some entry.node ∨
      ¬ accepts found entry ∧ func best entry.node found.length = none

theorem trieMatchFunc_takes :
    TrieTakes heap entries data (TrieAccepts entries data match_type)
      (trieMatchFunc heap data.length match_type) where
  inserted _ _ accepted := accepted.inserted
  takes best found entry stored isPrefix isCommon := by
    have whole : found.length = data.length ↔ found = data :=
      ⟨isPrefix.eq_of_length, congrArg length⟩
    rw [trieMatchFunc_eq, isCommon]
    split
    · next accepted =>
      rw [whole] at accepted
      exact .inl ⟨⟨stored, isPrefix, accepted⟩, rfl⟩
    · next rejected =>
      rw [whole] at rejected
      exact .inr ⟨fun accepted => rejected accepted.accepted, rfl⟩

variable (takes : TrieTakes heap entries data accepts func)
  (holds : TrieOk layout code heap entries)

include takes holds in
theorem TrieRemembers.start : TrieRemembers heap accepts [] none := by
  intro found entry accepted isPrefix
  exact (holds.stored found entry (takes.inserted found entry accepted)).1 (prefix_nil.mp isPrefix)

theorem TrieRemembers.mono {before done : List UCHAR}
    (remembers : TrieRemembers heap accepts before best) (longer : before <+: done)
    (nothing : ∀ found entry, accepts found entry → found <+: done → found <+: before) :
    TrieRemembers heap accepts done best := by
  cases best with
  | none =>
    intro found entry accepted isPrefix
    exact remembers found entry accepted (nothing found entry accepted isPrefix)
  | some =>
    obtain ⟨found, entry, accepted, isPrefix, isNode, isCommon, longest⟩ := remembers
    refine ⟨found, entry, accepted, isPrefix.trans longer, isNode, isCommon,
      fun other otherEntry otherAccepted otherPrefix => ?_⟩
    exact longest other otherEntry otherAccepted (nothing other otherEntry otherAccepted otherPrefix)

theorem prefix_concat {found done : List UCHAR} {c : UCHAR} (isPrefix : found <+: done ++ [c]) :
    found = done ++ [c] ∨ found <+: done := by
  rw [prefix_concat_iff] at isPrefix
  exact isPrefix

include takes holds in
theorem TrieRemembers.next {done rest : List UCHAR} {c : UCHAR}
    (isData : data = done ++ c :: rest) (remembers : TrieRemembers heap accepts done best)
    (reached : walk (layout.next heap) trieRoot ((done ++ [c]).flatMap code) = some found) :
    TrieRemembers heap accepts (done ++ [c])
      (if hasFlag (heap.node found).common.flag trieNodeFlagMatched then
        (func best found (done.length + 1)).or best
      else
        best) := by
  have isPrefix : done ++ [c] <+: data := ⟨rest, by simp [isData]⟩
  -- The string read so far is accepted, or what was remembered is still the answer.
  have kept (rejected : ∀ entry, ¬ accepts (done ++ [c]) entry) :
      TrieRemembers heap accepts (done ++ [c]) best := by
    apply remembers.mono (prefix_append done [c])
    intro other entry accepted otherPrefix
    rcases prefix_concat otherPrefix with rfl | shorter
    · exact absurd accepted (rejected entry)
    · exact shorter
  cases stored : entries (done ++ [c]) with
  | none =>
    have zero := holds.unstored _ _ stored reached
    have unmatched : ¬ hasFlag (heap.node found).common.flag trieNodeFlagMatched = true := by
      rw [zero]
      decide
    rw [if_neg unmatched]
    apply kept
    intro entry accepted
    have inserted := takes.inserted _ entry accepted
    rw [stored] at inserted
    cases inserted
  | some entry =>
    obtain ⟨-, isNode, isCommon, matched⟩ := holds.stored _ _ stored
    rw [reached] at isNode
    obtain rfl : found = entry.node := some.inj isNode
    have taken := takes.takes best _ entry stored isPrefix isCommon
    rw [length_append, length_singleton] at taken
    rw [isCommon, if_pos matched]
    rcases taken with ⟨accepted, isFunc⟩ | ⟨rejected, isFunc⟩
    · rw [isFunc]
      exact ⟨done ++ [c], entry, accepted, prefix_rfl, rfl, isCommon,
        fun other otherEntry _ otherPrefix => otherPrefix.length_le⟩
    rw [isFunc]
    apply kept
    intro otherEntry accepted
    obtain rfl : entry = otherEntry :=
      some.inj (stored.symm.trans (takes.inserted _ otherEntry accepted))
    exact rejected accepted

variable (coded : TrieCoded funcs layout code)

include coded

include takes holds in
theorem triePrefixMatchFrom_remembers {done rest : List UCHAR}
    (isData : data = done ++ rest) (remembers : TrieRemembers heap accepts done best)
    (reached : walk (layout.next heap) trieRoot (done.flatMap code) = some found) :
    TrieRemembers heap accepts data
      (triePrefixMatchFrom funcs heap func found done.length best rest) := by
  induction rest generalizing done found best with
  | nil =>
    rw [append_nil] at isData
    exact isData ▸ remembers
  | cons c rest ih =>
    have ahead : walk (layout.next heap) trieRoot ((done ++ [c]).flatMap code) =
        funcs.findNode heap found c := by
      rw [flatMap_append, flatMap_singleton, walk_append, reached, coded.find]
      rfl
    rw [triePrefixMatchFrom]
    cases child : funcs.findNode heap found c with
    | none =>
      rw [child] at ahead
      apply remembers.mono ⟨c :: rest, isData.symm⟩
      intro other entry accepted otherPrefix
      -- A longer string would go through the missing node.
      have stored := (holds.stored other entry (takes.inserted other entry accepted)).2.1
      rcases Nat.lt_or_ge done.length other.length with longer | shorter
      · have through : done ++ [c] <+: other := by
          apply prefix_of_prefix_length_le ⟨rest, by simp [isData]⟩ otherPrefix
          rw [length_append, length_singleton]
          exact longer
        obtain ⟨_, rfl⟩ := through
        rw [flatMap_append, walk_append, ahead] at stored
        cases stored
      · exact prefix_of_prefix_length_le otherPrefix ⟨c :: rest, isData.symm⟩ shorter
    | some next =>
      rw [child] at ahead
      have grown := remembers.next takes holds isData ahead
      have isData : data = (done ++ [c]) ++ rest := by simp [isData]
      have turn := ih isData grown ahead
      rw [length_append, length_singleton] at turn
      exact turn

include takes holds in
theorem triePrefixMatch_remembers :
    TrieRemembers heap accepts data (triePrefixMatch funcs heap data func) := by
  have start := TrieRemembers.start takes holds
  rw [triePrefixMatch]
  split
  · next empty =>
    rw [empty]
    exact start
  · exact triePrefixMatchFrom_remembers takes holds coded (nil_append data).symm start rfl

end Loop

section Runs

variable {type : TrieType} {run : TrieRun type} {data : List UCHAR} {match_type : TrieMatchType}
  {layout : TrieLayout type.Links} {code : UCHAR → List UCHAR}

section

variable (coded : TrieCoded type.funcTbl layout code)

include coded

section

variable (holds : TrieOk layout code run.heap run.entries)

include holds

theorem trieMatch_answers (data : List UCHAR) (match_type : TrieMatchType) :
    TrieAnswers run data match_type (trieMatch type.funcTbl run.heap data match_type) := by
  have remembered : TrieRemembers run.heap (TrieAccepts run.entries data match_type) data
      (trieMatch type.funcTbl run.heap data match_type) :=
    triePrefixMatch_remembers trieMatchFunc_takes holds coded
  cases result : trieMatch type.funcTbl run.heap data match_type with
  | none =>
    rw [result] at remembered
    intro found entry accepted
    exact remembered found entry accepted accepted.isPrefix
  | some =>
    rw [result] at remembered
    obtain ⟨found, entry, accepted, -, isNode, isCommon, longest⟩ := remembered
    exact ⟨found, entry, accepted, isNode, isCommon, fun other otherEntry otherAccepted =>
      longest other otherEntry otherAccepted otherAccepted.isPrefix⟩

theorem trieMatch_exact (data : List UCHAR) :
    trieMatch type.funcTbl run.heap data .exact = (run.entries data).map TrieEntry.node := by
  have answers := trieMatch_answers coded holds data .exact
  cases result : trieMatch type.funcTbl run.heap data .exact with
  | none =>
    rw [result] at answers
    cases stored : run.entries data with
    | none => rfl
    | some entry => exact absurd ⟨stored, prefix_rfl, .inl rfl⟩ (answers data entry)
  | some =>
    rw [result] at answers
    obtain ⟨found, _, accepted, isNode, -, -⟩ := answers
    have isData : found = data := by
      rcases accepted.accepted with same | isMax | ⟨isWildcard, -⟩
      · exact same
      · cases isMax
      · cases isWildcard
    rw [← isData, accepted.inserted, ← isNode]
    rfl

theorem TrieOk.del (nonempty : data ≠ []) :
    TrieOk layout code (trieDel type.funcTbl run.heap data).1
      (update run.entries data none) := by
  rw [trieDel, trieMatch_exact coded holds data]
  cases stored : run.entries data with
  | none =>
    have same : update run.entries data none = run.entries := update_eq_self_iff.mpr stored.symm
    rw [same]
    exact holds
  | some entry =>
    have reached := (holds.stored data entry stored).2.1
    exact holds.write coded nonempty reached ⟨0, 0⟩ none (nofun) fun _ => rfl

theorem TrieOk.next {call : TrieCall} (enabled : call.Enabled) :
    TrieOk layout code (trieNext run call).heap (trieNext run call).entries := by
  cases call with
  | insert left data flag ud =>
    cases inserted : trieInsert type.funcTbl { run.heap with left := left } data flag ud with
    | mk =>
      rw [trieNext, inserted]
      exact (holds.setLeft coded left).insert coded enabled inserted
  | del => exact holds.del coded enabled

end

theorem TrieOk.reachable
    (reached : (trieSystem type).Reachable run) : TrieOk layout code run.heap run.entries := by
  apply System.Reachable.invariant ?_ ?_ reached
  · rintro _ rfl
    exact TrieCoded.start coded
  · rintro _ _ _ holds ⟨enabled, rfl⟩
    exact holds.next coded enabled

end

theorem TrieAccepts.transfer {entries others : List UCHAR → Option TrieEntry} {found : List UCHAR}
    {entry : TrieEntry} (accepted : TrieAccepts entries data match_type found entry)
    (same : ∀ data, (entries data).map TrieEntry.common = (others data).map TrieEntry.common) :
    ∃ other, TrieAccepts others data match_type found other ∧ other.common = entry.common := by
  have isCommon := same found
  rw [accepted.inserted] at isCommon
  obtain ⟨other, stored, isCommon⟩ := map_eq_some_iff.mp isCommon.symm
  refine ⟨other, ⟨stored, accepted.isPrefix, ?_⟩, isCommon⟩
  rw [isCommon]
  exact accepted.accepted

theorem TrieAnswers.agree {otherType : TrieType} {other : TrieRun otherType}
    {node otherNode : Option Nat}
    (answers : TrieAnswers run data match_type node)
    (otherAnswers : TrieAnswers other data match_type otherNode)
    (same : ∀ data, (run.entries data).map TrieEntry.common = (other.entries data).map TrieEntry.common) :
    (node.map fun node => (run.heap.node node).common) =
      otherNode.map fun node => (other.heap.node node).common := by
  have back (data : List UCHAR) := (same data).symm
  cases node with
  | none =>
    cases otherNode with
    | none => rfl
    | some =>
      obtain ⟨found, entry, accepted, -⟩ := otherAnswers
      obtain ⟨entry, accepted, -⟩ := accepted.transfer back
      exact absurd accepted (answers found entry)
  | some =>
    obtain ⟨found, _, accepted, -, isCommon, longest⟩ := answers
    obtain ⟨entryOf, acceptedOf, commonOf⟩ := accepted.transfer same
    cases otherNode with
    | none => exact absurd acceptedOf (otherAnswers found entryOf)
    | some =>
      obtain ⟨second, _, secondAccepted, -, secondCommon, secondLongest⟩ := otherAnswers
      obtain ⟨back, acceptedBack, -⟩ := secondAccepted.transfer back
      have atMost := longest second back acceptedBack
      have atLeast := secondLongest found entryOf acceptedOf
      -- Two prefixes of the data of the same length are one.
      have isSame :=
        (prefix_of_prefix_length_le accepted.isPrefix secondAccepted.isPrefix atLeast).eq_of_length
          (Nat.le_antisymm atLeast atMost)
      have stored := secondAccepted.inserted
      rw [← isSame, acceptedOf.inserted] at stored
      rw [map_some, map_some, isCommon, secondCommon, ← commonOf, some.inj stored]

theorem trieNext_same {otherType : TrieType} {other : TrieRun otherType}
    (same : ∀ data, (run.entries data).map TrieEntry.common = (other.entries data).map TrieEntry.common)
    (call : TrieCall)
    (together : ∀ left data flag ud, call = .insert left data flag ud →
      (trieInsert type.funcTbl { run.heap with left := left } data flag ud).2.isSome =
        (trieInsert otherType.funcTbl { other.heap with left := left } data flag ud).2.isSome)
    (data : List UCHAR) :
    ((trieNext run call).entries data).map TrieEntry.common =
      ((trieNext other call).entries data).map TrieEntry.common := by
  cases call with
  | del =>
    simp only [trieNext, update_apply]
    split
    · rfl
    · exact same data
  | insert left inserted flag ud =>
    have flags : (run.entries inserted).map (fun entry => entry.common.flag) =
        (other.entries inserted).map fun entry => entry.common.flag := by
      have mapped := congrArg (Option.map TrieCommon.flag) (same inserted)
      rw [Option.map_map, Option.map_map] at mapped
      exact mapped
    have results := together left inserted flag ud rfl
    simp only [trieNext]
    generalize (trieInsert type.funcTbl { run.heap with left := left } inserted flag ud).2 = first
      at results ⊢
    generalize (trieInsert otherType.funcTbl { other.heap with left := left } inserted flag ud).2 =
      second at results ⊢
    cases first with
    | none =>
      cases second with
      | none => exact same data
      | some => cases results
    | some =>
      cases second with
      | none => cases results
      | some =>
        simp only [trieEntered, flags, update_apply]
        split
        · rfl
        · exact same data

def trieStart (type : TrieType) : TrieRun type :=
  ⟨trieCreate type.funcTbl, fun _ => none⟩

def trieCalls : List TrieCall :=
  [.insert 100 [97] trieNodeFlagWildcard 1, .insert 100 [97, 98] 0 2]

theorem trieCalls_reachable (type : TrieType) :
    (trieSystem type).Reachable (trieCalls.foldl trieNext (trieStart type)) := by
  have steps (run : TrieRun type) (call : TrieCall) (enabled : call.Enabled) :
      True ∧ (trieSystem type).step run call (trieNext run call) :=
    ⟨trivial, enabled, rfl⟩
  exact .foldl steps (.start rfl) ⟨cons_ne_nil _ _, cons_ne_nil _ _, trivial⟩

end Runs

end MyCode.Trie
