import MyCode.Trie.Match

/-!
# Host names

`trie_hostname_match` looks for the '.' one byte too far: behind the byte that follows the
matched string, which is outside the query where the string lacks its last byte only.
-/

namespace MyCode.Trie

open MyCode.Lib List Option

def dot : UCHAR := 0x2e

/-- `behind` is the byte of the memory behind the data. -/
def trieHostnameMatch (data : List UCHAR) (behind : UCHAR) (_old : Option Nat)
    (cur matched_len : Nat) : Option Nat :=
  if matched_len = data.length then some cur
  else if (data ++ [behind])[matched_len + 1]? = some dot then some cur
  else none

/-- In place of a match, a node for which a byte behind the data is read. -/
def trieHostnameOutside (data : List UCHAR) (_old : Option Nat) (cur matched_len : Nat) :
    Option Nat :=
  if matched_len = data.length then none
  else if data.length ≤ matched_len + 1 then some cur
  else none

/-- An inserted string that is the data, or that has a '.' some bytes behind its end. -/
structure HostAccepts (entries : List UCHAR → Option TrieEntry) (data : List UCHAR) (gap : Nat)
    (found : List UCHAR) (entry : TrieEntry) : Prop where
  inserted : entries found = some entry
  isPrefix : found <+: data
  cut : found = data ∨ data[found.length + gap]? = some dot

structure HostLongest (entries : List UCHAR → Option TrieEntry) (data : List UCHAR) (gap : Nat)
    (found : List UCHAR) (entry : TrieEntry) : Prop where
  accepted : HostAccepts entries data gap found entry
  longest : ∀ other otherEntry, HostAccepts entries data gap other otherEntry →
    other.length ≤ found.length

/-- The result is the node of the longest string that ends where a label of the data does. -/
def HostAnswers (entries : List UCHAR → Option TrieEntry) (data : List UCHAR) (gap : Nat) :
    Option Nat → Prop
  | none => ∀ found entry, ¬ HostAccepts entries data gap found entry
  | some node => ∃ found entry, HostLongest entries data gap found entry ∧ entry.node = node

/-- `Trie_Match` answers right and reads no byte behind the data. -/
structure HostCorrect {type : TrieType} (run : TrieRun type) (data : List UCHAR) (behind : UCHAR) :
    Prop where
  answers : HostAnswers run.entries data 0
    (triePrefixMatch type.funcTbl run.heap data (trieHostnameMatch data behind))
  inside : triePrefixMatch type.funcTbl run.heap data (trieHostnameOutside data) = none

/-- No string lacks just the last byte of the data, and the data is inserted, or the longest
string before a '.' is the longest that has a '.' behind the byte that follows it. -/
def HostSound (entries : List UCHAR → Option TrieEntry) (data : List UCHAR) : Prop :=
  entries data.dropLast = none ∧ (entries data ≠ none ∨
    ∀ found entry, HostLongest entries data 0 found entry ↔ HostLongest entries data 1 found entry)

variable {Links : Type} {funcs : TrieFuncs Links} {layout : TrieLayout Links}
  {code : UCHAR → List UCHAR} {heap : TrieHeap Links} {entries : List UCHAR → Option TrieEntry}
  {data : List UCHAR} {gap : Nat} {node : Option Nat}

theorem HostLongest.answers_eq {found : List UCHAR} {entry : TrieEntry}
    (longest : HostLongest entries data gap found entry) (answers : HostAnswers entries data gap node) :
    node = some entry.node := by
  cases node with
  | none => exact absurd longest.accepted (answers found entry)
  | some =>
    obtain ⟨second, secondEntry, secondLongest, rfl⟩ := answers
    have atMost := longest.longest second secondEntry secondLongest.accepted
    have atLeast := secondLongest.longest found entry longest.accepted
    -- Two prefixes of the data of the same length are one.
    obtain rfl : found = second :=
      (prefix_of_prefix_length_le longest.accepted.isPrefix secondLongest.accepted.isPrefix
        atLeast).eq_of_length (Nat.le_antisymm atLeast atMost)
    rw [some.inj (longest.accepted.inserted.symm.trans secondLongest.accepted.inserted)]

theorem HostLongest.of_data {entry : TrieEntry} (stored : entries data = some entry) :
    HostLongest entries data gap data entry :=
  ⟨⟨stored, prefix_rfl, .inl rfl⟩, fun _ _ accepted => accepted.isPrefix.length_le⟩

theorem TrieRemembers.answers (remembers : TrieRemembers heap (HostAccepts entries data gap) data node) :
    HostAnswers entries data gap node := by
  cases node with
  | none =>
    intro found entry accepted
    exact remembers found entry accepted accepted.isPrefix
  | some =>
    obtain ⟨found, entry, accepted, -, isNode, -, longest⟩ := remembers
    exact ⟨found, entry, ⟨accepted, fun other otherEntry otherAccepted =>
      longest other otherEntry otherAccepted otherAccepted.isPrefix⟩, isNode⟩

/-- The entries of the data are cut at `gap` by a function that looks there. -/
theorem hostAccepts_takes {looks : Nat → Prop} [DecidablePred looks]
    (sees : ∀ found entry, entries found = some entry → found <+: data → found ≠ data →
      (looks found.length ↔ data[found.length + gap]? = some dot)) :
    TrieTakes heap entries data (HostAccepts entries data gap) fun _ cur matched_len =>
      if matched_len = data.length then some cur else if looks matched_len then some cur else none where
  inserted _ _ accepted := accepted.inserted
  takes _ found entry stored isPrefix _ := by
    by_cases whole : found = data
    · exact .inl ⟨⟨stored, isPrefix, .inl whole⟩, if_pos (congrArg length whole)⟩
    rw [if_neg fun same => whole (isPrefix.eq_of_length same)]
    have seen := sees found entry stored isPrefix whole
    split
    · next dotted => exact .inl ⟨⟨stored, isPrefix, .inr (seen.mp dotted)⟩, rfl⟩
    · next other =>
      exact .inr ⟨fun accepted => accepted.cut.elim whole fun cut => other (seen.mpr cut), rfl⟩

theorem eq_dropLast {found : List UCHAR} (isPrefix : found <+: data)
    (short : found.length + 1 = data.length) : found = data.dropLast := by
  rw [dropLast_eq_take, ← short, Nat.add_sub_cancel]
  exact prefix_iff_eq_take.mp isPrefix

theorem trieHostnameMatch_takes (behind : UCHAR) (quiet : entries data.dropLast = none) :
    TrieTakes heap entries data (HostAccepts entries data 1) (trieHostnameMatch data behind) := by
  refine hostAccepts_takes fun found entry stored isPrefix proper => ?_
  have atMost := isPrefix.length_le
  have other : found.length ≠ data.length := fun same => proper (isPrefix.eq_of_length same)
  have notLast : found.length + 1 ≠ data.length := fun short => by
    rw [← eq_dropLast isPrefix short, stored] at quiet
    cases quiet
  rw [getElem?_append_left (by omega)]

theorem trieHostnameOutside_takes :
    TrieTakes heap entries data
      (fun found entry => entries found = some entry ∧ found <+: data ∧ found.length + 1 = data.length)
      (trieHostnameOutside data) where
  inserted _ _ accepted := accepted.1
  takes _ found entry stored isPrefix _ := by
    have atMost := isPrefix.length_le
    rw [trieHostnameOutside]
    split
    · exact .inr ⟨fun accepted => by omega, rfl⟩
    split
    · exact .inl ⟨⟨stored, isPrefix, by omega⟩, rfl⟩
    · exact .inr ⟨fun accepted => by omega, rfl⟩

section

variable (coded : TrieCoded funcs layout code) (holds : TrieOk layout code heap entries)

include coded holds

theorem trieHostnameOutside_iff :
    triePrefixMatch funcs heap data (trieHostnameOutside data) = none ↔
      entries data.dropLast = none := by
  have remembers := triePrefixMatch_remembers (@trieHostnameOutside_takes _ heap entries data) holds coded
  constructor
  · intro inside
    rw [inside] at remembers
    refine eq_none_iff_forall_not_mem.mpr fun entry stored => ?_
    have positive : 0 < data.length := by
      apply length_pos_iff.mpr
      rintro rfl
      exact (holds.stored [] entry stored).1 rfl
    exact remembers data.dropLast entry ⟨stored, dropLast_prefix data, by
      rw [length_dropLast]
      omega⟩ ( dropLast_prefix data)
  intro quiet
  cases found : triePrefixMatch funcs heap data (trieHostnameOutside data) with
  | none => rfl
  | some _ =>
    rw [found] at remembers
    obtain ⟨_, _, ⟨stored, isPrefix, short⟩, -⟩ := remembers
    rw [← eq_dropLast isPrefix short, stored] at quiet
    cases quiet

theorem HostAnswers.agree {otherGap : Nat} (answers : HostAnswers entries data gap node)
    (others : HostAnswers entries data otherGap node) {found : List UCHAR} {entry : TrieEntry}
    (longest : HostLongest entries data gap found entry) :
    HostLongest entries data otherGap found entry := by
  rw [longest.answers_eq answers] at others
  obtain ⟨_, _, secondLongest, sameNode⟩ := others
  have stored := (holds.stored _ _ longest.accepted.inserted).2.1
  have secondStored := (holds.stored _ _ secondLongest.accepted.inserted).2.1
  rw [sameNode] at secondStored
  obtain rfl := coded.digits_injective (holds.ok.tree.walk_injective stored secondStored)
  rw [some.inj (longest.accepted.inserted.symm.trans secondLongest.accepted.inserted)]
  exact secondLongest

theorem trieHostnameMatch_answers_iff (behind : UCHAR) (quiet : entries data.dropLast = none) :
    HostAnswers entries data 0 (triePrefixMatch funcs heap data (trieHostnameMatch data behind)) ↔
      HostSound entries data := by
  have answers :=
    (triePrefixMatch_remembers (trieHostnameMatch_takes behind quiet) holds coded).answers
  have right := (triePrefixMatch_remembers (@hostAccepts_takes _ heap entries data 0
    (fun matched_len => data[matched_len]? = some dot) _ fun _ _ _ _ _ => Iff.rfl) holds
      coded).answers
  constructor
  · intro correct
    exact ⟨quiet, .inr fun _ _ =>
      ⟨correct.agree coded holds answers, answers.agree coded holds correct⟩⟩
  rintro ⟨-, known | same⟩
  · obtain ⟨entry, stored⟩ := ne_none_iff_exists'.mp known
    rw [(HostLongest.of_data stored).answers_eq answers]
    exact ⟨data, entry, .of_data stored, rfl⟩
  generalize triePrefixMatch funcs heap data (trieHostnameMatch data behind) = result
    at answers ⊢
  cases result with
  | some =>
    obtain ⟨found, entry, longest, isNode⟩ := answers
    exact ⟨found, entry, (same found entry).mpr longest, isNode⟩
  | none =>
    -- The longest string before a '.' would be one that was looked for.
    intro found entry accepted
    generalize triePrefixMatch funcs heap data _ = result at right
    cases result with
    | none => exact right found entry accepted
    | some =>
      obtain ⟨last, lastEntry, longest, -⟩ := right
      exact answers last lastEntry ((same last lastEntry).mp longest).accepted

end

theorem trieHostnameMatch_iff {type : TrieType} {run : TrieRun type}
    (reached : (trieSystem type).Reachable run) (data : List UCHAR) (behind : UCHAR) :
    HostCorrect run data behind ↔ HostSound run.entries data := by
  obtain ⟨_, _, coded⟩ := type.coded
  have holds := TrieOk.reachable coded reached
  constructor
  · rintro ⟨answers, inside⟩
    exact (trieHostnameMatch_answers_iff coded holds behind
      ((trieHostnameOutside_iff coded holds).mp inside)).mp answers
  · intro sound
    exact ⟨(trieHostnameMatch_answers_iff coded holds behind sound.1).mpr sound,
      (trieHostnameOutside_iff coded holds).mpr sound.1⟩

def trieHostRun : TrieRun .fourBits :=
  trieNext (trieStart .fourBits) (.insert 100 [99] 0 1)

theorem trieHostRun_reachable : (trieSystem .fourBits).Reachable trieHostRun :=
  .next (.start rfl) (show (trieSystem .fourBits).step (trieStart .fourBits)
    (.insert 100 [99] 0 1) trieHostRun from ⟨cons_ne_nil _ _, rfl⟩)

theorem trieHostnameMatch_whole : HostCorrect trieHostRun [99] 0 :=
  (trieHostnameMatch_iff trieHostRun_reachable [99] 0).mpr ⟨rfl, .inl (by decide +kernel)⟩

/-- The name "c" is not found for "c.a". -/
theorem trieHostnameMatch_misses : ¬ ∀ (type : TrieType) (run : TrieRun type),
    (trieSystem type).Reachable run → ∀ data behind, HostCorrect run data behind := by
  intro always
  have answers := (always .fourBits trieHostRun trieHostRun_reachable [99, 46, 97] 0).answers
  obtain ⟨entry, stored⟩ := isSome_iff_exists.mp
    (show (trieHostRun.entries [99]).isSome = true by decide +kernel)
  exact answers [99] entry ⟨stored, by decide, .inr rfl⟩

end MyCode.Trie
