import Mathlib.Data.List.Dedup
import Mathlib.Data.List.GetD
import Mathlib.Data.List.Perm.Subperm
import MyCode.HeavyKeep

/-!
# The highest counts

The result of a scan holds one node for each of the factors with the highest
counts; a node in the result takes over a higher count from a later node of
its factor.
-/

namespace MyCode.HeavyKeep

open Function List Nat

variable {Key : Type} {n k : Nat} {hash start : Nat → HeavykeepTopnNode Key} {nodes : List Nat}
  {node : Nat}

theorem heavykeepMinIndex_spec (hash : Nat → HeavykeepTopnNode Key) {min_index i : Nat}
    (front rest : List Nat) (length : front.length = i) (inside : min_index < i)
    (least : ∀ other ∈ front, (hash (front.getD min_index 0)).freq ≤ (hash other).freq) :
    heavykeepMinIndex hash min_index (hash (front.getD min_index 0)).freq i rest <
        (front ++ rest).length ∧
      ∀ other ∈ front ++ rest, (hash ((front ++ rest).getD (heavykeepMinIndex hash min_index
        (hash (front.getD min_index 0)).freq i rest) 0)).freq ≤ (hash other).freq := by
  induction rest generalizing front min_index i with
  | nil =>
    rw [heavykeepMinIndex, append_nil]
    exact ⟨by omega, least⟩
  | cons node rest ih =>
    have whole : front ++ node :: rest = (front ++ [node]) ++ rest := by
      rw [append_assoc, singleton_append]
    have longer : (front ++ [node]).length = i + 1 := by
      rw [length_append, length_singleton, length]
    have last : (front ++ [node]).getD i 0 = node := by
      rw [← length]
      simp
    have kept : (front ++ [node]).getD min_index 0 = front.getD min_index 0 := by
      rw [getD_append _ _ _ _ (by omega)]
    rw [heavykeepMinIndex, whole]
    split
    · next lower =>
        have started := @ih i (i + 1) (front ++ [node]) longer (by omega)
        rw [last] at started
        apply started
        intro other inside
        rcases mem_append.mp inside with before | here
        · exact BitVec.le_trans (BitVec.le_of_lt lower) (least other before)
        · rw [mem_singleton.mp here]
          exact BitVec.le_refl _
    next higher =>
      have started := @ih min_index (i + 1) (front ++ [node]) longer (by omega)
      rw [kept] at started
      apply started
      intro other inside
      rcases mem_append.mp inside with before | here
      · exact least other before
      · rw [mem_singleton.mp here]
        exact BitVec.not_lt.mp higher

/-- What becomes of a node: a node of its factor is in the result, there is room, or it may
take the place of a least node. -/
inductive Added (n : Nat) (hash : Nat → HeavykeepTopnNode Key) (nodes : List Nat) (node : Nat) :
    (Nat → HeavykeepTopnNode Key) × List Nat → Prop where
  | raised (node2 : Nat) : node2 ∈ nodes → (hash node).factor = (hash node2).factor →
      (hash node2).freq < (hash node).freq → Added n hash nodes node
        (update hash node2 { hash node2 with freq := (hash node).freq }, nodes)
  | present (node2 : Nat) : node2 ∈ nodes → (hash node).factor = (hash node2).factor →
      (hash node).freq ≤ (hash node2).freq → Added n hash nodes node (hash, nodes)
  | appended : (∀ node2 ∈ nodes, (hash node).factor ≠ (hash node2).factor) → nodes.length < n →
      Added n hash nodes node (hash, nodes ++ [node])
  | replaced (before after : List Nat) (least : Nat) : nodes = before ++ least :: after →
      (∀ node2 ∈ nodes, (hash node).factor ≠ (hash node2).factor) → n ≤ nodes.length →
      (∀ node2 ∈ nodes, (hash least).freq ≤ (hash node2).freq) →
      (hash least).freq < (hash node).freq → Added n hash nodes node (hash, before ++ node :: after)
  | refused : (∀ node2 ∈ nodes, (hash node).factor ≠ (hash node2).factor) → n ≤ nodes.length →
      (∀ node2 ∈ nodes, (hash node).freq ≤ (hash node2).freq) →
      Added n hash nodes node (hash, nodes)

theorem heavykeepTopnAddResult_added (positive : 0 < n) (hash : Nat → HeavykeepTopnNode Key)
    (nodes : List Nat) (node : Nat) :
    Added n hash nodes node (heavykeepTopnAddResult n hash nodes node) := by
  unfold heavykeepTopnAddResult
  split
  · next node2 found =>
      have inside := mem_of_find?_eq_some found
      have same : (hash node).factor = (hash node2).factor := by
        simpa using find?_some found
      split
      · next lower => exact .raised node2 inside same lower
      · next higher => exact .present node2 inside same (BitVec.not_lt.mp higher)
  next missing =>
    have apart : ∀ node2 ∈ nodes, (hash node).factor ≠ (hash node2).factor := by
      simpa using missing
    split
    · next room => exact .appended apart room
    next full =>
    cases nodes with
    | nil => exact absurd positive full
    | cons first rest =>
      obtain ⟨inside, least⟩ := heavykeepMinIndex_spec (i := 1) hash [first] rest rfl
        Nat.zero_lt_one
        (fun other here => by rw [mem_singleton.mp here]; exact BitVec.le_refl _)
      simp only [getD_cons_zero, singleton_append] at inside least
      let place := heavykeepMinIndex hash 0 (hash first).freq 1 rest
      have there : (first :: rest).getD place 0 = (first :: rest)[place] :=
        getD_eq_getElem _ _ inside
      have whole : first :: rest = (first :: rest).take place ++
          (first :: rest)[place] :: (first :: rest).drop (place + 1) := by
        rw [getElem_cons_drop, take_append_drop]
      simp only
      split
      · next lower =>
          rw [set_eq_take_append_cons_drop, if_pos inside]
          rw [there] at lower least
          exact .replaced _ _ _ whole apart (Nat.not_lt.mp full) least lower
      · next higher =>
          refine .refused apart (Nat.not_lt.mp full) fun node2 other => ?_
          exact BitVec.le_trans (BitVec.not_lt.mp higher) (least node2 other)

/-- The nodes before `k` that are not empty. -/
def Stored (start : Nat → HeavykeepTopnNode Key) (k i : Nat) : Prop :=
  i < k ∧ (start i).freq ≠ 0

/-- What the scan knows when it comes to position `k` of the table `start`. -/
structure ScanOk (n : Nat) (start : Nat → HeavykeepTopnNode Key) (k : Nat)
    (hash : Nat → HeavykeepTopnNode Key) (nodes : List Nat) : Prop where
  same : ∀ i, (hash i).factor = (start i).factor
  ahead : ∀ i, k ≤ i → hash i = start i
  stored : ∀ i ∈ nodes, Stored start k i
  apart : (nodes.map fun i => (start i).factor).Nodup
  room : nodes.length ≤ n
  most : ∀ i ∈ nodes, ∀ j, Stored start k j → (start j).factor = (start i).factor →
    (start j).freq ≤ (hash i).freq
  attained : ∀ i ∈ nodes, ∃ j, Stored start k j ∧ (start j).factor = (start i).factor ∧
    (hash i).freq = (start j).freq
  left : ∀ j, Stored start k j → (∀ i ∈ nodes, (start j).factor ≠ (start i).factor) →
    nodes.length = n ∧ ∀ i ∈ nodes, (start j).freq ≤ (hash i).freq

theorem Stored.next {i : Nat} (stored : Stored start k i) : Stored start (k + 1) i :=
  ⟨lt_succ_of_lt stored.1, stored.2⟩

theorem Stored.last {i : Nat} (stored : Stored start (k + 1) i) : i = k ∨ Stored start k i := by
  rcases Nat.lt_succ_iff_lt_or_eq.mp stored.1 with before | here
  · exact .inr ⟨before, stored.2⟩
  · exact .inl here

theorem ScanOk.empty (n : Nat) (start : Nat → HeavykeepTopnNode Key) : ScanOk n start 0 start
    [] where
  same _ := rfl
  ahead _ _ := rfl
  stored _ inside := absurd inside not_mem_nil
  apart := .nil
  room := zero_le n
  most _ inside := absurd inside not_mem_nil
  attained _ inside := absurd inside not_mem_nil
  left _ stored := absurd stored.1 (not_lt_zero _)

section

variable (ok : ScanOk n start k hash nodes)

include ok

/-- The node at position `k` changes nothing. -/
theorem ScanOk.keep (most : (start k).freq ≠ 0 → ∀ i ∈ nodes,
      (start k).factor = (start i).factor → (start k).freq ≤ (hash i).freq)
    (left : (start k).freq ≠ 0 → (∀ i ∈ nodes, (start k).factor ≠ (start i).factor) →
      nodes.length = n ∧ ∀ i ∈ nodes, (start k).freq ≤ (hash i).freq) :
    ScanOk n start (k + 1) hash nodes := by
  refine ⟨ok.same, fun i later => ok.ahead i (le_of_succ_le later),
    fun i member => (ok.stored i member).next, ok.apart, ok.room, ?_, ?_, ?_⟩
  · intro i member j stored same
    rcases stored.last with rfl | before
    · exact most stored.2 i member same
    · exact ok.most i member j before same
  · intro i member
    obtain ⟨j, stored, same, attained⟩ := ok.attained i member
    exact ⟨j, stored.next, same, attained⟩
  intro j stored missing
  rcases stored.last with rfl | before
  · exact left stored.2 missing
  · exact ok.left j before missing

theorem ScanOk.skip (empty : (start k).freq = 0) : ScanOk n start (k + 1) hash nodes :=
  ok.keep (absurd empty) (absurd empty)

theorem ScanOk.unmet (space : nodes.length < n) {j : Nat}
    (stored : Stored start k j) : ∃ i ∈ nodes, (start j).factor = (start i).factor := by
  by_contra missing
  have left := ok.left j stored fun i inside same => missing ⟨i, inside, same⟩
  omega

theorem ScanOk.met {node2 : Nat}
    (inside : node2 ∈ nodes) (factor : (hash k).factor = (hash node2).factor)
    (most : (start k).freq ≤ (hash node2).freq) : ScanOk n start (k + 1) hash nodes := by
  rw [ok.same, ok.same] at factor
  refine ok.keep (fun _ i member same => ?_) fun _ missing => absurd factor (missing node2 inside)
  have equal := inj_on_of_nodup_map ok.apart member inside (same.symm.trans factor)
  rw [equal]
  exact most

theorem ScanOk.raise (used : (start k).freq ≠ 0) {node2 : Nat} (inside : node2 ∈ nodes)
    (factor : (hash k).factor = (hash node2).factor) (lower : (hash node2).freq < (hash k).freq) :
    ScanOk n start (k + 1)
      (update hash node2 { hash node2 with freq := (hash k).freq }) nodes := by
  have here := ok.ahead k (Nat.le_refl k)
  have grown (i : Nat) : (hash i).freq ≤ ((update hash node2
      { hash node2 with freq := (hash k).freq }) i).freq := by
    by_cases same : i = node2
    · rw [same, update_self]
      exact BitVec.le_of_lt lower
    · rw [update_of_ne same]
      exact BitVec.le_refl _
  rw [ok.same, ok.same] at factor
  refine ⟨?_, ?_, fun i member => (ok.stored i member).next, ok.apart, ok.room, ?_, ?_, ?_⟩
  · intro i
    by_cases same : i = node2
    · rw [same, update_self]
      exact ok.same node2
    · rw [update_of_ne same]
      exact ok.same i
  · intro i later
    have apart : i ≠ node2 := by
      have before := (ok.stored node2 inside).1
      omega
    rw [update_of_ne apart]
    exact ok.ahead i (le_of_succ_le later)
  · intro i member j stored same
    rcases stored.last with rfl | before
    · have equal := inj_on_of_nodup_map ok.apart member inside (same.symm.trans factor)
      rw [equal, update_self, here]
      exact BitVec.le_refl _
    · exact BitVec.le_trans (ok.most i member j before same) (grown i)
  · intro i member
    by_cases same : i = node2
    · rw [same, update_self]
      have taken := congrArg HeavykeepTopnNode.freq here
      exact ⟨k, ⟨lt_succ_self k, used⟩, factor, taken⟩
    · rw [update_of_ne same]
      obtain ⟨j, stored, factorSame, attained⟩ := ok.attained i member
      exact ⟨j, stored.next, factorSame, attained⟩
  · intro j stored missing
    rcases stored.last with rfl | before
    · exact absurd factor (missing node2 inside)
    · obtain ⟨full, highest⟩ := ok.left j before missing
      exact ⟨full, fun i member => BitVec.le_trans (highest i member) (grown i)⟩

theorem ScanOk.append (used : (start k).freq ≠ 0)
    (missing : ∀ node2 ∈ nodes, (hash k).factor ≠ (hash node2).factor)
    (space : nodes.length < n) : ScanOk n start (k + 1) hash (nodes ++ [k]) := by
  have here := ok.ahead k (Nat.le_refl k)
  have apart : ∀ i ∈ nodes, (start k).factor ≠ (start i).factor := by
    intro i member
    rw [← ok.same, ← ok.same]
    exact missing i member
  have new {j : Nat} (stored : Stored start k j) : (start j).factor ≠ (start k).factor := by
    intro same
    obtain ⟨i, member, factor⟩ := ok.unmet space stored
    exact apart i member (same.symm.trans factor)
  refine ⟨ok.same, fun i later => ok.ahead i (le_of_succ_le later), ?_, ?_, ?_, ?_, ?_, ?_⟩
  · intro i member
    rcases mem_append.mp member with before | last
    · exact (ok.stored i before).next
    · rw [mem_singleton.mp last]
      exact ⟨lt_succ_self k, used⟩
  · rw [map_append, map_singleton, nodup_append_comm, singleton_append, nodup_cons]
    refine ⟨?_, ok.apart⟩
    intro member
    obtain ⟨i, inside, same⟩ := mem_map.mp member
    exact apart i inside same.symm
  · rw [length_append, length_singleton]
    exact space
  · intro i member j stored same
    rcases mem_append.mp member with before | last
    · rcases stored.last with rfl | earlier
      · exact absurd same (apart i before)
      · exact ok.most i before j earlier same
    rw [mem_singleton.mp last] at same ⊢
    rcases stored.last with rfl | earlier
    · rw [here]
      exact BitVec.le_refl _
    · exact absurd same (new earlier)
  · intro i member
    rcases mem_append.mp member with before | last
    · obtain ⟨j, stored, same, attained⟩ := ok.attained i before
      exact ⟨j, stored.next, same, attained⟩
    · rw [mem_singleton.mp last]
      exact ⟨k, ⟨lt_succ_self k, used⟩, rfl, congrArg HeavykeepTopnNode.freq here⟩
  · intro j stored absent
    rcases stored.last with rfl | before
    · exact absurd rfl (absent j (mem_append_right _ mem_cons_self))
    · obtain ⟨i, member, factor⟩ := ok.unmet space before
      exact absurd factor (absent i (mem_append_left _ member))

theorem ScanOk.refuse (missing : ∀ node2 ∈ nodes, (hash k).factor ≠ (hash node2).factor)
    (full : n ≤ nodes.length) (lowest : ∀ node2 ∈ nodes, (hash k).freq ≤ (hash node2).freq) :
    ScanOk n start (k + 1) hash nodes := by
  refine ok.keep (fun _ i member same => ?_) fun _ _ => ?_
  · rw [← ok.same, ← ok.same i] at same
    exact absurd same (missing i member)
  · rw [← ok.ahead k (Nat.le_refl k)]
    exact ⟨Nat.le_antisymm ok.room full, lowest⟩

end

theorem ScanOk.replace {before after : List Nat} {least : Nat}
    (ok : ScanOk n start k hash (before ++ least :: after)) (used : (start k).freq ≠ 0)
    (missing : ∀ node2 ∈ before ++ least :: after, (hash k).factor ≠ (hash node2).factor)
    (full : n ≤ (before ++ least :: after).length)
    (lowest : ∀ node2 ∈ before ++ least :: after, (hash least).freq ≤ (hash node2).freq)
    (higher : (hash least).freq < (hash k).freq) :
    ScanOk n start (k + 1) hash (before ++ k :: after) := by
  have here := ok.ahead k (Nat.le_refl k)
  have kept {i : Nat} (member : i ∈ before ++ k :: after) :
      i = k ∨ i ∈ before ++ least :: after := by
    simp only [mem_append, mem_cons] at member ⊢
    tauto
  have old {i : Nat} (member : i ∈ before ++ least :: after) :
      i = least ∨ i ∈ before ++ k :: after := by
    simp only [mem_append, mem_cons] at member ⊢
    tauto
  have apart : ∀ i ∈ before ++ least :: after, (start k).factor ≠ (start i).factor := by
    intro i member
    rw [← ok.same, ← ok.same i]
    exact missing i member
  have length : (before ++ k :: after).length = (before ++ least :: after).length := by
    simp
  have inside : least ∈ before ++ least :: after := mem_append_right _ mem_cons_self
  have below {j : Nat} (small : (start j).freq ≤ (hash least).freq) :
      ∀ i ∈ before ++ k :: after, (start j).freq ≤ (hash i).freq := by
    intro i member
    rcases kept member with rfl | stays
    · exact BitVec.le_trans small (BitVec.le_of_lt higher)
    · exact BitVec.le_trans small (lowest i stays)
  refine ⟨ok.same, fun i later => ok.ahead i (le_of_succ_le later), ?_, ?_, ?_, ?_, ?_, ?_⟩
  · intro i member
    rcases kept member with rfl | stays
    · exact ⟨lt_succ_self i, used⟩
    · exact (ok.stored i stays).next
  · have swapped : ((start k).factor :: (before ++ after).map fun i => (start i).factor).Nodup := by
      have nodup := ok.apart
      rw [map_append, map_cons, perm_middle.nodup_iff, ← map_append] at nodup
      refine nodup_cons.mpr ⟨?_, nodup.of_cons⟩
      intro member
      obtain ⟨i, there, same⟩ := mem_map.mp member
      refine apart i ?_ same.symm
      rw [mem_append] at there ⊢
      exact there.imp_right (mem_cons_of_mem _)
    rw [map_append, map_cons, perm_middle.nodup_iff, ← map_append]
    exact swapped
  · rw [length]
    exact ok.room
  · intro i member j stored same
    rcases kept member with rfl | stays
    · rcases stored.last with rfl | earlier
      · rw [here]
        exact BitVec.le_refl _
      · have left := (ok.left j earlier fun i member equal => apart i member (same.symm.trans equal)).2
        exact BitVec.le_trans (left least inside) (BitVec.le_of_lt higher)
    · rcases stored.last with rfl | earlier
      · exact absurd same (apart i stays)
      · exact ok.most i stays j earlier same
  · intro i member
    rcases kept member with rfl | stays
    · exact ⟨i, ⟨lt_succ_self i, used⟩, rfl, congrArg HeavykeepTopnNode.freq here⟩
    · obtain ⟨j, stored, same, attained⟩ := ok.attained i stays
      exact ⟨j, stored.next, same, attained⟩
  intro j stored absent
  refine ⟨length.trans (Nat.le_antisymm ok.room full), below ?_⟩
  rcases stored.last with rfl | earlier
  · exact absurd rfl (absent j (mem_append_right _ mem_cons_self))
  by_cases dropped : (start j).factor = (start least).factor
  · exact ok.most least inside j earlier dropped
  refine (ok.left j earlier fun i member => ?_).2 least inside
  rcases old member with rfl | stays
  · exact dropped
  · exact absent i stays

theorem ScanOk.scan (positive : 0 < n) (ok : ScanOk n start k hash nodes) :
    ScanOk n start (k + 1) (heavykeepTopnScan n (hash, nodes) k).1
      (heavykeepTopnScan n (hash, nodes) k).2 := by
  have here := ok.ahead k (Nat.le_refl k)
  rw [heavykeepTopnScan]
  simp only [here]
  by_cases empty : (start k).freq = 0
  · rw [if_pos empty]
    exact ok.skip empty
  rw [if_neg empty]
  have added := heavykeepTopnAddResult_added positive hash nodes k
  generalize heavykeepTopnAddResult n hash nodes k = result at added
  cases added with
  | raised _ inside factor lower => exact ok.raise empty inside factor lower
  | present _ inside factor most =>
    rw [here] at most
    exact ok.met inside factor most
  | appended missing space => exact ok.append empty missing space
  | replaced _ _ _ whole missing full lowest higher =>
    subst whole
    exact ok.replace empty missing full lowest higher
  | refused missing full lowest => exact ok.refuse missing full lowest

/-- The scan of the first positions of a table. -/
def scanned (n : Nat) (start : Nat → HeavykeepTopnNode Key) (k : Nat) :
    (Nat → HeavykeepTopnNode Key) × List Nat :=
  (List.range k).foldl (heavykeepTopnScan n) (start, [])

theorem scanned_succ (n : Nat) (start : Nat → HeavykeepTopnNode Key) (k : Nat) :
    scanned n start (k + 1) = heavykeepTopnScan n (scanned n start k) k := by
  rw [scanned, range_succ, foldl_append]
  rfl

theorem scanned_ok (positive : 0 < n) (start : Nat → HeavykeepTopnNode Key) (k : Nat) :
    ScanOk n start k (scanned n start k).1 (scanned n start k).2 := by
  induction k with
  | zero => exact .empty n start
  | succ _ ih =>
    rw [scanned_succ]
    exact ih.scan positive

/-- The factors that the table holds, each once. -/
def storedFactors (start : Nat → HeavykeepTopnNode Key) (k : Nat) : List UINT :=
  (((List.range k).filter fun i => (start i).freq ≠ 0).map fun i => (start i).factor).dedup

theorem mem_storedFactors {factor : UINT} :
    factor ∈ storedFactors start k ↔ ∃ i, Stored start k i ∧ (start i).factor = factor := by
  simp only [storedFactors, mem_dedup, mem_map, mem_filter, mem_range, decide_eq_true_iff]
  rfl

/-- One node for each of the factors with the highest counts. -/
structure Highest (n : Nat) (start : Nat → HeavykeepTopnNode Key) (k : Nat) (nodes : List Nat) :
    Prop where
  length : nodes.length = min n (storedFactors start k).length
  stored : ∀ i ∈ nodes, Stored start k i
  apart : (nodes.map fun i => (start i).factor).Nodup
  highest : ∀ j, Stored start k j → (∀ i ∈ nodes, (start j).factor ≠ (start i).factor) →
    ∀ i ∈ nodes, ∃ p, Stored start k p ∧ (start p).factor = (start i).factor ∧
      (start j).freq ≤ (start p).freq

theorem ScanOk.highest (ok : ScanOk n start k hash nodes) : Highest n start k nodes := by
  refine ⟨?_, ok.stored, ok.apart, ?_⟩
  · have some : nodes.map (fun i => (start i).factor) ⊆ storedFactors start k := by
      intro factor member
      obtain ⟨i, inside, same⟩ := mem_map.mp member
      exact mem_storedFactors.mpr ⟨i, ok.stored i inside, same⟩
    have less := (subperm_of_subset ok.apart some).length_le
    rw [length_map] at less
    by_cases space : nodes.length < n
    · have all : storedFactors start k ⊆ nodes.map fun i => (start i).factor := by
        intro factor member
        obtain ⟨_, stored, same⟩ := mem_storedFactors.mp member
        obtain ⟨i, inside, equal⟩ := ok.unmet space stored
        exact mem_map.mpr ⟨i, inside, equal.symm.trans same⟩
      have more := (subperm_of_subset (nodup_dedup _) all).length_le
      rw [length_map] at more
      change (storedFactors start k).length ≤ _ at more
      omega
    · have room := ok.room
      omega
  · intro j stored missing i inside
    obtain ⟨p, there, same, attained⟩ := ok.attained i inside
    refine ⟨p, there, same, ?_⟩
    rw [← attained]
    exact (ok.left j stored missing).2 i inside

def IsFirst (start : Nat → HeavykeepTopnNode Key) (i : Nat) : Prop :=
  ∀ p, Stored start i p → (start p).factor ≠ (start i).factor

/-- The first node of a factor has its highest count. -/
def FirstsHighest (start : Nat → HeavykeepTopnNode Key) (k : Nat) : Prop :=
  ∀ i j, Stored start j i → Stored start k j → IsFirst start i →
    (start j).factor = (start i).factor → (start j).freq ≤ (start i).freq

theorem exists_first {j : Nat} (used : (start j).freq ≠ 0) :
    ∃ i, i ≤ j ∧ (start i).freq ≠ 0 ∧ IsFirst start i ∧ (start j).factor = (start i).factor := by
  induction j using Nat.strongRecOn with
  | ind j ih =>
    by_cases first : IsFirst start j
    · exact ⟨j, Nat.le_refl j, used, first, rfl⟩
    rw [IsFirst] at first
    push Not at first
    obtain ⟨p, stored, same⟩ := first
    obtain ⟨i, _, there, isFirst, factor⟩ := ih p stored.1 stored.2
    exact ⟨i, by have earlier := stored.1; omega, there, isFirst, same.symm.trans factor⟩

theorem ScanOk.length_le (ok : ScanOk n start k hash nodes) : nodes.length ≤ k := by
  have positions : nodes ⊆ range k := fun i inside => mem_range.mpr (ok.stored i inside).1
  have less := (subperm_of_subset ok.apart.of_map positions).length_le
  rw [length_range] at less
  exact less

theorem ScanOk.appended_first (ok : ScanOk n start k hash nodes)
    (missing : ∀ node2 ∈ nodes, (hash k).factor ≠ (hash node2).factor)
    (space : nodes.length < n) : IsFirst start k := by
  intro p stored same
  obtain ⟨i, inside, equal⟩ := ok.unmet space stored
  refine missing i inside ?_
  rw [ok.same, ok.same, ← same]
  exact equal

theorem scanned_unchanged (positive : 0 < n) {size : Nat} (firsts : FirstsHighest start size)
    (k : Nat) (upTo : k ≤ size) :
    (scanned n start k).1 = start ∧ ∀ i ∈ (scanned n start k).2, IsFirst start i := by
  induction k with
  | zero => exact ⟨rfl, nofun⟩
  | succ k ih =>
    obtain ⟨same, first⟩ := ih (le_of_succ_le upTo)
    have ok := scanned_ok positive start k
    rw [scanned_succ, heavykeepTopnScan]
    rw [same] at ok ⊢
    by_cases empty : (start k).freq = 0
    · rw [if_pos empty]
      exact ⟨same, first⟩
    have here : Stored start size k := ⟨upTo, empty⟩
    rw [if_neg empty]
    have added := heavykeepTopnAddResult_added positive start (scanned n start k).2 k
    generalize heavykeepTopnAddResult n start (scanned n start k).2 k = result at added
    cases added with
    | raised node2 inside factor lower =>
      have most := firsts node2 k (ok.stored node2 inside) here (first node2 inside) factor
      exact absurd lower (BitVec.not_lt.mpr most)
    | present => exact ⟨rfl, first⟩
    | appended missing space =>
      refine ⟨rfl, fun i inside => ?_⟩
      rcases mem_append.mp inside with before | last
      · exact first i before
      · rw [mem_singleton.mp last]
        exact ok.appended_first missing space
    | replaced _ _ least whole missing _ _ higher =>
      refine ⟨rfl, fun i inside => ?_⟩
      rw [whole] at first
      rcases mem_append.mp inside with front | back
      · exact first i (mem_append_left _ front)
      rcases mem_cons.mp back with last | rear
      · -- an earlier node of the factor would still be in the result
        rw [last]
        intro p stored factor
        obtain ⟨q, upToP, used, isFirst, equal⟩ := exists_first stored.2
        have early : Stored start k q := ⟨Nat.lt_of_le_of_lt upToP stored.1, used⟩
        have own := factor.symm.trans equal
        have left := (ok.left q early fun i member same =>
          missing i member (own.trans same)).2 least
            (whole ▸ mem_append_right _ mem_cons_self)
        have most := firsts q k early here isFirst own
        exact absurd higher (BitVec.not_lt.mpr (BitVec.le_trans most left))
      · exact first i (mem_append_right _ (.tail _ rear))
    | refused => exact ⟨rfl, first⟩

theorem scanned_first (room : k < n) : ∀ i ∈ (scanned n start k).2, IsFirst start i := by
  have positive := zero_lt_of_lt room
  induction k with
  | zero => exact nofun
  | succ k ih =>
    have first := ih (lt_of_succ_lt room)
    have ok := scanned_ok positive start k
    have space : (scanned n start k).2.length < n := by
      have length := ok.length_le
      omega
    rw [scanned_succ, heavykeepTopnScan]
    split
    · exact first
    have added := heavykeepTopnAddResult_added positive (scanned n start k).1
      (scanned n start k).2 k
    generalize heavykeepTopnAddResult n (scanned n start k).1 (scanned n start k).2 k = result
      at added
    cases added with
    | raised => exact first
    | present => exact first
    | appended missing =>
      intro i inside
      rcases mem_append.mp inside with before | last
      · exact first i before
      · rw [mem_singleton.mp last]
        exact ok.appended_first missing space
    | replaced _ _ _ _ _ full => exact absurd space (Nat.not_lt.mpr full)
    | refused => exact first

theorem get_unchanged_iff (topn : HeavykeepTopn Key) :
    (∀ n, 0 < n → (heavykeepTopnGet n topn).1 = topn.hash) ↔
      FirstsHighest topn.hash topn.hash_size.toNat := by
  constructor
  · intro unchanged i j stored later isFirst factor
    have room : topn.hash_size.toNat < topn.hash_size.toNat + 1 := lt_succ_self _
    have same : (scanned (topn.hash_size.toNat + 1) topn.hash topn.hash_size.toNat).1 =
        topn.hash := unchanged _ (succ_pos _)
    have ok := scanned_ok (zero_lt_of_lt room) topn.hash topn.hash_size.toNat
    rw [same] at ok
    have before : Stored topn.hash topn.hash_size.toNat i :=
      ⟨Nat.lt_trans stored.1 later.1, stored.2⟩
    obtain ⟨node, inside, equal⟩ := ok.unmet (lt_succ_of_le ok.length_le) before
    have first := scanned_first room node inside
    have here : node = i := by
      rcases Nat.lt_trichotomy node i with earlier | here | after
      · exact absurd equal.symm (isFirst node ⟨earlier, (ok.stored node inside).2⟩)
      · exact here
      · exact absurd equal (first i ⟨after, before.2⟩)
    rw [here] at inside
    exact ok.most i inside j later factor
  · intro firsts n positive
    exact (scanned_unchanged positive firsts topn.hash_size.toNat (Nat.le_refl _)).1

def factorCall (hash_factor : UINT) : ScoreCall Unit :=
  ⟨fun _ => 0, (), hash_factor, 1⟩

end MyCode.HeavyKeep
