import Mathlib.Data.List.Basic

/-!
# Linked lists

The nodes of a list in the order of their links, and what a change of one link
does to it.
-/

namespace MyCode.Lib

open List Option Function

universe u

variable {Node : Type u} {next other : Node → Option Node} {head : Option Node} {node : Node}
  {nodes : List Node}

def Linked (next : Node → Option Node) : Option Node → List Node → Prop
  | head, [] => head = none
  | head, node :: rest => head = some node ∧ Linked next (next node) rest

namespace Linked

variable (linked : Linked next head nodes)

section

include linked

theorem unique {others : List Node} (again : Linked next head others) : nodes = others := by
  induction nodes generalizing head others with
  | nil =>
    cases others with
    | nil => rfl
    | cons node => exact absurd (linked.symm.trans again.1) (some_ne_none node).symm
  | cons node _ ih =>
    cases others with
    | nil => exact absurd (again.symm.trans linked.1) (some_ne_none node).symm
    | cons first =>
      obtain rfl : node = first := Option.some.inj (linked.1.symm.trans again.1)
      rw [ih linked.2 again.2]

theorem eq_nil_iff : nodes = [] ↔ head = none := by
  cases nodes with
  | nil => exact iff_of_true rfl linked
  | cons => simp [linked.1]

theorem congr (same : ∀ node ∈ nodes, other node = next node) : Linked other head nodes := by
  induction nodes generalizing head with
  | nil => exact linked
  | cons node _ ih =>
    refine ⟨linked.1, ?_⟩
    rw [same node mem_cons_self]
    exact ih linked.2 fun later inside => same later (.tail _ inside)

theorem update [DecidableEq Node] (outside : node ∉ nodes)
    (link : Option Node) : Linked (Function.update next node link) head nodes :=
  linked.congr fun _ inside => update_of_ne (ne_of_mem_of_not_mem inside outside) _ _

theorem push [DecidableEq Node] (outside : node ∉ nodes) :
    Linked (Function.update next node head) (some node) (node :: nodes) := by
  refine ⟨rfl, ?_⟩
  rw [update_self]
  exact linked.update outside head

end

theorem pop (linked : Linked next (some node) nodes) :
    ∃ rest, nodes = node :: rest ∧ Linked next (next node) rest := by
  cases nodes with
  | nil => exact absurd linked (some_ne_none node)
  | cons first rest =>
    obtain rfl : node = first := Option.some.inj linked.1
    exact ⟨rest, rfl, linked.2⟩

end Linked

universe v

variable {Index : Type v} {heads : Index → Option Node} {owns : Node → Prop}
  {home : Node → Index} {lists : Index → List Node} {index : Index}

/-- Each node that is owned stands once, in the list of its home. -/
structure LinkedFamily (next : Node → Option Node) (heads : Index → Option Node)
    (owns : Node → Prop) (home : Node → Index) (lists : Index → List Node) : Prop where
  linked : ∀ index, Linked next (heads index) (lists index)
  nodup : ∀ index, (lists index).Nodup
  mem : ∀ index node, node ∈ lists index ↔ owns node ∧ home node = index

namespace LinkedFamily

theorem start (next : Node → Option Node) (home : Node → Index) :
    LinkedFamily next (fun _ => none) (fun _ => False) home fun _ => [] :=
  ⟨fun _ => rfl, fun _ => .nil, fun _ _ => iff_of_false not_mem_nil fun both => both.1⟩

section

variable (family : LinkedFamily next heads owns home lists)

include family

theorem head_eq_none_iff (index : Index) :
    heads index = none ↔ ∀ node, owns node → home node ≠ index := by
  rw [← (family.linked index).eq_nil_iff, eq_nil_iff_forall_not_mem]
  apply forall_congr'
  intro node
  rw [family.mem, not_and]

theorem head_owns (first : heads index = some node) : owns node ∧ home node = index := by
  have linked := family.linked index
  rw [first] at linked
  obtain ⟨_, whole, _⟩ := linked.pop
  exact (family.mem index node).mp (whole ▸ mem_cons_self)

theorem congr {others : Node → Prop} {homes : Node → Index}
    (owned : ∀ node, others node ↔ owns node) (same : ∀ node, owns node → homes node = home node) :
    LinkedFamily next heads others homes lists := by
  refine ⟨family.linked, family.nodup, ?_⟩
  intro index node
  rw [family.mem, owned]
  exact and_congr_right fun here => by rw [same node here]

end

variable [DecidableEq Node] [DecidableEq Index]

theorem place (family : LinkedFamily next heads owns home lists) (outside : ¬owns node)
    (index : Index) :
    LinkedFamily (Function.update next node (heads index))
      (Function.update heads index (some node)) (fun other => owns other ∨ other = node)
      (Function.update home node index)
      (Function.update lists index (node :: lists index)) := by
  have fresh (other : Index) : node ∉ lists other :=
    fun member => outside ((family.mem other node).mp member).1
  constructor
  · intro other
    by_cases same : other = index
    · rw [same, update_self, update_self]
      exact (family.linked index).push (fresh index)
    · rw [update_of_ne same, update_of_ne same]
      exact (family.linked other).update (fresh other) _
  · intro other
    by_cases same : other = index
    · rw [same, update_self]
      exact nodup_cons.mpr ⟨fresh index, family.nodup index⟩
    · rw [update_of_ne same]
      exact family.nodup other
  intro other member
  by_cases new : member = node
  · rw [new, update_self]
    by_cases same : other = index
    · rw [same, update_self]
      simp
    · rw [update_of_ne same]
      exact iff_of_false (fresh other) fun both => same both.2.symm
  · rw [update_of_ne new, or_iff_left new, ← family.mem]
    by_cases same : other = index
    · rw [same, update_self, mem_cons, or_iff_right new]
    · rw [update_of_ne same]

omit [DecidableEq Node] in
theorem take (family : LinkedFamily next heads owns home lists) (first : heads index = some node) :
    LinkedFamily next (Function.update heads index (next node))
      (fun other => owns other ∧ other ≠ node) home
      (Function.update lists index (lists index).tail) := by
  have linked := family.linked index
  rw [first] at linked
  obtain ⟨_, whole, behind⟩ := linked.pop
  have nodup := family.nodup index
  rw [whole] at nodup
  have owned := family.head_owns first
  constructor
  · intro other
    by_cases same : other = index
    · rw [same, update_self, update_self, whole, tail_cons]
      exact behind
    · rw [update_of_ne same, update_of_ne same]
      exact family.linked other
  · intro other
    by_cases same : other = index
    · rw [same, update_self, whole, tail_cons]
      exact nodup.of_cons
    · rw [update_of_ne same]
      exact family.nodup other
  intro other member
  by_cases same : other = index
  · have old := family.mem index member
    rw [whole, mem_cons] at old
    rw [same, update_self, whole, tail_cons, and_right_comm, ← old]
    constructor
    · intro inside
      exact ⟨.inr inside, fun equal => (nodup_cons.mp nodup).1 (equal ▸ inside)⟩
    rintro ⟨equal | inside, apart⟩
    · exact absurd equal apart
    · exact inside
  · rw [update_of_ne same, family.mem, and_right_comm]
    refine (and_iff_left_of_imp ?_).symm
    rintro ⟨_, there⟩ rfl
    exact same (there.symm.trans owned.2)

end LinkedFamily

end MyCode.Lib
