import MyCode.Lib.Transition
import MyCode.RbTree.Search

/-!
# Runs of a red-black tree

The caller puts a key into its node before an insertion.  `_rbtree_insert` attaches a node
on the side of the comparison before the last one, so that the tree stays sorted only
where the two agree.
-/

namespace MyCode.RbTree

open MyCode.Lib MyCode.Lib.BinTree Function List Option

variable {Key : Type} {side : Side} {color : Color} {y : Nat} {far : BinTree Color Nat}
  {rest : List (Frame Color Nat)}

structure IsOrder (cmp : Key → Key → Int) : Prop where
  eq : ∀ first second, cmp first second = 0 ↔ first = second
  flip : ∀ first second, cmp first second < 0 ↔ 0 < cmp second first
  trans : ∀ first second third, cmp first second < 0 → cmp second third < 0 → cmp first third < 0

structure RbRun (Key : Type) where
  tree : RbTreeCtrl
  /-- The keys that the caller keeps in its nodes. -/
  keyOf : Nat → Key
  /-- The keys that were inserted and not deleted, with their nodes. -/
  entries : Key → Option Nat

inductive RbCall (Key : Type) where
  | insert (node : Nat) (key : Key)
  | del (key : Key)
  | delNode (node : Nat)

/-- A node is inserted when it is not in the tree, and deleted when it is. -/
def RbCall.Enabled (run : RbRun Key) : RbCall Key → Prop
  | insert address _ => ∀ key, run.entries key ≠ some address
  | del _ => True
  | delNode address => ∃ key, run.entries key = some address

variable [DecidableEq Key]

def rbNext (cmp : Key → Key → Int) (turns : Nat) (run : RbRun Key) : RbCall Key → Option (RbRun Key)
  | .insert address key => do
      let keyOf := update run.keyOf address key
      let (tree, status) ← rbtreeInsert turns run.tree address fun other => cmp key (keyOf other)
      some ⟨tree, keyOf,
        if status = .ok then update run.entries key (some address) else run.entries⟩
  | .del key => do
      let (tree, _) ← rbtreeDel turns run.tree fun other => cmp key (run.keyOf other)
      some ⟨tree, run.keyOf, update run.entries key none⟩
  | .delNode address => do
      let tree ← rbtreeDelNode turns run.tree address
      some ⟨tree, run.keyOf, update run.entries (run.keyOf address) none⟩

/-- The loops of a call end with some number of turns. -/
def rbSystem (cmp : Key → Key → Int) : Lib.System (RbRun Key) (RbCall Key) where
  start run := run.tree.root = none ∧ run.entries = fun _ => none
  step run call after := call.Enabled run ∧ ∃ turns, rbNext cmp turns run call = some after

/-- The tree is a sorted red-black tree with links in both directions, and holds the keys
that were inserted and not deleted. -/
def RbSound (cmp : Key → Key → Int) (run : RbRun Key) : Prop :=
  ∃ whole height, run.tree.At [] whole ∧ IsRb .black height whole ∧
    (whole.inorder.Pairwise fun first second => cmp (run.keyOf first) (run.keyOf second) < 0) ∧
    ∀ key node, run.entries key = some node ↔ node ∈ whole.inorder ∧ run.keyOf node = key

/-- A key that is not in the tree belongs on a free side of `y`, its neighbour. -/
structure RbBelongs (cmp : Key → Key → Int) (run : RbRun Key) (key : Key) (y : Nat) (side : Side) : Prop where
  absent : run.entries key = none
  inTree : run.entries (run.keyOf y) = some y
  free : (run.tree.node y).child side = none
  neighbour : match side with
    | .left => cmp key (run.keyOf y) < 0 ∧ ∀ other node, run.entries other = some node →
        cmp key other < 0 → cmp other (run.keyOf y) < 0 → False
    | .right => 0 < cmp key (run.keyOf y) ∧ ∀ other node, run.entries other = some node →
        0 < cmp key other → 0 < cmp other (run.keyOf y) → False

/-- A key belongs on the side of `y` on which `y` is of its own parent, and on the right of
a root. -/
def RbAgrees (cmp : Key → Key → Int) (run : RbRun Key) : RbCall Key → Prop
  | .insert _ key => ∀ y side, RbBelongs cmp run key y side →
      match (run.tree.node y).parent with
      | none => side = .right
      | some parent => (run.tree.node parent).child side = some y
  | _ => True

section Order

variable {cmp : Key → Key → Int} {keyOf : Nat → Key} {order : List Nat} (isOrder : IsOrder cmp)

include isOrder

omit [DecidableEq Key] in
theorem IsOrder.guides
    (sorted : order.Pairwise fun first second => cmp (keyOf first) (keyOf second) < 0) (key : Key) :
    Guides (fun node => cmp key (keyOf node)) order := by
  apply sorted.imp
  intro first second less
  constructor
  · intro atMost
    rcases Int.lt_or_eq_of_le atMost with below | same
    · exact isOrder.trans _ _ _ below less
    · rw [(isOrder.eq _ _).mp same]
      exact less
  intro atLeast
  rcases Int.lt_or_eq_of_le atLeast with above | same
  · rw [← isOrder.flip] at above ⊢
    exact isOrder.trans _ _ _ less above
  · rw [(isOrder.eq _ _).mp same.symm, ← isOrder.flip]
    exact less

omit [DecidableEq Key] in
theorem IsOrder.self (key : Key) : cmp key key = 0 := (isOrder.eq key key).mpr rfl

end Order

section Insert

variable {cmp : Key → Key → Int} {run : RbRun Key} {address : Nat} {key : Key}
  {place : List (Frame Color Nat)} {tree : RbTreeCtrl} {order : List Nat}

theorem RbTreeCtrl.At.attach (placed : tree.At place .nil) (outside : address ∉ around place)
    (isSide : ∀ frame rest, place = frame :: rest → side = frame.side) :
    (match above place with
      | some y => (tree.write address fun _ => ⟨.red, none, none, above place⟩).setChild y side (some address)
      | none => { tree.write address fun _ => ⟨.red, none, none, above place⟩ with root := some address }).At
      place (.node .red address .nil .nil) := by
  have surrounds : (tree.write address fun _ => ⟨.red, none, none, above place⟩).Surrounds place none :=
    placed.surrounds.write outside
  have written : (tree.write address fun _ => ⟨.red, none, none, above place⟩).node address =
      ⟨.red, none, none, above place⟩ := RbTreeCtrl.write_self
  have aroundNodup : (around place).Nodup := placed.nodup
  have nodup := nodup_cons.mpr ⟨outside, placed.nodup⟩
  cases place with
  | nil => exact ⟨rfl, ⟨written, trivial, trivial⟩, nodup⟩
  | cons frame rest =>
    obtain rfl := isSide frame rest rfl
    obtain ⟨_, _, y, _⟩ := frame
    obtain ⟨isNode, farHolds, restSurrounds⟩ := surrounds
    rw [around, cons_append, nodup_cons, mem_append, not_or] at aroundNodup
    obtain ⟨⟨notFar, notRest⟩, -⟩ := aroundNodup
    have differs : address ≠ y := by
      rintro rfl
      exact outside mem_cons_self
    refine ⟨⟨RbTreeCtrl.setChild_near_self isNode, farHolds.write notFar, restSurrounds.write notRest⟩,
      ⟨(RbTreeCtrl.write_of_ne differs).trans written, trivial, trivial⟩, nodup⟩

omit [DecidableEq Key] in
theorem belongs_of_place (isOrder : IsOrder cmp) {whole : BinTree Color Nat}
    (placed : run.tree.At (⟨side, color, y, far⟩ :: rest) .nil)
    (isWhole : plug (⟨side, color, y, far⟩ :: rest) .nil = whole)
    (sorted : whole.inorder.Pairwise fun first second => cmp (run.keyOf first) (run.keyOf second) < 0)
    (entries : ∀ key node, run.entries key = some node ↔ node ∈ whole.inorder ∧ run.keyOf node = key)
    (divides : Divides (fun node => cmp key (run.keyOf node)) (⟨side, color, y, far⟩ :: rest)) :
    RbBelongs cmp run key y side := by
  have order : whole.inorder = before (⟨side, color, y, far⟩ :: rest) ++
      BinTree.after (⟨side, color, y, far⟩ :: rest) := by
    rw [← isWhole, inorder_plug]
    simp [inorder]
  have members {node : Nat} : node ∈ whole.inorder ↔ node ∈ before (⟨side, color, y, far⟩ :: rest) ∨
      node ∈ BinTree.after (⟨side, color, y, far⟩ :: rest) := by
    rw [order, mem_append]
  have inside : y ∈ whole.inorder := by
    rw [← isWhole]
    exact (inorder_plug_perm _ _).mem_iff.mpr (by simp [around])
  refine ⟨?_, (entries _ _).mpr ⟨inside, rfl⟩, ?_, ?_⟩
  · cases present : run.entries key with
    | none => rfl
    | some node =>
      obtain ⟨inWhole, isKey⟩ := (entries key node).mp present
      have same : cmp key (run.keyOf node) = 0 := by rw [isKey, isOrder.self]
      rcases members.mp inWhole with isBefore | isAfter
      · exact absurd (divides.before node isBefore) (by omega)
      · exact absurd (divides.after node isAfter) (by omega)
  · rw [placed.surrounds.1, record_near]
    rfl
  cases side with
  | left =>
    refine ⟨divides.after y (by simp [BinTree.after]), fun other node isNode less between => ?_⟩
    obtain ⟨inWhole, rfl⟩ := (entries other node).mp isNode
    rcases members.mp inWhole with isBefore | isAfter
    · exact absurd (divides.before node isBefore) (by omega)
    -- `y` is the first one after the place.
    rw [order] at sorted
    have later := (pairwise_append.mp sorted).2.1
    rcases mem_cons.mp isAfter with rfl | inRest
    · have same := isOrder.self (run.keyOf node)
      omega
    have least := (pairwise_cons.mp later).1 node inRest
    rw [isOrder.flip] at least
    omega
  | right =>
    refine ⟨divides.before y (by simp [BinTree.before]), fun other node isNode greater between => ?_⟩
    obtain ⟨inWhole, rfl⟩ := (entries other node).mp isNode
    rcases members.mp inWhole with isBefore | isAfter
    · -- `y` is the last one before the place.
      rw [order] at sorted
      have earlier := (pairwise_append.mp sorted).1
      rcases mem_append.mp isBefore with inRest | isLast
      · have greatest := (pairwise_append.mp earlier).2.2 node inRest y (mem_singleton.mpr rfl)
        omega
      obtain rfl := mem_singleton.mp isLast
      have same := isOrder.self (run.keyOf node)
      omega
    · exact absurd (divides.after node isAfter) (by omega)

omit [DecidableEq Key] in
theorem side_of_agrees {ret : Int} (placed : run.tree.At (⟨side, color, y, far⟩ :: rest) .nil)
    (lastButOne : ret < 0 ↔ sideOf rest = some .left)
    (agrees : match (run.tree.node y).parent with | none => side = .right | some parent => (run.tree.node parent).child side = some y) :
    (if ret < 0 then Side.left else .right) = side := by
  have isParent : (run.tree.node y).parent = above rest := by rw [placed.surrounds.1, record_parent]
  rw [isParent] at agrees
  cases rest with
  | nil =>
    have notLeft : ¬ ret < 0 := fun less => nomatch lastButOne.mp less
    rw [if_neg notLeft]
    exact agrees.symm
  | cons upper =>
    obtain ⟨upperSide, _, z, _⟩ := upper
    have upperThere := placed.up.up
    have isChild : (run.tree.node z).child side = some y := agrees
    have sameSide : side = upperSide := by
      by_contra differs
      obtain rfl : side = upperSide.other := by
        cases side <;> cases upperSide <;> first | rfl | exact absurd rfl differs
      rw [upperThere.node, record_far] at isChild
      apply upperThere.apart.nearFar _ (mem_of_link isChild)
      exact (inorder_mk_perm _ _ _ _ _).mem_iff.mpr mem_cons_self
    rw [sameSide]
    cases upperSide with
    | left => rw [if_pos (lastButOne.mpr rfl)]
    | right =>
      have notLeft : ¬ ret < 0 := fun less => nomatch lastButOne.mp less
      rw [if_neg notLeft]

omit [DecidableEq Key] in
theorem pairwise_update (outside : address ∉ order)
    (sorted : order.Pairwise fun first second => cmp (run.keyOf first) (run.keyOf second) < 0) :
    order.Pairwise fun first second => cmp (update run.keyOf address key first)
      (update run.keyOf address key second) < 0 := by
  apply sorted.imp_of_mem
  intro first second firstInside secondInside less
  rw [update_of_ne (ne_of_mem_of_not_mem firstInside outside),
    update_of_ne (ne_of_mem_of_not_mem secondInside outside)]
  exact less

section Entered

variable {keyOf : Nat → Key} {earlier later : List Nat} {entries : Key → Option Nat}
  (isOrder : IsOrder cmp) (self : keyOf address = key)
  (isEarlier : ∀ node ∈ earlier, 0 < cmp key (keyOf node)) (isLater : ∀ node ∈ later, cmp key (keyOf node) < 0)

include isOrder self isEarlier isLater

omit [DecidableEq Key] in
theorem entered_sorted
    (sorted : (earlier ++ later).Pairwise fun first second => cmp (keyOf first) (keyOf second) < 0) :
    (earlier ++ address :: later).Pairwise fun first second => cmp (keyOf first) (keyOf second) < 0 := by
  obtain ⟨earlierSorted, laterSorted, apart⟩ := pairwise_append.mp sorted
  refine pairwise_append.mpr ⟨earlierSorted, pairwise_cons.mpr ⟨?_, laterSorted⟩, ?_⟩
  · intro other inLater
    rw [self]
    exact isLater other inLater
  intro first inEarlier second inRest
  rcases mem_cons.mp inRest with rfl | inLater
  · rw [self, isOrder.flip]
    exact isEarlier first inEarlier
  · exact apart first inEarlier second inLater

theorem entered_entries
    (present : ∀ other node, entries other = some node ↔ node ∈ earlier ++ later ∧ keyOf node = other)
    (other : Key) (node : Nat) :
    update entries key (some address) other = some node ↔
      node ∈ earlier ++ address :: later ∧ keyOf node = other := by
  rw [mem_append, mem_cons]
  by_cases same : other = key
  · rw [same, update_self]
    constructor
    · rintro ⟨rfl⟩
      exact ⟨.inr (.inl rfl), self⟩
    rintro ⟨inside, isKey⟩
    have zero : cmp key (keyOf node) = 0 := by rw [isKey, isOrder.self]
    rcases inside with inEarlier | rfl | inLater
    · exact absurd (isEarlier node inEarlier) (by omega)
    · rfl
    · exact absurd (isLater node inLater) (by omega)
  rw [update_of_ne same, present, mem_append]
  constructor
  · rintro ⟨inside, isKey⟩
    exact ⟨inside.imp_right .inr, isKey⟩
  rintro ⟨inEarlier | rfl | inLater, isKey⟩
  · exact ⟨.inl inEarlier, isKey⟩
  · exact absurd (isKey.symm.trans self) same
  · exact ⟨.inr inLater, isKey⟩

end Entered

theorem RbSound.insert (isOrder : IsOrder cmp) (sound : RbSound cmp run)
    (enabled : (RbCall.insert address key).Enabled run) (agrees : RbAgrees cmp run (.insert address key)) :
    ∃ turns after, rbNext cmp turns run (.insert address key) = some after ∧ RbSound cmp after := by
  obtain ⟨whole, height, there, ok, sorted, entries⟩ := sound
  have outside : address ∉ whole.inorder := fun inside =>
    enabled (run.keyOf address) ((entries _ _).mpr ⟨inside, rfl⟩)
  let keyOf := update run.keyOf address key
  have kept {node : Nat} (inside : node ∈ whole.inorder) : keyOf node = run.keyOf node :=
    update_of_ne (ne_of_mem_of_not_mem inside outside) _ _
  have sortedAfter : whole.inorder.Pairwise fun first second => cmp (keyOf first) (keyOf second) < 0 :=
    pairwise_update outside sorted
  have present : ∀ other node, run.entries other = some node ↔ node ∈ whole.inorder ∧ keyOf node = other := by
    intro other node
    rw [entries]
    exact and_congr_right fun inside => by rw [kept inside]
  have guides := isOrder.guides sortedAfter key
  have isRoot := there.surrounds
  have nowhere : Divides (fun other => cmp key (keyOf other)) [] := ⟨nofun, nofun⟩
  have atStart : (0 : Int) < 0 ↔ sideOf [] = some .left := by simp [sideOf]
  rcases rbtreeInsertWalk_ends there.holds guides nowhere atStart atStart
    (Nat.lt_add_of_pos_right (Nat.two_pos)) with ⟨_, _, _, walked⟩ |
      ⟨place, ret, walked, isPlug, divides, lastButOne⟩
  · -- A conflict leaves the tree.
    refine ⟨whole.inorder.length + 2, ⟨run.tree, keyOf, run.entries⟩, ?_, whole, height, there, ok,
      sortedAfter, present⟩
    rw [← isRoot] at walked
    have inserted : rbtreeInsert (whole.inorder.length + 2) run.tree address
        (fun other => cmp key (keyOf other)) = some (run.tree, .conflict) :=
      congrArg (fun walk => bind walk _) walked
    exact congrArg (fun result => bind result _) inserted
  have isWhole : plug place .nil = whole := isPlug
  have placed := RbTreeCtrl.at_plug.mpr (isWhole ▸ there)
  have notAround : address ∉ around place := by
    have perm := inorder_plug_perm place .nil
    rw [isWhole] at perm
    exact fun inside => outside (perm.mem_iff.mpr inside)
  have order : whole.inorder = before place ++ BinTree.after place := by
    rw [← isWhole, inorder_plug]
    simp [inorder]
  have isSide : ∀ frame rest, place = frame :: rest → (if ret < 0 then Side.left else .right) = frame.side := by
    rintro ⟨side, color, y, far⟩ rest rfl
    have dividesBefore : Divides (fun node => cmp key (run.keyOf node)) (⟨side, color, y, far⟩ :: rest) := by
      constructor
      · intro other isBefore
        rw [← kept (order ▸ mem_append_left _ isBefore)]
        exact divides.before other isBefore
      · intro other isAfter
        rw [← kept (order ▸ mem_append_right _ isAfter)]
        exact divides.after other isAfter
    exact side_of_agrees placed lastButOne
      (agrees y side (belongs_of_place isOrder placed isWhole sorted entries dividesBefore))
  have attached := placed.attach notAround isSide
  obtain ⟨_, _, nilOk, accepts⟩ := (isWhole ▸ ok : IsRb .black height (plug place .nil)).unplug
  cases nilOk
  have inserting : RbTreeCtrl.Inserting _ place (.node .red address .nil .nil) address 0 :=
    ⟨attached, rfl, .red .nil .nil, accepts⟩
  have short : place.length < whole.inorder.length + 2 := by
    have length := length_le_plug place .nil
    rw [isWhole] at length
    omega
  obtain ⟨after, final, finalHeight, fixed, afterThere, finalOk, finalOrder⟩ :=
    RbTreeCtrl.rbtreeInsertFixup_balanced inserting short
  have finalOrder : final.inorder = before place ++ address :: BinTree.after place := by
    rw [finalOrder, inorder_plug]
    simp [inorder]
  have self : keyOf address = key := update_self _ _ _
  rw [order] at sortedAfter present
  refine ⟨whole.inorder.length + 2, ⟨after, keyOf, update run.entries key (some address)⟩, ?_,
    final, finalHeight, afterThere, finalOk, ?_, ?_⟩
  · rw [← isRoot] at walked
    have inserted : rbtreeInsert (whole.inorder.length + 2) run.tree address
        (fun other => cmp key (keyOf other)) = some (after, .ok) := by
      refine (congrArg (fun walk => bind walk _) walked).trans ?_
      exact congrArg (fun result => bind result _) fixed
    exact congrArg (fun result => bind result _) inserted
  · rw [finalOrder]
    exact entered_sorted isOrder self divides.before divides.after sortedAfter
  · rw [finalOrder]
    exact entered_entries isOrder self divides.before divides.after present

end Insert

section Delete

variable {cmp : Key → Key → Int} {run : RbRun Key} {address height : Nat} {key : Key}
  {whole : BinTree Color Nat}

theorem delNode_sound (isOrder : IsOrder cmp) (there : run.tree.At [] whole)
    (ok : IsRb .black height whole)
    (sorted : whole.inorder.Pairwise fun first second => cmp (run.keyOf first) (run.keyOf second) < 0)
    (entries : ∀ key node, run.entries key = some node ↔ node ∈ whole.inorder ∧ run.keyOf node = key)
    (inside : address ∈ whole.inorder) {turns : Nat} (enough : whole.inorder.length + 2 ≤ turns) :
    ∃ after, rbtreeDelNode turns run.tree address = some after ∧
      RbSound cmp ⟨after, run.keyOf, update run.entries (run.keyOf address) none⟩ := by
  obtain ⟨after, final, finalHeight, first, last, deleted, afterThere, finalOk, order, finalOrder⟩ :=
    RbTreeCtrl.rbtreeDelNode_balanced there ok inside enough
  rw [order] at sorted entries
  refine ⟨after, deleted, final, finalHeight, afterThere, finalOk, ?_, fun other node => ?_⟩
  · rw [finalOrder]
    exact sorted.sublist ((sublist_cons_self _ _).append_left _)
  rw [finalOrder]
  have others : ∀ node ∈ first ++ last, run.keyOf node ≠ run.keyOf address := by
    obtain ⟨-, restSorted, apart⟩ := pairwise_append.mp sorted
    intro node member same
    have zero := (isOrder.eq _ _).mpr same
    rcases mem_append.mp member with inFirst | inLast
    · have less := apart node inFirst address mem_cons_self
      omega
    have less := (pairwise_cons.mp restSorted).1 node inLast
    rw [isOrder.flip] at less
    omega
  change update run.entries (run.keyOf address) none other = some node ↔
    node ∈ first ++ last ∧ run.keyOf node = other
  by_cases same : other = run.keyOf address
  · rw [same, update_self]
    constructor
    · intro isNone
      cases isNone
    · rintro ⟨member, isKey⟩
      exact absurd isKey (others node member)
  rw [update_of_ne same, entries, mem_append, mem_append, mem_cons]
  constructor
  · rintro ⟨inFirst | rfl | inLast, isKey⟩
    · exact ⟨.inl inFirst, isKey⟩
    · exact absurd isKey.symm same
    · exact ⟨.inr inLast, isKey⟩
  · rintro ⟨inFirst | inLast, isKey⟩
    · exact ⟨.inl inFirst, isKey⟩
    · exact ⟨.inr (.inr inLast), isKey⟩

theorem RbSound.delNode (isOrder : IsOrder cmp) (sound : RbSound cmp run)
    (enabled : (RbCall.delNode address : RbCall Key).Enabled run) :
    ∃ turns after, rbNext cmp turns run (.delNode address) = some after ∧ RbSound cmp after := by
  obtain ⟨_, _, there, ok, sorted, entries⟩ := sound
  obtain ⟨_, isEntry⟩ := enabled
  obtain ⟨_, deleted, afterSound⟩ := delNode_sound isOrder there ok sorted entries
    ((entries _ _).mp isEntry).1 (Nat.le_refl _)
  exact ⟨_, _, congrArg (fun result => bind result _) deleted, afterSound⟩

theorem RbSound.del (isOrder : IsOrder cmp) (sound : RbSound cmp run) :
    ∃ turns after, rbNext cmp turns run (.del key) = some after ∧ RbSound cmp after := by
  obtain ⟨whole, height, there, ok, sorted, entries⟩ := sound
  have isRoot := there.surrounds
  have enough : whole.inorder.length < whole.inorder.length + 2 := Nat.lt_add_of_pos_right Nat.two_pos
  obtain ⟨result, searched, isFound, isNone⟩ :=
    RbTree.rbtreeSearch_finds there.holds (isOrder.guides sorted key) enough
  rw [← isRoot] at searched
  cases result with
  | none =>
    have absent : run.entries key = none := by
      cases present : run.entries key with
      | none => rfl
      | some node =>
        obtain ⟨inside, isKey⟩ := (entries key node).mp present
        have zero : cmp key (run.keyOf node) = 0 := by rw [isKey, isOrder.self]
        exact absurd zero (isNone rfl node inside)
    have deleted : rbtreeDel (whole.inorder.length + 2) run.tree (fun other => cmp key (run.keyOf other)) =
        some (run.tree, none) :=
      congrArg (fun found => bind found _) searched
    have same : update run.entries key none = run.entries := update_eq_self_iff.mpr absent.symm
    refine ⟨_, ⟨run.tree, run.keyOf, update run.entries key none⟩,
      congrArg (fun result => bind result _) deleted, whole, height, there, ok, sorted, ?_⟩
    rw [same]
    exact entries
  | some z =>
    obtain ⟨inside, zero⟩ := isFound z rfl
    have isKey := (isOrder.eq _ _).mp zero
    obtain ⟨after, taken, afterSound⟩ := delNode_sound isOrder there ok sorted entries inside (Nat.le_refl _)
    have deleted : rbtreeDel (whole.inorder.length + 2) run.tree (fun other => cmp key (run.keyOf other)) =
        some (after, some z) := by
      refine (congrArg (fun found => bind found _) searched).trans ?_
      exact congrArg (fun result => bind result _) taken
    rw [← isKey] at afterSound
    exact ⟨_, _, congrArg (fun result => bind result _) deleted, afterSound⟩

/-- A sorted red-black tree in the memory, with links in both directions. -/
structure RbValid (cmp : Key → Key → Int) (keyOf : Nat → Key) (tree : RbTreeCtrl)
    (whole : BinTree Color Nat) : Prop where
  there : tree.At [] whole
  balanced : ∃ height, IsRb .black height whole
  sorted : whole.inorder.Pairwise fun first second => cmp (keyOf first) (keyOf second) < 0

end Delete

theorem rbNext_grows (cmp : Key → Key → Int) (run : RbRun Key) (call : RbCall Key) :
    Grows fun turns => rbNext cmp turns run call := by
  cases call with
  | insert => exact Grows.bind (rbtreeInsert_grows _ _) fun _ => .const _
  | del => exact Grows.bind (rbtreeDel_grows _) fun _ => .const _
  | delNode => exact Grows.bind (rbtreeDelNode_grows _ _) fun _ => .const _

theorem RbSound.next {cmp : Key → Key → Int} (isOrder : IsOrder cmp) {run : RbRun Key}
    {call : RbCall Key}
    (sound : RbSound cmp run) (enabled : call.Enabled run) (agrees : RbAgrees cmp run call) :
    ∃ turns after, rbNext cmp turns run call = some after ∧ RbSound cmp after := by
  cases call with
  | insert => exact sound.insert isOrder enabled agrees
  | del => exact sound.del isOrder
  | delNode => exact sound.delNode isOrder enabled

/-- In every run in which each new key belongs on the side on which its parent is, all calls
end and the tree stays a sorted red-black tree of the keys inserted and not deleted. -/
theorem rbtree_sound {Key : Type} [DecidableEq Key] (cmp : Key → Key → Int) (isOrder : IsOrder cmp)
    (run : RbRun Key) (reached : (rbSystem cmp).ReachableWhen (RbAgrees cmp) run) :
    RbSound cmp run ∧ ∀ call : RbCall Key, call.Enabled run → RbAgrees cmp run call →
      ∃ turns after, rbNext cmp turns run call = some after := by
  have sound : RbSound cmp run := by
    apply System.ReachableWhen.invariant ?_ ?_ reached
    · rintro _ ⟨empty, noEntries⟩
      refine ⟨.nil, 0, ⟨empty, trivial, nodup_nil⟩, .nil, Pairwise.nil, fun key node => ?_⟩
      simp [noEntries, inorder]
    · rintro state call _ held agrees ⟨enabled, _, stepped⟩
      obtain ⟨_, _, ended, sound⟩ := held.next isOrder enabled agrees
      rw [(rbNext_grows cmp state call).agree stepped ended]
      exact sound
  refine ⟨sound, fun call enabled agrees => ?_⟩
  obtain ⟨turns, after, ended, -⟩ := sound.next isOrder enabled agrees
  exact ⟨turns, after, ended⟩

section Reached

variable {cmp : Key → Key → Int} (isOrder : IsOrder cmp) {run : RbRun Key}
  (reached : (rbSystem cmp).ReachableWhen (RbAgrees cmp) run)

include isOrder reached

theorem RbSound.of_reached : RbSound cmp run := by
  apply System.ReachableWhen.invariant ?_ ?_ reached
  · rintro _ ⟨empty, noEntries⟩
    refine ⟨.nil, 0, ⟨empty, trivial, nodup_nil⟩, .nil, Pairwise.nil, fun key node => ?_⟩
    simp [noEntries, inorder]
  · rintro state call _ held agrees ⟨enabled, _, stepped⟩
    obtain ⟨_, _, ended, sound⟩ := held.next isOrder enabled agrees
    rw [(rbNext_grows cmp state call).agree stepped ended]
    exact sound

end Reached

def rbDifference (first second : Int) : Int := first - second

theorem rbDifference_isOrder : IsOrder rbDifference where
  eq first second := by
    unfold rbDifference
    omega
  flip first second := by
    unfold rbDifference
    omega
  trans first second third := by
    unfold rbDifference
    omega

def rbStart : RbRun Int :=
  ⟨⟨fun _ => ⟨.black, none, none, none⟩, none⟩, fun _ => 0, fun _ => none⟩

def rbOne : RbRun Int :=
  (rbNext rbDifference 5 rbStart (.insert 0 10)).get rfl

theorem rbOne_entries (key : Int) (node : Nat) (isEntry : rbOne.entries key = some node) :
    node = 0 := by
  have isUpdate : rbOne.entries = update (fun _ => none) 10 (some 0) := rfl
  rw [isUpdate, update_apply] at isEntry
  split at isEntry
  · exact (some.inj isEntry).symm
  · cases isEntry

theorem rbOne_enabled (key : Int) : (RbCall.insert 1 key).Enabled rbOne :=
  fun other isEntry => Nat.one_ne_zero (rbOne_entries other 1 isEntry)

theorem rbOne_reachable {guard : RbRun Int → RbCall Int → Prop}
    (met : guard rbStart (.insert 0 10)) : (rbSystem rbDifference).ReachableWhen guard rbOne := by
  have first : (rbSystem rbDifference).ReachableWhen guard rbStart := .start ⟨rfl, rfl⟩
  exact first.step met ⟨nofun, 5, (some_get _).symm⟩

def rbSorted : RbRun Int :=
  (rbNext rbDifference 5 rbOne (.insert 1 20)).get rfl

/-- 20 belongs on the right of the root 10. -/
theorem rbtree_sound_ten_twenty : RbSound rbDifference rbSorted ∧
    ∃ turns after, rbNext rbDifference turns rbSorted (.del 10) = some after := by
  have met : RbAgrees rbDifference rbStart (.insert 0 10) := by
    intro y side belongs
    cases belongs.inTree
  have metAgain : RbAgrees rbDifference rbOne (.insert 1 20) := by
    intro y side belongs
    obtain rfl := rbOne_entries _ _ belongs.inTree
    cases side with
    | right => rfl
    | left => exact absurd belongs.neighbour.1 (by decide)
  have reached : (rbSystem rbDifference).ReachableWhen (RbAgrees rbDifference) rbSorted :=
    (rbOne_reachable met).step metAgain ⟨rbOne_enabled 20, 5, (some_get _).symm⟩
  have sound := rbtree_sound rbDifference rbDifference_isOrder rbSorted reached
  exact ⟨sound.1, sound.2 (.del 10) trivial trivial⟩

def rbUnsorted : RbRun Int :=
  (rbNext rbDifference 5 rbOne (.insert 1 5)).get rfl

/-- 5 is attached on the right of the root 10. -/
theorem rbtree_unsorted : IsOrder rbDifference ∧
    ∃ run, (rbSystem rbDifference).Reachable run ∧ ¬ RbSound rbDifference run := by
  refine ⟨rbDifference_isOrder, rbUnsorted,
    (rbOne_reachable trivial).step trivial ⟨rbOne_enabled 5, 5, (some_get _).symm⟩, ?_⟩
  rintro ⟨whole, _, there, -, sorted, -⟩
  have isRoot : whole.link = some 0 := there.surrounds.symm
  obtain ⟨_, _, right, rfl⟩ := exists_node_of_link isRoot
  have isRight : right.link = some 1 := (congrArg RbTreeNode.right there.isNode).symm
  have less := (pairwise_cons.mp (pairwise_append.mp sorted).2.1).1 1 (mem_of_link isRight)
  revert less
  decide

end MyCode.RbTree
