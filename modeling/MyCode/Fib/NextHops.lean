import MyCode.Fib.Table

/-!
# Deleting a next hop of a route

A deletion names a static next hop by its address, or it is of the one next hop
that is not static.  In the place of a deleted static next hop the address of
the last one stands, with the interface and the flags that were there.
-/

namespace MyCode.Fib

open List

variable {ctrl after : FibCtrl} {fibNode : FibNode} {node afterNode : FibHashNode}
  {hop last : FibNextHop}

/-- The next hops that `FIB_Walk` reports for a route. -/
def fibNextHops (node : FibHashNode) : List FibNextHop :=
  (if node.stNextHop.uiOutIfIndex ≠ ifInvalidIndex then [node.stNextHop] else []) ++
    node.astStaticNextHop

/-- The next hop of a route that a deletion names. -/
def NamedHop (fibNode : FibNode) (node : FibHashNode) (hop : FibNextHop) : Prop :=
  if hasFlag fibNode.uiFlag fibFlagStatic then
    fibNode.uiNextHop ≠ 0 ∧ hop ∈ node.astStaticNextHop ∧ hop.uiNextHop = fibNode.uiNextHop
  else
    hop = node.stNextHop ∧ hop.uiOutIfIndex ≠ ifInvalidIndex

structure DeletesOne (ctrl : FibCtrl) (fibNode : FibNode) (node : FibHashNode) : Prop where
  found : fibFind ctrl fibNode.masked.stFibKey = some node
  several : 2 ≤ (fibNextHops node).length
  named : ∃ hop, NamedHop fibNode node hop

/-- Exactly one named next hop is gone, the others and the other routes are as they were. -/
structure OnlyDeleted (ctrl : FibCtrl) (fibNode : FibNode) (node : FibHashNode) (after : FibCtrl) :
    Prop where
  route : ∃ afterNode, fibFind after fibNode.masked.stFibKey = some afterNode ∧
    ∃ hop, NamedHop fibNode node hop ∧ (fibNextHops node).Perm (hop :: fibNextHops afterNode)
  others : ∀ key, key ≠ fibNode.masked.stFibKey → fibFind after key = fibFind ctrl key

/-- The last static next hop is one that the deletion names, or it agrees with the first of these
in all but the address.  With a direct next hop no looked-up interface goes. -/
def AttributesAgree (ctrl : FibCtrl) (fibNode : FibNode) (node : FibHashNode) : Prop :=
  if hasFlag fibNode.uiFlag fibFlagStatic then
    ∀ hop last, node.astStaticNextHop.find? (fun hop => hop.uiNextHop == fibNode.uiNextHop) = some hop →
      node.astStaticNextHop.getLast? = some last →
      last.uiNextHop = fibNode.uiNextHop ∨ hop.uiOutIfIndex = last.uiOutIfIndex ∧ hop.uiFlag = last.uiFlag
  else
    hasFlag node.stNextHop.uiFlag fibFlagDirect = true →
      ∀ key other, fibFind ctrl key = some other → ∀ hop ∈ other.astStaticNextHop,
        hasFlag hop.uiFlag fibFlagAutoIf = true → hop.uiOutIfIndex = ifInvalidIndex

section Static

variable {uiNextHop : UINT} {front middle hops : List FibNextHop}

variable (given : uiNextHop ≠ 0)

section

include given

variable (passed : ∀ other ∈ front, other.uiNextHop ≠ uiNextHop) (named : hop.uiNextHop = uiNextHop)

section

include passed named

theorem fibDelStaticHop_place
    (behind : List FibNextHop) (isLast : (front ++ hop :: behind).getLast? = some last) :
    fibDelStaticHop uiNextHop (front ++ hop :: behind) =
      (front ++ { hop with uiNextHop := last.uiNextHop } :: behind).dropLast := by
  have position : (front ++ hop :: behind).findIdx? (fun hop => hop.uiNextHop == uiNextHop) =
      some front.length := by
    have missed : front.findIdx? (fun hop => hop.uiNextHop == uiNextHop) = none := by
      apply findIdx?_eq_none_iff.mpr
      exact fun other inside => beq_eq_false_iff_ne.mpr (passed other inside)
    rw [findIdx?_append, missed, findIdx?_cons, if_pos (beq_iff_eq.mpr named)]
    simp
  rw [fibDelStaticHop, if_neg given, position, isLast]
  simp only
  rw [modify_eq_take_drop, take_left, drop_left, modifyHead_cons]

theorem fibDelStaticHop_last : fibDelStaticHop uiNextHop (front ++ [hop]) = front := by
  rw [fibDelStaticHop_place given passed named [] getLast?_concat, dropLast_concat]

theorem fibDelStaticHop_earlier :
    fibDelStaticHop uiNextHop (front ++ hop :: (middle ++ [last])) =
      front ++ { hop with uiNextHop := last.uiNextHop } :: middle := by
  have isLast : (front ++ hop :: (middle ++ [last])).getLast? = some last := by
    rw [← cons_append, ← append_assoc, getLast?_concat]
  rw [fibDelStaticHop_place given passed named _ isLast, ← cons_append, ← append_assoc,
    dropLast_concat]

end

end

theorem fibDelStaticHop_perm (given : uiNextHop ≠ 0)
    (found : hops.find? (fun hop => hop.uiNextHop == uiNextHop) = some hop)
    (isLast : hops.getLast? = some last) :
    (∃ gone ∈ hops, gone.uiNextHop = uiNextHop ∧ hops.Perm (gone :: fibDelStaticHop uiNextHop hops)) ↔
      last.uiNextHop = uiNextHop ∨ hop.uiOutIfIndex = last.uiOutIfIndex ∧ hop.uiFlag = last.uiFlag := by
  obtain ⟨isNamed, front, behind, rfl, earlier⟩ := find?_eq_some_iff_append.mp found
  have named := beq_iff_eq.mp isNamed
  have passed : ∀ other ∈ front, other.uiNextHop ≠ uiNextHop := by
    intro other inside
    simpa using earlier other inside
  rcases eq_nil_or_concat behind with rfl | ⟨middle, _, rfl⟩
  · rw [getLast?_concat] at isLast
    cases isLast
    rw [fibDelStaticHop_last given passed named]
    exact iff_of_true ⟨hop, by simp, named, perm_append_singleton _ _⟩ (.inl named)
  rw [concat_eq_append] at isLast ⊢
  rw [← cons_append, ← append_assoc, getLast?_concat] at isLast
  cases isLast
  rw [fibDelStaticHop_earlier given passed named]
  -- The rest of the list is the same on both sides.
  have before : (front ++ hop :: (middle ++ [last])).Perm ([hop, last] ++ (front ++ middle)) := by
    refine perm_middle.trans (.cons _ ?_)
    rw [← append_assoc]
    exact perm_append_singleton _ _
  have rest : ∀ gone, (gone :: (front ++ { hop with uiNextHop := last.uiNextHop } :: middle)).Perm
      ([gone, { hop with uiNextHop := last.uiNextHop }] ++ (front ++ middle)) :=
    fun gone => .cons _ perm_middle
  constructor
  · rintro ⟨gone, _, _, same⟩
    have pair := (perm_append_right_iff _).mp (before.symm.trans (same.trans (rest gone)))
    have moved : ({ hop with uiNextHop := last.uiNextHop } : FibNextHop) ∈ [hop, last] :=
      pair.symm.subset (by simp)
    rcases mem_pair.mp moved with isFirst | isFinal
    · have sameAddress := congrArg FibNextHop.uiNextHop isFirst
      exact .inl (sameAddress.trans named)
    have sameInterface := congrArg FibNextHop.uiOutIfIndex isFinal
    have sameFlag := congrArg FibNextHop.uiFlag isFinal
    exact .inr ⟨sameInterface, sameFlag⟩
  · rintro (sameAddress | ⟨sameInterface, sameFlag⟩)
    · refine ⟨last, by simp, sameAddress, before.trans (.trans ?_ (rest last).symm)⟩
      rw [sameAddress, ← named]
      exact (perm_append_right_iff _).mpr (.swap _ _ _)
    · refine ⟨hop, by simp, named, before.trans (.trans ?_ (rest hop).symm)⟩
      rw [sameInterface, sameFlag]

end Static

theorem fibClearAutoIfHop_eq_self :
    fibClearAutoIfHop hop = hop ↔
      (hasFlag hop.uiFlag fibFlagAutoIf = true → hop.uiOutIfIndex = ifInvalidIndex) := by
  rw [fibClearAutoIfHop]
  split
  · next auto =>
    simp only [auto, forall_const]
    constructor
    · intro same
      have interface := congrArg FibNextHop.uiOutIfIndex same
      exact interface.symm
    · intro invalid
      rw [← invalid]
  · next fixed => exact iff_of_true rfl fun auto => absurd auto fixed

theorem fibClearAutoIfEach_eq_self :
    fibClearAutoIfEach node = node ↔ ∀ hop ∈ node.astStaticNextHop,
      hasFlag hop.uiFlag fibFlagAutoIf = true → hop.uiOutIfIndex = ifInvalidIndex := by
  simp only [← fibClearAutoIfHop_eq_self]
  constructor
  · intro same
    have hops := congrArg FibHashNode.astStaticNextHop same
    exact map_inj_left.mp (hops.trans (map_id _).symm)
  · intro same
    rw [fibClearAutoIfEach, map_congr_left same, map_id']

theorem fibClearAutoIfHop_cleared
    (auto : hasFlag (fibClearAutoIfHop hop).uiFlag fibFlagAutoIf = true) :
    (fibClearAutoIfHop hop).uiOutIfIndex = ifInvalidIndex := by
  rw [fibClearAutoIfHop] at auto ⊢
  split
  · rfl
  next fixed =>
  rw [if_neg fixed] at auto
  exact absurd auto fixed

theorem fibDelUnused_used (used : ∀ node, fibFind ctrl fibNode.stFibKey = some node →
    0 < (fibNextHops node).length) : fibDelUnused ctrl fibNode.stFibKey = ctrl := by
  unfold fibDelUnused
  split
  · rfl
  next node found =>
  have some := used node found
  refine if_neg ?_
  rintro ⟨noStatic, noInterface⟩
  simp [fibNextHops, noStatic, noInterface] at some

theorem length_fibDelStaticHop {uiNextHop : UINT} {hops : List FibNextHop} (given : uiNextHop ≠ 0)
    (found : hops.find? (fun hop => hop.uiNextHop == uiNextHop) = some hop) :
    (fibDelStaticHop uiNextHop hops).length + 1 = hops.length := by
  obtain ⟨isNamed, front, behind, rfl, earlier⟩ := find?_eq_some_iff_append.mp found
  have passed : ∀ other ∈ front, other.uiNextHop ≠ uiNextHop := by
    intro other inside
    simpa using earlier other inside
  have isLast := getLast?_eq_some_getLast (l := front ++ hop :: behind) (by simp)
  rw [fibDelStaticHop_place given passed (beq_iff_eq.mp isNamed) behind isLast]
  simp
  omega

theorem fibNextHops_perm {hops : List FibNextHop} :
    (fibNextHops node).Perm (hop :: fibNextHops { node with astStaticNextHop := hops }) ↔
      node.astStaticNextHop.Perm (hop :: hops) := by
  constructor
  · intro same
    exact (perm_append_left_iff _).mp (same.trans perm_middle.symm)
  · intro same
    exact ((perm_append_left_iff _).mpr same).trans perm_middle

theorem fibFind_delStaticFib (ok : FibOk ctrl)
    (found : fibFind ctrl fibNode.masked.stFibKey = some node) (key : FibKey) :
    fibFind (fibDelStaticFib ctrl fibNode.masked) key =
      if key = fibNode.masked.stFibKey then
        some { node with
          astStaticNextHop := fibDelStaticHop fibNode.uiNextHop node.astStaticNextHop }
      else
        fibFind ctrl key := by
  rw [fibDelStaticFib, fibFind_update ok (by intro _; rfl), found]
  rfl

theorem fibDel_static (ok : FibOk ctrl) (isStatic : hasFlag fibNode.uiFlag fibFlagStatic = true)
    (deletes : DeletesOne ctrl fibNode node) :
    OnlyDeleted ctrl fibNode node (fibDel ctrl fibNode) ↔ AttributesAgree ctrl fibNode node := by
  have isDeleted : hasFlag fibNode.masked.uiFlag fibFlagStatic = true := isStatic
  obtain ⟨named, isNamed⟩ := deletes.named
  rw [NamedHop, if_pos isStatic] at isNamed
  obtain ⟨given, inside, address⟩ := isNamed
  obtain ⟨hop, found⟩ : ∃ hop,
      node.astStaticNextHop.find? (fun hop => hop.uiNextHop == fibNode.uiNextHop) = some hop :=
    Option.isSome_iff_exists.mp (find?_isSome.mpr ⟨named, inside, beq_iff_eq.mpr address⟩)
  obtain ⟨last, isLast⟩ : ∃ last, node.astStaticNextHop.getLast? = some last :=
    ⟨_, getLast?_eq_some_getLast (ne_nil_of_mem inside)⟩
  have finds := fibFind_delStaticFib ok deletes.found
  have deleted : fibDel ctrl fibNode = fibDelStaticFib ctrl fibNode.masked := by
    rw [fibDel, fibDelRoute, deletes.found]
    simp only [isDeleted, if_true]
    apply fibDelUnused_used
    intro after isAfter
    rw [finds, if_pos rfl] at isAfter
    cases isAfter
    have shorter := length_fibDelStaticHop given found
    have several := deletes.several
    simp only [fibNextHops, length_append] at several ⊢
    omega
  have agree : AttributesAgree ctrl fibNode node ↔ last.uiNextHop = fibNode.uiNextHop ∨
      hop.uiOutIfIndex = last.uiOutIfIndex ∧ hop.uiFlag = last.uiFlag := by
    rw [AttributesAgree, if_pos isStatic]
    refine ⟨fun agree => agree hop last found isLast, fun agree first final isFirst isFinal => ?_⟩
    rw [Option.some.inj (isFirst.symm.trans found), Option.some.inj (isFinal.symm.trans isLast)]
    exact agree
  rw [deleted, agree, ← fibDelStaticHop_perm given found isLast]
  constructor
  · rintro ⟨⟨_, isAfter, gone, isGone, same⟩, -⟩
    rw [finds, if_pos rfl] at isAfter
    cases isAfter
    rw [NamedHop, if_pos isStatic] at isGone
    exact ⟨gone, isGone.2.1, isGone.2.2, fibNextHops_perm.mp same⟩
  rintro ⟨gone, stored, isNamed, same⟩
  refine ⟨⟨_, (finds _).trans (if_pos rfl), gone, ?_, fibNextHops_perm.mpr same⟩, ?_⟩
  · rw [NamedHop, if_pos isStatic]
    exact ⟨given, stored, isNamed⟩
  · exact fun key differs => (finds key).trans (if_neg differs)

/-- What is left of a route without its next hop that is not static. -/
def withoutNormal (node : FibHashNode) : FibHashNode :=
  { node with stNextHop := ⟨0, ifInvalidIndex, 0⟩ }

theorem fibFind_delNormalFib (ok : FibOk ctrl)
    (found : fibFind ctrl fibNode.masked.stFibKey = some node) (key : FibKey) :
    fibFind (fibDelNormalFib ctrl node fibNode.masked) key =
      (if key = fibNode.masked.stFibKey then some (withoutNormal node) else fibFind ctrl key).map
        (if hasFlag node.stNextHop.uiFlag fibFlagDirect then fibClearAutoIfEach else id) := by
  have changed := @fibFind_update _ fibNode.masked.stFibKey ok withoutNormal (fun _ => rfl) key
  rw [found, Option.map_some] at changed
  simp only [fibDelNormalFib]
  split
  · rw [fibFind_clearAutoIf (ok.update (by intro _; rfl)), ← changed]
    rfl
  · rw [Option.map_id, id_eq, ← changed]
    rfl

theorem fibDel_normal (ok : FibOk ctrl) (normal : hasFlag fibNode.uiFlag fibFlagStatic = false)
    (deletes : DeletesOne ctrl fibNode node) :
    OnlyDeleted ctrl fibNode node (fibDel ctrl fibNode) ↔ AttributesAgree ctrl fibNode node := by
  have isDeleted : hasFlag fibNode.masked.uiFlag fibFlagStatic = false := normal
  have notStatic := Bool.eq_false_iff.mp normal
  obtain ⟨named, isNamed⟩ := deletes.named
  rw [NamedHop, if_neg notStatic] at isNamed
  obtain ⟨rfl, interface⟩ := isNamed
  have finds := fibFind_delNormalFib ok deletes.found
  have several := deletes.several
  rw [fibNextHops, if_pos interface, length_append, length_singleton] at several
  have deleted : fibDel ctrl fibNode = fibDelNormalFib ctrl node fibNode.masked := by
    rw [fibDel, fibDelRoute, deletes.found]
    simp only [isDeleted, Bool.false_eq_true, if_false]
    apply fibDelUnused_used
    intro after isAfter
    rw [finds, if_pos rfl, Option.map_some, Option.some.injEq] at isAfter
    subst isAfter
    split
    · simp only [fibNextHops, fibClearAutoIfEach, withoutNormal, length_append, length_map]
      omega
    · simp only [fibNextHops, withoutNormal, length_append, id_eq]
      omega
  rw [deleted, AttributesAgree, if_neg notStatic]
  have before : fibNextHops node = node.stNextHop :: node.astStaticNextHop := by
    rw [fibNextHops, if_pos interface]
    rfl
  by_cases direct : hasFlag node.stNextHop.uiFlag fibFlagDirect = true
  · simp only [direct, if_true, forall_const] at finds ⊢
    constructor
    · rintro ⟨⟨_, isAfter, _, isGone, same⟩, others⟩ key _ found hop stored auto
      rw [NamedHop, if_neg notStatic] at isGone
      obtain ⟨rfl, -⟩ := isGone
      by_cases own : key = fibNode.masked.stFibKey
      · rw [finds, if_pos rfl] at isAfter
        cases isAfter
        rw [own, deletes.found] at found
        cases found
        rw [before] at same
        -- The next hops are the cleared ones in another order.
        have cleared := (perm_cons _).mp same
        obtain ⟨_, _, rfl⟩ := mem_map.mp (cleared.subset stored)
        exact fibClearAutoIfHop_cleared auto
      · have kept := others key own
        rw [finds, if_neg own, found] at kept
        exact fibClearAutoIfEach_eq_self.mp (Option.some.inj kept) hop stored auto
    intro cleared
    have kept : ∀ key, (fibFind ctrl key).map fibClearAutoIfEach = fibFind ctrl key := by
      intro key
      cases found : fibFind ctrl key with
      | none => rfl
      | some other => exact congrArg some (fibClearAutoIfEach_eq_self.mpr (cleared key other found))
    have same := fibClearAutoIfEach_eq_self.mpr (cleared _ _ deletes.found)
    have hops := congrArg FibHashNode.astStaticNextHop same
    refine ⟨⟨_, (finds _).trans (by rw [if_pos rfl]; rfl), node.stNextHop, ?_, ?_⟩, ?_⟩
    · rw [NamedHop, if_neg notStatic]
      exact ⟨rfl, interface⟩
    · rw [before]
      refine (perm_cons _).mpr ?_
      change node.astStaticNextHop.Perm (node.astStaticNextHop.map fibClearAutoIfHop)
      rw [show node.astStaticNextHop.map fibClearAutoIfHop = node.astStaticNextHop from hops]
    · intro key differs
      rw [finds, if_neg differs, kept]
  refine iff_of_true ⟨⟨withoutNormal node, ?_, node.stNextHop, ?_, ?_⟩, ?_⟩
    fun isDirect => absurd isDirect direct
  · rw [finds, if_pos rfl, if_neg direct]
    rfl
  · rw [NamedHop, if_neg notStatic]
    exact ⟨rfl, interface⟩
  · rw [before]
    exact .refl _
  · intro key differs
    rw [finds, if_neg differs, if_neg direct, Option.map_id, id_eq]

/-- Deleting a next hop takes away that one alone exactly where what moves with its place is what
the last next hop had. -/
theorem fibDel_onlyDeleted (reached : fib.Reachable ctrl) (deletes : DeletesOne ctrl fibNode node) :
    OnlyDeleted ctrl fibNode node (fibDel ctrl fibNode) ↔ AttributesAgree ctrl fibNode node := by
  cases flag : hasFlag fibNode.uiFlag fibFlagStatic with
  | true => exact fibDel_static (fib_ok reached) flag deletes
  | false => exact fibDel_normal (fib_ok reached) flag deletes

/-- One route with the static next hops 1 and 2, given with this interface for the second. -/
def fibTwoStatic (uiOutIfIndex : UINT) : FibCtrl :=
  [FibCall.add true ⟨⟨0, 0⟩, 1, 5, fibFlagStatic⟩,
    .add true ⟨⟨0, 0⟩, 2, uiOutIfIndex, fibFlagStatic⟩].foldl FibCall.run fibCreate

theorem fibTwoStatic_reachable (uiOutIfIndex : UINT) : fib.Reachable (fibTwoStatic uiOutIfIndex) :=
  Lib.System.Reachable.runs (fun _ _ => rfl) _ (.start rfl)

theorem fibTwoStatic_named (uiOutIfIndex : UINT) :
    NamedHop ⟨⟨0, 0⟩, 1, 0, fibFlagStatic⟩
      ⟨⟨0, 0⟩, ⟨0, 0, 0⟩, [⟨1, 5, fibFlagStatic⟩, ⟨2, uiOutIfIndex, fibFlagStatic⟩]⟩
      ⟨1, 5, fibFlagStatic⟩ := by
  exact ⟨by decide, mem_cons_self, rfl⟩

theorem fibDel_onlyDeleted_same :
    OnlyDeleted (fibTwoStatic 5) ⟨⟨0, 0⟩, 1, 0, fibFlagStatic⟩
        ⟨⟨0, 0⟩, ⟨0, 0, 0⟩, [⟨1, 5, fibFlagStatic⟩, ⟨2, 5, fibFlagStatic⟩]⟩
        (fibDel (fibTwoStatic 5) ⟨⟨0, 0⟩, 1, 0, fibFlagStatic⟩) ↔
      AttributesAgree (fibTwoStatic 5) ⟨⟨0, 0⟩, 1, 0, fibFlagStatic⟩
        ⟨⟨0, 0⟩, ⟨0, 0, 0⟩, [⟨1, 5, fibFlagStatic⟩, ⟨2, 5, fibFlagStatic⟩]⟩ := by
  apply fibDel_onlyDeleted (fibTwoStatic_reachable 5)
  exact ⟨by decide +kernel, by decide, _, fibTwoStatic_named 5⟩

/-- The second next hop is left with the interface of the first. -/
theorem fibDel_mixed :
    fibFind (fibDel (fibTwoStatic 6) ⟨⟨0, 0⟩, 1, 0, fibFlagStatic⟩) ⟨0, 0⟩ =
        some ⟨⟨0, 0⟩, ⟨0, 0, 0⟩, [⟨2, 5, fibFlagStatic⟩]⟩ ∧
      ¬ ∀ ctrl fibNode node, fib.Reachable ctrl → DeletesOne ctrl fibNode node →
        OnlyDeleted ctrl fibNode node (fibDel ctrl fibNode) := by
  have mixed : fibFind (fibDel (fibTwoStatic 6) ⟨⟨0, 0⟩, 1, 0, fibFlagStatic⟩) ⟨0, 0⟩ =
      some ⟨⟨0, 0⟩, ⟨0, 0, 0⟩, [⟨2, 5, fibFlagStatic⟩]⟩ := by
    decide +kernel
  refine ⟨mixed, fun holds => ?_⟩
  obtain ⟨_, isAfter, _, _, same⟩ :=
    (holds (fibTwoStatic 6) ⟨⟨0, 0⟩, 1, 0, fibFlagStatic⟩
      ⟨⟨0, 0⟩, ⟨0, 0, 0⟩, [⟨1, 5, fibFlagStatic⟩, ⟨2, 6, fibFlagStatic⟩]⟩ (fibTwoStatic_reachable 6)
      ⟨by decide +kernel, by decide, _, fibTwoStatic_named 6⟩).route
  have isMixed := mixed.symm.trans isAfter
  cases isMixed
  exact absurd (same.symm.subset (.tail _ mem_cons_self)) (by decide)

end MyCode.Fib
