import MyCode.RuleList

/-!
# Moving a rule

`RuleList_MoveRule` takes the rule out of the list before it looks for the
place of the new id.  The search of a list whose last rule has that id ends
without a place.
-/

namespace MyCode.RuleList

open List Prod

variable {α : Type} {pstList : List (RuleNodeS α)} {uiOldRuleID uiNewRuleID : UINT}
  {rest : List (RuleNodeS α)}

/-- One rule has got another id and place, the others stand as they did. -/
structure Moved (pstList : List (RuleNodeS α)) (uiOldRuleID uiNewRuleID : UINT)
    (after : List (RuleNodeS α)) : Prop where
  place : ∃ earlier pstOldNode later front behind,
    pstList = earlier ++ pstOldNode :: later ∧ pstOldNode.uiRuleID = uiOldRuleID ∧
      front ++ behind = earlier ++ later ∧
      after = front ++ { pstOldNode with uiRuleID := uiNewRuleID } :: behind
  ordered : Ordered false after

/-- The answer of a move: either the rule is moved, or nothing has changed. -/
def MovedOrKept (pstList : List (RuleNodeS α)) (uiOldRuleID uiNewRuleID : UINT)
    (answer : List (RuleNodeS α) × BsStatus) : Prop :=
  answer.2 = .ok ∧ Moved pstList uiOldRuleID uiNewRuleID answer.1 ∨
    answer.2 ≠ .ok ∧ answer.1 = pstList

/-- No rule has the old id, or the last of the other rules has not got the new one. -/
def LastDiffers (pstList : List (RuleNodeS α)) (uiOldRuleID uiNewRuleID : UINT) : Prop :=
  (∃ pstRule ∈ pstList, pstRule.uiRuleID = uiOldRuleID) →
    ∀ pstLast, (pstList.eraseP fun pstRule => pstRule.uiRuleID = uiOldRuleID).getLast? = some pstLast →
      pstLast.uiRuleID ≠ uiNewRuleID

theorem Moved.length_eq {after : List (RuleNodeS α)}
    (moved : Moved pstList uiOldRuleID uiNewRuleID after) : after.length = pstList.length := by
  obtain ⟨_, _, _, _, _, rfl, _, others, rfl⟩ := moved.place
  have lengths := congrArg length others
  simp only [length_append, length_cons] at lengths ⊢
  omega

theorem ruleListDel_some {pstOldNode : RuleNodeS α}
    (deleted : ruleListDel pstList uiOldRuleID = (rest, some pstOldNode)) :
    ∃ earlier later, pstList = earlier ++ pstOldNode :: later ∧
      pstOldNode.uiRuleID = uiOldRuleID ∧ rest = earlier ++ later := by
  obtain ⟨erased, found⟩ := mk.inj deleted
  obtain ⟨isOld, earlier, later, rfl, passed⟩ := find?_eq_some_iff_append.mp found
  refine ⟨earlier, later, rfl, of_decide_eq_true isOld, ?_⟩
  have absent : ∀ pstRule ∈ earlier, ¬ decide (pstRule.uiRuleID = uiOldRuleID) = true := by
    intro pstRule inside
    simpa using passed pstRule inside
  have first : ((pstOldNode :: later).eraseP fun pstRule => pstRule.uiRuleID = uiOldRuleID) = later :=
    eraseP_cons_of_pos isOld
  rw [← erased, eraseP_append_right _ absent, first]

theorem ruleListDel_none (missed : ruleListDel pstList uiOldRuleID = (rest, none)) :
    rest = pstList ∧ ∀ pstRule ∈ pstList, pstRule.uiRuleID ≠ uiOldRuleID := by
  obtain ⟨erased, absent⟩ := mk.inj missed
  have passed := find?_eq_none.mp absent
  refine ⟨erased.symm.trans (eraseP_of_forall_not passed), ?_⟩
  exact fun pstRule inside same => passed pstRule inside (decide_eq_true same)

/-- What `RuleList_MoveRule` does to the other rules and the one it has taken out. -/
theorem ruleListMoveRule_some {pstOldNode : RuleNodeS α}
    (deleted : ruleListDel pstList uiOldRuleID = (rest, some pstOldNode))
    (differs : ∀ pstLast, rest.getLast? = some pstLast → pstLast.uiRuleID ≠ uiNewRuleID) :
    ∃ front behind, front ++ behind = rest ∧
      ruleListMoveRule pstList uiOldRuleID uiNewRuleID =
        (front ++ { pstOldNode with uiRuleID := uiNewRuleID } :: behind, .ok) := by
  rw [ruleListMoveRule, deleted]
  simp only
  split
  · exact ⟨rest, [], append_nil _, rfl⟩
  next pstLast isLast =>
  split
  · exact ⟨rest, [], append_nil _, rfl⟩
  next notBelow =>
  -- The last rule is behind the new id, so that the search ends at the latest there.
  have behindNew : pstLast.uiRuleID > uiNewRuleID := by
    have differ : uiNewRuleID.toNat ≠ pstLast.uiRuleID.toNat := fun same =>
      differs pstLast isLast (BitVec.eq_of_toNat_eq same.symm)
    exact Nat.lt_of_le_of_ne (BitVec.not_lt.mp notBelow) differ
  have inside : rest.any (fun pstNode => pstNode.uiRuleID > uiNewRuleID) = true :=
    any_eq_true.mpr ⟨pstLast, mem_of_getLast? isLast, decide_eq_true behindNew⟩
  obtain ⟨front, behind, same, inserted⟩ := Lib.insertWhen_place
    (fun pstNode : RuleNodeS α => pstNode.uiRuleID > uiNewRuleID)
    { pstOldNode with uiRuleID := uiNewRuleID } rest
  rw [if_pos inside, inserted]
  exact ⟨front, behind, same, rfl⟩

theorem ruleListMoveRule_last (ordered : Ordered false pstList) {pstOldNode pstLast : RuleNodeS α}
    (deleted : ruleListDel pstList uiOldRuleID = (rest, some pstOldNode))
    (isLast : rest.getLast? = some pstLast) (same : pstLast.uiRuleID = uiNewRuleID) :
    ruleListMoveRule pstList uiOldRuleID uiNewRuleID = (rest, .ok) := by
  have orderedRest := ordered.del uiOldRuleID
  rw [deleted] at orderedRest
  have outside : rest.any (fun pstNode => pstNode.uiRuleID > uiNewRuleID) = false := by
    apply any_eq_false.mpr
    intro pstRule inside behind
    have notBehind := orderedRest.last isLast inside
    rw [same] at notBehind
    exact absurd (of_decide_eq_true behind) (BitVec.not_lt.mpr notBehind)
  have notBelow : ¬ pstLast.uiRuleID < uiNewRuleID := by
    rw [same]
    exact BitVec.lt_irrefl _
  rw [ruleListMoveRule, deleted]
  simp [isLast, if_neg notBelow, outside]

/-- A move keeps all rules exactly where it does not end at the last one. -/
theorem ruleListMoveRule_movedOrKept (ordered : Ordered false pstList) :
    MovedOrKept pstList uiOldRuleID uiNewRuleID (ruleListMoveRule pstList uiOldRuleID uiNewRuleID) ↔
      LastDiffers pstList uiOldRuleID uiNewRuleID := by
  cases deleted : ruleListDel pstList uiOldRuleID with
  | mk rest found =>
    cases found with
    | none =>
      obtain ⟨same, absent⟩ := ruleListDel_none deleted
      have kept : ruleListMoveRule pstList uiOldRuleID uiNewRuleID = (rest, .notFound) := by
        rw [ruleListMoveRule, deleted]
      apply iff_of_true
      · rw [kept]
        exact .inr ⟨by simp, same⟩
      · rintro ⟨pstRule, inside, isOld⟩
        exact absurd isOld (absent pstRule inside)
    | some pstOldNode =>
      have erased : (pstList.eraseP fun pstRule => pstRule.uiRuleID = uiOldRuleID) = rest :=
        congrArg fst deleted
      obtain ⟨earlier, later, listed, isOld, others⟩ := ruleListDel_some deleted
      constructor
      · rintro answered - _ isLast same
        rw [erased] at isLast
        rw [ruleListMoveRule_last ordered deleted isLast same] at answered
        rcases answered with ⟨_, moved⟩ | ⟨failed, _⟩
        · have shorter := moved.length_eq
          rw [listed, others] at shorter
          simp only [length_append, length_cons] at shorter
          omega
        · exact failed rfl
      · intro differs
        have inside : ∃ pstRule ∈ pstList, pstRule.uiRuleID = uiOldRuleID :=
          ⟨pstOldNode, by simp [listed], isOld⟩
        replace differs := differs inside
        rw [erased] at differs
        obtain ⟨front, behind, same, moved⟩ := ruleListMoveRule_some deleted differs
        have sorted : Ordered false (ruleListMoveRule pstList uiOldRuleID uiNewRuleID).1 :=
          ordered.move (by simp)
        rw [moved] at sorted ⊢
        exact .inl ⟨rfl, ⟨earlier, pstOldNode, later, front, behind, listed, isOld,
          same.trans others, rfl⟩, sorted⟩

theorem ruleListMoveRule_movedOrKept_behind :
    MovedOrKept [⟨10, ()⟩, ⟨20, ()⟩] 10 30 (ruleListMoveRule [⟨10, ()⟩, ⟨20, ()⟩] 10 30) ↔
      LastDiffers [⟨10, ()⟩, ⟨20, ()⟩] 10 30 := by
  apply ruleListMoveRule_movedOrKept
  simp [Ordered, Before]

/-- A rule is moved to the id of the last rule, and is gone. -/
theorem ruleListMoveRule_lost :
    ruleListMoveRule [⟨10, 'a'⟩, ⟨20, 'b'⟩] 10 20 = ([⟨20, 'b'⟩], .ok) ∧
      ¬ ∀ (pstList : List (RuleNodeS Char)) (uiOldRuleID uiNewRuleID : UINT), Ordered false pstList →
        MovedOrKept pstList uiOldRuleID uiNewRuleID
          (ruleListMoveRule pstList uiOldRuleID uiNewRuleID) := by
  refine ⟨by decide, ?_⟩
  intro holds
  have ordered : Ordered false [⟨10, 'a'⟩, ⟨20, 'b'⟩] := by simp [Ordered, Before]
  rcases holds _ 10 20 ordered with ⟨_, moved⟩ | ⟨failed, _⟩
  · exact absurd moved.length_eq (by decide)
  · exact failed (by decide)

end MyCode.RuleList
