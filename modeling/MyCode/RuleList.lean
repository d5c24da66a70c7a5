import MyCode.Types
import MyCode.Lib.SortedList
import MyCode.Lib.Transition

/-!
# Rules in the order of their ids

`rule_list.c`.  The list may hold rules of one id: `RuleList_Add` puts a rule
before those with its id, and callers either look for the id first or number
the rules anew.  The operations that change ids leave it to their callers that
no rule overtakes another.
-/

namespace MyCode.RuleList

open List BitVec Nat

variable {α : Type} {first second : Nat}

/-- A `RULE_NODE_S` inside of the rule. -/
structure RuleNodeS (α : Type) where
  uiRuleID : UINT
  rule : α
  deriving DecidableEq, Repr

section Operations

variable (pstList : List (RuleNodeS α)) (uiRuleID : UINT)

def ruleListAdd (rule : α) : List (RuleNodeS α) :=
  let pstRule : RuleNodeS α := ⟨uiRuleID, rule⟩
  match pstList.getLast? with
  | none => pstList ++ [pstRule]
  | some pstLast =>
    if uiRuleID > pstLast.uiRuleID then
      pstList ++ [pstRule]
    else
      Lib.insertWhen (fun pstCur => uiRuleID ≤ pstCur.uiRuleID) pstRule pstList

def ruleListDel : List (RuleNodeS α) × Option (RuleNodeS α) :=
  (pstList.eraseP fun pstRule => pstRule.uiRuleID = uiRuleID,
    pstList.find? fun pstRule => pstRule.uiRuleID = uiRuleID)

/-- The loop of `RuleList_ResetRuleID` from the number `i` on. -/
def resetRuleIDFrom (step : UINT) : List (RuleNodeS α) → UINT → List (RuleNodeS α)
  | [], _ => []
  | pstRule :: rest, i => { pstRule with uiRuleID := i } :: resetRuleIDFrom step rest (i + step)

def ruleListResetRuleID (step : UINT) : List (RuleNodeS α) :=
  resetRuleIDFrom (if step = 0 then 1 else step) pstList 0

def ruleListGetRule : List (RuleNodeS α) → UINT → Option (RuleNodeS α)
  | [], _ => none
  | pstRule :: rest, uiRuleID =>
    if pstRule.uiRuleID = uiRuleID then some pstRule
    else if pstRule.uiRuleID > uiRuleID then none
    else ruleListGetRule rest uiRuleID

/-- The loop of `RuleList_IncreaseID`, over the rules from the last to the first. -/
def increaseIDReverse (uiStart uiEnd uiStep : UINT) : List (RuleNodeS α) → List (RuleNodeS α)
  | [] => []
  | pstRule :: rest =>
    let uiRuleID := pstRule.uiRuleID
    let increased := if uiRuleID ≥ uiStart ∧ uiRuleID ≤ uiEnd then
        { pstRule with uiRuleID := uiRuleID + uiStep }
      else
        pstRule
    if uiRuleID ≤ uiStart then
      increased :: rest
    else
      increased :: increaseIDReverse uiStart uiEnd uiStep rest

def ruleListIncreaseID (uiStart uiEnd uiStep : UINT) : List (RuleNodeS α) :=
  (increaseIDReverse uiStart uiEnd uiStep pstList.reverse).reverse

/-- Where no rule is behind the new id although the last has it, the rule is not put back. -/
def ruleListMoveRule (uiOldRuleID uiNewRuleID : UINT) : List (RuleNodeS α) × BsStatus :=
  match ruleListDel pstList uiOldRuleID with
  | (pstList, none) => (pstList, .notFound)
  | (pstList, some pstOldNode) =>
    let moved := { pstOldNode with uiRuleID := uiNewRuleID }
    match pstList.getLast? with
    | none => (pstList ++ [moved], .ok)
    | some pstNode =>
      if pstNode.uiRuleID < uiNewRuleID then
        (pstList ++ [moved], .ok)
      else if pstList.any fun pstNode => pstNode.uiRuleID > uiNewRuleID then
        (Lib.insertWhen (fun pstNode => pstNode.uiRuleID > uiNewRuleID) moved pstList, .ok)
      else
        (pstList, .ok)

def ruleListResetID (uiStep : UINT) : List (RuleNodeS α) :=
  pstList.map fun pstNode => { pstNode with uiRuleID := pstNode.uiRuleID + uiStep }

end Operations

def Before (strict : Bool) (first second : Nat) : Prop :=
  if strict then first < second else first ≤ second

def Ordered (strict : Bool) (pstList : List (RuleNodeS α)) : Prop :=
  pstList.Pairwise fun first second => Before strict first.uiRuleID.toNat second.uiRuleID.toNat

variable {pstList : List (RuleNodeS α)} {strict : Bool} {uiRuleID : UINT} {rule : α}

theorem Before.le (before : Before strict first second) : first ≤ second := by
  cases strict with
  | true => exact Nat.le_of_lt before
  | false => exact before

theorem Before.of_lt (before : first < second) : Before strict first second := by
  cases strict with
  | true => exact before
  | false => exact Nat.le_of_lt before

theorem Before.of_le (before : first ≤ second) (differ : strict = true → first ≠ second) :
    Before strict first second := by
  cases strict with
  | true => exact Nat.lt_of_le_of_ne before (differ rfl)
  | false => exact before

theorem Before.trans {third : Nat} (before : Before strict first second)
    (behind : Before strict second third) : Before strict first third := by
  cases strict with
  | true => exact Nat.lt_trans before behind
  | false => exact Nat.le_trans before behind

theorem before_add {amount : Nat} :
    Before strict (first + amount) (second + amount) ↔ Before strict first second := by
  cases strict <;> simp [Before]

section

variable (ordered : Ordered strict pstList)

include ordered

/-- `RuleList_GetRule` stops no earlier than it may. -/
theorem Ordered.getRule (uiRuleID : UINT) :
    ruleListGetRule pstList uiRuleID = pstList.find? fun pstRule => pstRule.uiRuleID = uiRuleID := by
  induction pstList with
  | nil => rfl
  | cons pstRule _ ih =>
    obtain ⟨isFirst, orderedRest⟩ := pairwise_cons.mp ordered
    rw [ruleListGetRule, find?_cons]
    by_cases same : pstRule.uiRuleID = uiRuleID
    · simp [same]
    simp only [same, decide_false, if_false]
    split
    · next beyond =>
      symm
      apply find?_eq_none.mpr
      intro other inRest isOther
      have behind := (isFirst other inRest).le
      rw [of_decide_eq_true isOther] at behind
      exact absurd beyond (BitVec.not_lt.mpr behind)
    · exact ih orderedRest

theorem Ordered.last {pstLast pstRule : RuleNodeS α} (isLast : pstList.getLast? = some pstLast)
    (inside : pstRule ∈ pstList) : pstRule.uiRuleID.toNat ≤ pstLast.uiRuleID.toNat := by
  obtain ⟨_, rfl⟩ := getLast?_eq_some_iff.mp isLast
  rcases mem_append.mp inside with isEarlier | isIt
  · exact ((pairwise_append.mp ordered).2.2 pstRule isEarlier pstLast (mem_singleton_self _)).le
  · obtain rfl := mem_singleton.mp isIt
    exact Nat.le_refl _

theorem Ordered.append {new : RuleNodeS α}
    (behind : ∀ pstRule ∈ pstList, pstRule.uiRuleID.toNat < new.uiRuleID.toNat) :
    Ordered strict (pstList ++ [new]) := by
  apply pairwise_append.mpr
  refine ⟨ordered, pairwise_singleton _ _, ?_⟩
  intro pstRule inside other isNew
  rw [mem_singleton.mp isNew]
  exact .of_lt (behind pstRule inside)

theorem Ordered.insert {new : RuleNodeS α} {stop : RuleNodeS α → Bool}
    (stops : ∀ pstRule ∈ pstList, stop pstRule = true → new.uiRuleID.toNat ≤ pstRule.uiRuleID.toNat)
    (passes : ∀ pstRule ∈ pstList, stop pstRule = false →
      pstRule.uiRuleID.toNat ≤ new.uiRuleID.toNat)
    (fresh : strict = true → ∀ pstRule ∈ pstList, pstRule.uiRuleID ≠ new.uiRuleID) :
    Ordered strict (Lib.insertWhen stop new pstList) := by
  have differ : ∀ pstRule ∈ pstList, strict = true →
      pstRule.uiRuleID.toNat ≠ new.uiRuleID.toNat := fun pstRule inside isStrict same =>
    fresh isStrict pstRule inside (eq_of_toNat_eq same)
  apply Lib.pairwise_insertWhen (fun _ _ _ first second => first.trans second) ordered
  · exact fun pstRule inside stopped => .of_le (stops pstRule inside stopped)
      fun isStrict => (differ pstRule inside isStrict).symm
  · exact fun pstRule inside passed => .of_le (passes pstRule inside passed)
      fun isStrict => differ pstRule inside isStrict

theorem Ordered.add (fresh : strict = true → ∀ pstRule ∈ pstList, pstRule.uiRuleID ≠ uiRuleID) :
    Ordered strict (ruleListAdd pstList uiRuleID rule) := by
  rw [ruleListAdd]
  split
  · next isEmpty =>
    apply ordered.append
    simp [getLast?_eq_none_iff.mp isEmpty]
  next pstLast isLast =>
  split
  · next behind =>
    apply ordered.append
    exact fun pstRule inside => Nat.lt_of_le_of_lt (ordered.last isLast inside) behind
  apply ordered.insert _ _ fresh
  · exact fun pstRule _ stopped => of_decide_eq_true stopped
  · intro pstRule _ passed
    exact Nat.le_of_lt (BitVec.not_le.mp (of_decide_eq_false passed))

theorem Ordered.del (uiRuleID : UINT) : Ordered strict (ruleListDel pstList uiRuleID).1 :=
  ordered.sublist eraseP_sublist

theorem Ordered.move {uiOldRuleID uiNewRuleID : UINT}
    (fresh : strict = true → (ruleListDel pstList uiOldRuleID).2 ≠ none →
      ∀ pstRule ∈ (ruleListDel pstList uiOldRuleID).1, pstRule.uiRuleID ≠ uiNewRuleID) :
    Ordered strict (ruleListMoveRule pstList uiOldRuleID uiNewRuleID).1 := by
  have rest := ordered.del uiOldRuleID
  rw [ruleListMoveRule]
  split
  · next deleted =>
    rw [deleted] at rest
    exact rest
  next deleted =>
  rw [deleted] at rest fresh
  replace fresh := fun isStrict => fresh isStrict (Option.some_ne_none _)
  split
  · next isEmpty =>
    apply rest.append
    simp [getLast?_eq_none_iff.mp isEmpty]
  next pstNode isLast =>
  split
  · next behind =>
    apply rest.append
    exact fun pstRule inside => Nat.lt_of_le_of_lt (rest.last isLast inside) behind
  split
  · apply rest.insert _ _ fresh
    · exact fun pstRule _ stopped => Nat.le_of_lt (of_decide_eq_true stopped)
    · exact fun pstRule _ passed => BitVec.not_lt.mp (of_decide_eq_false passed)
  · exact rest

end

/-- Every shifted id stays below 2^32 and behind none of the ids that follow the range. -/
def NoOvertaking (strict : Bool) (pstList : List (RuleNodeS α)) (uiStart uiEnd uiStep : UINT) : Prop :=
  ∀ shifted ∈ pstList, uiStart ≤ shifted.uiRuleID → shifted.uiRuleID ≤ uiEnd →
    shifted.uiRuleID.toNat + uiStep.toNat < 2 ^ 32 ∧
      ∀ other ∈ pstList, uiEnd < other.uiRuleID →
        Before strict (shifted.uiRuleID.toNat + uiStep.toNat) other.uiRuleID.toNat

theorem mem_increaseIDReverse {uiStart uiEnd uiStep : UINT} {pstRule : RuleNodeS α}
    (inside : pstRule ∈ increaseIDReverse uiStart uiEnd uiStep pstList) :
    ∃ old ∈ pstList, pstRule = old ∨
      (uiStart ≤ old.uiRuleID ∧ old.uiRuleID ≤ uiEnd ∧
        pstRule = { old with uiRuleID := old.uiRuleID + uiStep }) := by
  induction pstList with
  | nil => cases inside
  | cons first rest ih =>
    have changed : ∀ increased, (if first.uiRuleID ≥ uiStart ∧ first.uiRuleID ≤ uiEnd then
        { first with uiRuleID := first.uiRuleID + uiStep } else first) = increased →
        ∃ old ∈ first :: rest, increased = old ∨
          (uiStart ≤ old.uiRuleID ∧ old.uiRuleID ≤ uiEnd ∧
            increased = { old with uiRuleID := old.uiRuleID + uiStep }) := by
      rintro - rfl
      refine ⟨first, mem_cons_self, ?_⟩
      split
      · next inRange => exact .inr ⟨inRange.1, inRange.2, rfl⟩
      · exact .inl rfl
    rw [increaseIDReverse] at inside
    split at inside
    · rcases mem_cons.mp inside with isFirst | inRest
      · exact changed _ isFirst.symm
      · exact ⟨pstRule, mem_cons_of_mem _ inRest, .inl rfl⟩
    rcases mem_cons.mp inside with isFirst | inRest
    · exact changed _ isFirst.symm
    · obtain ⟨old, isOld, same⟩ := ih inRest
      exact ⟨old, mem_cons_of_mem _ isOld, same⟩

theorem before_increased {uiStart uiEnd uiStep : UINT} {earlier later earlierAfter : RuleNodeS α}
    (before : Before strict earlier.uiRuleID.toNat later.uiRuleID.toNat)
    (isEarlier : earlierAfter = earlier ∨ (uiStart ≤ earlier.uiRuleID ∧ earlier.uiRuleID ≤ uiEnd ∧
        earlierAfter = { earlier with uiRuleID := earlier.uiRuleID + uiStep }))
    (kept : NoOvertaking strict [earlier, later] uiStart uiEnd uiStep) :
    Before strict earlierAfter.uiRuleID.toNat
      (if later.uiRuleID ≥ uiStart ∧ later.uiRuleID ≤ uiEnd then
        { later with uiRuleID := later.uiRuleID + uiStep } else later).uiRuleID.toNat := by
  have ordered := before.le
  split
  · next inRange =>
    have small := (kept later (by simp) inRange.1 inRange.2).1
    have shifted : (later.uiRuleID + uiStep).toNat = later.uiRuleID.toNat + uiStep.toNat := by
      rw [toNat_add, mod_eq_of_lt small]
    rcases isEarlier with rfl | ⟨_, _, rfl⟩
    · change Before strict _ (later.uiRuleID + uiStep).toNat
      exact .of_le (by omega) fun isStrict same => by
        rw [isStrict] at before
        have apart : earlierAfter.uiRuleID.toNat < later.uiRuleID.toNat := before
        omega
    · rw [shifted, toNat_add, mod_eq_of_lt (by omega), before_add]
      exact before
  next outside =>
  rcases isEarlier with rfl | ⟨fromStart, toEnd, rfl⟩
  · exact before
  have behind : uiEnd < later.uiRuleID := by
    rw [ge_iff_le, le_def, le_def] at outside
    rw [le_def] at fromStart toEnd
    rw [lt_def]
    omega
  obtain ⟨small, follows⟩ := kept earlier (by simp) fromStart toEnd
  rw [toNat_add, mod_eq_of_lt small]
  exact follows later (by simp) behind

theorem NoOvertaking.subset {some : List (RuleNodeS α)} {uiStart uiEnd uiStep : UINT}
    (kept : NoOvertaking strict pstList uiStart uiEnd uiStep) (subset : some ⊆ pstList) :
    NoOvertaking strict some uiStart uiEnd uiStep := by
  intro shifted isShifted fromStart toEnd
  obtain ⟨small, follows⟩ := kept shifted (subset isShifted) fromStart toEnd
  exact ⟨small, fun other isOther => follows other (subset isOther)⟩

theorem increaseIDReverse_descending {uiStart uiEnd uiStep : UINT}
    (descending : pstList.Pairwise fun second first =>
      Before strict first.uiRuleID.toNat second.uiRuleID.toNat)
    (kept : NoOvertaking strict pstList uiStart uiEnd uiStep) :
    (increaseIDReverse uiStart uiEnd uiStep pstList).Pairwise fun second first =>
      Before strict first.uiRuleID.toNat second.uiRuleID.toNat := by
  induction pstList with
  | nil => exact .nil
  | cons later rest ih =>
    obtain ⟨isLast, descendingRest⟩ := pairwise_cons.mp descending
    have pair : ∀ earlier ∈ rest, NoOvertaking strict [earlier, later] uiStart uiEnd uiStep := by
      intro earlier inRest
      apply kept.subset
      simp [inRest]
    rw [increaseIDReverse]
    split
    · apply pairwise_cons.mpr ⟨_, descendingRest⟩
      exact fun earlier inRest => before_increased (isLast earlier inRest) (.inl rfl) (pair earlier inRest)
    apply pairwise_cons.mpr
    constructor
    · intro earlierAfter inside
      obtain ⟨earlier, inRest, same⟩ := mem_increaseIDReverse inside
      exact before_increased (isLast earlier inRest) same (pair earlier inRest)
    · exact ih descendingRest (kept.subset fun _ inRest => mem_cons_of_mem _ inRest)

theorem Ordered.increaseID (ordered : Ordered strict pstList) {uiStart uiEnd uiStep : UINT}
    (kept : NoOvertaking strict pstList uiStart uiEnd uiStep) :
    Ordered strict (ruleListIncreaseID pstList uiStart uiEnd uiStep) := by
  rw [Ordered, ruleListIncreaseID, pairwise_reverse]
  apply increaseIDReverse_descending
  · rw [pairwise_reverse]
    exact ordered
  · exact kept.subset fun _ inside => mem_reverse.mp inside

def WrapTogether (pstList : List (RuleNodeS α)) (uiStep : UINT) : Prop :=
  ∀ first ∈ pstList, ∀ second ∈ pstList,
    first.uiRuleID.toNat + uiStep.toNat < 2 ^ 32 → second.uiRuleID.toNat + uiStep.toNat < 2 ^ 32

theorem Ordered.resetID (ordered : Ordered strict pstList) {uiStep : UINT}
    (together : WrapTogether pstList uiStep) : Ordered strict (ruleListResetID pstList uiStep) := by
  rw [Ordered, ruleListResetID, pairwise_map]
  apply ordered.imp_of_mem
  intro first second isFirst isSecond before
  have fromFirst := together first isFirst second isSecond
  simp only [toNat_add]
  by_cases wraps : first.uiRuleID.toNat + uiStep.toNat < 2 ^ 32
  · rw [mod_eq_of_lt wraps, mod_eq_of_lt (fromFirst wraps), before_add]
    exact before
  · cases strict <;> simp only [Before, if_true, Bool.false_eq_true, if_false] at before ⊢ <;> omega

theorem resetRuleIDFrom_ordered {step i : UINT} (positive : 0 < step.toNat)
    (small : i.toNat + (pstList.length - 1) * step.toNat < 2 ^ 32) :
    Ordered strict (resetRuleIDFrom step pstList i) ∧
      ∀ pstRule ∈ resetRuleIDFrom step pstList i, i.toNat ≤ pstRule.uiRuleID.toNat := by
  induction pstList generalizing i with
  | nil => exact ⟨.nil, by simp [resetRuleIDFrom]⟩
  | cons _ rest ih =>
    cases rest with
    | nil =>
      refine ⟨pairwise_singleton _ _, ?_⟩
      simp [resetRuleIDFrom]
    | cons _ rest =>
      have step_le : i.toNat + step.toNat + rest.length * step.toNat < 2 ^ 32 := by
        simp only [length_cons, Nat.add_sub_cancel, Nat.add_mul, Nat.one_mul] at small
        omega
      have next : (i + step).toNat = i.toNat + step.toNat := by
        rw [toNat_add, mod_eq_of_lt (by omega)]
      obtain ⟨orderedRest, above⟩ := ih (i := i + step) (by rw [next]; exact step_le)
      constructor
      · apply pairwise_cons.mpr ⟨_, orderedRest⟩
        intro pstRule inRest
        have behind := above pstRule inRest
        exact .of_lt (show i.toNat < _ by omega)
      intro pstRule inside
      rcases mem_cons.mp inside with rfl | inRest
      · exact Nat.le_refl _
      · have behind := above pstRule inRest
        omega

/-- The step that `RuleList_ResetRuleID` uses. -/
def resetStep (step : UINT) : UINT :=
  if step = 0 then 1 else step

theorem Ordered.resetRuleID {step : UINT}
    (small : (pstList.length - 1) * (resetStep step).toNat < 2 ^ 32) :
    Ordered strict (ruleListResetRuleID pstList step) := by
  have positive : 0 < (resetStep step).toNat := by
    rw [resetStep]
    split
    · decide
    next some =>
    rw [Nat.pos_iff_ne_zero]
    exact fun zero => some (eq_of_toNat_eq zero)
  exact (resetRuleIDFrom_ordered positive (by simpa using small)).1

inductive Operation (α : Type) where
  | add (uiRuleID : UINT) (rule : α)
  | del (uiRuleID : UINT)
  | moveRule (uiOldRuleID uiNewRuleID : UINT)
  | increaseID (uiStart uiEnd uiStep : UINT)
  | resetID (uiStep : UINT)
  | resetRuleID (step : UINT)

def next (pstList : List (RuleNodeS α)) : Operation α → List (RuleNodeS α)
  | .add uiRuleID rule => ruleListAdd pstList uiRuleID rule
  | .del uiRuleID => (ruleListDel pstList uiRuleID).1
  | .moveRule uiOldRuleID uiNewRuleID => (ruleListMoveRule pstList uiOldRuleID uiNewRuleID).1
  | .increaseID uiStart uiEnd uiStep => ruleListIncreaseID pstList uiStart uiEnd uiStep
  | .resetID uiStep => ruleListResetID pstList uiStep
  | .resetRuleID step => ruleListResetRuleID pstList step

def ruleListSystem (α : Type) : Lib.System (List (RuleNodeS α)) (Operation α) where
  start pstList := pstList = []
  step pstList operation after := after = next pstList operation

/-- What callers see to.  For a strict order an added or moved rule also needs an id of
its own. -/
def Admissible (strict : Bool) (pstList : List (RuleNodeS α)) : Operation α → Prop
  | .add uiRuleID _ => strict = true → ∀ pstRule ∈ pstList, pstRule.uiRuleID ≠ uiRuleID
  | .del _ => True
  | .moveRule uiOldRuleID uiNewRuleID =>
    strict = true → (ruleListDel pstList uiOldRuleID).2 ≠ none →
      ∀ pstRule ∈ (ruleListDel pstList uiOldRuleID).1, pstRule.uiRuleID ≠ uiNewRuleID
  | .increaseID uiStart uiEnd uiStep => NoOvertaking strict pstList uiStart uiEnd uiStep
  | .resetID uiStep => WrapTogether pstList uiStep
  | .resetRuleID step => (pstList.length - 1) * (resetStep step).toNat < 2 ^ 32

theorem Ordered.next (ordered : Ordered strict pstList) {operation : Operation α}
    (admissible : Admissible strict pstList operation) : Ordered strict (next pstList operation) := by
  cases operation with
  | add => exact ordered.add admissible
  | del uiRuleID => exact ordered.del uiRuleID
  | moveRule => exact ordered.move admissible
  | increaseID => exact ordered.increaseID admissible
  | resetID => exact ordered.resetID admissible
  | resetRuleID => exact Ordered.resetRuleID admissible

/-- The rules stay in order, and a search by id finds the first rule that has it. -/
theorem ruleList_ordered (reached : (ruleListSystem α).ReachableWhen (Admissible strict) pstList) :
    Ordered strict pstList ∧
      ∀ uiRuleID, ruleListGetRule pstList uiRuleID =
        pstList.find? fun pstRule => pstRule.uiRuleID = uiRuleID := by
  have ordered : Ordered strict pstList := by
    apply Lib.System.ReachableWhen.invariant _ _ reached
    · rintro _ rfl
      exact .nil
    · rintro _ _ _ ordered admissible rfl
      exact ordered.next admissible
  exact ⟨ordered, ordered.getRule⟩

theorem ruleList_ordered_moved :
    Ordered true ([.add 10 (), .add 20 (), .moveRule 10 30].foldl next []) ∧
      ∀ uiRuleID, ruleListGetRule ([.add 10 (), .add 20 (), .moveRule 10 30].foldl next []) uiRuleID =
        ([.add 10 (), .add 20 (), .moveRule 10 30].foldl next []).find?
          fun pstRule => pstRule.uiRuleID = uiRuleID := by
  apply ruleList_ordered
  refine Lib.System.ReachableWhen.foldl (fun _ _ admissible => ⟨admissible, rfl⟩) (.start rfl)
    ⟨?_, ?_, ?_, trivial⟩
  · intro _ pstRule inside
    cases inside
  · intro _ pstRule inside
    rw [mem_singleton.mp inside]
    decide
  · intro _ _ pstRule inside
    rw [mem_singleton.mp inside]
    decide

/-- Two rules of one id, and a rule that overtakes the next, which is then not found. -/
theorem ruleList_unordered :
    (∃ pstList, (ruleListSystem Unit).Reachable pstList ∧
        pstList.map (fun pstRule => pstRule.uiRuleID) = [5, 5] ∧ ¬ Ordered true pstList) ∧
      ∃ pstList, (ruleListSystem Unit).Reachable pstList ∧
        pstList.map (fun pstRule => pstRule.uiRuleID) = [25, 20] ∧ ruleListGetRule pstList 20 = none := by
  constructor
  · refine ⟨[.add 5 (), .add 5 ()].foldl next [], ?_, by decide, ?_⟩
    · exact Lib.System.Reachable.runs (fun _ _ => rfl) _ (.start rfl)
    intro ordered
    have first : (5 : UINT).toNat < (5 : UINT).toNat :=
      (pairwise_cons.mp ordered).1 ⟨5, ()⟩ (mem_singleton_self _)
    exact absurd first (by decide)
  · refine ⟨[.add 10 (), .add 20 (), .increaseID 10 10 15].foldl next [], ?_, by decide, by decide⟩
    exact Lib.System.Reachable.runs (fun _ _ => rfl) _ (.start rfl)

end MyCode.RuleList
