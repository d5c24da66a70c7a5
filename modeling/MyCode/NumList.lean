import MyCode.IpList

/-!
# Lists of number ranges

`NumList_Compress` and `NumList_Continue` have the loops of the address lists.
`NumList_Compress` compares the begin of the next range with the begin of the
current one.
-/

namespace MyCode.NumList

open IpList Lib.Ranges

abbrev INT64 := Int64

structure NumListNode where
  iNumBegin : INT64
  iNumEnd : INT64
  deriving DecidableEq, Repr

variable {pstList : List NumListNode} {pstNode pstNodeNext : NumListNode}

def numListCmp (pstNode1 pstNode2 : NumListNode) : Int :=
  if pstNode1.iNumBegin > pstNode2.iNumBegin then 1
  else if pstNode1.iNumBegin < pstNode2.iNumBegin then -1
  else if pstNode1.iNumEnd < pstNode2.iNumEnd then 1
  else if pstNode1.iNumEnd > pstNode2.iNumEnd then -1
  else 0

def numListSort (pstList : List NumListNode) : List NumListNode :=
  dllSort numListCmp pstList

def numListCompress (pstList : List NumListNode) : List NumListNode :=
  sweep
    (fun pstNode pstNodeNext =>
      if pstNodeNext.iNumEnd ≤ pstNode.iNumEnd then some pstNode else none)
    (fun pstNode pstNodeNext =>
      if pstNodeNext.iNumBegin ≤ pstNode.iNumBegin then
        { pstNodeNext with iNumBegin := pstNode.iNumEnd + 1 }
      else pstNodeNext)
    (numListSort pstList)

def numListContinue (pstList : List NumListNode) : List NumListNode :=
  sweep
    (fun pstNode pstNodeNext =>
      if pstNodeNext.iNumBegin = pstNode.iNumEnd + 1 then
        some { pstNode with iNumEnd := pstNodeNext.iNumEnd }
      else none)
    (fun _ pstNodeNext => pstNodeNext)
    (numListCompress pstList)

instance : Ranged NumListNode where
  first node := node.iNumBegin.toInt
  last node := node.iNumEnd.toInt

theorem numListSort_longestFirst (pstList : List NumListNode) :
    (numListSort pstList).Pairwise LongestFirst := by
  apply dllSort_longestFirst
  · intro pstNode1 pstNode2 less
    simp only [numListCmp, gt_iff_lt, Int64.lt_iff_toInt_lt] at less
    simp only [LongestFirst, Ranged.first, Ranged.last]
    grind
  intro pstNode1 pstNode2 notLess
  simp only [numListCmp, gt_iff_lt, Int64.lt_iff_toInt_lt] at notLess
  simp only [LongestFirst, Ranged.first, Ranged.last]
  grind

theorem numListCompress_outermost (pstList : List NumListNode) :
    Outermost (numListSort pstList) (numListCompress pstList) := by
  apply sweep_outermost
  · intro pstNode pstNodeNext
    simp [Ranged.last, Int64.le_iff_toInt_le]
  · intro pstNode pstNodeNext ascending
    exact if_neg fun lower => not_lt.mpr (Int64.le_iff_toInt_le.mp lower) ascending
  · exact numListSort_longestFirst pstList

theorem numListCompress_covered (pstList : List NumListNode) (number : Int) :
    Covered (numListCompress pstList) number ↔ Covered pstList number :=
  (numListCompress_outermost pstList).covered.trans
    (covered_perm (Lib.insertAll_perm _ pstList))

theorem overlapsNest_sort : OverlapsNest (numListSort pstList) ↔ OverlapsNest pstList := by
  have perm : (numListSort pstList).Perm pstList := Lib.insertAll_perm _ pstList
  simp [OverlapsNest, perm.mem_iff]

theorem toInt_iNumEnd_add_one (behind : Ranged.last pstNode < Ranged.last pstNodeNext) :
    (pstNode.iNumEnd + 1).toInt = pstNode.iNumEnd.toInt + 1 := by
  have passed : pstNode.iNumEnd.toInt < pstNodeNext.iNumEnd.toInt := behind
  have lower := pstNode.iNumEnd.le_toInt
  have upper := pstNodeNext.iNumEnd.toInt_lt
  rw [Int64.toInt_add]
  apply Int.bmod_eq_of_le
  · change -(2 ^ 64 / 2 : Int) ≤ pstNode.iNumEnd.toInt + 1
    omega
  · change pstNode.iNumEnd.toInt + 1 < ((2 ^ 64 + 1) / 2 : Int)
    omega

theorem numListContinue_gapped (disjoint : DisjointCover pstList (numListCompress pstList)) :
    GappedCover pstList (numListContinue pstList) := by
  apply disjoint.sweep
  intro pstNode pstNodeNext behind
  have next := toInt_iNumEnd_add_one behind
  have touches : Ranged.first pstNodeNext = Ranged.last pstNode + 1 ↔
      pstNodeNext.iNumBegin = pstNode.iNumEnd + 1 := by
    rw [← Int64.toInt_inj, next]
    rfl
  by_cases touch : pstNodeNext.iNumBegin = pstNode.iNumEnd + 1
  · rw [if_pos (touches.mpr touch)]
    exact ⟨{ pstNode with iNumEnd := pstNodeNext.iNumEnd }, if_pos touch, rfl, rfl⟩
  · rw [if_neg (mt touches.mp touch)]
    exact if_neg touch

/-- The ranges come apart exactly where any two that overlap lie in one of the list. -/
theorem numList_merges (pstList : List NumListNode) :
    DisjointCover pstList (numListCompress pstList) ∧
        GappedCover pstList (numListContinue pstList) ↔
      OverlapsNest pstList := by
  rw [← overlapsNest_sort, ← (numListCompress_outermost pstList).apart_iff]
  constructor
  · exact fun merged => merged.1.apart
  intro apart
  have disjoint : DisjointCover pstList (numListCompress pstList) :=
    ⟨apart, numListCompress_covered pstList⟩
  exact ⟨disjoint, numListContinue_gapped disjoint⟩

/-- Of two ranges that overlap both are kept as they are. -/
theorem numListCompress_overlap :
    numListCompress [⟨1, 5⟩, ⟨3, 8⟩] = [⟨1, 5⟩, ⟨3, 8⟩] ∧
      ¬ ∀ pstList : List NumListNode, (numListCompress pstList).Pairwise Separate := by
  have kept : numListCompress [⟨1, 5⟩, ⟨3, 8⟩] = [⟨1, 5⟩, ⟨3, 8⟩] := by decide
  refine ⟨kept, fun separate => ?_⟩
  have apart := separate [⟨1, 5⟩, ⟨3, 8⟩]
  apply List.rel_of_pairwise_cons apart List.mem_cons_self 4
  decide

end MyCode.NumList
