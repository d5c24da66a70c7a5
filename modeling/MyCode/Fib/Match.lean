import MyCode.Fib.Table
import MyCode.Lib.Enumeration

/-!
# Longest prefix match in a forwarding table

Only contiguous masks are probed, and the longest match among the nodes decides:
where it has no usable next hop, no shorter mask is tried.
-/

namespace MyCode.Fib

open Hash Option

variable {ctrl : FibCtrl} {uiDstIp : UINT} {node : FibHashNode} {fibNode : FibNode}

/-- A destination equals the key's under the key's mask. -/
def FibKey.Covers (key : FibKey) (uiIp : UINT) : Prop :=
  uiIp &&& key.uiMaskOrEndIp = key.uiDstOrStartIp &&& key.uiMaskOrEndIp

instance (key : FibKey) (uiIp : UINT) : Decidable (key.Covers uiIp) :=
  inferInstanceAs (Decidable (_ = _))

def FibKey.HasPrefix (key : FibKey) (prefixLen : Nat) : Prop :=
  prefixLen ≤ 32 ∧ key.uiMaskOrEndIp = htonl (prefix2Mask prefixLen)

/-- The longest prefix among the nodes that cover an address. -/
structure Longest (ctrl : FibCtrl) (uiIp : UINT) (node : FibHashNode) (prefixLen : Nat) : Prop where
  stored : node ∈ hashWalk ctrl.hHash
  isPrefix : node.stFibKey.HasPrefix prefixLen
  covers : node.stFibKey.Covers uiIp
  longest : ∀ other ∈ hashWalk ctrl.hHash, ∀ otherLen, other.stFibKey.HasPrefix otherLen →
    other.stFibKey.Covers uiIp → otherLen ≤ prefixLen

/-- The interface of a static next hop: its own, or else the one that is found
for it. -/
def hopInterface (ctrl : FibCtrl) (hop : FibNextHop) : UINT :=
  if hop.uiOutIfIndex ≠ ifInvalidIndex then
    hop.uiOutIfIndex
  else if hasFlag hop.uiFlag fibFlagAutoIf then
    (fibDirectIf ctrl hop.uiNextHop).getD ifInvalidIndex
  else
    ifInvalidIndex

/-- The next hop of a node that has an interface: the one that is not static
before the static ones in their order. -/
def usableHop (ctrl : FibCtrl) (node : FibHashNode) : Option FibNextHop :=
  if node.stNextHop.uiOutIfIndex ≠ ifInvalidIndex then
    some node.stNextHop
  else
    (node.astStaticNextHop.find? fun hop => hopInterface ctrl hop != ifInvalidIndex).map fun hop =>
      { hop with uiOutIfIndex := hopInterface ctrl hop }

theorem fibProbeKey_hasPrefix (uiIp : UINT) (i : Nat) : (fibProbeKey uiIp i).HasPrefix (32 - i) :=
  ⟨Nat.sub_le _ _, rfl⟩

theorem fibProbeKey_covers (uiIp : UINT) (i : Nat) : (fibProbeKey uiIp i).Covers uiIp := by
  rw [FibKey.Covers, fibProbeKey, BitVec.and_assoc, BitVec.and_self]

theorem eq_fibProbeKey {key : FibKey} {uiIp : UINT} {prefixLen : Nat} (masked : key.Masked)
    (isPrefix : key.HasPrefix prefixLen) (covers : key.Covers uiIp) :
    key = fibProbeKey uiIp (32 - prefixLen) := by
  obtain ⟨_, _⟩ := key
  obtain ⟨inside, same⟩ := isPrefix
  simp only at same
  simp only [FibKey.Masked, same] at masked
  simp only [FibKey.Covers, same, masked] at covers
  have back := Nat.sub_sub_self inside
  rw [fibProbeKey, back, covers, same]

theorem fibFind_probe (ok : FibOk ctrl) {uiIp : UINT} {i : Nat}
    (found : fibFind ctrl (fibProbeKey uiIp i) = some node) :
    node ∈ hashWalk ctrl.hHash ∧ node.stFibKey.HasPrefix (32 - i) ∧ node.stFibKey.Covers uiIp := by
  obtain ⟨inside, same⟩ := (fibFind_eq_some_iff ok).mp found
  rw [same]
  exact ⟨inside, fibProbeKey_hasPrefix uiIp i, fibProbeKey_covers uiIp i⟩

theorem fibFindLongest_iff (ok : FibOk ctrl) :
    fibFindLongest ctrl uiDstIp = some node ↔ ∃ prefixLen, Longest ctrl uiDstIp node prefixLen := by
  rw [fibFindLongest, Lib.findSome?_range_eq_some_iff]
  constructor
  · rintro ⟨i, -, found, first⟩
    obtain ⟨stored, isPrefix, covers⟩ := fibFind_probe ok found
    refine ⟨32 - i, stored, isPrefix, covers, fun other inside otherLen otherPrefix cover => ?_⟩
    -- A longer match would have been probed before.
    by_contra longer
    have earlier := first (32 - otherLen) (by have := otherPrefix.1; omega)
    exact (fibFind_eq_none_iff ok).mp earlier other inside
      (eq_fibProbeKey (ok.masked other inside) otherPrefix cover)
  rintro ⟨prefixLen, stored, isPrefix, covers, longest⟩
  have same := eq_fibProbeKey (ok.masked node stored) isPrefix covers
  refine ⟨32 - prefixLen, by omega, (fibFind_eq_some_iff ok).mpr ⟨stored, same⟩,
    fun j earlier => ?_⟩
  cases found : fibFind ctrl (fibProbeKey uiDstIp j) with
  | none => rfl
  | some other =>
    obtain ⟨inside, otherPrefix, cover⟩ := fibFind_probe ok found
    have bound := longest other inside _ otherPrefix cover
    omega

def hopRoute (ctrl : FibCtrl) (key : FibKey) (hop : FibNextHop) : FibNode :=
  FibNextHop.route { hop with uiOutIfIndex := hopInterface ctrl hop } key

theorem fibAutoFindIf_route (ctrl : FibCtrl) (key : FibKey) (hop : FibNextHop) :
    (if (hop.route key).uiOutIfIndex = ifInvalidIndex then fibAutoFindIf ctrl (hop.route key)
      else hop.route key) = hopRoute ctrl key hop := by
  by_cases unset : hop.uiOutIfIndex = ifInvalidIndex
  · have routed : (hop.route key).uiOutIfIndex = ifInvalidIndex := unset
    rw [if_pos routed, hopRoute, hopInterface, if_neg (not_not.mpr unset), fibAutoFindIf]
    by_cases auto : hasFlag hop.uiFlag fibFlagAutoIf = true
    · have routedAuto : hasFlag (hop.route key).uiFlag fibFlagAutoIf = true := auto
      rw [if_pos routedAuto, if_pos auto]
      have direct : (hop.route key).uiNextHop = hop.uiNextHop := rfl
      rw [direct]
      cases fibDirectIf ctrl hop.uiNextHop with
      | some => rfl
      | none => rw [getD_none, ← unset]
    · have routedAuto : ¬ hasFlag (hop.route key).uiFlag fibFlagAutoIf = true := auto
      rw [if_neg routedAuto, if_neg auto, ← unset]
  · have routed : ¬ (hop.route key).uiOutIfIndex = ifInvalidIndex := unset
    rw [if_neg routed, hopRoute, hopInterface, if_pos unset]

theorem fibMatchStatic_eq (ctrl : FibCtrl) (key : FibKey) (hops : List FibNextHop) :
    (fibMatchStatic ctrl key hops).map Prod.snd =
      (hops.find? fun hop => hopInterface ctrl hop != ifInvalidIndex).map (hopRoute ctrl key) := by
  induction hops with
  | nil => rfl
  | cons hop hops ih =>
    rw [fibMatchStatic]
    simp only [fibAutoFindIf_route]
    by_cases usable : hopInterface ctrl hop = ifInvalidIndex
    · have skipped : ¬ (hopRoute ctrl key hop).uiOutIfIndex ≠ ifInvalidIndex := not_not.mpr usable
      rw [if_neg skipped, List.find?_cons_of_neg (by simp [usable]), ← ih]
      cases fibMatchStatic ctrl key hops <;> rfl
    · have taken : (hopRoute ctrl key hop).uiOutIfIndex ≠ ifInvalidIndex := usable
      rw [if_pos taken, List.find?_cons_of_pos (by simp [usable])]
      rfl

theorem fibPrefixMatch_eq (ctrl : FibCtrl) (uiDstIp : UINT) :
    (fibPrefixMatch ctrl uiDstIp).2 =
      match (fibFindLongest ctrl uiDstIp).bind fun node =>
        (usableHop ctrl node).map fun hop => hop.route node.stFibKey with
      | some fibNode => .ok fibNode
      | none => .error .notFound := by
  unfold fibPrefixMatch
  cases fibFindLongest ctrl uiDstIp with
  | none => rfl
  | some found =>
    simp only [bind_some, usableHop]
    split
    · rfl
    have static := fibMatchStatic_eq ctrl found.stFibKey found.astStaticNextHop
    rw [Option.map_map]
    change _ = match Option.map (hopRoute ctrl found.stFibKey) _ with
      | some fibNode => Except.ok fibNode
      | none => Except.error BsStatus.notFound
    rw [← static]
    cases fibMatchStatic ctrl found.stFibKey found.astStaticNextHop <;> rfl

/-- A match returns the usable next hop of the longest prefix that covers the
address, and fails exactly where there is none. -/
theorem fibPrefixMatch_longest (reached : fib.Reachable ctrl) (uiDstIp : UINT) :
    (∀ fibNode, (fibPrefixMatch ctrl uiDstIp).2 = .ok fibNode ↔
      ∃ node prefixLen hop, Longest ctrl uiDstIp node prefixLen ∧
        usableHop ctrl node = some hop ∧ fibNode = hop.route node.stFibKey) ∧
    ((fibPrefixMatch ctrl uiDstIp).2 = .error .notFound ↔
      ∀ node prefixLen, Longest ctrl uiDstIp node prefixLen → usableHop ctrl node = none) := by
  have ok := fib_ok reached
  rw [fibPrefixMatch_eq]
  cases longest : fibFindLongest ctrl uiDstIp with
  | none =>
    have absent : ∀ node prefixLen, ¬ Longest ctrl uiDstIp node prefixLen := by
      intro node prefixLen isLongest
      rw [(fibFindLongest_iff ok).mpr ⟨prefixLen, isLongest⟩] at longest
      cases longest
    refine ⟨fun fibNode => ⟨nofun, ?_⟩, fun _ node prefixLen isLongest =>
      (absent node prefixLen isLongest).elim, fun _ => rfl⟩
    rintro ⟨node, prefixLen, _, isLongest, -⟩
    exact (absent node prefixLen isLongest).elim
  | some node =>
    obtain ⟨prefixLen, isLongest⟩ := (fibFindLongest_iff ok).mp longest
    have unique : ∀ other otherLen, Longest ctrl uiDstIp other otherLen → other = node := by
      intro other otherLen otherLongest
      have found := (fibFindLongest_iff ok).mpr ⟨otherLen, otherLongest⟩
      rw [longest] at found
      exact (Option.some.inj found).symm
    rw [bind_some]
    cases usable : usableHop ctrl node with
    | none =>
      refine ⟨fun fibNode => ⟨nofun, ?_⟩,
        fun _ other otherLen otherLongest => unique other otherLen otherLongest ▸ usable,
        fun _ => rfl⟩
      rintro ⟨other, otherLen, _, otherLongest, otherUsable, -⟩
      rw [unique other otherLen otherLongest, usable] at otherUsable
      cases otherUsable
    | some hop =>
      refine ⟨fun fibNode => ⟨fun found => ?_, ?_⟩, nofun, fun none => ?_⟩
      · exact ⟨node, prefixLen, hop, isLongest, usable, (Except.ok.inj found).symm⟩
      · rintro ⟨other, otherLen, _, otherLongest, otherUsable, rfl⟩
        rw [unique other otherLen otherLongest] at otherUsable ⊢
        rw [usable] at otherUsable
        rw [← Option.some.inj otherUsable]
        rfl
      · rw [none node prefixLen isLongest] at usable
        cases usable

/-- A table with one direct route. -/
theorem fibPrefixMatch_longest_direct :
    (fibPrefixMatch ((FibCall.add true ⟨⟨0x0000000a, 0x000000ff⟩, 0, 5, 0x2⟩).run fibCreate)
        0x0302010a).2 = .error .notFound ↔
      ∀ node prefixLen, Longest
        ((FibCall.add true ⟨⟨0x0000000a, 0x000000ff⟩, 0, 5, 0x2⟩).run fibCreate) 0x0302010a node
        prefixLen →
      usableHop ((FibCall.add true ⟨⟨0x0000000a, 0x000000ff⟩, 0, 5, 0x2⟩).run fibCreate) node = none :=
  (fibPrefixMatch_longest (.step (.start rfl) trivial rfl) 0x0302010a).2

/-- The static route 10.0.0.0/8 by way of 10.0.0.1 covers 10.1.2.3, but no
direct route says where 10.0.0.1 is. -/
theorem fibPrefixMatch_unresolved :
    ¬ ∀ ctrl, fib.Reachable ctrl → ∀ uiDstIp,
      ((∃ eRet, (fibPrefixMatch ctrl uiDstIp).2 = .error eRet) ↔
        ∀ fibNode ∈ fibWalk ctrl, ¬ fibNode.stFibKey.Covers uiDstIp) := by
  intro holds
  have reached : fib.Reachable
      ((FibCall.add true ⟨⟨0x0000000a, 0x000000ff⟩, 0x0100000a, 0, 0xc⟩).run fibCreate) :=
    .step (.start rfl) trivial rfl
  have uncovered := (holds _ reached 0x0302010a).mp ⟨.notFound, by decide +kernel⟩
    ⟨⟨0x0000000a, 0x000000ff⟩, 0x0100000a, 0, 0xc⟩ (by decide +kernel)
  exact uncovered (by decide)

end MyCode.Fib

/-!
## Enumerating the routes of a table

`fibGetNext` goes through the routes in descending order of destination, mask,
next hop and flags, and starts its search for the greatest one with a node of
zeros.
-/

namespace MyCode.Fib

variable {numCmp : UINT → UINT → Int} {ctrl : FibCtrl} {node1 node2 fibNode : FibNode}

/-- The sign of `NUM_Cmp` is the order of its unsigned arguments. -/
def NumCmpOk (numCmp : UINT → UINT → Int) : Prop :=
  ∀ a b, (0 < numCmp a b ↔ b.toNat < a.toNat) ∧ (numCmp a b < 0 ↔ a.toNat < b.toNat)

def numDifference (a b : UINT) : Int :=
  (a.toNat : Int) - b.toNat

theorem numDifference_ok : NumCmpOk numDifference := by
  intro a b
  unfold numDifference
  constructor <;> omega

/-- The four fields that `_fib_GetNextCmp` compares, as one number. -/
def fibRank (fibNode : FibNode) : Nat :=
  (ntohl fibNode.stFibKey.uiDstOrStartIp).toNat * 2 ^ 96 +
    fibNode.stFibKey.uiMaskOrEndIp.toNat * 2 ^ 64 + fibNode.uiNextHop.toNat * 2 ^ 32 +
    fibNode.uiFlag.toNat

def FibNode.SameFields (node1 node2 : FibNode) : Prop :=
  node1.stFibKey = node2.stFibKey ∧ node1.uiNextHop = node2.uiNextHop ∧
    node1.uiFlag = node2.uiFlag

def fibZeroNode : FibNode := ⟨⟨0, 0⟩, 0, 0, 0⟩

theorem fibRank_inj : fibRank node1 = fibRank node2 ↔ node1.SameFields node2 := by
  obtain ⟨⟨dst1, -⟩, -, -, -⟩ := node1
  obtain ⟨⟨dst2, -⟩, -, -, -⟩ := node2
  simp only [fibRank, FibNode.SameFields, FibKey.mk.injEq, ← BitVec.toNat_inj,
    ← @ntohl_inj dst1 dst2]
  omega

theorem fibRank_zero : fibRank fibZeroNode = 0 := by decide

theorem fibGetNextCmp_sign (cmp : NumCmpOk numCmp) (node1 node2 : FibNode) :
    (0 < fibGetNextCmp numCmp node1 node2 ↔ fibRank node2 < fibRank node1) ∧
      (fibGetNextCmp numCmp node1 node2 < 0 ↔ fibRank node1 < fibRank node2) := by
  obtain ⟨⟨dst1, mask1⟩, hop1, -, flag1⟩ := node1
  obtain ⟨⟨dst2, mask2⟩, hop2, -, flag2⟩ := node2
  have dst := cmp (ntohl dst1) (ntohl dst2)
  have mask := cmp mask1 mask2
  have hop := cmp hop1 hop2
  have flag := cmp flag1 flag2
  simp only [fibGetNextCmp, fibRank]
  -- The first field that differs decides both orders.
  split
  · omega
  split
  · omega
  split
  · omega
  · omega

/-- The best node of the routes that were visited, if one was taken. -/
structure BestOf (current : Option FibNode) (routes : List FibNode) (found : FibNode × Bool) :
    Prop where
  taken : found.2 = true → found.1 ∈ routes ∧ Lib.Below fibRank current found.1 ∧
    0 < fibRank found.1
  untaken : found.2 = false → fibRank found.1 = 0
  greatest : ∀ other ∈ routes, Lib.Below fibRank current other → fibRank other ≤ fibRank found.1

theorem below_iff (cmp : NumCmpOk numCmp) (current : Option FibNode) (fibNode : FibNode) :
    (current.any fun current => decide (0 ≤ fibGetNextCmp numCmp fibNode current)) = false ↔
      Lib.Below fibRank current fibNode := by
  cases current with
  | none => exact iff_of_true rfl (Lib.below_none _ _)
  | some current =>
    have sign := (fibGetNextCmp_sign cmp fibNode current).2
    rw [Option.any_some, decide_eq_false_iff_not, Int.not_le, sign]
    exact ⟨fun less upper same => Option.some.inj same ▸ less, fun below => below current rfl⟩

theorem BestOf.step (cmp : NumCmpOk numCmp) {current : Option FibNode} {routes : List FibNode}
    {found : FibNode × Bool} (best : BestOf current routes found) (fibNode : FibNode) :
    BestOf current (routes ++ [fibNode]) (fibGetNextEach numCmp current found fibNode) := by
  obtain ⟨taken, untaken, greatest⟩ := best
  -- What holds of the old routes stays, so that only the new one is to be compared.
  have keep : (Lib.Below fibRank current fibNode → fibRank fibNode ≤ fibRank found.1) →
      BestOf current (routes ++ [fibNode]) found := by
    intro last
    refine ⟨fun flag => ?_, untaken, fun other inside below => ?_⟩
    · obtain ⟨stored, below, positive⟩ := taken flag
      exact ⟨List.mem_append_left _ stored, below, positive⟩
    rcases List.mem_append.mp inside with old | new
    · exact greatest other old below
    · rw [List.mem_singleton.mp new] at below ⊢
      exact last below
  unfold fibGetNextEach
  split
  · next skipped =>
    apply keep
    intro below
    rw [(below_iff cmp current fibNode).mpr below] at skipped
    cases skipped
  next passed =>
  have below := (below_iff cmp current fibNode).mp (Bool.eq_false_iff.mpr passed)
  have sign := (fibGetNextCmp_sign cmp fibNode found.1).1
  split
  · next less =>
    apply keep
    intro _
    exact Nat.le_of_not_lt fun greater => Int.not_lt.mpr less (sign.mpr greater)
  next more =>
  have greater := sign.mp (Int.not_le.mp more)
  refine ⟨fun _ => ⟨List.mem_append_right _ (List.mem_singleton_self _), below,
    Nat.zero_lt_of_lt greater⟩, nofun, fun other inside otherBelow => ?_⟩
  rcases List.mem_append.mp inside with old | new
  · exact Nat.le_trans (greatest other old otherBelow) (Nat.le_of_lt greater)
  · rw [List.mem_singleton.mp new]

theorem fibGetNext_bestOf (cmp : NumCmpOk numCmp) (current : Option FibNode)
    (routes : List FibNode) :
    BestOf current routes (routes.foldl (fibGetNextEach numCmp current) (fibZeroNode, false)) := by
  induction routes using List.reverseRecOn with
  | nil =>
    exact ⟨nofun, fun _ => fibRank_zero,
      nofun⟩
  | append_singleton _ fibNode ih =>
    rw [List.foldl_append, List.foldl_cons, List.foldl_nil]
    exact ih.step cmp fibNode

theorem fibGetNext_picksBelow (cmp : NumCmpOk numCmp) (ctrl : FibCtrl) :
    Lib.PicksBelow fibRank (fibWalk ctrl) (fibGetNext ctrl numCmp) := by
  constructor
  · intro current element picked
    obtain ⟨taken, -, greatest⟩ := fibGetNext_bestOf cmp current (fibWalk ctrl)
    unfold fibGetNext at picked
    simp only at picked
    split at picked
    · next flag =>
      cases picked
      exact ⟨taken flag, greatest⟩
    · cases picked
  intro current missed other stored below
  obtain ⟨-, untaken, greatest⟩ := fibGetNext_bestOf cmp current (fibWalk ctrl)
  unfold fibGetNext at missed
  simp only at missed
  split at missed
  · cases missed
  next flag =>
  have zero := untaken (Bool.eq_false_iff.mpr flag)
  exact Nat.le_zero.mp (zero ▸ greatest other stored below)

/-- The routes are enumerated once each exactly where no route has zeros in
all four fields and no two routes agree in them. -/
theorem fibGetNext_enumerates (cmp : NumCmpOk numCmp) (ctrl : FibCtrl) :
    (∃ found, Lib.Enumerates (fibGetNext ctrl numCmp) none found ∧ found.Perm (fibWalk ctrl)) ↔
      (∀ fibNode ∈ fibWalk ctrl, ¬ fibNode.SameFields fibZeroNode) ∧
        (fibWalk ctrl).Pairwise fun node1 node2 => ¬ node1.SameFields node2 := by
  have picks := fibGetNext_picksBelow cmp ctrl
  have positive : ∀ fibNode, 0 < fibRank fibNode ↔ ¬ fibNode.SameFields fibZeroNode := by
    intro fibNode
    rw [← fibRank_inj, fibRank_zero, Nat.pos_iff_ne_zero]
  simp only [← positive]
  simp only [← fibRank_inj]
  constructor
  · rintro ⟨_, enumerated, same⟩
    exact (enumerated.perm_iff picks).mp same
  intro distinct
  obtain ⟨found, enumerated⟩ := picks.terminates none
  exact ⟨found, enumerated, (enumerated.perm_iff picks).mpr distinct⟩

/-- A table with one direct route. -/
theorem fibGetNext_enumerates_direct :
    (∃ found, Lib.Enumerates (fibGetNext ((FibCall.add true ⟨⟨0, 0⟩, 0, 5, 0x2⟩).run fibCreate)
        numDifference) none found ∧
      found.Perm (fibWalk ((FibCall.add true ⟨⟨0, 0⟩, 0, 5, 0x2⟩).run fibCreate))) ↔
      (∀ fibNode ∈ fibWalk ((FibCall.add true ⟨⟨0, 0⟩, 0, 5, 0x2⟩).run fibCreate),
        ¬ fibNode.SameFields fibZeroNode) ∧
        (fibWalk ((FibCall.add true ⟨⟨0, 0⟩, 0, 5, 0x2⟩).run fibCreate)).Pairwise
          fun node1 node2 => ¬ node1.SameFields node2 :=
  fibGetNext_enumerates numDifference_ok _

/-- The default route without flags is never found. -/
theorem fibGetNext_default_route :
    ¬ ∀ numCmp, NumCmpOk numCmp → ∀ ctrl, fib.Reachable ctrl →
      ∃ found, Lib.Enumerates (fibGetNext ctrl numCmp) none found ∧ found.Perm (fibWalk ctrl) := by
  intro holds
  have reached : fib.Reachable ((FibCall.add true ⟨⟨0, 0⟩, 0, 5, 0⟩).run fibCreate) :=
    .step (.start rfl) trivial rfl
  obtain ⟨_, enumerated, same⟩ := holds numDifference numDifference_ok _ reached
  have stored : (⟨⟨0, 0⟩, 0, 5, 0⟩ : FibNode) ∈
      fibWalk ((FibCall.add true ⟨⟨0, 0⟩, 0, 5, 0⟩).run fibCreate) := by
    decide +kernel
  have positive :=
    ((enumerated.perm_iff (fibGetNext_picksBelow numDifference_ok _)).mp same).1 _ stored
  exact absurd positive (by decide)

end MyCode.Fib
