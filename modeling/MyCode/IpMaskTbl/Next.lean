import MyCode.IpMaskTbl
import MyCode.Fib.Match

/-!
# The next entry of a table of prefixes

The search keeps the greatest entry below the current one, so it goes through the table
in descending order.
-/

namespace MyCode.IpMaskTbl

open Hash Lib List BitVec Option Nat

section Operations

variable {Data : Type} (numCmp : UINT → UINT → Int)

def ipmasktblGetNextCmp : Option (IpmasktblNode Data) → Option (IpmasktblNode Data) → Int
  | none, none => 0
  | none, some _ => -1
  | some _, none => 1
  | some node1, some node2 =>
    let iCmpRet := numCmp node1.ip node2.ip
    if iCmpRet ≠ 0 then iCmpRet
    else numCmp (node1.depth.setWidth 32) (node2.depth.setWidth 32)

def ipmasktblGetNextEach (current next : Option (IpmasktblNode Data)) (node : IpmasktblNode Data) :
    Option (IpmasktblNode Data) :=
  if current.isSome ∧ 0 ≤ ipmasktblGetNextCmp numCmp (some node) current then next
  else if next.isSome ∧ ipmasktblGetNextCmp numCmp (some node) next ≤ 0 then next
  else some node

/-- The second handle of the walk has no first value of its own: `slot` is what it holds. -/
def ipmasktblGetNext (hHash : HashS (IpmasktblNode Data))
    (slot current : Option (IpmasktblNode Data)) : Option (IpmasktblNode Data) :=
  (hashWalk hHash).foldl (ipmasktblGetNextEach numCmp current) slot

end Operations

variable {Data : Type} {numCmp : UINT → UINT → Int} {current : Option (IpmasktblNode Data)}
  {node other : IpmasktblNode Data}

def nodeRank (node : IpmasktblNode Data) : Nat :=
  2 ^ 8 * node.ip.toNat + node.depth.toNat + 1

theorem nodeRank_lt_iff :
    nodeRank node < nodeRank other ↔ node.ip < other.ip ∨ node.ip = other.ip ∧ node.depth < other.depth := by
  rw [nodeRank, nodeRank, lt_def, lt_def, ← toNat_inj]
  omega

theorem nodeRank_key (same : nodeRank node = nodeRank other) :
    (ipmasktblFuncs Data).key node = (ipmasktblFuncs Data).key other := by
  rw [nodeRank, nodeRank] at same
  exact congrArg₂ IpmasktblKey.mk (eq_of_toNat_eq (by omega))
    (eq_of_toNat_eq (by omega))

theorem ipmasktblGetNextCmp_sign (cmp : Fib.NumCmpOk numCmp) :
    (0 ≤ ipmasktblGetNextCmp numCmp (some node) (some other) ↔ nodeRank other ≤ nodeRank node) ∧
      (ipmasktblGetNextCmp numCmp (some node) (some other) ≤ 0 ↔ nodeRank node ≤ nodeRank other) := by
  have ips := cmp node.ip other.ip
  have depths := cmp (node.depth.setWidth 32) (other.depth.setWidth 32)
  rw [toNat_setWidth_of_le (by decide), toNat_setWidth_of_le (by decide)] at depths
  simp only [ipmasktblGetNextCmp, nodeRank]
  split <;> omega

/-- The entry kept is the greatest of those visited that are below the current one. -/
structure Greatest (current : Option (IpmasktblNode Data)) (visited : List (IpmasktblNode Data))
    (next : Option (IpmasktblNode Data)) : Prop where
  kept : ∀ node ∈ next, node ∈ visited ∧ Below nodeRank current node
  most : ∀ other ∈ visited, Below nodeRank current other →
    ∃ node ∈ next, nodeRank other ≤ nodeRank node

theorem Greatest.step (cmp : Fib.NumCmpOk numCmp) {visited : List (IpmasktblNode Data)}
    {next : Option (IpmasktblNode Data)} (greatest : Greatest current visited next)
    (node : IpmasktblNode Data) :
    Greatest current (visited ++ [node]) (ipmasktblGetNextEach numCmp current next node) := by
  have keep (last : Below nodeRank current node → ∃ best ∈ next, nodeRank node ≤ nodeRank best) :
      Greatest current (visited ++ [node]) next := by
    refine ⟨fun best isBest => ?_, fun other inside below => ?_⟩
    · obtain ⟨old, below⟩ := greatest.kept best isBest
      exact ⟨mem_append_left _ old, below⟩
    rcases mem_append.mp inside with old | new
    · exact greatest.most other old below
    · rw [mem_singleton.mp new] at below ⊢
      exact last below
  rw [ipmasktblGetNextEach]
  split
  · next skipped =>
    obtain ⟨upper, rfl⟩ := isSome_iff_exists.mp skipped.1
    have above := (ipmasktblGetNextCmp_sign cmp).1.mp skipped.2
    exact keep fun below => absurd (below upper rfl) (not_lt.mpr above)
  next passed =>
  have below : Below nodeRank current node := by
    rintro _ rfl
    by_contra above
    exact passed ⟨rfl, (ipmasktblGetNextCmp_sign cmp).1.mpr (not_lt.mp above)⟩
  split
  · next less =>
    obtain ⟨best, rfl⟩ := isSome_iff_exists.mp less.1
    exact keep fun _ => ⟨best, rfl, (ipmasktblGetNextCmp_sign cmp).2.mp less.2⟩
  next more =>
  refine ⟨fun best isBest => ?_, fun other inside otherBelow => ⟨node, rfl, ?_⟩⟩
  · rw [← some.inj isBest]
    exact ⟨mem_append_right _ (mem_singleton_self _), below⟩
  rcases mem_append.mp inside with old | new
  · obtain ⟨best, rfl, _⟩ := greatest.most other old otherBelow
    by_contra greater
    have above : nodeRank node ≤ nodeRank best := by omega
    exact more ⟨rfl, (ipmasktblGetNextCmp_sign cmp).2.mpr above⟩
  · rw [mem_singleton.mp new]

theorem ipmasktblGetNext_greatest (cmp : Fib.NumCmpOk numCmp)
    (current : Option (IpmasktblNode Data)) (visited : List (IpmasktblNode Data)) :
    Greatest current visited (visited.foldl (ipmasktblGetNextEach numCmp current) none) := by
  induction visited using reverseRecOn with
  | nil => exact ⟨nofun, nofun⟩
  | append_singleton _ node ih =>
    rw [foldl_append, foldl_cons, foldl_nil]
    exact ih.step cmp node

theorem ipmasktblGetNext_picksBelow (cmp : Fib.NumCmpOk numCmp)
    (hHash : HashS (IpmasktblNode Data)) :
    PicksBelow nodeRank (hashWalk hHash) (ipmasktblGetNext numCmp hHash none) := by
  constructor
  · intro current node picked
    obtain ⟨kept, most⟩ := ipmasktblGetNext_greatest cmp current (hashWalk hHash)
    obtain ⟨inside, below⟩ := kept node picked
    refine ⟨⟨inside, below, succ_pos _⟩, fun other stored otherBelow => ?_⟩
    obtain ⟨_, isBest, atMost⟩ := most other stored otherBelow
    cases picked.symm.trans isBest
    exact atMost
  · intro current missed other stored below
    obtain ⟨_, isBest, -⟩ :=
      (ipmasktblGetNext_greatest cmp current (hashWalk hHash)).most other stored below
    cases missed.symm.trans isBest

variable [DecidableEq Data] {run : IpmasktblRun Data}

theorem ipmasktblGetNext_enumerates (cmp : Fib.NumCmpOk numCmp)
    (reached : (ipmasktblSystem Data).Reachable run) :
    ∃ found, Enumerates (ipmasktblGetNext numCmp run.hHash none) none found ∧ found.Nodup ∧
      (∀ node, node ∈ found ↔ node ∈ run.stored) ∧
      found.Pairwise fun node next =>
        next.ip < node.ip ∨ next.ip = node.ip ∧ next.depth < node.depth := by
  have stores := (ipmasktblSystem_ok reached).stores
  have picks := ipmasktblGetNext_picksBelow cmp run.hHash
  obtain ⟨found, enumerated⟩ := picks.terminates none
  have descends := enumerated.descending picks
  refine ⟨found, enumerated, ?_, fun node => ?_, descends.imp nodeRank_lt_iff.mp⟩
  · refine descends.imp ?_
    rintro _ _ less rfl
    exact lt_irrefl _ less
  rw [← stores.mem]
  constructor
  · exact fun inside => (enumerated.mem picks node inside).1
  intro stored
  obtain ⟨other, inside, same⟩ :=
    enumerated.complete picks node stored (below_none _ _) (succ_pos _)
  have otherStored := (enumerated.mem picks other inside).1
  rwa [← stores.apart ipmasktblFuncs_lawful ((stores.mem _).mp otherStored)
    ((stores.mem _).mp stored) (nodeRank_key same)]

/-- 10.0.0.0/8 and 20.0.0.0/8. -/
def twoNetworks : IpmasktblRun Nat :=
  [.add ⟨0x0000000a, 8, by decide, 0⟩, .add ⟨0x00000014, 8, by decide, 1⟩].foldl
    IpmasktblRun.next (.start 3)

theorem twoNetworks_reachable : (ipmasktblSystem Nat).Reachable twoNetworks :=
  .foldl ipmasktbl_steps (.start ⟨3, rfl⟩) (by decide)

theorem ipmasktblGetNext_enumerates_two :
    ∃ found, Enumerates (ipmasktblGetNext Fib.numDifference twoNetworks.hHash none) none found ∧
      found.Nodup ∧ (∀ node, node ∈ found ↔ node ∈ twoNetworks.stored) ∧
      found.Pairwise fun node next =>
        next.ip < node.ip ∨ next.ip = node.ip ∧ next.depth < node.depth :=
  ipmasktblGetNext_enumerates Fib.numDifference_ok twoNetworks_reachable

theorem ipmasktblGetNext_not_ascending :
    ¬ ∀ numCmp, Fib.NumCmpOk numCmp → ∀ run, (ipmasktblSystem Nat).Reachable run →
      ∃ found, Enumerates (ipmasktblGetNext numCmp run.hHash none) none found ∧
        (∀ node, node ∈ found ↔ node ∈ run.stored) ∧
        found.Pairwise fun node next =>
          node.ip < next.ip ∨ node.ip = next.ip ∧ node.depth < next.depth := by
  intro holds
  obtain ⟨_, enumerated, all, ascends⟩ := holds _ Fib.numDifference_ok _ twoNetworks_reachable
  have first : ipmasktblGetNext Fib.numDifference twoNetworks.hHash none none =
      some ⟨0x00000014, 8, by decide, 1⟩ := by decide +kernel
  cases enumerated with
  | done none => cases first.symm.trans none
  | more step =>
    cases first.symm.trans step
    have stored : ⟨0x0000000a, 8, by decide, 0⟩ ∈ twoNetworks.stored := by decide +kernel
    rcases mem_cons.mp ((all _).mpr stored) with same | inRest
    · exact absurd same (by decide)
    · exact absurd ((pairwise_cons.mp ascends).1 _ inRest) (by decide)

end MyCode.IpMaskTbl
