import MyCode.Fib.Match

/-!
# The interfaces of `AUTO_IF` routes

A static next hop flagged `AUTO_IF` keeps a copy of the interface that the
direct routes give its next hop.  A change of a direct route drops all copies,
and a match makes them again.
-/

namespace MyCode.Fib

open Hash Option List Bool

variable {ctrl after : FibCtrl} {key : FibKey} {node : FibHashNode} {fibNode : FibNode}
  {hop : FibNextHop} {uiNextHop : UINT} {change : FibHashNode → FibHashNode}
  {hops : List FibNextHop}

def FibNextHop.directIf (hop : FibNextHop) : Option UINT :=
  if hasFlag hop.uiFlag fibFlagDirect then some hop.uiOutIfIndex else none

/-- The interface of the direct route that is stored with a key. -/
def directOf (ctrl : FibCtrl) (key : FibKey) : Option UINT :=
  (fibFind ctrl key).bind fun node => node.stNextHop.directIf

/-- The cached interface is the one of the direct routes, or none is cached. -/
def AutoIfOk (ctrl : FibCtrl) (hop : FibNextHop) : Prop :=
  hasFlag hop.uiFlag fibFlagAutoIf = true →
    hop.uiOutIfIndex = ifInvalidIndex ∨ fibDirectIf ctrl hop.uiNextHop = some hop.uiOutIfIndex

def Coherent (ctrl : FibCtrl) : Prop :=
  ∀ node ∈ hashWalk ctrl.hHash, ∀ hop ∈ node.astStaticNextHop, AutoIfOk ctrl hop

def AutoIfReset (ctrl : FibCtrl) : Prop :=
  ∀ node ∈ hashWalk ctrl.hHash, ∀ hop ∈ node.astStaticNextHop,
    hasFlag hop.uiFlag fibFlagAutoIf = true → hop.uiOutIfIndex = ifInvalidIndex

/-- The next hop that takes the place of the deleted one belongs to it, or no
interface is cached there. -/
def MovesNoCache (uiNextHop : UINT) (hops : List FibNextHop) : Prop :=
  uiNextHop ≠ 0 → ∀ hop last, hops.find? (fun hop => hop.uiNextHop == uiNextHop) = some hop →
    hops.getLast? = some last → hasFlag hop.uiFlag fibFlagAutoIf = true →
    hop.uiOutIfIndex = ifInvalidIndex ∨ last.uiNextHop = uiNextHop

def AutoIfKept (ctrl : FibCtrl) : FibCall → Prop
  | .add _ fibNode =>
    (hasFlag fibNode.uiFlag fibFlagStatic = true → hasFlag fibNode.uiFlag fibFlagAutoIf = true →
      fibNode.uiOutIfIndex = ifInvalidIndex ∨ (fibDirectIf ctrl fibNode.uiNextHop).isSome) ∧
    (hasFlag fibNode.uiFlag fibFlagStatic = false →
      hasFlag fibNode.uiFlag fibFlagDirect = false → directOf ctrl fibNode.masked.stFibKey = none)
  | .del fibNode =>
    hasFlag fibNode.uiFlag fibFlagStatic = true →
      ∀ node, fibFind ctrl fibNode.masked.stFibKey = some node →
        MovesNoCache fibNode.uiNextHop node.astStaticNextHop
  | .delAll => True
  | .prefixMatch _ => True

theorem fibDirectIf_eq (ctrl : FibCtrl) (uiNextHop : UINT) :
    fibDirectIf ctrl uiNextHop =
      (range 33).findSome? fun i => directOf ctrl (fibProbeKey uiNextHop i) := by
  unfold fibDirectIf directOf
  congr 1
  funext i
  cases fibFind ctrl (fibProbeKey uiNextHop i) <;> rfl

/-- At most direct routes without an interface are gone. -/
def DirectKept (ctrl after : FibCtrl) : Prop :=
  ∀ key, directOf after key = directOf ctrl key ∨
    directOf ctrl key = some ifInvalidIndex ∧ directOf after key = none

theorem DirectKept.of_eq (same : ∀ key, directOf after key = directOf ctrl key) :
    DirectKept ctrl after :=
  fun key => .inl (same key)

theorem DirectKept.fibDirectIf (kept : DirectKept ctrl after) {uiOutIfIndex : UINT}
    (valid : uiOutIfIndex ≠ ifInvalidIndex)
    (found : fibDirectIf ctrl uiNextHop = some uiOutIfIndex) :
    fibDirectIf after uiNextHop = some uiOutIfIndex := by
  rw [fibDirectIf_eq, Lib.findSome?_range_eq_some_iff] at found ⊢
  obtain ⟨i, bounded, direct, first⟩ := found
  refine ⟨i, bounded, ?_, fun j earlier => ?_⟩
  · rcases kept (fibProbeKey uiNextHop i) with same | ⟨invalid, -⟩
    · exact same.trans direct
    · rw [direct] at invalid
      exact absurd (some.inj invalid) valid
  · rcases kept (fibProbeKey uiNextHop j) with same | ⟨-, gone⟩
    · exact same.trans (first j earlier)
    · exact gone

theorem AutoIfOk.kept (kept : DirectKept ctrl after) (autoIfOk : AutoIfOk ctrl hop) :
    AutoIfOk after hop := by
  intro auto
  by_cases invalid : hop.uiOutIfIndex = ifInvalidIndex
  · exact .inl invalid
  · exact .inr (kept.fibDirectIf invalid ((autoIfOk auto).resolve_left invalid))

theorem AutoIfReset.coherent (reset : AutoIfReset ctrl) : Coherent ctrl :=
  fun node inside hop stored auto => .inl (reset node inside hop stored auto)

section

variable (ok : FibOk ctrl)

include ok

theorem directOf_update (keeps : ∀ node, (change node).stFibKey = node.stFibKey) (other : FibKey) :
    directOf (fibUpdate ctrl key change) other =
      if other = key then (fibFind ctrl key).bind fun node => (change node).stNextHop.directIf
      else directOf ctrl other := by
  rw [directOf, fibFind_update ok keeps]
  split
  · rw [bind_map]
    rfl
  · rfl

theorem directOf_update_static (keeps : ∀ node, (change node).stFibKey = node.stFibKey)
    (keepsHop : ∀ node, (change node).stNextHop = node.stNextHop) (other : FibKey) :
    directOf (fibUpdate ctrl key change) other = directOf ctrl other := by
  rw [directOf_update ok keeps]
  split
  · next same =>
    simp only [keepsHop, same]
    rfl
  · rfl

theorem directOf_update_nextHop (absent : directOf ctrl key = none)
    (indirect : hop.directIf = none) (other : FibKey) :
    directOf (fibUpdate ctrl key fun node => { node with stNextHop := hop }) other =
      directOf ctrl other := by
  rw [directOf_update ok (by intro _; rfl)]
  split
  · next same =>
    rw [same, absent]
    simp only [indirect]
    cases fibFind ctrl key <;> rfl
  · rfl

theorem directOf_addNode (masked : node.stFibKey.Masked)
    (absent : fibFind ctrl node.stFibKey = none) (indirect : node.stNextHop.directIf = none)
    (other : FibKey) :
    directOf ⟨hashAdd fibHashFuncs ctrl.hHash node⟩ other = directOf ctrl other := by
  rw [directOf, fibFind_addNode ok masked absent]
  split
  · next same =>
    rw [directOf, same, absent]
    exact indirect
  · rfl

theorem directKept_delUnused (key : FibKey) : DirectKept ctrl (fibDelUnused ctrl key) := by
  intro other
  rcases fibFind_delUnused ok key other with same | ⟨gone, _, found, invalid⟩
  · exact .inl (by rw [directOf, directOf, same])
  rw [directOf, directOf, gone, found, bind_some, bind_none, FibNextHop.directIf, invalid]
  split
  · exact .inr ⟨rfl, rfl⟩
  · exact .inl rfl

theorem fibClearAutoIf_reset : AutoIfReset (fibClearAutoIf ctrl) := by
  intro node inside hop stored auto
  obtain ⟨_, -, rfl⟩ := (mem_fibClearAutoIf ok).mp inside
  obtain ⟨_, -, rfl⟩ := mem_map.mp stored
  unfold fibClearAutoIfHop at auto ⊢
  split
  · rfl
  next manual =>
  rw [if_neg manual] at auto
  exact absurd auto manual

theorem AutoIfReset.delUnused (reset : AutoIfReset ctrl) (key : FibKey) :
    AutoIfReset (fibDelUnused ctrl key) :=
  fun node inside => reset node (mem_fibDelUnused ok inside)

theorem fibAddNextHop_direct (normal : hasFlag fibNode.uiFlag fibFlagStatic = false)
    (direct : hasFlag fibNode.uiFlag fibFlagDirect = true) (node : FibHashNode) :
    AutoIfReset (fibAddNextHop ctrl fibNode node).1 := by
  unfold fibAddNextHop
  simp only [normal, Bool.not_false, if_true, direct]
  exact fibClearAutoIf_reset (ok.update (by intro _; rfl))

end

theorem fibAutoFindIf_flag (ctrl : FibCtrl) (fibNode : FibNode) :
    (fibAutoFindIf ctrl fibNode).uiFlag = fibNode.uiFlag := by
  unfold fibAutoFindIf
  split
  · split <;> rfl
  · rfl

theorem fibAdd_direct (ok : FibOk ctrl) (nodeAlloc : Bool)
    (normal : hasFlag fibNode.uiFlag fibFlagStatic = false)
    (direct : hasFlag fibNode.uiFlag fibFlagDirect = true)
    (added : (fibAdd ctrl nodeAlloc fibNode).2 = .ok) :
    AutoIfReset (fibAdd ctrl nodeAlloc fibNode).1 := by
  have flag : (fibAutoFindIf ctrl fibNode.masked).uiFlag = fibNode.uiFlag :=
    fibAutoFindIf_flag ctrl fibNode.masked
  rw [← flag] at normal direct
  have masked : (fibAutoFindIf ctrl fibNode.masked).stFibKey.Masked := by
    rw [fibAutoFindIf_key]
    exact fibNode.masked_masked
  unfold fibAdd fibAddRoute at added ⊢
  cases found : fibFind ctrl (fibAutoFindIf ctrl fibNode.masked).stFibKey with
  | some node => exact fibAddNextHop_direct ok normal direct node
  | none =>
    simp only [found] at added ⊢
    cases nodeAlloc with
    | false => cases added
    | true =>
      exact fibAddNextHop_direct (@FibOk.addNode _ ⟨_, ⟨0, 0, 0⟩, []⟩ ok masked found) normal
        direct _

theorem fibDel_direct (ok : FibOk ctrl) (normal : hasFlag fibNode.uiFlag fibFlagStatic = false)
    (found : fibFind ctrl fibNode.masked.stFibKey = some node)
    (direct : hasFlag node.stNextHop.uiFlag fibFlagDirect = true) :
    AutoIfReset (fibDel ctrl fibNode) := by
  have maskedNormal : hasFlag fibNode.masked.uiFlag fibFlagStatic = false := normal
  simp only [fibDel, fibDelRoute, found, maskedNormal, false_eq_true, if_false,
    fibDelNormalFib, direct, if_true]
  have updated : FibOk (fibUpdate ctrl fibNode.masked.stFibKey fun node =>
      { node with stNextHop := ⟨0, ifInvalidIndex, 0⟩ }) := ok.update (by intro _; rfl)
  exact (fibClearAutoIf_reset updated).delUnused updated.clearAutoIf _

theorem Coherent.of_kept (kept : DirectKept ctrl after)
    (hops : ∀ node ∈ hashWalk after.hHash, ∀ hop ∈ node.astStaticNextHop, AutoIfOk ctrl hop) :
    Coherent after :=
  fun node inside hop stored => (hops node inside hop stored).kept kept

section

variable (coherent : Coherent ctrl) (ok : FibOk ctrl)

include coherent ok

theorem Coherent.update_static {change : List FibNextHop → List FibNextHop}
    (changed : ∀ node, fibFind ctrl key = some node →
      ∀ hop ∈ change node.astStaticNextHop, AutoIfOk ctrl hop) :
    Coherent (fibUpdate ctrl key fun node =>
      { node with astStaticNextHop := change node.astStaticNextHop }) := by
  refine .of_kept (.of_eq (directOf_update_static ok (by intro _; rfl) (by intro _; rfl))) ?_
  intro node inside hop stored
  rcases (mem_fibUpdate ok (by intro _; rfl)).mp inside with ⟨old, oldInside, keyed, rfl⟩ | ⟨old, -⟩
  · exact changed old ((fibFind_eq_some_iff ok).mpr ⟨oldInside, keyed⟩) hop stored
  · exact coherent node old hop stored

theorem Coherent.update_nextHop
    (absent : directOf ctrl key = none) (indirect : hop.directIf = none) :
    Coherent (fibUpdate ctrl key fun node => { node with stNextHop := hop }) := by
  refine .of_kept (.of_eq (directOf_update_nextHop ok absent indirect)) ?_
  intro node inside staticHop stored
  rcases (mem_fibUpdate ok (by intro _; rfl)).mp inside with ⟨old, oldInside, -, rfl⟩ | ⟨old, -⟩
  · exact coherent old oldInside staticHop stored
  · exact coherent node old staticHop stored

theorem Coherent.delUnused (key : FibKey) : Coherent (fibDelUnused ctrl key) :=
  .of_kept (directKept_delUnused ok key) fun node inside => coherent node (mem_fibDelUnused ok inside)

end

theorem hop_directIf_none (indirect : hasFlag hop.uiFlag fibFlagDirect = false) :
    hop.directIf = none := by
  rw [FibNextHop.directIf, indirect]
  rfl

theorem zeroHop_directIf : (⟨0, 0, 0⟩ : FibNextHop).directIf = none := by decide

theorem Coherent.addNextHop (coherent : Coherent ctrl) (ok : FibOk ctrl)
    (cached : hasFlag fibNode.uiFlag fibFlagStatic = true → AutoIfOk ctrl fibNode.nextHop)
    (replaced : hasFlag fibNode.uiFlag fibFlagStatic = false →
      hasFlag fibNode.uiFlag fibFlagDirect = false → directOf ctrl fibNode.stFibKey = none)
    (node : FibHashNode) : Coherent (fibAddNextHop ctrl fibNode node).1 := by
  cases isStatic : hasFlag fibNode.uiFlag fibFlagStatic with
  | false =>
    cases direct : hasFlag fibNode.uiFlag fibFlagDirect with
    | true => exact (fibAddNextHop_direct ok isStatic direct node).coherent
    | false =>
      simp only [fibAddNextHop, isStatic, direct, Bool.not_false, if_true, false_eq_true, if_false]
      exact coherent.update_nextHop ok (replaced isStatic direct) (hop_directIf_none direct)
  | true =>
    simp only [fibAddNextHop, isStatic, Bool.not_true, false_eq_true, if_false]
    split
    · exact coherent
    refine @Coherent.update_static _ _ coherent ok (· ++ [fibNode.nextHop])
      fun old found hop stored => ?_
    rcases mem_append.mp stored with kept | new
    · exact coherent old ((fibFind_eq_some_iff ok).mp found).1 hop kept
    · rw [mem_singleton.mp new]
      exact cached isStatic

theorem Coherent.addNode (coherent : Coherent ctrl) (ok : FibOk ctrl)
    (masked : node.stFibKey.Masked) (absent : fibFind ctrl node.stFibKey = none)
    (indirect : node.stNextHop.directIf = none) (empty : node.astStaticNextHop = []) :
    Coherent ⟨hashAdd fibHashFuncs ctrl.hHash node⟩ := by
  refine .of_kept (.of_eq (directOf_addNode ok masked absent indirect)) ?_
  intro other inside hop stored
  rcases (mem_hashWalk_add ok.hash).mp inside with rfl | old
  · rw [empty] at stored
    nomatch stored
  · exact coherent other old hop stored

theorem autoIfOk_autoFindIf (given : hasFlag fibNode.uiFlag fibFlagAutoIf = true →
      fibNode.uiOutIfIndex = ifInvalidIndex ∨ (fibDirectIf ctrl fibNode.uiNextHop).isSome) :
    AutoIfOk ctrl (fibAutoFindIf ctrl fibNode).nextHop := by
  intro auto
  have flagged : hasFlag fibNode.uiFlag fibFlagAutoIf = true := by
    rw [← fibAutoFindIf_flag ctrl fibNode]
    exact auto
  rw [fibAutoFindIf, if_pos flagged]
  cases found : fibDirectIf ctrl fibNode.uiNextHop with
  | some => exact .inr found
  | none =>
    rw [found] at given
    exact .inl ((given flagged).resolve_right false_ne_true)

theorem Coherent.add (coherent : Coherent ctrl) (ok : FibOk ctrl) {nodeAlloc : Bool}
    (kept : AutoIfKept ctrl (.add nodeAlloc fibNode)) :
    Coherent (fibAdd ctrl nodeAlloc fibNode).1 := by
  obtain ⟨given, replaced⟩ := kept
  have flag : (fibAutoFindIf ctrl fibNode.masked).uiFlag = fibNode.uiFlag :=
    fibAutoFindIf_flag ctrl fibNode.masked
  have key := fibAutoFindIf_key ctrl fibNode.masked
  have cached : hasFlag fibNode.uiFlag fibFlagStatic = true →
      AutoIfOk ctrl (fibAutoFindIf ctrl fibNode.masked).nextHop :=
    fun isStatic => autoIfOk_autoFindIf (given isStatic)
  have masked : (fibAutoFindIf ctrl fibNode.masked).stFibKey.Masked := by
    rw [key]
    exact fibNode.masked_masked
  rw [← flag] at replaced cached
  rw [← key] at replaced
  unfold fibAdd fibAddRoute
  split
  · exact coherent.addNextHop ok cached replaced _
  next absent =>
  split
  · exact coherent
  have added := @Coherent.addNode _ ⟨_, ⟨0, 0, 0⟩, []⟩ coherent ok masked absent
    zeroHop_directIf rfl
  have same := @directOf_addNode _ ⟨_, ⟨0, 0, 0⟩, []⟩ ok masked absent zeroHop_directIf
  refine added.addNextHop (@FibOk.addNode _ ⟨_, ⟨0, 0, 0⟩, []⟩ ok masked absent)
    (fun isStatic => (cached isStatic).kept (.of_eq same)) (fun normal indirect => ?_) _
  rw [same]
  exact replaced normal indirect

theorem mem_fibDelStaticHop (stored : hop ∈ fibDelStaticHop uiNextHop hops) :
    hop ∈ hops ∨ uiNextHop ≠ 0 ∧ ∃ found last,
      hops.find? (fun hop => hop.uiNextHop == uiNextHop) = some found ∧
      hops.getLast? = some last ∧ hop = { found with uiNextHop := last.uiNextHop } := by
  unfold fibDelStaticHop at stored
  split at stored
  · nomatch stored
  next given =>
  split at stored
  · next i last position isLast =>
    obtain ⟨bounded, test, first⟩ := findIdx?_eq_some_iff_getElem.mp position
    obtain ⟨j, atPlace⟩ := mem_iff_getElem?.mp (dropLast_subset _ stored)
    rw [getElem?_modify] at atPlace
    obtain ⟨old, oldPlace, rfl⟩ := map_eq_some_iff.mp atPlace
    split
    · next same =>
      subst same
      refine .inr ⟨given, old, last, ?_, isLast, rfl⟩
      obtain ⟨_, equal⟩ := List.getElem?_eq_some_iff.mp oldPlace
      refine find?_eq_some_iff_getElem.mpr ⟨equal ▸ test, i, bounded, equal, ?_⟩
      exact fun j earlier => by rw [eq_false_iff.mpr (first j earlier)]; rfl
    · exact .inl (mem_of_getElem? oldPlace)
  · exact .inl stored

theorem Coherent.delStaticFib (coherent : Coherent ctrl) (ok : FibOk ctrl)
    (kept : ∀ node, fibFind ctrl fibNode.stFibKey = some node →
      MovesNoCache fibNode.uiNextHop node.astStaticNextHop) :
    Coherent (fibDelStaticFib ctrl fibNode) := by
  refine @Coherent.update_static _ _ coherent ok (fibDelStaticHop fibNode.uiNextHop)
    fun node isNode hop stored auto => ?_
  have before := coherent node ((fibFind_eq_some_iff ok).mp isNode).1
  rcases mem_fibDelStaticHop stored with old | ⟨given, found, last, isFound, isLast, rfl⟩
  · exact before hop old auto
  rcases kept node isNode given found last isFound isLast auto with invalid | same
  · exact .inl invalid
  have deleted : found.uiNextHop = fibNode.uiNextHop := by
    simpa only [beq_iff_eq] using find?_some isFound
  rw [same, ← deleted]
  exact before found (mem_of_find?_eq_some isFound) auto

theorem Coherent.del (coherent : Coherent ctrl) (ok : FibOk ctrl)
    (kept : AutoIfKept ctrl (.del fibNode)) : Coherent (fibDel ctrl fibNode) := by
  cases found : fibFind ctrl fibNode.masked.stFibKey with
  | none =>
    simp only [fibDel, fibDelRoute, found]
    exact coherent
  | some node =>
    cases isStatic : hasFlag fibNode.uiFlag fibFlagStatic with
    | true =>
      have maskedStatic : hasFlag fibNode.masked.uiFlag fibFlagStatic = true := isStatic
      simp only [fibDel, fibDelRoute, found, maskedStatic, if_true]
      have changed : FibOk (fibDelStaticFib ctrl fibNode.masked) := ok.update (by intro _; rfl)
      exact (coherent.delStaticFib ok (kept isStatic)).delUnused changed _
    | false =>
      cases direct : hasFlag node.stNextHop.uiFlag fibFlagDirect with
      | true => exact (fibDel_direct ok isStatic found direct).coherent
      | false =>
        have maskedNormal : hasFlag fibNode.masked.uiFlag fibFlagStatic = false := isStatic
        simp only [fibDel, fibDelRoute, found, maskedNormal, false_eq_true, if_false,
          fibDelNormalFib, direct]
        have absent : directOf ctrl fibNode.masked.stFibKey = none := by
          rw [directOf, found]
          exact hop_directIf_none direct
        exact (coherent.update_nextHop ok absent zeroHop_directIf).delUnused
          (ok.update (by intro _; rfl)) _

theorem hashWalk_delAll (ctrl : FibCtrl) :
    fibDelAll ctrl = ctrl ∨ ∀ node, node ∉ hashWalk (fibDelAll ctrl).hHash := by
  unfold fibDelAll hashDelAll
  split
  · exact .inl rfl
  refine .inr fun node inside => ?_
  obtain ⟨_, bounded, stored⟩ := mem_flatMap.mp inside
  rw [mem_range, Nat.lt_succ_iff] at bounded
  simp only [bounded, if_true, map_nil, not_mem_nil] at stored

theorem Coherent.delAll (coherent : Coherent ctrl) : Coherent (fibDelAll ctrl) := by
  rcases hashWalk_delAll ctrl with same | empty
  · rw [same]
    exact coherent
  · exact fun node inside => absurd inside (empty node)

theorem AutoIfOk.hopInterface (autoIfOk : AutoIfOk ctrl hop)
    (auto : hasFlag hop.uiFlag fibFlagAutoIf = true) :
    hopInterface ctrl hop = (fibDirectIf ctrl hop.uiNextHop).getD ifInvalidIndex := by
  unfold Fib.hopInterface
  by_cases invalid : hop.uiOutIfIndex = ifInvalidIndex
  · rw [if_neg (not_not.mpr invalid), if_pos auto]
  · rw [if_pos invalid, (autoIfOk auto).resolve_left invalid]
    rfl

theorem AutoIfOk.refreshed (autoIfOk : AutoIfOk ctrl hop) :
    AutoIfOk ctrl { hop with uiOutIfIndex := Fib.hopInterface ctrl hop } := by
  intro auto
  rw [autoIfOk.hopInterface auto]
  cases found : fibDirectIf ctrl hop.uiNextHop with
  | none => exact .inl rfl
  | some => exact .inr rfl

theorem mem_fibMatchStatic {changed : List FibNextHop}
    (result : fibMatchStatic ctrl key hops = some (changed, fibNode)) (stored : hop ∈ changed) :
    hop ∈ hops ∨ ∃ old ∈ hops, hop = { old with uiOutIfIndex := hopInterface ctrl old } := by
  induction hops generalizing changed with
  | nil => cases result
  | cons head rest ih =>
    rw [fibMatchStatic] at result
    simp only [fibAutoFindIf_route] at result
    split at result
    · cases result
      rcases mem_cons.mp stored with rfl | old
      · exact .inr ⟨head, mem_cons_self, rfl⟩
      · exact .inl (mem_cons_of_mem _ old)
    cases matched : fibMatchStatic ctrl key rest with
    | none =>
      rw [matched] at result
      cases result
    | some =>
      rw [matched] at result
      cases result
      rcases mem_cons.mp stored with rfl | later
      · exact .inl mem_cons_self
      rcases ih matched later with old | ⟨old, inside, same⟩
      · exact .inl (mem_cons_of_mem _ old)
      · exact .inr ⟨old, mem_cons_of_mem _ inside, same⟩

theorem fibFindLongest_key (ok : FibOk ctrl) {uiDstIp : UINT}
    (found : fibFindLongest ctrl uiDstIp = some node) : fibFind ctrl node.stFibKey = some node := by
  obtain ⟨_, longest⟩ := (fibFindLongest_iff ok).mp found
  exact (fibFind_eq_some_iff ok).mpr ⟨longest.stored, rfl⟩

theorem Coherent.prefixMatch (coherent : Coherent ctrl) (ok : FibOk ctrl) (uiDstIp : UINT) :
    Coherent (fibPrefixMatch ctrl uiDstIp).1 := by
  unfold fibPrefixMatch
  split
  · exact coherent
  next found isLongest =>
  split
  · exact coherent
  split
  · exact coherent
  next hops fibNode matched =>
  refine @Coherent.update_static _ _ coherent ok (fun _ => hops)
    fun node isNode hop stored => ?_
  have same := some.inj (isNode.symm.trans (fibFindLongest_key ok isLongest))
  subst same
  have before := coherent node ((fibFind_eq_some_iff ok).mp isNode).1
  rcases mem_fibMatchStatic matched stored with old | ⟨old, inside, rfl⟩
  · exact before hop old
  · exact (before old inside).refreshed

theorem fib_coherent (reached : fib.ReachableWhen AutoIfKept ctrl) :
    FibOk ctrl ∧ Coherent ctrl := by
  refine @Lib.System.ReachableWhen.invariant _ _ _ _ (fun ctrl => FibOk ctrl ∧ Coherent ctrl)
    ?_ ?_ _ reached
  · rintro _ rfl
    refine ⟨fibCreate_ok, fun node inside => ?_⟩
    obtain ⟨_, _, inBucket, -⟩ := (mem_hashWalk fibCreate_ok.hash).mp inside
    nomatch inBucket
  rintro _ call _ ⟨ok, coherent⟩ kept rfl
  refine ⟨ok.run call, ?_⟩
  cases call with
  | add => exact coherent.add ok kept
  | del => exact coherent.del ok kept
  | delAll => exact coherent.delAll
  | prefixMatch uiDstIp => exact coherent.prefixMatch ok uiDstIp

/-- Cached interfaces are those of the direct routes or invalid, matches use
the interface of the direct routes, and changes of direct routes drop what is
cached. -/
theorem fibAutoIf_coherent (reached : fib.ReachableWhen AutoIfKept ctrl) :
    (∀ node ∈ hashWalk ctrl.hHash, ∀ hop ∈ node.astStaticNextHop,
      hasFlag hop.uiFlag fibFlagAutoIf = true →
        (hop.uiOutIfIndex = ifInvalidIndex ∨
          fibDirectIf ctrl hop.uiNextHop = some hop.uiOutIfIndex) ∧
        hopInterface ctrl hop = (fibDirectIf ctrl hop.uiNextHop).getD ifInvalidIndex) ∧
    (∀ nodeAlloc fibNode, hasFlag fibNode.uiFlag fibFlagStatic = false →
      hasFlag fibNode.uiFlag fibFlagDirect = true → (fibAdd ctrl nodeAlloc fibNode).2 = .ok →
        AutoIfReset (fibAdd ctrl nodeAlloc fibNode).1) ∧
    (∀ fibNode node, hasFlag fibNode.uiFlag fibFlagStatic = false →
      fibFind ctrl fibNode.masked.stFibKey = some node →
      hasFlag node.stNextHop.uiFlag fibFlagDirect = true → AutoIfReset (fibDel ctrl fibNode)) := by
  obtain ⟨ok, coherent⟩ := fib_coherent reached
  refine ⟨fun node inside hop stored auto => ?_, fun nodeAlloc fibNode normal direct added => ?_,
    fun fibNode node normal found direct => ?_⟩
  · exact ⟨coherent node inside hop stored auto,
      (coherent node inside hop stored).hopInterface auto⟩
  · exact fibAdd_direct ok nodeAlloc normal direct added
  · exact fibDel_direct ok normal found direct

/-- A direct route is deleted under a static one. -/
theorem fibAutoIf_coherent_deleted :
    AutoIfReset (fibDel ((FibCall.add true ⟨⟨0x0000000a, 0x000000ff⟩, 0, 5, 0x2⟩).run
        ((FibCall.add true ⟨⟨0x0000000b, 0x000000ff⟩, 0x0100000a, 0, 0xc⟩).run fibCreate))
      ⟨⟨0x0000000a, 0x000000ff⟩, 0, 5, 0x2⟩) := by
  have static : AutoIfKept fibCreate (.add true ⟨⟨0x0000000b, 0x000000ff⟩, 0x0100000a, 0, 0xc⟩) :=
    ⟨fun _ _ => .inl rfl, fun normal => absurd normal (by decide)⟩
  have direct : ∀ ctrl, AutoIfKept ctrl (.add true ⟨⟨0x0000000a, 0x000000ff⟩, 0, 5, 0x2⟩) :=
    fun ctrl => ⟨fun isStatic => absurd isStatic (by decide),
      fun _ indirect => absurd indirect (by decide)⟩
  exact (fibAutoIf_coherent (.step (.step (.start rfl) static rfl) (direct _) rfl)).2.2
    ⟨⟨0x0000000a, 0x000000ff⟩, 0, 5, 0x2⟩ ⟨⟨0x0000000a, 0x000000ff⟩, ⟨0, 5, 0x2⟩, []⟩
    (by decide) (by decide +kernel) (by decide)

/-- The interface of 10.0.0.1 is known when the direct route is there, but not
cached before a match. -/
theorem fibAutoIf_not_cached :
    ¬ ∀ ctrl, fib.Reachable ctrl → ∀ node ∈ hashWalk ctrl.hHash, ∀ hop ∈ node.astStaticNextHop,
      hasFlag hop.uiFlag fibFlagAutoIf = true →
        hop.uiOutIfIndex = (fibDirectIf ctrl hop.uiNextHop).getD ifInvalidIndex := by
  intro holds
  have reached : fib.Reachable ((FibCall.add true ⟨⟨0x0000000a, 0x000000ff⟩, 0, 5, 0x2⟩).run
      ((FibCall.add true ⟨⟨0x0000000a, 0x000000ff⟩, 0x0100000a, 0, 0xc⟩).run fibCreate)) :=
    .step (.step (.start rfl) trivial rfl) trivial rfl
  have cached := holds _ reached
    ⟨⟨0x0000000a, 0x000000ff⟩, ⟨0, 5, 0x2⟩, [⟨0x0100000a, 0, 0xc⟩]⟩ (by decide +kernel)
    ⟨0x0100000a, 0, 0xc⟩ (by decide) (by decide)
  exact absurd cached (by decide +kernel)

end MyCode.Fib
