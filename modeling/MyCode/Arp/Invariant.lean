import MyCode.Arp

/-!
# Entries, resolving nodes and their timers

Every timer in the wheel is started for one node, which its function looks for.  A timer step
frees the resolving nodes whose time is over, with their packets, and forgets dynamic entries.
-/

namespace MyCode.Arp

open Hash Vclock MacTable Lib Function List

variable {Packet : Type} {arp after : ArpInstance Packet} {now : Nat} {ip other : UINT}
  {entry : ArpNode} {node : ArpResolvingNode Packet} {hTimer : NodeId} {vclock : VclockInstance}

theorem arpHashFuncs_lawful : arpHashFuncs.Lawful := by
  intro first second
  change first - second = 0 ↔ first = second
  bv_omega

def ArpTimer.Owns (arp : ArpInstance Packet) (hTimer : NodeId) : ArpTimer → Prop
  | .resolvingTimeOut => ∃ node ∈ arp.stResolvingList, node.vclock_node = hTimer
  | .nodeTimeOut => ∃ ip entry, arpFind arp ip = some entry ∧ entry.vclock_node = hTimer

theorem ArpTimer.Owns.later {pfFunc : ArpTimer} (owns : pfFunc.Owns arp hTimer)
    (nodes : ∀ node ∈ arp.stResolvingList, node.vclock_node = hTimer →
      ∃ node ∈ after.stResolvingList, node.vclock_node = hTimer)
    (entries : ∀ ip entry, arpFind arp ip = some entry → entry.vclock_node = hTimer →
      ∃ ip entry, arpFind after ip = some entry ∧ entry.vclock_node = hTimer) :
    pfFunc.Owns after hTimer := by
  cases pfFunc with
  | resolvingTimeOut =>
    obtain ⟨node, inside, place⟩ := owns
    exact nodes node inside place
  | nodeTimeOut =>
    obtain ⟨ip, entry, found, place⟩ := owns
    exact entries ip entry found place

def Uses (arp : ArpInstance Packet) (hTimer : NodeId) : Prop :=
  ∃ pfFunc : ArpTimer, pfFunc.Owns arp hTimer

structure ArpOk (arp : ArpInstance Packet) (now : Nat) : Prop where
  hash : HashOk arpHashFuncs arp.hHashId
  linked : Linked arp.hVclock
  atTick : AtTick arp.hVclock now
  oneEntry : DistinctKeys ArpResolvingNode.ulIpToResolve arp.stResolvingList
  apart : DistinctKeys ArpResolvingNode.vclock_node arp.stResolvingList
  across : ∀ node ∈ arp.stResolvingList, ∀ ip entry, arpFind arp ip = some entry →
    entry.vclock_node ≠ node.vclock_node
  entries : ∀ ip other entry second, arpFind arp ip = some entry → arpFind arp other = some second →
    entry.vclock_node = second.vclock_node → ip = other
  resolving : ∀ node ∈ arp.stResolvingList, arp.pfFunc node.vclock_node = .resolvingTimeOut
  owned : ∀ hTimer, (arp.hVclock.node hTimer).pstHead ≠ none →
    (arp.hVclock.node hTimer).flag &&& timerFlagCycle = 0 ∧
      (arp.pfFunc hTimer).Owns arp hTimer

variable (ok : ArpOk arp now)

include ok in
theorem ArpOk.find_iff :
    arpFind arp ip = some entry ↔ entry ∈ hashWalk arp.hHashId ∧ entry.ulIp = ip :=
  hashFind_eq_some_iff arpHashFuncs_lawful ok.hash

variable (unused : ¬Uses arp hTimer)

include ok unused in
theorem ArpOk.unused_unlinked : (arp.hVclock.node hTimer).pstHead = none := by
  apply by_contra
  intro linked
  exact unused ⟨_, (ok.owned hTimer linked).2⟩

include ok in
theorem ArpOk.wheel {later : Nat} (linked : Linked vclock)
    (atTick : AtTick vclock later)
    (kept : ∀ hTimer, (vclock.node hTimer).pstHead ≠ none → (arp.hVclock.node hTimer).pstHead ≠ none ∧ (vclock.node hTimer).flag = (arp.hVclock.node hTimer).flag) :
    ArpOk { arp with hVclock := vclock } later := by
  refine ⟨ok.hash, linked, atTick, ok.oneEntry, ok.apart, ok.across, ok.entries, ok.resolving, ?_⟩
  intro hTimer linkedNow
  obtain ⟨before, flag⟩ := kept hTimer linkedNow
  obtain ⟨_, owns⟩ := ok.owned hTimer before
  exact ⟨by rwa [flag], owns⟩

/-- The place and the address of a resolving node. -/
def ArpResolvingNode.keys (node : ArpResolvingNode Packet) : UINT × NodeId :=
  (node.ulIpToResolve, node.vclock_node)

theorem exists_same_keys {before later : List (ArpResolvingNode Packet)}
    (same : before.map ArpResolvingNode.keys = later.map ArpResolvingNode.keys)
    (inside : node ∈ later) :
    ∃ old ∈ before, old.vclock_node = node.vclock_node := by
  have keyed : node.keys ∈ before.map ArpResolvingNode.keys := by
    rw [same]
    exact mem_map_of_mem inside
  obtain ⟨old, member, keys⟩ := mem_map.mp keyed
  exact ⟨old, member, congrArg Prod.snd keys⟩

section

include ok

theorem ArpOk.packets {later : List (ArpResolvingNode Packet)}
    (same : arp.stResolvingList.map ArpResolvingNode.keys = later.map ArpResolvingNode.keys) :
    ArpOk { arp with stResolvingList := later } now := by
  have ips := congrArg (map Prod.fst) same
  have places := congrArg (map Prod.snd) same
  simp only [map_map] at ips places
  refine ⟨ok.hash, ok.linked, ok.atTick, ?_, ?_, ?_, ok.entries, ?_, ?_⟩
  · exact distinctKeys_iff_nodup.mpr (ips ▸ distinctKeys_iff_nodup.mp ok.oneEntry)
  · exact distinctKeys_iff_nodup.mpr (places ▸ distinctKeys_iff_nodup.mp ok.apart)
  · intro node inside ip entry found
    obtain ⟨old, member, place⟩ := exists_same_keys same inside
    rw [← place]
    exact ok.across old member ip entry found
  · intro node inside
    obtain ⟨old, member, place⟩ := exists_same_keys same inside
    rw [← place]
    exact ok.resolving old member
  intro hTimer linked
  obtain ⟨once, owns⟩ := ok.owned hTimer linked
  refine ⟨once, owns.later ?_ fun ip entry found place => ⟨ip, entry, found, place⟩⟩
  rintro _ member rfl
  obtain ⟨node, inside, place⟩ := exists_same_keys same.symm member
  exact ⟨node, inside, place⟩

theorem ArpOk.mem_erased {first : ArpResolvingNode Packet} :
    node ∈ arp.stResolvingList.eraseP (fun node => node.vclock_node = first.vclock_node) ↔
      node ∈ arp.stResolvingList ∧ node.vclock_node ≠ first.vclock_node :=
  mem_eraseP_iff (fun _ _ => decide_eq_true_iff) ok.apart

theorem ArpOk.erase {first : ArpResolvingNode Packet}
    (unlinked : (arp.hVclock.node first.vclock_node).pstHead = none) :
    ArpOk (arpFreeResolvingNode arp first).1 now := by
  have kept := fun node inside => (@ArpOk.mem_erased _ _ _ node ok first).mp inside
  refine ⟨ok.hash, ok.linked, ok.atTick, ok.oneEntry.eraseP _, ok.apart.eraseP _, ?_, ok.entries,
    ?_, ?_⟩
  · intro node inside ip entry found
    exact ok.across node (kept node inside).1 ip entry found
  · intro node inside
    exact ok.resolving node (kept node inside).1
  intro hTimer linked
  obtain ⟨once, owns⟩ := ok.owned hTimer linked
  refine ⟨once, owns.later ?_ fun ip entry found place => ⟨ip, entry, found, place⟩⟩
  rintro node member rfl
  have differs : node.vclock_node ≠ first.vclock_node := by
    intro same
    simp only [arpFreeResolvingNode, same] at linked
    exact linked unlinked
  exact ⟨node, ok.mem_erased.mpr ⟨member, differs⟩, rfl⟩

end

theorem vclockAddTimer_spec (linked : Linked vclock) (atTick : AtTick vclock now)
    (fresh : (vclock.node hTimer).pstHead = none) (tick : UINT) :
    Linked (vclockAddTimer vclock hTimer tick tick 0) ∧
      AtTick (vclockAddTimer vclock hTimer tick tick 0) now ∧
      ((vclockAddTimer vclock hTimer tick tick 0).node hTimer).flag = 0 ∧
      ∀ other, other ≠ hTimer →
        (vclockAddTimer vclock hTimer tick tick 0).node other = vclock.node other := by
  obtain ⟨addedLinked, addedAtTick⟩ := vclockAddTimer_invariant linked atTick fresh tick tick 0
  refine ⟨addedLinked, addedAtTick, (vclockAddTimer_fields vclock hTimer tick tick 0).1, ?_⟩
  intro other differs
  exact @VclockCall.node_of_ne vclock other (.addTimer hTimer tick tick 0) differs.symm

include ok unused in
theorem ArpOk.start (tick : UINT) (pfFunc : ArpTimer) :
    let started := arpAddTimer arp hTimer tick pfFunc
    Linked started.hVclock ∧ AtTick started.hVclock now ∧
      (∀ other, other ≠ hTimer → started.hVclock.node other = arp.hVclock.node other) ∧
      (∀ node ∈ started.stResolvingList, started.pfFunc node.vclock_node = .resolvingTimeOut) ∧
      ∀ other, (started.hVclock.node other).pstHead ≠ none →
        (started.hVclock.node other).flag &&& timerFlagCycle = 0 ∧
          (other ≠ hTimer → (started.pfFunc other).Owns started other) ∧
          (other = hTimer → started.pfFunc other = pfFunc) := by
  obtain ⟨linked, atTick, flag, others⟩ :=
    vclockAddTimer_spec ok.linked ok.atTick (ok.unused_unlinked unused) tick
  refine ⟨linked, atTick, others, ?_, ?_⟩
  · intro node inside
    have differs : node.vclock_node ≠ hTimer := by
      intro same
      exact unused ⟨.resolvingTimeOut, node, inside, same⟩
    simp only [arpAddTimer, update_of_ne differs]
    exact ok.resolving node inside
  intro other running
  by_cases same : other = hTimer
  · subst same
    simp only [arpAddTimer] at running ⊢
    refine ⟨by rw [flag]; decide, fun differs => absurd rfl differs, fun _ => ?_⟩
    exact update_self ..
  simp only [arpAddTimer, others other same, update_of_ne same] at running ⊢
  obtain ⟨once, owns⟩ := ok.owned other running
  exact ⟨once, fun _ => owns.later (fun node inside place => ⟨node, inside, place⟩)
    fun ip entry found place => ⟨ip, entry, found, place⟩, fun equal => absurd equal same⟩

include ok unused in
theorem ArpOk.addResolving (absent : ∀ node ∈ arp.stResolvingList, node.ulIpToResolve ≠ ip) :
    let added : ArpInstance Packet := { arpAddTimer arp hTimer arpRetryTimeInterval
      .resolvingTimeOut with stResolvingList := arp.stResolvingList ++ [⟨ip, hTimer, []⟩] }
    ArpOk added now ∧ (added.hVclock.node hTimer).Armed now (now + 2) ∧
      ∀ node ∈ arp.stResolvingList, added.hVclock.node node.vclock_node =
        arp.hVclock.node node.vclock_node := by
  obtain ⟨linked, atTick, others, resolving, owned⟩ :=
    ok.start unused arpRetryTimeInterval .resolvingTimeOut
  have elsewhere : ∀ node ∈ arp.stResolvingList, node.vclock_node ≠ hTimer := by
    intro node inside same
    exact unused ⟨.resolvingTimeOut, node, inside, same⟩
  refine ⟨⟨ok.hash, linked, atTick, ok.oneEntry.append_singleton absent,
    ok.apart.append_singleton elsewhere, ?_, ok.entries, ?_, ?_⟩, ?_, ?_⟩
  · intro node inside ip entry found
    rcases mem_append.mp inside with old | new
    · exact ok.across node old ip entry found
    rw [mem_singleton.mp new]
    intro same
    exact unused ⟨.nodeTimeOut, ip, entry, found, same⟩
  · intro node inside
    rcases mem_append.mp inside with old | new
    · exact resolving node old
    · rw [mem_singleton.mp new]
      exact update_self ..
  · intro other running
    obtain ⟨once, owns, started⟩ := owned other running
    refine ⟨once, ?_⟩
    by_cases same : other = hTimer
    · have timer := started same
      rw [timer]
      exact ⟨_, mem_append_right _ (mem_singleton_self _), same.symm⟩
    · exact (owns same).later (fun node inside place => ⟨node, mem_append_left _ inside, place⟩)
        fun ip entry found place => ⟨ip, entry, found, place⟩
  · exact vclockAddTimer_armed ok.atTick (by decide)
  · intro node inside
    exact others _ (elsewhere node inside)

include ok in
theorem ArpOk.setEntry {hHashId : HashS ArpNode} {new : Option ArpNode}
    (hash : HashOk arpHashFuncs hHashId)
    (find : hashFind arpHashFuncs hHashId = update (arpFind arp) ip new)
    (place : ∀ entry, new = some entry →
      (∃ old, arpFind arp ip = some old ∧ old.vclock_node = entry.vclock_node) ∨
        ¬Uses arp entry.vclock_node)
    (kept : ∀ old, arpFind arp ip = some old →
      (∃ entry, new = some entry ∧ old.vclock_node = entry.vclock_node) ∨
        (arp.hVclock.node old.vclock_node).pstHead = none) :
    ArpOk { arp with hHashId := hHashId } now := by
  have find_self : arpFind { arp with hHashId := hHashId } ip = new := by
    rw [arpFind, find, update_self]
  have find_other {other : UINT} (differs : other ≠ ip) :
      arpFind { arp with hHashId := hHashId } other = arpFind arp other := by
    rw [arpFind, find, update_of_ne differs]
  -- Where a changed entry is, there was nothing of another address.
  have strange {entry second : ArpNode} {other : UINT} (isNew : new = some entry)
      (differs : other ≠ ip) (found : arpFind arp other = some second) :
      second.vclock_node ≠ entry.vclock_node := by
    intro same
    rcases place entry isNew with ⟨old, before, equal⟩ | unused
    · exact differs (ok.entries other ip second old found before (same.trans equal.symm))
    · exact unused ⟨.nodeTimeOut, other, second, found, same⟩
  refine ⟨hash, ok.linked, ok.atTick, ok.oneEntry, ok.apart, ?_, ?_, ok.resolving, ?_⟩
  · intro node inside other entry found same
    by_cases equal : other = ip
    · subst equal
      rw [find_self] at found
      rcases place entry found with ⟨old, before, same_place⟩ | unused
      · exact ok.across node inside other old before (same_place.trans same)
      · exact unused ⟨.resolvingTimeOut, node, inside, same.symm⟩
    · rw [find_other equal] at found
      exact ok.across node inside other entry found same
  · intro first second entry other found also same
    by_cases isFirst : first = ip
    · by_cases isSecond : second = ip
      · rw [isFirst, isSecond]
      rw [isFirst, find_self] at found
      rw [find_other isSecond] at also
      exact absurd same.symm (strange found isSecond also)
    rw [find_other isFirst] at found
    by_cases isSecond : second = ip
    · rw [isSecond, find_self] at also
      exact absurd same (strange also isFirst found)
    · rw [find_other isSecond] at also
      exact ok.entries first second entry other found also same
  intro hTimer running
  obtain ⟨once, owns⟩ := ok.owned hTimer running
  refine ⟨once, owns.later (fun node inside place => ⟨node, inside, place⟩) ?_⟩
  rintro other old found rfl
  by_cases equal : other = ip
  · subst equal
    rcases kept old found with ⟨entry, isNew, same⟩ | stopped
    · exact ⟨other, entry, find_self.trans isNew, same.symm⟩
    · exact absurd stopped running
  · exact ⟨other, old, (find_other equal).trans found, rfl⟩

include ok in
theorem ArpOk.startEntry (found : arpFind arp ip = some entry)
    (stopped : (arp.hVclock.node entry.vclock_node).pstHead = none) (tick : UINT) :
    ArpOk (arpAddTimer arp entry.vclock_node tick .nodeTimeOut) now ∧
      ∀ node ∈ arp.stResolvingList,
        (arpAddTimer arp entry.vclock_node tick .nodeTimeOut).hVclock.node node.vclock_node =
          arp.hVclock.node node.vclock_node := by
  obtain ⟨linked, atTick, flag, others⟩ := vclockAddTimer_spec ok.linked ok.atTick stopped tick
  have elsewhere : ∀ node ∈ arp.stResolvingList, node.vclock_node ≠ entry.vclock_node := by
    intro node inside same
    exact ok.across node inside ip entry found same.symm
  refine ⟨⟨ok.hash, linked, atTick, ok.oneEntry, ok.apart, ok.across, ok.entries, ?_, ?_⟩, ?_⟩
  · intro node inside
    simp only [arpAddTimer, update_of_ne (elsewhere node inside)]
    exact ok.resolving node inside
  · intro hTimer running
    by_cases same : hTimer = entry.vclock_node
    · subst same
      simp only [arpAddTimer, flag, update_self]
      exact ⟨by decide, ip, entry, found, rfl⟩
    simp only [arpAddTimer, others hTimer same, update_of_ne same] at running ⊢
    obtain ⟨once, owns⟩ := ok.owned hTimer running
    exact ⟨once, owns.later (fun node inside place => ⟨node, inside, place⟩)
      fun ip entry found place => ⟨ip, entry, found, place⟩⟩
  · intro node inside
    exact others _ (elsewhere node inside)

structure Added (arp after : ArpInstance Packet) (now : Nat) (ip : UINT) (eType : ArpType) :
    Prop where
  ok : ArpOk after now
  list : after.stResolvingList = arp.stResolvingList
  timer : ∀ node ∈ arp.stResolvingList,
    after.hVclock.node node.vclock_node = arp.hVclock.node node.vclock_node
  find : ∀ other, other ≠ ip → arpFind after other = arpFind arp other
  static : ∀ entry, arpFind arp ip = some entry → entry.eType = .static → eType = .dynamic →
    arpFind after ip = some entry

include ok in
theorem Added.refl (eType : ArpType) : Added arp arp now ip eType :=
  ⟨ok, rfl, fun _ _ => rfl, fun _ _ => rfl, fun _ found _ _ => found⟩

include ok in
theorem ArpOk.add (ulIp : UINT) (pstMac : MacAddr) (eType : ArpType)
    {memory : Option NodeId} (unused : ∀ hTimer, memory = some hTimer → ¬Uses arp hTimer) :
    Added arp (arpAdd arp ulIp pstMac eType memory).1 now ulIp eType := by
  unfold arpAdd
  cases found : arpFind arp ulIp with
  | some =>
    dsimp only
    split
    · exact .refl ok eType
    next changes =>
    have keeps : ∀ node : ArpNode, arpHashFuncs.key node = ulIp →
        arpHashFuncs.key { node with stMacAddr := pstMac, eType := eType } = ulIp :=
      fun _ same => same
    have find := hashFind_updateAt arpHashFuncs_lawful ok.hash keeps
    refine ⟨ok.setEntry (ok.hash.updateAt arpHashFuncs_lawful keeps) find ?_ ?_, rfl,
      fun _ _ => rfl, ?_, ?_⟩
    · intro new isNew
      obtain ⟨old, before, rfl⟩ := Option.map_eq_some_iff.mp isNew
      exact .inl ⟨old, before, rfl⟩
    · intro old before
      refine .inl ⟨_, Option.map_eq_some_iff.mpr ⟨old, before, rfl⟩, rfl⟩
    · intro other differs
      exact (congrFun find other).trans (update_of_ne differs ..)
    · intro old before isStatic isDynamic
      obtain rfl := Option.some.inj (found.symm.trans before)
      exact absurd ⟨isStatic, isDynamic⟩ changes
  | none =>
    cases memory with
    | none => exact .refl ok eType
    | some hTimer =>
      have free := unused hTimer rfl
      have stopped := ok.unused_unlinked free
      obtain ⟨new, isNew⟩ : ∃ new : ArpNode, new = ⟨ulIp, pstMac, eType, hTimer⟩ := ⟨_, rfl⟩
      have place := congrArg ArpNode.vclock_node isNew
      have isKey : arpHashFuncs.key new = ulIp := congrArg ArpNode.ulIp isNew
      have absent : hashFind arpHashFuncs arp.hHashId (arpHashFuncs.key new) = none := by
        rw [isKey]
        exact found
      have find := hashFind_add arpHashFuncs_lawful ok.hash absent
      rw [isKey] at find
      have stored := ok.setEntry (ok.hash.add arpHashFuncs_lawful absent) find (by
          rintro _ ⟨⟩
          rw [place]
          exact .inr free)
        (fun old before => absurd (found.symm.trans before) (Option.some_ne_none old).symm)
      have find_other (other : UINT) (differs : other ≠ ulIp) :
          hashFind arpHashFuncs (hashAdd arpHashFuncs arp.hHashId new) other =
            arpFind arp other :=
        (congrFun find other).trans (update_of_ne differs ..)
      have contradiction (old : ArpNode) (before : arpFind arp ulIp = some old) : False :=
        Option.some_ne_none old (before.symm.trans found)
      simp only [← isNew]
      by_cases dynamic : eType = .dynamic
      · have here := (congrFun find ulIp).trans (update_self ..)
        obtain ⟨started, timer⟩ := stored.startEntry here (place ▸ stopped) arp.uiTimeOutTick
        rw [place] at started timer
        simp only [dynamic, if_true]
        exact ⟨started, rfl, timer, find_other, fun old before => (contradiction old before).elim⟩
      · simp only [dynamic, if_false]
        exact ⟨stored, rfl, fun _ _ => rfl, find_other,
          fun old before => (contradiction old before).elim⟩

open Option

variable {Packet : Type} {arp after : ArpInstance Packet} {now : Nat} {ip : UINT}
  {entry : ArpNode} {node : ArpResolvingNode Packet} {hTimer : NodeId}
  {effects : List (ArpEffect Packet)}

def ArpInstance.waiting (arp : ArpInstance Packet) : List Packet :=
  arp.stResolvingList.flatMap ArpResolvingNode.pstPacketList

theorem ArpOk.waiting_erase (ok : ArpOk arp now) (inside : node ∈ arp.stResolvingList) :
    arp.waiting.Perm (node.pstPacketList ++ (arpFreeResolvingNode arp node).1.waiting) := by
  have perm := perm_cons_eraseP (fun _ _ => decide_eq_true_iff) ok.apart inside rfl
  exact perm.flatMap_right ArpResolvingNode.pstPacketList

structure Stepped (arp after : ArpInstance Packet) (effects : List (ArpEffect Packet))
    (now : Nat) : Prop where
  ok : ArpOk after now
  sublist : after.stResolvingList.Sublist arp.stResolvingList
  freed : ∃ freed, effects = freed.map .freePacket ∧ arp.waiting.Perm (freed ++ after.waiting)
  timer : ∀ node ∈ after.stResolvingList,
    after.hVclock.node node.vclock_node = arp.hVclock.node node.vclock_node
  static : ∀ ip entry, arpFind arp ip = some entry → entry.eType = .static →
    arpFind after ip = some entry

theorem Stepped.refl (ok : ArpOk arp now) : Stepped arp arp [] now :=
  ⟨ok, Sublist.refl _, ⟨[], rfl, Perm.refl _⟩, fun _ _ => rfl, fun _ _ found _ => found⟩

theorem Stepped.trans {between : ArpInstance Packet} {later : List (ArpEffect Packet)}
    (first : Stepped arp between effects now) (second : Stepped between after later now) :
    Stepped arp after (effects ++ later) now := by
  obtain ⟨freed, isFreed, perm⟩ := first.freed
  obtain ⟨more, isMore, permMore⟩ := second.freed
  refine ⟨second.ok, second.sublist.trans first.sublist, ⟨freed ++ more, ?_, ?_⟩, ?_, ?_⟩
  · rw [isFreed, isMore, map_append]
  · rw [append_assoc]
    exact perm.trans (permMore.append_left freed)
  · intro node inside
    exact (second.timer node inside).trans (first.timer node (second.sublist.subset inside))
  · intro ip entry found isStatic
    exact second.static ip entry (first.static ip entry found isStatic) isStatic

theorem ArpOk.fired (ok : ArpOk arp now) {fired : VclockInstance}
    (fires : vclockStepFire arp.hVclock = some (hTimer, fired)) :
    ArpOk { arp with hVclock := fired } now ∧ (arp.pfFunc hTimer).Owns arp hTimer ∧
      (arp.hVclock.node hTimer).flag &&& timerFlagCycle = 0 ∧
      (fired.node hTimer).pstHead = none ∧
      ∀ other, other ≠ hTimer → fired.node other = arp.hVclock.node other := by
  obtain ⟨linked, atTick, due, isFired, others⟩ := vclockStepFire_spec ok.linked ok.atTick fires
  have running : (arp.hVclock.node hTimer).pstHead ≠ none := by
    rw [due]
    exact some_ne_none _
  obtain ⟨once, owns⟩ := ok.owned hTimer running
  have stopped : (fired.node hTimer).pstHead = none := by
    have left := isFired.2.2
    rwa [if_neg (not_not.mpr once)] at left
  refine ⟨ok.wheel linked atTick ?_, owns, once, stopped, others⟩
  intro other still
  have differs : other ≠ hTimer := by
    rintro rfl
    exact still stopped
  rw [others other differs] at still ⊢
  exact ⟨still, rfl⟩

theorem ArpOk.turn (ok : ArpOk arp now) {fired : VclockInstance}
    (fires : vclockStepFire arp.hVclock = some (hTimer, fired)) :
    Stepped arp (arpTimeOut { arp with hVclock := fired } hTimer).1
        (arpTimeOut { arp with hVclock := fired } hTimer).2 now ∧
      (arpTimeOut { arp with hVclock := fired } hTimer).1.hVclock = fired := by
  obtain ⟨firedOk, owns, -, stopped, others⟩ := ok.fired fires
  rw [arpTimeOut]
  cases timer : arp.pfFunc hTimer with
  | resolvingTimeOut =>
    rw [timer] at owns
    obtain ⟨node, inside, rfl⟩ := owns
    have found := (find?_eq_some_iff_key (fun _ _ => decide_eq_true_iff) ok.apart).mpr ⟨inside, rfl⟩
    simp only [arpResolvingTimeOut, found]
    have erased := firedOk.erase stopped
    refine ⟨⟨erased, eraseP_sublist, ⟨node.pstPacketList, rfl, ?_⟩, ?_,
      fun ip entry found _ => found⟩, rfl⟩
    · exact firedOk.waiting_erase inside
    · intro other kept
      exact others _ (firedOk.mem_erased.mp kept).2
  | nodeTimeOut =>
    rw [timer] at owns
    obtain ⟨ip, entry, found, rfl⟩ := owns
    have elsewhere : ∀ node ∈ arp.stResolvingList,
        fired.node node.vclock_node = arp.hVclock.node node.vclock_node := by
      intro node inside
      exact others _ fun same => ok.across node inside ip entry found same.symm
    have isEntry : (hashWalk arp.hHashId).find? (fun other =>
        other.vclock_node = entry.vclock_node) = some entry := by
      have some_passes : ((hashWalk arp.hHashId).find? (fun other =>
          other.vclock_node = entry.vclock_node)).isSome :=
        find?_isSome.mpr ⟨entry, (ok.find_iff.mp found).1, decide_eq_true rfl⟩
      obtain ⟨first, isFirst⟩ := isSome_iff_exists.mp some_passes
      have same : first.vclock_node = entry.vclock_node := by
        simpa only [decide_eq_true_iff] using find?_some isFirst
      have also := ok.find_iff.mpr ⟨mem_of_find?_eq_some isFirst, rfl⟩
      rw [ok.entries _ _ _ _ also found same] at also
      rw [isFirst, ← also, found]
    simp only [arpNodeTimeOut, isEntry]
    split
    · exact ⟨⟨firedOk, Sublist.refl _, ⟨[], rfl, Perm.refl _⟩, elsewhere,
        fun _ _ found _ => found⟩, rfl⟩
    next dynamic =>
    obtain ⟨inside, isKey⟩ := ok.find_iff.mp found
    have deleted : hashDelNode arpHashFuncs arp.hHashId entry =
        hashDel arpHashFuncs arp.hHashId ip := by
      rw [hashDelNode_eq arpHashFuncs_lawful ok.hash inside]
      exact congrArg _ isKey
    have find : hashFind arpHashFuncs (hashDel arpHashFuncs arp.hHashId ip) =
        Function.update (arpFind arp) ip none :=
      hashFind_del arpHashFuncs_lawful ok.hash
    rw [deleted]
    refine ⟨⟨firedOk.setEntry (ok.hash.del arpHashFuncs_lawful) find
      (fun _ impossible => by cases impossible) ?_, Sublist.refl _,
      ⟨[], rfl, Perm.refl _⟩, elsewhere, ?_⟩, rfl⟩
    · intro old before
      obtain rfl := some.inj (found.symm.trans before)
      exact .inr stopped
    intro other second before isStatic
    have differs : other ≠ ip := by
      rintro rfl
      obtain rfl := some.inj (found.symm.trans before)
      exact dynamic isStatic
    exact ((congrFun find other).trans (Function.update_of_ne differs ..)).trans before

theorem ArpOk.shorter (ok : ArpOk arp now) {fired : VclockInstance}
    (fires : vclockStepFire arp.hVclock = some (hTimer, fired)) :
    (fired.stTimerLevel 0 (fired.ulCurrentLevelTick 0)).length + 1 =
      (arp.hVclock.stTimerLevel 0 (arp.hVclock.ulCurrentLevelTick 0)).length := by
  obtain ⟨-, -, once, -⟩ := ok.fired fires
  unfold vclockStepFire at fires
  split at fires
  · cases fires
  next first rest list =>
  dsimp only at fires
  split at fires
  · next cyclic =>
    obtain ⟨rfl, -⟩ := Prod.mk.inj (some.inj fires)
    exact absurd once (by simpa using cyclic)
  obtain ⟨-, isFired⟩ := Prod.mk.inj (some.inj fires)
  have shorter : (arp.hVclock.dllDel 0 (arp.hVclock.ulCurrentLevelTick 0) first).stTimerLevel 0
      (arp.hVclock.ulCurrentLevelTick 0) = rest := by
    simp [VclockInstance.dllDel, VclockInstance.setList, list]
  rw [← isFired, list]
  exact congrArg (fun slot => length slot + 1) shorter

theorem ArpOk.firing (turns : Nat) (ok : ArpOk arp now)
    (enough : (arp.hVclock.stTimerLevel 0 (arp.hVclock.ulCurrentLevelTick 0)).length ≤ turns) :
    Stepped arp (arpFiring turns arp).1 (arpFiring turns arp).2 now ∧
      ∀ hTimer, ¬((arpFiring turns arp).1.hVclock.node hTimer).Due now := by
  induction turns generalizing arp with
  | zero =>
    refine ⟨.refl ok, fun hTimer => ?_⟩
    apply not_due_of_vclockStepFire_eq_none ok.linked ok.atTick
    rw [vclockStepFire, length_eq_zero_iff.mp (Nat.le_zero.mp enough)]
  | succ _ ih =>
    rw [arpFiring]
    cases fires : vclockStepFire arp.hVclock with
    | none =>
      exact ⟨.refl ok, fun hTimer => not_due_of_vclockStepFire_eq_none ok.linked ok.atTick fires⟩
    | some =>
      obtain ⟨turn, wheel⟩ := ok.turn fires
      have shorter := ok.shorter fires
      obtain ⟨rest, settled⟩ := ih turn.ok (by rw [wheel]; omega)
      exact ⟨turn.trans rest, settled⟩

/-- The nodes whose packets still wait have time left. -/
def Timely (arp : ArpInstance Packet) (now : Nat) (deadline : NodeId → Nat) : Prop :=
  ∀ node ∈ arp.stResolvingList,
    (arp.hVclock.node node.vclock_node).Armed now (deadline node.vclock_node)

theorem ArpOk.timerStep (ok : ArpOk arp now) {deadline : NodeId → Nat}
    (timely : Timely arp now deadline) :
    Stepped { arp with hVclock := vclockStepBegin arp.hVclock } (arpTimerStep arp).1
        (arpTimerStep arp).2 (now + 1) ∧
      Timely (arpTimerStep arp).1 (now + 1) deadline := by
  obtain ⟨linked, atTick, kept⟩ := vclockStepBegin_invariant ok.linked ok.atTick
  have begun : ArpOk { arp with hVclock := vclockStepBegin arp.hVclock } (now + 1) := by
    refine ok.wheel linked atTick fun hTimer running => ⟨fun unlinked => ?_, (kept hTimer).1⟩
    rw [vclockStepBegin_node_of_unlinked ok.linked ok.atTick unlinked] at running
    exact running unlinked
  obtain ⟨stepped, settled⟩ := begun.firing _ le_rfl
  refine ⟨stepped, fun node inside => ?_⟩
  have before := timely node (stepped.sublist.subset inside)
  have landed := vclockStepBegin_landed ok.linked ok.atTick before
  have undue := settled node.vclock_node
  have same := stepped.timer node inside
  rcases landed with armed | ⟨due, -⟩
  · exact same ▸ armed
  · exact absurd (same ▸ due) undue

end MyCode.Arp
