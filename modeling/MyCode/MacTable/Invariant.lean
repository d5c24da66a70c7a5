import MyCode.MacTable.Table

/-!
# Nodes and their timers

Every timer of the wheel belongs to one node of the table, which its user handle names.
-/

namespace MyCode.MacTable

open Hash Vclock Function Option

variable {Data : Type} {mactbl after : MacTbl Data} {now : Nat} {stMac other : MacAddr}
  {node : MacTblNode Data} {hVclock : NodeId}

def mactblTimer (mactbl : MacTbl Data) (stMac : MacAddr) : Option NodeId :=
  (mactblFind mactbl stMac).bind MacTblNode.hVclock

structure Ages (mactbl : MacTbl Data) (now : Nat) (stMac : MacAddr) (hVclock : NodeId) : Prop where
  handle : mactbl.stUserHandle hVclock = stMac
  cyclic : (mactbl.hVclockInstance.node hVclock).flag &&& timerFlagCycle ≠ 0
  period : (mactbl.hVclockInstance.node hVclock).ulTick = mactbl.uiOldTick
  landed : ∃ deadline, (mactbl.hVclockInstance.node hVclock).Landed now deadline

structure MactblOk (mactbl : MacTbl Data) (now : Nat) : Prop where
  hash : HashOk mactblHashFuncs mactbl.hHashId
  linked : Linked mactbl.hVclockInstance
  atTick : AtTick mactbl.hVclockInstance now
  uiOldTick : 0 < mactbl.uiOldTick.toNat
  ages : ∀ stMac hVclock, mactblTimer mactbl stMac = some hVclock → Ages mactbl now stMac hVclock
  free : ∀ hVclock, (∀ stMac, mactblTimer mactbl stMac ≠ some hVclock) →
    (mactbl.hVclockInstance.node hVclock).pstHead = none

/-- What an operation on one address leaves of the others. -/
structure Frame (mactbl after : MacTbl Data) (stMac : MacAddr) : Prop where
  uiOldTick : after.uiOldTick = mactbl.uiOldTick
  uiUserDataSize : after.uiUserDataSize = mactbl.uiUserDataSize
  find : ∀ other, other ≠ stMac → mactblFind after other = mactblFind mactbl other
  node : ∀ other hVclock, other ≠ stMac → mactblTimer mactbl other = some hVclock →
    after.hVclockInstance.node hVclock = mactbl.hVclockInstance.node hVclock

theorem Frame.refl : Frame mactbl mactbl stMac :=
  ⟨rfl, rfl, fun _ _ => rfl, fun _ _ _ _ => rfl⟩

theorem Frame.trans {between : MacTbl Data} (first : Frame mactbl between stMac)
    (second : Frame between after stMac) : Frame mactbl after stMac := by
  refine ⟨second.uiOldTick.trans first.uiOldTick,
    second.uiUserDataSize.trans first.uiUserDataSize, fun other differs => ?_,
    fun other hVclock differs owned => ?_⟩
  · exact (second.find other differs).trans (first.find other differs)
  have stillOwned : mactblTimer between other = some hVclock := by
    rw [mactblTimer, first.find other differs]
    exact owned
  exact (second.node other hVclock differs stillOwned).trans
    (first.node other hVclock differs owned)

theorem mactblHashFuncs_lawful : (@mactblHashFuncs Data).Lawful := by
  intro first second
  obtain ⟨first⟩ := first
  obtain ⟨second⟩ := second
  have same : first.toList.length = second.toList.length := by simp
  refine (memCmp_eq_zero same).trans ?_
  simp [Vector.toList_inj]

theorem MactblOk.find_key (ok : MactblOk mactbl now) (found : mactblFind mactbl stMac = some node) :
    node.stMacNode.stMac = stMac :=
  ((hashFind_eq_some_iff mactblHashFuncs_lawful ok.hash).mp found).2

theorem MactblOk.timer_unique (ok : MactblOk mactbl now)
    (isFirst : mactblTimer mactbl stMac = some hVclock)
    (isSecond : mactblTimer mactbl other = some hVclock) : stMac = other :=
  (ok.ages stMac hVclock isFirst).handle.symm.trans (ok.ages other hVclock isSecond).handle

theorem MactblOk.owner_of_due (ok : MactblOk mactbl now)
    (due : (mactbl.hVclockInstance.node hVclock).Due now) :
    mactblTimer mactbl (mactbl.stUserHandle hVclock) = some hVclock := by
  by_contra unowned
  have unlinked := ok.free hVclock fun stMac owned => unowned <| by
    rw [(ok.ages stMac hVclock owned).handle]
    exact owned
  rw [VclockNode.Due, unlinked] at due
  cases due

/-- An operation that replaces the entry of one address and its timer. -/
structure Replaces (mactbl after : MacTbl Data) (now : Nat) (stMac : MacAddr)
    (entry : Option (MacTblNode Data)) : Prop where
  hash : HashOk mactblHashFuncs after.hHashId
  find : mactblFind after = update (mactblFind mactbl) stMac entry
  linked : Linked after.hVclockInstance
  atTick : AtTick after.hVclockInstance now
  uiOldTick : after.uiOldTick = mactbl.uiOldTick
  uiUserDataSize : after.uiUserDataSize = mactbl.uiUserDataSize
  ages : ∀ hVclock, entry.bind MacTblNode.hVclock = some hVclock → Ages after now stMac hVclock
  unused : ∀ hVclock, entry.bind MacTblNode.hVclock = some hVclock →
    ∀ other, other ≠ stMac → mactblTimer mactbl other ≠ some hVclock
  stopped : ∀ hVclock, mactblTimer mactbl stMac = some hVclock →
    entry.bind MacTblNode.hVclock ≠ some hVclock →
      (after.hVclockInstance.node hVclock).pstHead = none
  others : ∀ hVclock, mactblTimer mactbl stMac ≠ some hVclock →
    entry.bind MacTblNode.hVclock ≠ some hVclock →
      after.hVclockInstance.node hVclock = mactbl.hVclockInstance.node hVclock ∧
        after.stUserHandle hVclock = mactbl.stUserHandle hVclock

variable {entry : Option (MacTblNode Data)}

section

variable (replaces : Replaces mactbl after now stMac entry)

include replaces

theorem Replaces.find_self : mactblFind after stMac = entry := by
  rw [replaces.find, update_self]

theorem Replaces.find_of_ne
    (differs : other ≠ stMac) : mactblFind after other = mactblFind mactbl other := by
  rw [replaces.find, update_of_ne differs]

theorem Replaces.timer (same : entry.bind MacTblNode.hVclock = mactblTimer mactbl stMac) :
    mactblTimer after = mactblTimer mactbl := by
  funext other
  by_cases isSelf : other = stMac
  · rw [isSelf, mactblTimer, replaces.find_self, same]
  · rw [mactblTimer, replaces.find_of_ne isSelf, mactblTimer]

theorem Replaces.kept (ok : MactblOk mactbl now)
    (differs : other ≠ stMac) (owned : mactblTimer mactbl other = some hVclock) :
    after.hVclockInstance.node hVclock = mactbl.hVclockInstance.node hVclock ∧
      after.stUserHandle hVclock = mactbl.stUserHandle hVclock := by
  apply replaces.others hVclock
  · exact fun same => differs (ok.timer_unique owned same)
  · exact fun same => replaces.unused hVclock same other differs owned

theorem Replaces.frame (ok : MactblOk mactbl now) : Frame mactbl after stMac :=
  ⟨replaces.uiOldTick, replaces.uiUserDataSize, fun _ differs => replaces.find_of_ne differs,
    fun _ _ differs owned => (replaces.kept ok differs owned).1⟩

theorem Replaces.ok (ok : MactblOk mactbl now) : MactblOk after now := by
  have timer_self : mactblTimer after stMac = entry.bind MacTblNode.hVclock := by
    rw [mactblTimer, replaces.find_self]
  have timer_other (other : MacAddr) (differs : other ≠ stMac) :
      mactblTimer after other = mactblTimer mactbl other := by
    rw [mactblTimer, replaces.find_of_ne differs, mactblTimer]
  refine ⟨replaces.hash, replaces.linked, replaces.atTick, ?_, fun other hVclock owned => ?_,
    fun hVclock unowned => ?_⟩
  · rw [replaces.uiOldTick]
    exact ok.uiOldTick
  · by_cases same : other = stMac
    · subst same
      exact replaces.ages hVclock (timer_self ▸ owned)
    rw [timer_other other same] at owned
    obtain ⟨sameNode, sameHandle⟩ := replaces.kept ok same owned
    obtain ⟨handle, _, period, _⟩ := ok.ages other hVclock owned
    refine ⟨sameHandle.trans handle, ?_, ?_, ?_⟩
    · rwa [sameNode]
    · rw [sameNode, replaces.uiOldTick]
      exact period
    · rwa [sameNode]
  have notEntry :=  fun same => unowned stMac (timer_self.trans same)
  by_cases wasTimer : mactblTimer mactbl stMac = some hVclock
  · exact replaces.stopped hVclock wasTimer notEntry
  rw [(replaces.others hVclock wasTimer notEntry).1]
  apply ok.free
  intro other owned
  by_cases same : other = stMac
  · exact wasTimer (same ▸ owned)
  · exact unowned other ((timer_other other same).trans owned)

end

section

variable (ok : MactblOk mactbl now)

include ok

theorem MactblOk.write {change : MacTblNode Data → MacTblNode Data}
    (keeps : ∀ node, node.stMacNode.stMac = stMac → (change node).stMacNode.stMac = stMac)
    (sameTimer : ∀ node, (change node).hVclock = node.hVclock)
    (found : mactblFind mactbl stMac = some node) :
    Replaces mactbl (mactblWrite mactbl stMac change) now stMac (some (change node)) := by
  have timer : mactblTimer mactbl stMac = (some (change node)).bind MacTblNode.hVclock := by
    rw [mactblTimer, found, bind_some, bind_some, sameTimer]
  refine ⟨ok.hash.updateAt mactblHashFuncs_lawful keeps, ?_, ok.linked, ok.atTick, rfl, rfl,
    fun hVclock owned => ?_, fun hVclock owned other differs used => ?_,
    fun hVclock owned notEntry => ?_, fun hVclock _ _ => ⟨rfl, rfl⟩⟩
  · refine (hashFind_updateAt mactblHashFuncs_lawful ok.hash keeps).trans ?_
    exact congrArg _ (congrArg (Option.map change) found)
  · obtain ⟨handle, cyclic, period, landed⟩ := ok.ages stMac hVclock (timer.trans owned)
    exact ⟨handle, cyclic, period, landed⟩
  · exact differs (ok.timer_unique used (timer.trans owned))
  · exact absurd (timer.symm.trans owned) notEntry

theorem MactblOk.add
    (absent : mactblFind mactbl node.stMacNode.stMac = none) (without : node.hVclock = none) :
    Replaces mactbl { mactbl with hHashId := hashAdd mactblHashFuncs mactbl.hHashId node } now
      node.stMacNode.stMac (some node) := by
  have noTimer (hVclock : NodeId) : (some node).bind MacTblNode.hVclock ≠ some hVclock := by
    simp [without]
  refine ⟨ok.hash.add mactblHashFuncs_lawful absent,
    hashFind_add mactblHashFuncs_lawful ok.hash absent, ok.linked, ok.atTick, rfl, rfl,
    fun hVclock owned => absurd owned (noTimer hVclock),
    fun hVclock owned => absurd owned (noTimer hVclock),
    fun hVclock owned _ => ?_, fun hVclock _ _ => ⟨rfl, rfl⟩⟩
  rw [mactblTimer, absent] at owned
  cases owned

section

variable (found : mactblFind mactbl stMac = some node)

include found

theorem MactblOk.freeNode
    {vclock : VclockInstance} (linked : Linked vclock) (atTick : AtTick vclock now)
    (others : ∀ hVclock, node.hVclock ≠ some hVclock →
      vclock.node hVclock = mactbl.hVclockInstance.node hVclock) :
    Replaces mactbl (mactblFree { mactbl with hVclockInstance := vclock } node) now stMac none := by
  have key := ok.find_key found
  have timer : mactblTimer mactbl stMac = node.hVclock := by
    rw [mactblTimer, found, bind_some]
  have deleted : hashFind mactblHashFuncs (hashDel mactblHashFuncs mactbl.hHashId stMac) =
      update (mactblFind mactbl) stMac none := hashFind_del mactblHashFuncs_lawful ok.hash
  have stillOk : HashOk mactblHashFuncs (hashDel mactblHashFuncs mactbl.hHashId stMac) :=
    ok.hash.del mactblHashFuncs_lawful
  rw [mactblFree, key]
  cases isTimer : node.hVclock with
  | none =>
    refine ⟨stillOk, deleted, linked, atTick, rfl, rfl, nofun, nofun, fun hVclock owned _ => ?_,
      fun hVclock unowned _ => ⟨others hVclock ?_, rfl⟩⟩
    · rw [timer, isTimer] at owned
      cases owned
    · rwa [timer] at unowned
  | some hVclock =>
    obtain ⟨linked, atTick, unlinked, kept⟩ :=
      @vclockDelTimer_invariant vclock hVclock now linked atTick
    refine ⟨stillOk, deleted, linked, atTick, rfl, rfl, nofun,
      nofun, fun other owned _ => ?_, fun other unowned _ => ?_⟩
    · rw [timer, isTimer] at owned
      cases owned
      exact unlinked
    rw [timer] at unowned
    refine ⟨(kept other ?_).trans (others other unowned), rfl⟩
    rintro rfl
    exact unowned isTimer

theorem MactblOk.startTimer
    (without : node.hVclock = none) (unused : ∀ stMac, mactblTimer mactbl stMac ≠ some hVclock)
    (fits : mactbl.uiOldTick.toNat + 1 < 2 ^ 32) :
    Replaces mactbl
      { mactblWrite mactbl stMac fun node => { node with hVclock := some hVclock } with
        hVclockInstance := vclockAddTimer mactbl.hVclockInstance hVclock mactbl.uiOldTick
          mactbl.uiOldTick timerFlagCycle
        stUserHandle := update mactbl.stUserHandle hVclock stMac }
      now stMac (some { node with hVclock := some hVclock }) := by
  have unlinked := ok.free hVclock unused
  obtain ⟨linked, atTick⟩ := vclockAddTimer_invariant ok.linked ok.atTick unlinked mactbl.uiOldTick
    mactbl.uiOldTick timerFlagCycle
  obtain ⟨sameFlag, sameTick⟩ := vclockAddTimer_fields mactbl.hVclockInstance hVclock
    mactbl.uiOldTick mactbl.uiOldTick timerFlagCycle
  have keeps : ∀ node : MacTblNode Data,
      ({ node with hVclock := some hVclock } : MacTblNode Data).stMacNode.stMac =
        node.stMacNode.stMac := fun _ => rfl
  refine ⟨ok.hash.update mactblHashFuncs_lawful keeps, ?_, linked, atTick, rfl, rfl,
    fun other owned => ?_, fun other owned address _ used => ?_,
    fun other owned _ => ?_, fun other _ differs => ?_⟩
  · refine (hashFind_update mactblHashFuncs_lawful ok.hash keeps).trans ?_
    exact congrArg _ (congrArg (Option.map _) found)
  · obtain rfl : hVclock = other := Option.some.inj owned
    refine ⟨update_self .., ?_, sameTick, _, .inl (vclockAddTimer_armed ok.atTick fits)⟩
    rw [sameFlag]
    decide
  · obtain rfl : hVclock = other := Option.some.inj owned
    exact unused address used
  · rw [mactblTimer, found, bind_some, without] at owned
    cases owned
  have apart : other ≠ hVclock := by
    rintro rfl
    exact differs rfl
  refine ⟨?_, update_of_ne apart _ _⟩
  exact @VclockCall.node_of_ne _ other (.addTimer hVclock _ _ _) apart.symm

theorem MactblOk.refreshTimer (isTimer : node.hVclock = some hVclock)
    {deadline : Nat} (armed : (mactbl.hVclockInstance.node hVclock).Armed now deadline) :
    Replaces mactbl
      { mactbl with hVclockInstance := vclockRefresh mactbl.hVclockInstance hVclock }
      now stMac (some node) := by
  have timer : mactblTimer mactbl stMac = node.hVclock := by
    rw [mactblTimer, found, bind_some]
  obtain ⟨handle, _, period, -⟩ := ok.ages stMac hVclock (timer.trans isTimer)
  obtain ⟨rearmed, sameFlag, sameTick⟩ := vclockRefresh_armed ok.atTick armed
    (by rw [period]; exact ok.uiOldTick)
  obtain ⟨linked, atTick⟩ := @VclockCall.invariant _ _ (.refresh hVclock) trivial ok.linked ok.atTick
  refine ⟨ok.hash, ?_, linked, atTick, rfl, rfl, fun other owned => ?_,
    fun other owned address differs used => ?_, fun other owned notEntry => ?_,
    fun other unowned _ => ⟨?_, rfl⟩⟩
  · rw [← found, update_eq_self]
    rfl
  · obtain rfl : hVclock = other := Option.some.inj (isTimer.symm.trans owned)
    refine ⟨handle, ?_, sameTick.trans period, _, .inl rearmed⟩
    rwa [sameFlag]
  · exact differs (ok.timer_unique used (timer.trans owned))
  · exact absurd (timer.symm.trans owned) notEntry
  · apply @VclockCall.node_of_ne _ other (.refresh hVclock)
    rintro rfl
    exact unowned (timer.trans isTimer)

theorem MactblOk.stopTimer (isTimer : node.hVclock = some hVclock) :
    Replaces mactbl
      { mactblWrite mactbl stMac fun node => { node with hVclock := none } with
        hVclockInstance := vclockDelTimer mactbl.hVclockInstance hVclock }
      now stMac (some { node with hVclock := none }) := by
  have timer : mactblTimer mactbl stMac = node.hVclock := by
    rw [mactblTimer, found, bind_some]
  have keeps : ∀ node : MacTblNode Data,
      ({ node with hVclock := none } : MacTblNode Data).stMacNode.stMac = node.stMacNode.stMac :=
    fun _ => rfl
  obtain ⟨linked, atTick, unlinked, kept⟩ :=
    @vclockDelTimer_invariant _ hVclock _ ok.linked ok.atTick
  refine ⟨ok.hash.update mactblHashFuncs_lawful keeps, ?_, linked, atTick, rfl, rfl,
    nofun, nofun, fun other owned _ => ?_,
    fun other unowned _ => ⟨kept other ?_, rfl⟩⟩
  · refine (hashFind_update mactblHashFuncs_lawful ok.hash keeps).trans ?_
    exact congrArg _ (congrArg (Option.map _) found)
  · obtain rfl : hVclock = other :=
      Option.some.inj (isTimer.symm.trans (timer.symm.trans owned))
    exact unlinked
  · rintro rfl
    exact unowned (timer.trans isTimer)

end

end

end MyCode.MacTable

/-!
## Tick steps

A tick step frees the nodes whose timers are due and leaves the others alone.
-/

namespace MyCode.MacTable

open Hash Vclock

variable {Data : Type} {mactbl after : MacTbl Data} {now : Nat} {stMac other : MacAddr}
  {node : MacTblNode Data} {hVclock : NodeId}

/-- The node of an address is to be freed in the step under way. -/
def IsDue (mactbl : MacTbl Data) (now : Nat) (stMac : MacAddr) : Prop :=
  ∃ hVclock, mactblTimer mactbl stMac = some hVclock ∧
    (mactbl.hVclockInstance.node hVclock).Due now

structure Fired (mactbl after : MacTbl Data) (now : Nat) : Prop where
  ok : MactblOk after now
  uiOldTick : after.uiOldTick = mactbl.uiOldTick
  uiUserDataSize : after.uiUserDataSize = mactbl.uiUserDataSize
  gone : ∀ stMac, IsDue mactbl now stMac → mactblFind after stMac = none
  find : ∀ stMac, ¬ IsDue mactbl now stMac → mactblFind after stMac = mactblFind mactbl stMac
  node : ∀ stMac hVclock, ¬ IsDue mactbl now stMac → mactblTimer mactbl stMac = some hVclock →
    after.hVclockInstance.node hVclock = mactbl.hVclockInstance.node hVclock

theorem MactblOk.fired_done (ok : MactblOk mactbl now)
    (finished : vclockStepFire mactbl.hVclockInstance = none) : Fired mactbl mactbl now := by
  refine ⟨ok, rfl, rfl, fun stMac isDue => ?_, fun _ _ => rfl, fun _ _ _ _ => rfl⟩
  obtain ⟨_, -, due⟩ := isDue
  exact absurd due (not_due_of_vclockStepFire_eq_none ok.linked ok.atTick finished)

theorem MactblOk.fire (ok : MactblOk mactbl now) {fired : VclockInstance}
    (fires : vclockStepFire mactbl.hVclockInstance = some (hVclock, fired)) :
    mactblTimer mactbl (mactbl.stUserHandle hVclock) = some hVclock ∧
      (mactbl.hVclockInstance.node hVclock).Due now ∧
      Replaces mactbl (mactblOld { mactbl with hVclockInstance := fired } hVclock) now
        (mactbl.stUserHandle hVclock) none := by
  obtain ⟨linked, atTick, due, -, others⟩ := vclockStepFire_spec ok.linked ok.atTick fires
  have owned := ok.owner_of_due due
  refine ⟨owned, due, ?_⟩
  obtain ⟨node, found, isTimer⟩ := Option.bind_eq_some_iff.mp owned
  have old : mactblOld { mactbl with hVclockInstance := fired } hVclock =
      mactblFree { mactbl with hVclockInstance := fired } node := by
    have sameFound : mactblFind { mactbl with hVclockInstance := fired }
        (mactbl.stUserHandle hVclock) = some node := found
    simp [mactblOld, sameFound]
  rw [old]
  apply ok.freeNode found linked atTick
  intro other differs
  apply others
  rintro rfl
  exact differs isTimer

theorem Replaces.isDue_iff {entry : Option (MacTblNode Data)}
    (replaces : Replaces mactbl after now stMac entry) (ok : MactblOk mactbl now)
    (differs : other ≠ stMac) : IsDue after now other ↔ IsDue mactbl now other := by
  simp only [IsDue, mactblTimer, replaces.find_of_ne differs]
  refine exists_congr fun hVclock => and_congr_right fun isTimer => ?_
  rw [(replaces.kept ok differs isTimer).1]

theorem MactblOk.fire_length (ok : MactblOk mactbl now) {fired : VclockInstance} {turns : Nat}
    (fires : vclockStepFire mactbl.hVclockInstance = some (hVclock, fired))
    (enough : (mactbl.hVclockInstance.stTimerLevel 0
      (mactbl.hVclockInstance.ulCurrentLevelTick 0)).length ≤ turns + 1) :
    ((mactblOld { mactbl with hVclockInstance := fired } hVclock).hVclockInstance.stTimerLevel 0
      ((mactblOld { mactbl with hVclockInstance := fired } hVclock).hVclockInstance.ulCurrentLevelTick
        0)).length ≤ turns := by
  obtain ⟨owned, -, replaces⟩ := ok.fire fires
  have period : 0 < (mactbl.hVclockInstance.node hVclock).ulTick.toNat := by
    rw [(ok.ages _ _ owned).period]
    exact ok.uiOldTick
  obtain ⟨node, found, isTimer⟩ := Option.bind_eq_some_iff.mp owned
  have old : (mactblOld { mactbl with hVclockInstance := fired } hVclock).hVclockInstance =
      vclockDelTimer fired hVclock := by
    have sameFound : mactblFind { mactbl with hVclockInstance := fired }
        (mactbl.stUserHandle hVclock) = some node := found
    simp [mactblOld, sameFound, mactblFree, isTimer]
  have hand : (vclockDelTimer fired hVclock).ulCurrentLevelTick 0 = fired.ulCurrentLevelTick 0 := by
    have stillAtTick := replaces.atTick
    rw [old] at stillAtTick
    rw [stillAtTick.hands 0 (by decide),
      (vclockStepFire_spec ok.linked ok.atTick fires).2.1.hands 0 (by decide)]
  rw [old, hand]
  apply (vclockDelTimer_length 0 _).trans
  cases list : mactbl.hVclockInstance.stTimerLevel 0
      (mactbl.hVclockInstance.ulCurrentLevelTick 0) with
  | nil =>
    rw [vclockStepFire, list] at fires
    cases fires
  | cons first =>
    have isFirst : first = hVclock := by
      simp only [vclockStepFire, list] at fires
      split at fires <;> exact congrArg Prod.fst (Option.some.inj fires)
    obtain ⟨_, firesFirst, left⟩ := vclockStepFire_of_cons ok.atTick list (isFirst ▸ period)
    cases fires.symm.trans firesFirst
    rw [left]
    rw [list, List.length_cons] at enough
    exact Nat.le_of_succ_le_succ enough

theorem mactblFiring_fired (turns : Nat) (ok : MactblOk mactbl now)
    (enough : (mactbl.hVclockInstance.stTimerLevel 0
      (mactbl.hVclockInstance.ulCurrentLevelTick 0)).length ≤ turns) :
    Fired mactbl (mactblFiring turns mactbl) now := by
  induction turns generalizing mactbl with
  | zero =>
    apply ok.fired_done
    rw [vclockStepFire, List.length_eq_zero_iff.mp (Nat.le_zero.mp enough)]
  | succ _ ih =>
    rw [mactblFiring]
    cases fires : vclockStepFire mactbl.hVclockInstance with
    | none => exact ok.fired_done fires
    | some turn =>
      obtain ⟨hVclock, fired⟩ := turn
      obtain ⟨owned, due, replaces⟩ := ok.fire fires
      have rest := ih (replaces.ok ok) (ok.fire_length fires enough)
      simp only
      generalize mactbl.stUserHandle hVclock = freed at owned replaces
      generalize mactblOld { mactbl with hVclockInstance := fired } hVclock = freeing
        at replaces rest
      -- The freed address has no timer left that could be due.
      have settled : ¬ IsDue freeing now freed := by
        rintro ⟨_, isTimer, -⟩
        rw [mactblTimer, replaces.find_self] at isTimer
        cases isTimer
      have same_due (stMac : MacAddr) (differs : stMac ≠ freed) := replaces.isDue_iff ok differs
      refine ⟨rest.ok, rest.uiOldTick.trans replaces.uiOldTick,
        rest.uiUserDataSize.trans replaces.uiUserDataSize, fun stMac isDue => ?_,
        fun stMac waits => ?_, fun stMac other waits isTimer => ?_⟩
      · by_cases same : stMac = freed
        · rw [same, rest.find freed settled, replaces.find_self]
        · exact rest.gone stMac ((same_due stMac same).mpr isDue)
      · have differs : stMac ≠ freed := by
          rintro rfl
          exact waits ⟨hVclock, owned, due⟩
        rw [rest.find stMac (mt (same_due stMac differs).mp waits), replaces.find_of_ne differs]
      have differs : stMac ≠ freed := by
        rintro rfl
        exact waits ⟨hVclock, owned, due⟩
      have stillTimer : mactblTimer freeing stMac = some other := by
        rw [mactblTimer, replaces.find_of_ne differs]
        exact isTimer
      rw [rest.node stMac other (mt (same_due stMac differs).mp waits) stillTimer,
        (replaces.kept ok differs isTimer).1]

def Settled (mactbl : MacTbl Data) (now : Nat) : Prop :=
  ∀ stMac hVclock, mactblTimer mactbl stMac = some hVclock →
    ∃ deadline, (mactbl.hVclockInstance.node hVclock).Armed now deadline

theorem MactblOk.begin (ok : MactblOk mactbl now) (settled : Settled mactbl now) :
    MactblOk { mactbl with hVclockInstance := vclockStepBegin mactbl.hVclockInstance } (now + 1) := by
  obtain ⟨linked, atTick, kept⟩ := vclockStepBegin_invariant ok.linked ok.atTick
  refine ⟨ok.hash, linked, atTick, ok.uiOldTick, fun stMac hVclock owned => ?_,
    fun hVclock unowned => ?_⟩
  · obtain ⟨handle, _, period, -⟩ := ok.ages stMac hVclock owned
    obtain ⟨sameFlag, sameTick⟩ := kept hVclock
    obtain ⟨deadline, armed⟩ := settled stMac hVclock owned
    refine ⟨handle, ?_, sameTick.trans period, deadline,
      vclockStepBegin_landed ok.linked ok.atTick armed⟩
    rwa [sameFlag]
  · have unlinked := ok.free hVclock unowned
    rw [vclockStepBegin_node_of_unlinked ok.linked ok.atTick unlinked]
    exact unlinked

/-- A tick step frees exactly the nodes whose time is over. -/
structure Ticked (mactbl after : MacTbl Data) (now : Nat) : Prop where
  ok : MactblOk after (now + 1)
  uiOldTick : after.uiOldTick = mactbl.uiOldTick
  uiUserDataSize : after.uiUserDataSize = mactbl.uiUserDataSize
  without : ∀ stMac, mactblTimer mactbl stMac = none →
    mactblFind after stMac = mactblFind mactbl stMac
  timed : ∀ stMac hVclock deadline, mactblTimer mactbl stMac = some hVclock →
    (mactbl.hVclockInstance.node hVclock).Armed now deadline →
      deadline = now + 1 ∧ mactblFind after stMac = none ∨
      mactblFind after stMac = mactblFind mactbl stMac ∧
        (after.hVclockInstance.node hVclock).Armed (now + 1) deadline

theorem MactblOk.tickStep (ok : MactblOk mactbl now) (settled : Settled mactbl now) :
    Ticked mactbl (mactblTickStep mactbl) now := by
  have fired := mactblFiring_fired _ (ok.begin settled) le_rfl
  refine ⟨fired.ok, fired.uiOldTick, fired.uiUserDataSize, fun stMac without => ?_,
    fun stMac hVclock deadline owned armed => ?_⟩
  · apply fired.find
    rintro ⟨_, owned, -⟩
    cases without.symm.trans owned
  rcases vclockStepBegin_landed ok.linked ok.atTick armed with waits | ⟨due, reached⟩
  · have notDue : ¬ IsDue { mactbl with
        hVclockInstance := vclockStepBegin mactbl.hVclockInstance } (now + 1) stMac := by
      rintro ⟨_, isTimer, due⟩
      cases owned.symm.trans isTimer
      exact waits.not_due due
    refine .inr ⟨fired.find stMac notDue, ?_⟩
    have same := fired.node stMac hVclock notDue owned
    exact same.symm ▸ waits
  · exact .inl ⟨reached, fired.gone stMac ⟨hVclock, owned, due⟩⟩

end MyCode.MacTable
