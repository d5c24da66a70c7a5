import MyCode.Lpm.DynamicGroups
import MyCode.Lib.Transition

/-!
# The shape of a DLPM64B over whole runs

The groups are those that the recorded prefixes need, as long as an add that
fails has got no group before.
-/

namespace MyCode.Lpm

open Dlpm64bEntry Lib Lib.LongestPrefix Function Nat Prod

inductive Dlpm64bCall where
  | add (alloc : LpmAlloc) (ip : UINT) (depth : Nat) (nexthop : UINT64)
  | del (ip : UINT) (depth newDepth : Nat) (newNexthop : UINT64)

def Dlpm64bCall.depth : Dlpm64bCall → Nat
  | add _ _ depth _ => depth
  | del _ depth _ _ => depth

def Dlpm64bCall.apply (lpm : Dlpm64b) : Dlpm64bCall → Dlpm64b
  | add alloc ip depth nexthop => (lpmAdd dlpm64bFuncs lpm alloc ip depth nexthop).1
  | del ip depth newDepth newNexthop => lpmDel dlpm64bFuncs lpm ip depth newDepth newNexthop

/-- Calls on a recording table, with the prefix lengths of addresses. -/
def dlpm64bRuns (level firstBitNum : Nat) : System Dlpm64b Dlpm64bCall where
  start lpm := lpm = lpmSetLevel dlpm64bFuncs (lpmEnableRecording dlpm64bInit) level firstBitNum
  step lpm call after := call.depth ≤ 32 ∧ after = call.apply lpm

def AddReaches (lpm : Dlpm64b) (alloc : LpmAlloc) (ip : UINT) (depth : Nat) : Prop :=
  alloc.recordNode = true ∧ alloc.mapNode = true ∧ lpmFindRecording lpm ip depth = none ∧ 1 ≤ depth

/-- An add gets every group that it lacks, or not even the first. -/
def AddSound (lpm : Dlpm64b) (alloc : LpmAlloc) (ip : UINT) (depth : Nat) : Prop :=
  AddReaches lpm alloc ip depth →
    allocsAll lpm.bitNum alloc (top depth ip) depth lpm.level 0 lpm.array ∨
      allocsNone lpm.bitNum alloc (top depth ip) depth lpm.level 0 lpm.array

/-- When a call keeps the shape.  A delete under no recorded prefix is to name
no parent prefix. -/
def Dlpm64bCall.Sound (lpm : Dlpm64b) : Dlpm64bCall → Prop
  | add alloc ip depth _ => AddSound lpm alloc ip depth
  | del ip depth newDepth newNexthop =>
    (∀ shorter, shorter < depth → lpmFindRecording lpm ip shorter = none) →
      newDepth = 0 ∧ newNexthop = 0

/-- A recorded prefix that is longer than a level lies below its entry. -/
def RecordedBelow (lpm : Dlpm64b) (y : UINT) (level : Nat) : Prop :=
  ∃ ip depth, levelDepth lpm.bitNum level < depth ∧ depth ≤ 32 ∧
    lpmFindRecording lpm ip depth ≠ none ∧
    leading (levelDepth lpm.bitNum level) ip = leading (levelDepth lpm.bitNum level) y

structure Dlpm64bShape (lpm : Dlpm64b) : Prop where
  groups : ∀ y level, level < lpm.level →
    (dlpm64bIsGroup lpm y level ↔ RecordedBelow lpm y level)
  empty : (∀ ip depth, depth ≤ 32 → lpmFindRecording lpm ip depth = none) →
    ∀ y level, dlpm64bIsGroup lpm y level = false

/-- A failed add changes no lookup and no group. -/
def FailedAddKeeps (lpm : Dlpm64b) (alloc : LpmAlloc) (ip : UINT) (depth : Nat)
    (nexthop : UINT64) : Prop :=
  (lpmAdd dlpm64bFuncs lpm alloc ip depth nexthop).2 ≠ .ok →
    (∀ y, lpmLookup dlpm64bFuncs (lpmAdd dlpm64bFuncs lpm alloc ip depth nexthop).1 y =
      lpmLookup dlpm64bFuncs lpm y) ∧
    ∀ y level, dlpm64bIsGroup (lpmAdd dlpm64bFuncs lpm alloc ip depth nexthop).1 y level =
      dlpm64bIsGroup lpm y level

variable {map : LpmRecordKey → Option UINT64} {lpm : Dlpm64b} {alloc : LpmAlloc} {ip y : UINT}
  {depth level firstBitNum left : Nat} {nexthop : UINT64}

variable (recorded : Recorded lpm map left)

section

include recorded

theorem Recorded.lpmAdd_reached (inside : depth ≤ 32) (reaches : AddReaches lpm alloc ip depth) :
    Lpm.lpmAdd dlpm64bFuncs lpm alloc ip depth nexthop =
      match dlpm64bAddInner lpm.bitNum alloc (top depth ip) depth nexthop lpm.level 0 lpm.array with
      | (array, .ok) =>
        ({ lpm with
            recordingMap := some (update map ⟨top depth ip, depth⟩ (some nexthop))
            array := array }, .ok)
      | (array, ret) => ({ lpm with array := array }, ret) := by
  obtain ⟨recordNode, mapNode, fresh, _⟩ := reaches
  have accepted : ¬ (depth < 1 ∨ 32 < depth) := by omega
  have absent : map ⟨ip &&& prefix2Mask depth, depth⟩ = none := by
    rw [lpmFindRecording, recorded.recording] at fresh
    exact fresh
  have same := recorded.recording
  obtain ⟨bitNum, levels, _, array⟩ := lpm
  subst same
  simp only [Lpm.lpmAdd, recordNode, mapNode, absent, dlpm64bFuncs, dlpm64bAdd, if_neg accepted, top]
  generalize dlpm64bAddInner bitNum alloc (ip &&& prefix2Mask depth) depth nexthop levels 0 array =
    result
  obtain ⟨_, ret⟩ := result
  cases ret <;> rfl

theorem Recorded.lpmAdd_rejected (rejected : ¬ AddReaches lpm alloc ip depth) :
    (Lpm.lpmAdd dlpm64bFuncs lpm alloc ip depth nexthop).1 = lpm ∧
      (Lpm.lpmAdd dlpm64bFuncs lpm alloc ip depth nexthop).2 ≠ .ok := by
  have same := recorded.recording
  obtain ⟨_, _, _, _⟩ := lpm
  subst same
  unfold Lpm.lpmAdd
  simp only
  split
  · exact ⟨rfl, by simp⟩
  next memory =>
  split
  · exact ⟨rfl, by simp⟩
  next fresh =>
  have refused : depth < 1 ∨ 32 < depth := by
    simp only [Bool.or_eq_true, Bool.not_eq_true', not_or, Bool.not_eq_false] at memory
    rw [Option.not_isSome_iff_eq_none] at fresh
    by_contra accepted
    exact rejected ⟨memory.1, memory.2, fresh, by omega⟩
  simp only [dlpm64bFuncs, dlpm64bAdd, if_pos refused]
  exact ⟨trivial, by simp⟩

theorem Recorded.add_ok_iff (nexthop : UINT64) (positive : 1 ≤ depth) (inside : depth ≤ 32) :
    (dlpm64bAddInner lpm.bitNum alloc (top depth ip) depth nexthop lpm.level 0 lpm.array).2 = .ok ↔
      allocsAll lpm.bitNum alloc (top depth ip) depth lpm.level 0 lpm.array := by
  rw [recorded.levels]
  exact dlpm64bAddInner_ok_iff (top_top inside ip) positive inside recorded.last recorded.fits

end

/-- The entries answer for the records, and each group for a deep one. -/
structure Shaped (lpm : Dlpm64b) (map : LpmRecordKey → Option UINT64) (left : Nat) : Prop
    extends Recorded lpm map left where
  tight : Tight lpm.bitNum 0 0 (fun y => longestBelow top (recordTable map) y 33) lpm.array

include recorded in
theorem Recorded.matches_eq :
    (fun y => dlpm64bMatch lpm.bitNum y (left + 1) 0 lpm.array) =
      fun y => longestBelow top (recordTable map) y 33 :=
  funext recorded.matches_

theorem Tight.anyBlock {bitNum : Nat → Nat} {target : UINT → Option (Nat × UINT64)}
    {entrys : Nat → Dlpm64bEntry} (tight : Tight bitNum ip 0 target entrys) (other : UINT) :
    Tight bitNum other 0 target entrys :=
  fun y steps _ => tight y steps (by simp)

variable (shaped : Shaped lpm map left)

section

include shaped

theorem Shaped.tightMatch (other : UINT) :
    Tight lpm.bitNum other 0 (fun y => dlpm64bMatch lpm.bitNum y (left + 1) 0 lpm.array)
      lpm.array := by
  rw [shaped.matches_eq]
  exact shaped.tight.anyBlock other

theorem Shaped.addOk {array : Nat → Dlpm64bEntry}
    (positive : 1 ≤ depth) (inside : depth ≤ 32)
    (result : dlpm64bAddInner lpm.bitNum alloc (top depth ip) depth nexthop lpm.level 0 lpm.array =
      (array, .ok)) :
    Shaped
      { lpm with
        recordingMap := some (update map ⟨top depth ip, depth⟩ (some nexthop))
        array := array }
      (update map ⟨top depth ip, depth⟩ (some nexthop)) left := by
  have added := shaped.addInner inside positive alloc ip nexthop
  rw [result] at added
  have recorded := shaped.toRecorded.addOk inside positive added
  rw [shaped.levels] at result
  have tight := @dlpm64bAddInner_tight lpm.bitNum alloc (top depth ip) depth left 0 nexthop lpm.array
    (top_top inside ip) inside shaped.fits shaped.last (by rw [upDepth_zero]; exact positive)
    (congrArg snd result) (shaped.tightMatch _)
  rw [result] at tight
  refine ⟨recorded, ?_⟩
  rw [← recorded.matches_eq]
  exact tight.anyBlock 0

theorem Shaped.lpmAdd (inside : depth ≤ 32) (sound : AddSound lpm alloc ip depth) :
    ∃ map, Shaped (Lpm.lpmAdd dlpm64bFuncs lpm alloc ip depth nexthop).1 map left := by
  by_cases reaches : AddReaches lpm alloc ip depth
  · have positive := reaches.2.2.2
    rw [shaped.lpmAdd_reached inside reaches]
    rcases sound reaches with all | none
    · have succeeded := (shaped.add_ok_iff nexthop positive inside).mpr all
      split
      · next array result => exact ⟨_, shaped.addOk positive inside result⟩
      · next array ret failed result =>
        exact absurd ((congrArg snd result).symm.trans succeeded) failed
    · rw [dlpm64bAddInner_of_allocsNone none]
      exact ⟨map, shaped⟩
  · rw [(shaped.lpmAdd_rejected reaches).1]
    exact ⟨map, shaped⟩

theorem Shaped.delFunc (inside : depth ≤ 32) {newDepth : Nat}
    {newNexthop : UINT64} (shorter : newDepth ≤ depth) (proper : newDepth = 0 → newNexthop = 0)
    (new : newMatch newDepth newNexthop =
      lpmGetParent (update map ⟨top depth ip, depth⟩ none) (top depth ip) depth) :
    Shaped
      (dlpm64bDel { lpm with recordingMap := some (update map ⟨top depth ip, depth⟩ none) }
        (top depth ip) depth newDepth newNexthop)
      (update map ⟨top depth ip, depth⟩ none) left := by
  refine ⟨shaped.toRecorded.delFunc inside proper shorter new, ?_⟩
  simp only [dlpm64bDel, shaped.levels]
  rcases Nat.eq_zero_or_pos depth with rfl | positive
  · have absent : map ⟨top 0 ip, 0⟩ = none := by
      by_contra present
      exact not_succ_le_zero 0 (shaped.depths _ present).1
    intro y steps same isGroup
    rw [dlpm64bDelInner_isGroup_shallow (zero_le _)] at isGroup
    rw [update_eq_self_iff.mpr absent.symm]
    exact shaped.tight y steps same isGroup
  · have deletes := @Recorded.deletes map lpm ip depth inside positive left shaped.toRecorded
    rw [← new] at deletes
    have tight := dlpm64bDelInner_tight (top_top inside ip) inside shaped.fits shaped.last
      (by rwa [upDepth_zero]) (shaped.tightMatch _) proper shorter deletes
    exact tight.anyBlock 0

end

include recorded in
theorem Recorded.find_of_orphan (inside : depth ≤ 32)
    (orphan : lpmGetParent (update map ⟨top depth ip, depth⟩ none) (top depth ip) depth = none)
    {shorter : Nat} (below : shorter < depth) : lpmFindRecording lpm ip shorter = none := by
  rw [lpmGetParent_eq, longestBelow_eq_none] at orphan
  have absent := orphan shorter below
  have other : (⟨top shorter (top depth ip), shorter⟩ : LpmRecordKey) ≠ ⟨top depth ip, depth⟩ :=
    fun same => Nat.ne_of_lt below (LpmRecordKey.mk.inj same).2
  rw [recordTable, update_of_ne other,
    nested_top depth shorter (top depth ip) ip below.le (top_top inside ip)] at absent
  rw [recorded.find]
  exact absent

include shaped in
theorem Shaped.lpmDel (inside : depth ≤ 32) {newDepth : Nat}
    {newNexthop : UINT64} (sound : (Dlpm64bCall.del ip depth newDepth newNexthop).Sound lpm) :
    ∃ map, Shaped (Lpm.lpmDel dlpm64bFuncs lpm ip depth newDepth newNexthop) map left := by
  refine ⟨update map ⟨top depth ip, depth⟩ none, ?_⟩
  unfold Lpm.lpmDel
  rw [shaped.recording]
  simp only
  split
  · next parentDepth nexthop parent =>
    obtain ⟨_, shorter⟩ := shaped.parent_shorter parent
    refine shaped.delFunc inside shorter.le (fun zero => by omega) ?_
    rw [newMatch, if_neg (by omega)]
    exact parent.symm
  · next orphan =>
    obtain ⟨rfl, rfl⟩ : newDepth = 0 ∧ newNexthop = 0 := by
      exact sound fun shorter below => shaped.find_of_orphan inside orphan below
    exact shaped.delFunc inside (zero_le _) (fun _ => rfl) orphan.symm

include shaped in
theorem Shaped.next {call : Dlpm64bCall} (inside : call.depth ≤ 32)
    (sound : call.Sound lpm) : ∃ map, Shaped (call.apply lpm) map left := by
  cases call with
  | add => exact shaped.lpmAdd inside sound
  | del => exact shaped.lpmDel inside sound

theorem shaped_init (layout : LpmLayout level firstBitNum) :
    Shaped (lpmSetLevel dlpm64bFuncs (lpmEnableRecording dlpm64bInit) level firstBitNum)
      (fun _ => none) (level - 1) := by
  refine ⟨recorded_init layout, fun y steps _ isGroup => ?_⟩
  exact absurd isGroup (by rw [tableIsGroup]; exact Bool.eq_false_iff.mp (entryIsGroup_cell _))

include shaped in
theorem Shaped.groups_iff (inside : level < lpm.level) (y : UINT) :
    dlpm64bIsGroup lpm y level ↔ RecordedBelow lpm y level := by
  have narrow : levelDepth lpm.bitNum (0 + level) ≤ 32 := by
    rw [← shaped.last]
    have levels := shaped.levels
    exact levelDepth_le (by omega)
  constructor
  · intro isGroup
    obtain ⟨z, same, deep⟩ := shaped.tight y level (by simp) isGroup
    rw [zero_add] at same deep
    cases found : longestBelow top (recordTable map) z 33 with
    | none => simp [found] at deep
    | some longest =>
      obtain ⟨depth, nexthop⟩ := longest
      obtain ⟨bounded, stored, -⟩ := longestBelow_eq_some.mp found
      simp only [found, depthOf_some] at deep
      refine ⟨z, depth, deep, le_of_lt_succ bounded, ?_, same⟩
      rw [shaped.find, stored]
      exact Option.some_ne_none nexthop
  rintro ⟨ip, depth, further, whole, recorded, same⟩
  have deep : levelDepth lpm.bitNum (0 + level) <
      depthOf (dlpm64bMatch lpm.bitNum ip (left + 1) 0 lpm.array) := by
    rw [shaped.matches_, zero_add]
    by_contra shallow
    have absent := depthOf_longestBelow_le_iff.mp (Nat.le_of_not_lt shallow) depth further
      (lt_succ_of_le whole)
    rw [shaped.find] at recorded
    exact recorded absent
  rw [← zero_add level] at same
  rw [dlpm64bIsGroup, tableIsGroup_congr narrow same.symm]
  exact (shaped.fits _).isGroup_of_deep deep

include shaped in
theorem Shaped.shape : Dlpm64bShape lpm := by
  refine ⟨fun y level inside => shaped.groups_iff inside y, fun empty y level => ?_⟩
  rw [Bool.eq_false_iff]
  intro isGroup
  have within := (shaped.fits _).isGroup_lt isGroup
  obtain ⟨ip, depth, -, whole, recorded, -⟩ :=
    (shaped.groups_iff (by rw [shaped.levels]; omega) y).mp isGroup
  exact recorded (empty ip depth whole)

section

variable (recorded : Recorded lpm map left) (inside : depth ≤ 32)

include recorded inside

theorem Recorded.lpmAdd_failed (reaches : AddReaches lpm alloc ip depth)
    (all : ¬ allocsAll lpm.bitNum alloc (top depth ip) depth lpm.level 0 lpm.array) :
    (Lpm.lpmAdd dlpm64bFuncs lpm alloc ip depth nexthop).1 =
        { lpm with
          array := (dlpm64bAddInner lpm.bitNum alloc (top depth ip) depth nexthop lpm.level 0
            lpm.array).1 } ∧
      (Lpm.lpmAdd dlpm64bFuncs lpm alloc ip depth nexthop).2 ≠ .ok := by
  have failed := mt (recorded.add_ok_iff nexthop reaches.2.2.2 inside).mp all
  rw [recorded.lpmAdd_reached inside reaches]
  split
  · next array result => exact absurd (congrArg snd result) failed
  next array ret _ result =>
  rw [result] at failed ⊢
  exact ⟨rfl, failed⟩

theorem Recorded.lpmAdd_succeeded (reaches : AddReaches lpm alloc ip depth)
    (all : allocsAll lpm.bitNum alloc (top depth ip) depth lpm.level 0 lpm.array) :
    (Lpm.lpmAdd dlpm64bFuncs lpm alloc ip depth nexthop).2 = .ok := by
  have succeeded := (recorded.add_ok_iff nexthop reaches.2.2.2 inside).mpr all
  rw [recorded.lpmAdd_reached inside reaches]
  split
  · rfl
  · next array ret _ result => exact (congrArg snd result).symm.trans succeeded

theorem Recorded.failedAddKeeps_iff :
    FailedAddKeeps lpm alloc ip depth nexthop ↔ AddSound lpm alloc ip depth := by
  by_cases reaches : AddReaches lpm alloc ip depth
  · constructor
    · intro keeps _
      by_contra neither
      rw [not_or] at neither
      obtain ⟨added, failed⟩ := @Recorded.lpmAdd_failed map lpm alloc ip depth left nexthop recorded
        inside reaches neither.1
      obtain ⟨steps, after, before⟩ := @dlpm64bAddInner_leaves lpm.bitNum alloc (top depth ip) depth
        lpm.level 0 nexthop lpm.array neither.1 neither.2
      have kept := (keeps failed).2 (top depth ip) steps
      rw [added] at kept
      exact Bool.false_ne_true (before.symm.trans (kept.symm.trans after))
    · intro sound failed
      rcases sound reaches with all | none
      · exact absurd (recorded.lpmAdd_succeeded inside reaches all) failed
      · rw [recorded.lpmAdd_reached inside reaches, dlpm64bAddInner_of_allocsNone none]
        exact ⟨fun _ => rfl, fun _ _ => rfl⟩
  · obtain ⟨same, -⟩ := @Recorded.lpmAdd_rejected map lpm alloc ip depth left nexthop recorded reaches
    rw [FailedAddKeeps, same]
    exact iff_of_true (fun _ => ⟨fun _ => rfl, fun _ _ => rfl⟩) fun both => absurd both reaches

end

/-- In a run whose failed adds got no group and whose deletes name no parent
prefix that is not recorded, the groups are those that recorded prefixes need;
and an add that fails there keeps the table where it gets no group. -/
theorem dlpm64b_shape (layout : LpmLayout level firstBitNum)
    (reached : (dlpm64bRuns level firstBitNum).ReachableWhen (fun lpm call => call.Sound lpm) lpm) :
    Dlpm64bShape lpm ∧ ∀ alloc ip depth nexthop, depth ≤ 32 →
      (FailedAddKeeps lpm alloc ip depth nexthop ↔ AddSound lpm alloc ip depth) := by
  have holds : ∃ map, Shaped lpm map (level - 1) := by
    apply reached.invariant
    · rintro _ rfl
      exact ⟨_, shaped_init layout⟩
    · rintro _ _ _ ⟨_, shaped⟩ sound ⟨inside, rfl⟩
      exact shaped.next inside sound
  obtain ⟨_, shaped⟩ := holds
  exact ⟨shaped.shape, fun _ _ _ _ inside => shaped.failedAddKeeps_iff inside⟩

def dlpm64bSeven : Dlpm64b :=
  lpmSetLevel dlpm64bFuncs (lpmEnableRecording dlpm64bInit) 7 8

/-- `10.1.0.0/16` is added and deleted again below `10.0.0.0/8`. -/
def dlpm64bNested : List Dlpm64bCall :=
  [.add ⟨true, true, fun _ => true⟩ 0x0a000000 8 1,
    .add ⟨true, true, fun _ => true⟩ 0x0a010000 16 2, .del 0x0a010000 16 0 0]

theorem dlpm64b_shape_nested : Dlpm64bShape
    (dlpm64bNested.foldl Dlpm64bCall.apply dlpm64bSeven) := by
  have layout : LpmLayout 7 8 := ⟨by decide, by decide, by decide, by decide, by decide⟩
  have admitted : System.Admitted (fun lpm call => call.Sound lpm ∧ call.depth ≤ 32)
      Dlpm64bCall.apply dlpm64bSeven dlpm64bNested := by
    refine ⟨⟨fun _ => Or.inl ?_, by decide⟩, ⟨fun _ => Or.inl ?_, by decide⟩,
      ⟨fun _ => ⟨rfl, rfl⟩, by decide⟩, trivial⟩
    · decide +kernel
    · decide +kernel
  have reached : (dlpm64bRuns 7 8).ReachableWhen (fun lpm call => call.Sound lpm)
      (dlpm64bNested.foldl Dlpm64bCall.apply dlpm64bSeven) := by
    apply System.ReachableWhen.foldl _ (.start rfl) admitted
    exact fun lpm call both => ⟨both.1, both.2, rfl⟩
  exact (dlpm64b_shape layout reached).1

/-- An add of a host that gets a group for its first level only leaves it. -/
theorem dlpm64b_shape_partial :
    ¬ ∀ lpm, (dlpm64bRuns 7 8).Reachable lpm →
      Dlpm64bShape lpm ∧ ∀ alloc ip depth nexthop, depth ≤ 32 →
        FailedAddKeeps lpm alloc ip depth nexthop := by
  intro holds
  have keeps := (holds dlpm64bSeven (.start rfl)).2 ⟨true, true, fun level => level = 1⟩ 0x0a000000
    32 1 (by decide) (by decide +kernel)
  exact absurd (keeps.2 0x0a000000 0) (by decide +kernel)

end MyCode.Lpm
