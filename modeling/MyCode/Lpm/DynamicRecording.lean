import MyCode.Lpm.DynamicLookup
import Mathlib.Tactic.IntervalCases

/-!
# DLPM64B and its recording map

The recording map is the table of prefixes that the entries answer for.  Every
call keeps the match of every address equal to its longest recorded prefix.
-/

namespace MyCode.Lpm

open Dlpm64bEntry Lib.LongestPrefix Function Nat

variable {left newDepth : Nat} {array : Nat → Dlpm64bEntry} {newNexthop : UINT64}

/-- The part of an address that a record of a depth holds. -/
def top (depth : Nat) (ip : UINT) : UINT :=
  ip &&& prefix2Mask depth

def recordTable (map : LpmRecordKey → Option UINT64) : Table UINT UINT64 :=
  fun depth ip => map ⟨ip, depth⟩

variable {map : LpmRecordKey → Option UINT64} {lpm : Dlpm64b} {ip y : UINT}
  {depth level firstBitNum : Nat} {nexthop : UINT64}

section

variable (inside : depth ≤ 32)

include inside in
theorem top_eq_iff : top depth y = top depth ip ↔
    leading depth y = leading depth ip :=
  and_prefix2Mask_eq_iff inside

include inside in
theorem top_top (ip : UINT) : top depth (top depth ip) = top depth ip :=
  and_prefix2Mask_idem inside ip

theorem top_of_gt (outside : 32 < depth) (ip : UINT) : top depth ip = ip := by
  have none : (0xffffffff : UINT) >>> depth = 0 := by
    apply BitVec.eq_of_toNat_eq
    exact shiftRight_eq_zero _ _ (lt_of_lt_of_le (by decide)
      (Nat.pow_le_pow_right (by decide) outside.le))
  have whole : ~~~(0 : UINT) = BitVec.allOnes 32 := rfl
  rw [top, prefix2Mask, if_neg (by omega), none, whole, BitVec.and_allOnes]

theorem nested_top : Nested top := by
  intro deep shallow y z le same
  rcases lt_or_ge 32 deep with outside | inside
  · rw [top_of_gt outside, top_of_gt outside] at same
    rw [same]
  · rw [top_eq_iff inside] at same
    rw [top_eq_iff (by omega), leading_of_le le inside, leading_of_le le inside, same]

theorem lpmGetParent_eq (map : LpmRecordKey → Option UINT64) (ip : UINT) (depth : Nat) :
    lpmGetParent map ip depth = longestBelow top (recordTable map) ip depth := by
  induction depth with
  | zero => rfl
  | succ depth ih =>
    rw [lpmGetParent, longestBelow, ih, recordTable, top]
    cases map ⟨ip &&& prefix2Mask depth, depth⟩ <;> rfl

include inside in
theorem recordTable_update_some :
    recordTable (update map ⟨top depth ip, depth⟩ (some nexthop)) =
      insertPrefix (recordTable map) depth (top depth (top depth ip)) nexthop := by
  funext d key
  simp [recordTable, insertPrefix, update_apply, top_top inside, and_comm]

include inside in
theorem recordTable_update_none :
    recordTable (update map ⟨top depth ip, depth⟩ none) =
      erasePrefix (recordTable map) depth (top depth (top depth ip)) := by
  funext d key
  simp [recordTable, erasePrefix, update_apply, top_top inside, and_comm]

structure Recorded (lpm : Dlpm64b) (map : LpmRecordKey → Option UINT64) (left : Nat) : Prop where
  recording : lpm.recordingMap = some map
  levels : lpm.level = left + 1
  last : levelDepth lpm.bitNum (0 + left) = 32
  fits : ∀ i, Fits lpm.bitNum left 0 (lpm.array i)
  depths : ∀ key, map key ≠ none → 1 ≤ key.depth ∧ key.depth ≤ 32
  matches_ : ∀ y, dlpm64bMatch lpm.bitNum y (left + 1) 0 lpm.array =
    longestBelow top (recordTable map) y 33

variable (recorded : Recorded lpm map left)

include recorded in
theorem Recorded.unchanged :
    Recorded { lpm with recordingMap := some map } map left :=
  ⟨rfl, recorded.levels, recorded.last, recorded.fits, recorded.depths, recorded.matches_⟩

variable (positive : 1 ≤ depth)

include inside recorded positive in
theorem Recorded.addInner (alloc : LpmAlloc) (ip : UINT) (nexthop : UINT64) :
    AddsPrefix lpm.bitNum (top depth ip) depth nexthop left 0 lpm.array
      (dlpm64bAddInner lpm.bitNum alloc (top depth ip) depth nexthop lpm.level 0 lpm.array) := by
  rw [recorded.levels]
  exact dlpm64bAddInner_deep (top_top inside ip) recorded.fits recorded.last
    (by rw [upDepth_zero]; exact positive) inside

include inside recorded positive in
theorem Recorded.addOk
    (added : AddsPrefix lpm.bitNum (top depth ip) depth nexthop left 0 lpm.array (array, .ok)) :
    Recorded
      { lpm with
        recordingMap := some (update map ⟨top depth ip, depth⟩ (some nexthop))
        array := array }
      (update map ⟨top depth ip, depth⟩ (some nexthop)) left := by
  refine ⟨rfl, recorded.levels, recorded.last, added.1, fun key present => ?_, fun y => ?_⟩
  · rw [update_apply] at present
    split at present
    · next same => rw [same]; exact ⟨positive, inside⟩
    · exact recorded.depths key present
  have result := added.2 y (by simp)
  rw [result, recordTable_update_some inside, longestBelow_insert, recorded.matches_ y, overlay]
  have below := lt_succ_of_le inside
  simp only [below, true_and, top_eq_iff inside]
  split
  · next covered => simp only [covered, true_and]
  · next uncovered => simp only [uncovered, false_and, if_false]

include recorded in
theorem Recorded.addFailed {ret : BsStatus} (failed : ret ≠ .ok)
    (added : AddsPrefix lpm.bitNum (top depth ip) depth nexthop left 0 lpm.array (array, ret)) :
    Recorded { lpm with recordingMap := some map, array := array } map left := by
  refine ⟨rfl, recorded.levels, recorded.last, added.1, recorded.depths, fun y => ?_⟩
  have result := added.2 y (by simp)
  rw [if_neg fun both => failed both.1] at result
  exact result.trans (recorded.matches_ y)

include inside recorded in
theorem Recorded.lpmAdd (alloc : LpmAlloc)
    (ip : UINT) (nexthop : UINT64) :
    ∃ map, Recorded (lpmAdd dlpm64bFuncs lpm alloc ip depth nexthop).1 map left := by
  unfold Lpm.lpmAdd
  rw [recorded.recording]
  simp only
  split
  · exact ⟨map, recorded⟩
  split
  · exact ⟨map, recorded⟩
  rcases lt_or_ge depth 1 with zero | positive
  · refine ⟨map, ?_⟩
    have rejected : depth < 1 ∨ 32 < depth := Or.inl zero
    simp only [dlpm64bFuncs, dlpm64bAdd, if_pos rejected]
    exact recorded.unchanged
  have accepted : ¬ (depth < 1 ∨ 32 < depth) := by omega
  have added := recorded.addInner inside positive alloc ip nexthop
  simp only [dlpm64bFuncs, dlpm64bAdd, if_neg accepted]
  rw [top] at added
  generalize dlpm64bAddInner lpm.bitNum alloc (ip &&& prefix2Mask depth) depth nexthop
    lpm.level 0 lpm.array = result at added ⊢
  obtain ⟨_, ret⟩ := result
  by_cases succeeded : ret = .ok
  · subst succeeded
    exact ⟨_, recorded.addOk inside positive added⟩
  refine ⟨map, ?_⟩
  cases ret with
  | ok => exact absurd rfl succeeded
  | _ => exact recorded.addFailed succeeded added

include recorded in
theorem Recorded.parent_shorter {key : LpmRecordKey}
    {parentDepth : Nat}
    (parent : lpmGetParent (update map key none) ip depth = some (parentDepth, nexthop)) :
    1 ≤ parentDepth ∧ parentDepth < depth := by
  rw [lpmGetParent_eq, longestBelow_eq_some] at parent
  obtain ⟨shorter, stored, -⟩ := parent
  refine ⟨(recorded.depths ⟨top parentDepth ip, parentDepth⟩ fun absent => ?_).1, shorter⟩
  rw [recordTable, update_apply] at stored
  split at stored
  · cases stored
  · rw [absent] at stored
    cases stored

include inside positive in
theorem Recorded.deletes {left : Nat} (recorded : Recorded lpm map left) :
    Deletes (top depth ip) depth
      (lpmGetParent (update map ⟨top depth ip, depth⟩ none) (top depth ip) depth)
      (fun y => dlpm64bMatch lpm.bitNum y (left + 1) 0 lpm.array)
      (fun y => longestBelow top
        (recordTable (update map ⟨top depth ip, depth⟩ none)) y 33)
      (upDepth lpm.bitNum 0) := by
  have below := lt_succ_of_le inside
  have parent : lpmGetParent (update map ⟨top depth ip, depth⟩ none) (top depth ip) depth =
      longestBelow top (recordTable map) (top depth ip) depth := by
    rw [lpmGetParent_eq, recordTable_update_none inside]
    refine longestBelow_congr fun d shorter => ?_
    rw [erasePrefix, if_neg fun both => Nat.ne_of_lt shorter both.1]
  refine ⟨fun y _ => ?_, fun short => ?_, fun block shorter shallow y same => ?_⟩
  · simp only [recordTable_update_none inside, longestBelow_erase, recorded.matches_ y, overlay,
      below, true_and, top_eq_iff inside]
    by_cases covered : leading depth y = leading depth (top depth ip)
    · have nested : longestBelow top (recordTable map) y depth =
          longestBelow top (recordTable map) (top depth ip) depth :=
        longestBelow_eq_of_top nested_top ((top_eq_iff inside).mpr covered) (le_succ depth)
      simp [covered, nested, parent]
    · simp [covered]
  · simp only [recorded.matches_] at short ⊢
    rw [parent, longestBelow_truncate short below.le le_rfl]
  · have blockInside : block ≤ 32 := by omega
    rw [lpmGetParent_eq]
    exact longestBelow_collapse nested_top shorter below.le
      (fun z inBlock => shallow z ((top_eq_iff blockInside).mp inBlock))
      ((top_eq_iff blockInside).mpr same)

variable (proper : newDepth = 0 → newNexthop = 0)

include recorded proper in
theorem Recorded.delZero (shorter : newDepth ≤ 0) (new : newMatch newDepth newNexthop = none) :
    Matches lpm.bitNum (top 0 ip) left 0
      (fun y => longestBelow top
        (recordTable (update map ⟨top 0 ip, 0⟩ none)) y 33)
      (dlpm64bDelInner lpm.bitNum (top 0 ip) 0 newDepth newNexthop (left + 1) 0 lpm.array) := by
  have masked := top_top (zero_le _) ip
  obtain ⟨_, result, fits, matches_⟩ := forEntrys_shallow
    (dlpm64bDelEntry_overlays masked proper shorter (fun _ => new) left 0 recorded.last
      (zero_le _))
    recorded.fits recorded.last masked (zero_le _) (fun _ => new)
  rw [dlpm64bDelInner, if_neg (not_lt_zero _), result]
  refine ⟨fits, fun y _ => ?_⟩
  simp only [matches_ y, recordTable_update_none (zero_le 32), longestBelow_erase,
    recorded.matches_ y, overlay, new]
  by_cases missed : depthOf (longestBelow top (recordTable map) y 33) ≤ 0
  · rw [if_pos missed, if_pos ⟨by decide, (top_eq_iff (zero_le _)).mpr (by simp), missed⟩,
      longestBelow]
  · rw [if_neg missed, if_neg fun all => missed all.2.2]

include inside recorded proper in
theorem Recorded.delFunc (shorter : newDepth ≤ depth)
    (new : newMatch newDepth newNexthop = lpmGetParent (update map ⟨top depth ip, depth⟩ none) (top depth ip) depth) :
    Recorded
      (dlpm64bDel { lpm with recordingMap := some (update map ⟨top depth ip, depth⟩ none) }
        (top depth ip) depth newDepth newNexthop)
      (update map ⟨top depth ip, depth⟩ none) left := by
  have depths : ∀ key, update map ⟨top depth ip, depth⟩ none key ≠ none →
      1 ≤ key.depth ∧ key.depth ≤ 32 := fun key present => by
    rw [update_apply] at present
    split at present
    · exact absurd rfl present
    · exact recorded.depths key present
  have deleted : Matches lpm.bitNum (top depth ip) left 0 (fun y => longestBelow top
        (recordTable (update map ⟨top depth ip, depth⟩ none)) y 33)
      (dlpm64bDelInner lpm.bitNum (top depth ip) depth newDepth newNexthop (left + 1) 0
        lpm.array) := by
    rcases Nat.eq_zero_or_pos depth with zero | positive
    · subst zero
      exact recorded.delZero proper shorter new
    refine dlpm64bDelInner_deep (top_top inside ip) recorded.fits recorded.last
      (by rwa [upDepth_zero]) proper shorter inside ?_
    rw [new]
    exact recorded.deletes inside positive
  refine ⟨rfl, recorded.levels, recorded.last, ?_, depths, fun y => ?_⟩
  · simp only [dlpm64bDel, recorded.levels]
    exact deleted.1
  · simp only [dlpm64bDel, recorded.levels]
    exact deleted.2 y (by simp)

include inside recorded in
theorem Recorded.lpmDel (ip : UINT) :
    ∃ map, Recorded (lpmDel dlpm64bFuncs lpm ip depth 0 0) map left := by
  refine ⟨update map ⟨top depth ip, depth⟩ none, ?_⟩
  unfold Lpm.lpmDel
  rw [recorded.recording]
  simp only
  split
  · next parentDepth nexthop parent =>
    obtain ⟨_, shorter⟩ := recorded.parent_shorter parent
    refine recorded.delFunc inside (fun zero => by omega) shorter.le ?_
    rw [newMatch, if_neg (by omega)]
    exact parent.symm
  · next orphan =>
    exact recorded.delFunc inside (fun _ => rfl) (zero_le _) orphan.symm

theorem levelDepth_of_layout {bitNum : Nat → Nat} {other : Nat} (first : bitNum 0 = firstBitNum)
    (others : ∀ i, 0 < i → i < level → bitNum i = other) :
    ∀ i, i < level → levelDepth bitNum i = other * i + firstBitNum
  | 0, _ => by rw [levelDepth, first, mul_zero, zero_add]
  | i + 1, inside => by
      rw [levelDepth, levelDepth_of_layout first others i (lt_of_succ_lt inside),
        others (i + 1) (succ_pos i) inside, mul_succ]
      omega

theorem recorded_init (layout : LpmLayout level firstBitNum) :
    Recorded (lpmSetLevel dlpm64bFuncs (lpmEnableRecording dlpm64bInit) level firstBitNum)
      (fun _ => none) (level - 1) := by
  have lower := layout.levelLower
  have levels : level = level - 1 + 1 := by omega
  refine ⟨rfl, levels, ?_, fun _ => Fits.zero, fun key present => absurd rfl present, fun y => ?_⟩
  · have others : ∀ i, 0 < i → i < level →
        (lpmSetLevel dlpm64bFuncs (lpmEnableRecording dlpm64bInit) level firstBitNum).bitNum i =
          (32 - firstBitNum) / (level - 1) := fun i positive inside => by
      simp only [lpmSetLevel]
      rw [if_neg (by omega), if_pos inside]
    rw [zero_add, levelDepth_of_layout rfl others (level - 1) (by omega)]
    exact layout.total
  · exact (longestBelow_eq_none.mpr fun d _ => rfl).symm

include recorded in
theorem Recorded.lookup (ip : UINT) :
    lpmLookup dlpm64bFuncs lpm ip =
      (longestBelow top (recordTable map) ip 33).map Prod.snd := by
  have start : upDepth lpm.bitNum 0 = 0 := upDepth_zero
  rw [← recorded.matches_ ip, ← dlpm64bLookupInner_eq, start, ← recorded.levels]
  rfl

include recorded in
theorem Recorded.find (ip : UINT) (depth : Nat) :
    lpmFindRecording lpm ip depth = recordTable map depth (top depth ip) := by
  rw [lpmFindRecording, recorded.recording]
  rfl

end

theorem Dlpm64bReachable.recorded (layout : LpmLayout level firstBitNum)
    (reachable : Dlpm64bReachable level firstBitNum lpm) : ∃ map left, Recorded lpm map left := by
  induction reachable with
  | init => exact ⟨_, _, recorded_init layout⟩
  | add alloc ip _ nexthop _ inside ih =>
    obtain ⟨map, left, recorded⟩ := ih
    obtain ⟨map, recorded⟩ := recorded.lpmAdd inside alloc ip nexthop
    exact ⟨map, left, recorded⟩
  | del ip _ _ inside ih =>
    obtain ⟨map, left, recorded⟩ := ih
    obtain ⟨map, recorded⟩ := recorded.lpmDel inside ip
    exact ⟨map, left, recorded⟩

/-- `LPM_Lookup` gives the next hop of the longest recorded prefix that covers
the address, and misses when none does. -/
theorem dlpm64bLookup_longest (layout : LpmLayout level firstBitNum)
    (reachable : Dlpm64bReachable level firstBitNum lpm) (ip : UINT) :
    (∀ nexthop, lpmLookup dlpm64bFuncs lpm ip = some nexthop ↔
      ∃ depth, depth ≤ 32 ∧ lpmFindRecording lpm ip depth = some nexthop ∧
        ∀ longer, depth < longer → longer ≤ 32 → lpmFindRecording lpm ip longer = none) ∧
      (lpmLookup dlpm64bFuncs lpm ip = none ↔
        ∀ depth, depth ≤ 32 → lpmFindRecording lpm ip depth = none) := by
  obtain ⟨_, _, recorded⟩ := reachable.recorded layout
  simp only [recorded.lookup, recorded.find, Option.map_eq_some_iff, Option.map_eq_none_iff]
  constructor
  · intro nexthop
    constructor
    · rintro ⟨⟨depth, _⟩, longest, rfl⟩
      obtain ⟨inside, stored, above⟩ := longestBelow_eq_some.mp longest
      exact ⟨depth, le_of_lt_succ inside, stored, fun longer larger bounded =>
        above longer larger (lt_succ_of_le bounded)⟩
    · rintro ⟨depth, inside, stored, above⟩
      exact ⟨(depth, nexthop), longestBelow_eq_some.mpr ⟨lt_succ_of_le inside, stored,
        fun longer larger bounded => above longer larger (le_of_lt_succ bounded)⟩, rfl⟩
  · rw [longestBelow_eq_none]
    exact forall_congr' fun depth => imp_congr Nat.lt_succ_iff Iff.rfl

/-- The layout 8, 4, 4, 4, 4, 4, 4 with `10.0.0.0/8` and `10.1.0.0/16`. -/
theorem dlpm64bLookup_longest_nested :
    ∃ lpm, Dlpm64bReachable 7 8 lpm ∧ lpmLookup dlpm64bFuncs lpm 0x0a010203 = some 2 ∧
      lpmLookup dlpm64bFuncs lpm 0x0b000000 = none := by
  have layout : LpmLayout 7 8 := ⟨by decide, by decide, by decide, by decide, by decide⟩
  have reachable := (Dlpm64bReachable.init : Dlpm64bReachable 7 8 _).add ⟨true, true, fun _ => true⟩
    0x0a000000 8 1 (by decide) |>.add ⟨true, true, fun _ => true⟩ 0x0a010000 16 2 (by decide)
  have longest := dlpm64bLookup_longest layout reachable
  refine ⟨_, reachable, ((longest 0x0a010203).1 2).mpr ⟨16, by decide, ?_, ?_⟩,
    (longest 0x0b000000).2.mpr ?_⟩
  · decide +kernel
  · intro longer larger inside
    interval_cases longer <;> decide +kernel
  · intro depth inside
    interval_cases depth <;> decide +kernel

end MyCode.Lpm
