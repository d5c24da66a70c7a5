import Mathlib.Data.List.Count
import Mathlib.Data.List.Perm.Basic
import MyCode.LevelTopn
import MyCode.Lib.Linked
import MyCode.Lib.Transition

/-!
# What is admitted

Every admitted node belongs to one of the inputs and stands in the list of its
level; no input that was left out has a higher level.
-/

namespace MyCode.LevelTopn

open MyCode.Lib Function List Nat Option

/-- The score and the value of a call of `LevelTopn_ScoreInput`. -/
abbrev TopnInput := UINT64 × UINT

def inputLevel (topn : LevelTopnS) (input : TopnInput) : Nat :=
  min (input.1.toNat / topn.score_step.toNat) (topn.level_count.toNat - 1)

def LevelLinked (topn : LevelTopnS) (level : Nat) (nodes : List Nat) : Prop :=
  Linked (fun i => (topn.admissions i).next) (topn.level_admissions level) nodes

/-- The admitted nodes are the first ones of the array, each with an input of its own. -/
structure Admits (topn : LevelTopnS) (inputs : List TopnInput) (owner : Nat → TopnInput)
    (rest : List TopnInput) : Prop where
  perm : inputs.Perm ((List.range topn.admited_count.toNat).map owner ++ rest)
  count : topn.admited_count.toNat = min topn.n.toNat inputs.length
  value : ∀ i, i < topn.admited_count.toNat → (topn.admissions i).value = (owner i).2
  lists : ∀ level, level < topn.level_count.toNat → ∃ nodes, LevelLinked topn level nodes ∧
    nodes.Nodup ∧ ∀ i, i ∈ nodes ↔
      i < topn.admited_count.toNat ∧ inputLevel topn (owner i) = level
  highest : ∀ i, i < topn.admited_count.toNat → ∀ input ∈ rest,
    inputLevel topn input ≤ inputLevel topn (owner i)

/-- The values and the inputs so far, the last one first. -/
structure TopnRun where
  topn : LevelTopnS
  inputs : List TopnInput

def TopnRun.next (run : TopnRun) (input : TopnInput) : TopnRun :=
  ⟨levelTopnScoreInput run.topn input.1 input.2, input :: run.inputs⟩

def TopnRun.Holds (run : TopnRun) : Prop :=
  ∃ owner rest, Admits run.topn run.inputs owner rest

/-- The level fits 32 bits or is cut to the highest one all the same, or the input is too low
to be admitted. -/
def TopnRun.Fits (run : TopnRun) (input : TopnInput) : Prop :=
  (input.1.toNat / run.topn.score_step.toNat < 2 ^ 32 ∨
    run.topn.level_count.toNat - 1 ≤ input.1.toNat / run.topn.score_step.toNat % 2 ^ 32) ∨
  (run.topn.admited_count = run.topn.n ∧ inputLevel run.topn input ≤ run.topn.cur_low_level.toNat)

structure TopnOk (topn : LevelTopnS) (inputs : List TopnInput) (owner : Nat → TopnInput)
    (rest : List TopnInput) (lists : Nat → List Nat) : Prop where
  perm : inputs.Perm ((List.range topn.admited_count.toNat).map owner ++ rest)
  bounded : topn.admited_count.toNat ≤ topn.n.toNat
  value : ∀ i, i < topn.admited_count.toNat → (topn.admissions i).value = (owner i).2
  family : LinkedFamily (fun i => (topn.admissions i).next) topn.level_admissions
    (· < topn.admited_count.toNat) (fun i => inputLevel topn (owner i)) lists
  inside : topn.cur_low_level.toNat < topn.level_count.toNat
  low : ∀ i, i < topn.admited_count.toNat →
    topn.cur_low_level.toNat ≤ inputLevel topn (owner i)
  left : ∀ input ∈ rest, inputLevel topn input ≤ topn.cur_low_level.toNat
  score : topn.low_level_score.toNat ≤ topn.score_step.toNat * topn.cur_low_level.toNat
  early : topn.admited_count.toNat < topn.n.toNat → rest = [] ∧ topn.cur_low_level = 0

/-- A full state whose lowest level has a list. -/
def LowFilled (topn : LevelTopnS) : Prop :=
  topn.admited_count = topn.n → topn.level_admissions topn.cur_low_level.toNat ≠ none

variable {topn : LevelTopnS} {inputs rest : List TopnInput} {owner : Nat → TopnInput}
  {lists : Nat → List Nat} {input : TopnInput}

variable (ok : TopnOk topn inputs owner rest lists)

include ok in
theorem TopnOk.admits : Admits topn inputs owner rest := by
  refine ⟨ok.perm, ?_, ok.value, ?_, ?_⟩
  · have length := ok.perm.length_eq
    simp only [length_append, length_map, length_range] at length
    have bounded := ok.bounded
    by_cases early : topn.admited_count.toNat < topn.n.toNat
    · rw [(ok.early early).1, length_nil] at length
      omega
    · omega
  · intro level _
    exact ⟨lists level, ok.family.linked level, ok.family.nodup level, ok.family.mem level⟩
  · intro i admitted other leftOut
    exact Nat.le_trans (ok.left other leftOut) (ok.low i admitted)

theorem levelTopnNextLevel_spec {heads : Nat → Option Nat} (levels : Nat) (level : UINT)
    (small : level.toNat + levels < 2 ^ 32) {found : Nat} (from_ : level.toNat ≤ found)
    (upTo : found < level.toNat + levels) (filled : heads found ≠ none) :
    level.toNat ≤ (levelTopnNextLevel heads levels level).toNat ∧
      (levelTopnNextLevel heads levels level).toNat ≤ found ∧
      heads (levelTopnNextLevel heads levels level).toNat ≠ none ∧
      ∀ other, level.toNat ≤ other →
        other < (levelTopnNextLevel heads levels level).toNat → heads other = none := by
  induction levels generalizing level with
  | zero => omega
  | succ _ ih =>
    rw [levelTopnNextLevel]
    by_cases here : heads level.toNat = none
    · have more : (level + 1).toNat = level.toNat + 1 := by
        exact mod_eq_of_lt (show level.toNat + 1 < _ by omega)
      have apart : level.toNat ≠ found := by
        rintro rfl
        exact filled here
      rw [here, isNone_none, if_pos rfl]
      obtain ⟨_, most, there, before⟩ := ih (level + 1) (by omega) (by omega)
        (by omega)
      refine ⟨by omega, most, there, ?_⟩
      intro other start stop
      by_cases first : other = level.toNat
      · rw [first, here]
      · exact before other (by omega) stop
    · have some : (heads level.toNat).isNone = false := by
        rw [isNone_eq_false_iff, isSome_iff_ne_none]
        exact here
      rw [some, if_neg Bool.false_ne_true]
      exact ⟨Nat.le_refl _, from_, here, fun other start stop => by omega⟩

theorem levelTopnGetLevelScore_le (level : UINT) (small : level.toNat < 2 ^ 31) :
    (levelTopnGetLevelScore topn level).toNat ≤ topn.score_step.toNat * level.toNat := by
  have positive : level.msb = false := by
    rw [BitVec.msb_eq_false_iff_two_mul_lt]
    omega
  rw [levelTopnGetLevelScore, BitVec.toNat_mul, BitVec.signExtend_eq_setWidth_of_msb_false positive,
    BitVec.toNat_setWidth, mod_eq_of_lt (show level.toNat < 2 ^ 64 by omega)]
  exact mod_le _ _

include ok in
theorem TopnOk.cacl (levels : 0 < topn.level_count.toInt)
    (full : topn.admited_count = topn.n) (positive : 0 < topn.n) :
    TopnOk (levelTopnCaclLowLevel topn) inputs owner rest lists ∧
      LowFilled (levelTopnCaclLowLevel topn) := by
  rw [levelTopnCaclLowLevel]
  by_cases emptied : topn.level_admissions topn.cur_low_level.toNat = none
  · have admitted := full ▸ positive
    have filled :=  fun empty => (ok.family.head_eq_none_iff _).mp empty 0 admitted rfl
    have highest : inputLevel topn (owner 0) < topn.level_count.toNat := by
      have inside := ok.inside
      rw [inputLevel]
      omega
    have small : topn.level_count.toNat < 2 ^ 31 := by
      rw [BitVec.toInt_eq_toNat_cond] at levels
      omega
    obtain ⟨least, _, found, before⟩ := levelTopnNextLevel_spec
      (topn.level_count.toNat - topn.cur_low_level.toNat) topn.cur_low_level (by omega)
      (ok.low 0 admitted) (by omega) filled
    rw [emptied, isNone_none, if_pos rfl]
    refine ⟨{ ok with
      inside := by simp only; omega
      low := ?_
      left := fun other leftOut => Nat.le_trans (ok.left other leftOut) least
      score := levelTopnGetLevelScore_le _ (by omega)
      early := fun early => absurd (congrArg BitVec.toNat full) (Nat.ne_of_lt early) }, ?_⟩
    · intro i inList
      by_contra below
      have none := before _ (ok.low i inList) (Nat.not_le.mp below)
      exact (ok.family.head_eq_none_iff _).mp none i inList rfl
    · exact fun _ => found
  · have some : (topn.level_admissions topn.cur_low_level.toNat).isNone = false := by
      rw [isNone_eq_false_iff, isSome_iff_ne_none]
      exact emptied
    rw [some, if_neg Bool.false_ne_true]
    exact ⟨ok, fun _ => emptied⟩

theorem inputLevel_lt (inside : 0 < topn.level_count.toNat) (input : TopnInput) :
    inputLevel topn input < topn.level_count.toNat := by
  rw [inputLevel]
  omega

theorem levelTopnGetScoreLevel_toNat (positive : 0 < topn.level_count) (input : TopnInput) :
    (levelTopnGetScoreLevel topn input.1).toNat =
      min (input.1.toNat / topn.score_step.toNat % 2 ^ 32) (topn.level_count.toNat - 1) := by
  have one : (topn.level_count - 1).toNat = topn.level_count.toNat - 1 :=
    BitVec.toNat_sub_of_le (succ_le_of_lt positive)
  rw [levelTopnGetScoreLevel]
  simp only [BitVec.lt_def, one]
  split <;> simp only [BitVec.toNat_setWidth, BitVec.toNat_udiv, one] at * <;> omega

theorem levelLinks_update (admissions : Nat → LevelTopnNode) (index : Nat) (link : Option Nat)
    (value : UINT) :
    (fun i => (update admissions index ⟨link, value⟩ i).next) =
      update (fun i => (admissions i).next) index link := by
  funext i
  by_cases same : i = index
  · rw [same, update_self, update_self]
  · rw [update_of_ne same, update_of_ne same]

theorem levelValues_update {admissions : Nat → LevelTopnNode} {index : Nat} {link : Option Nat}
    {count : Nat} (value : ∀ i, i < count → i ≠ index → (admissions i).value = (owner i).2) :
    ∀ i, i < count → (update admissions index ⟨link, input.2⟩ i).value =
      (update owner index input i).2 := by
  intro i below
  by_cases same : i = index
  · rw [same, update_self, update_self]
  · rw [update_of_ne same, update_of_ne same]
    exact value i below same

theorem owner_level_update (topn : LevelTopnS) (owner : Nat → TopnInput) (index : Nat)
    (input : TopnInput) :
    (fun i => inputLevel topn (update owner index input i)) =
      update (fun i => inputLevel topn (owner i)) index (inputLevel topn input) := by
  funext i
  by_cases same : i = index
  · rw [same, update_self, update_self]
  · rw [update_of_ne same, update_of_ne same]

theorem notFull_family {home : Nat → Nat}
    (family : LinkedFamily (fun i => (topn.admissions i).next) topn.level_admissions
      (· < topn.admited_count.toNat) home lists) (level value : UINT) :
    LinkedFamily
      (fun i => (update topn.admissions topn.admited_count.toNat
        ⟨topn.level_admissions level.toNat, value⟩ i).next)
      (update topn.level_admissions level.toNat (some topn.admited_count.toNat))
      (· < topn.admited_count.toNat + 1)
      (update home topn.admited_count.toNat level.toNat)
      (update lists level.toNat (topn.admited_count.toNat :: lists level.toNat)) := by
  rw [levelLinks_update]
  refine (family.place (Nat.lt_irrefl _) level.toNat).congr (fun i => ?_) fun _ _ => rfl
  exact Nat.lt_succ_iff_lt_or_eq

theorem full_family {home : Nat → Nat}
    (family : LinkedFamily (fun i => (topn.admissions i).next) topn.level_admissions
      (· < topn.admited_count.toNat) home lists) {low index : Nat}
    (first : topn.level_admissions low = some index) (level value : UINT) :
    let taken := update topn.level_admissions low (topn.admissions index).next
    let left := update lists low (lists low).tail
    LinkedFamily
      (fun i => (update topn.admissions index ⟨taken level.toNat, value⟩ i).next)
      (update taken level.toNat (some index)) (· < topn.admited_count.toNat)
      (update home index level.toNat)
      (update left level.toNat (index :: left level.toNat)) := by
  intro taken left
  have owned := family.head_owns first
  rw [levelLinks_update]
  refine ((family.take first).place (fun both => both.2 rfl) level.toNat).congr (fun i => ?_)
    fun _ _ => rfl
  by_cases same : i = index
  · exact iff_of_true (same ▸ owned.1) (.inr same)
  · rw [or_iff_left same, and_iff_left same]

theorem map_update_perm {places : List Nat} {index : Nat} (nodup : places.Nodup)
    (inside : index ∈ places) (owner : Nat → TopnInput) (input : TopnInput) :
    (input :: places.map owner).Perm
      (places.map (update owner index input) ++ [owner index]) := by
  obtain ⟨before, after, rfl⟩ := append_of_mem inside
  have apart := perm_middle.nodup_iff.mp nodup
  have kept (part : List Nat) (sub : part ⊆ before ++ after) :
      part.map (update owner index input) = part.map owner := by
    apply map_congr_left
    intro i member
    refine update_of_ne ?_ _ _
    rintro rfl
    exact (nodup_cons.mp apart).1 (sub member)
  rw [map_append, map_cons, map_append, map_cons, update_self,
    kept before (subset_append_left _ _), kept after (subset_append_right _ _)]
  refine Perm.trans ?_ (perm_append_singleton _ _).symm
  refine (perm_middle.cons input).trans ?_
  exact (Perm.swap _ _ _).trans (perm_middle.symm.cons _)

include ok in
theorem TopnOk.notFull (space : topn.admited_count < topn.n) {level : UINT}
    (right : level.toNat = inputLevel topn input) (levels : 0 < topn.level_count.toInt) :
    ∃ owner rest lists,
      TopnOk (levelTopnNotFullProcess topn level input.2) (input :: inputs) owner rest lists ∧
        LowFilled (levelTopnNotFullProcess topn level input.2) := by
  obtain ⟨none, start⟩ := ok.early space
  have counted : (topn.admited_count + 1).toNat = topn.admited_count.toNat + 1 := by
    rw [BitVec.lt_def] at space
    exact mod_eq_of_lt (show topn.admited_count.toNat + 1 < _ by omega)
  let index := topn.admited_count.toNat
  let admitted : LevelTopnS := { topn with
    admissions := update topn.admissions index
      ⟨topn.level_admissions level.toNat, input.2⟩
    level_admissions := update topn.level_admissions level.toNat (some index)
    admited_count := topn.admited_count + 1 }
  have added : TopnOk admitted (input :: inputs) (update owner index input) []
      (update lists level.toNat (index :: lists level.toNat)) := by
    constructor
    · have kept : (range index).map (update owner index input) = (range index).map owner := by
        apply map_congr_left
        intro i below
        exact update_of_ne (Nat.ne_of_lt (mem_range.mp below)) _ _
      have perm := ok.perm
      rw [none, append_nil] at perm
      rw [counted, range_succ, map_append, append_nil, map_singleton, update_self, kept]
      exact (perm.cons input).trans (perm_append_singleton _ _).symm
    · rw [counted]
      exact space
    · rw [counted]
      refine levelValues_update fun i below apart => ok.value i ?_
      exact Nat.lt_of_le_of_ne (le_of_lt_succ below) apart
    · have own : inputLevel admitted input = level.toNat := right.symm
      rw [counted, owner_level_update, own]
      exact notFull_family ok.family level input.2
    · exact ok.inside
    · intro i _
      simp only [admitted, start]
      exact zero_le _
    · intro other leftOut
      nomatch leftOut
    · exact ok.score
    · exact fun _ => ⟨rfl, start⟩
  rw [levelTopnNotFullProcess]
  by_cases more : topn.admited_count + 1 < topn.n
  · simp only [if_pos more]
    exact ⟨_, _, _, added, fun full => absurd (full ▸ more) (BitVec.lt_irrefl _)⟩
  have full : topn.admited_count + 1 = topn.n := by
    apply BitVec.eq_of_toNat_eq
    rw [BitVec.lt_def, counted] at more
    rw [BitVec.lt_def] at space
    omega
  simp only [if_neg more]
  exact ⟨_, _, _, added.cacl levels full (zero_lt_of_lt space)⟩

include ok in
theorem TopnOk.full (filled : LowFilled topn) (full : topn.admited_count = topn.n)
    (positive : 0 < topn.n) {level : UINT} (right : level.toNat = inputLevel topn input)
    (levels : 0 < topn.level_count.toInt) (higher : topn.cur_low_level < level) :
    ∃ owner rest lists,
      TopnOk (levelTopnFullProcess topn level input.2) (input :: inputs) owner rest lists ∧
        LowFilled (levelTopnFullProcess topn level input.2) := by
  obtain ⟨index, first⟩ := ne_none_iff_exists'.mp (filled full)
  have owned := ok.family.head_owns first
  let taken := update topn.level_admissions topn.cur_low_level.toNat
    (topn.admissions index).next
  let changed : LevelTopnS := { topn with
    admissions := update topn.admissions index ⟨taken level.toNat, input.2⟩
    level_admissions := update taken level.toNat (some index) }
  let left := update lists topn.cur_low_level.toNat (lists topn.cur_low_level.toNat).tail
  have own : inputLevel changed input = level.toNat := right.symm
  have replaced : TopnOk changed (input :: inputs) (update owner index input)
      (owner index :: rest) (update left level.toNat (index :: left level.toNat)) := by
    constructor
    · refine (ok.perm.cons input).trans ?_
      have swapped := map_update_perm nodup_range (mem_range.mpr owned.1) owner input
      have placed := swapped.append_right rest
      rw [append_assoc, singleton_append] at placed
      exact placed
    · exact ok.bounded
    · exact levelValues_update fun i below _ => ok.value i below
    · rw [owner_level_update, own]
      exact full_family ok.family first level input.2
    · exact ok.inside
    · intro i below
      by_cases same : i = index
      · rw [same, update_self, own]
        exact Nat.le_of_lt higher
      · rw [update_of_ne same]
        exact ok.low i below
    · intro other leftOut
      cases leftOut with
      | head => exact Nat.le_of_eq owned.2
      | tail _ inside => exact ok.left other inside
    · exact ok.score
    · exact fun early => absurd (congrArg BitVec.toNat full) (Nat.ne_of_lt early)
  rw [levelTopnFullProcess, first]
  exact ⟨_, _, _, replaced.cacl levels full positive⟩

theorem levelTopnScoreInput_low (levels : 0 < topn.level_count) (full : topn.admited_count = topn.n)
    (low : inputLevel topn input ≤ topn.cur_low_level.toNat) :
    levelTopnScoreInput topn input.1 input.2 = topn := by
  have most := levelTopnGetScoreLevel_toNat levels input
  have under : ¬topn.cur_low_level < levelTopnGetScoreLevel topn input.1 := by
    have cut := mod_le (input.1.toNat / topn.score_step.toNat) (2 ^ 32)
    rw [inputLevel] at low
    rw [BitVec.lt_def]
    omega
  rw [levelTopnScoreInput, levelTopnLevelInput, full, if_neg (BitVec.lt_irrefl _), if_neg under,
    ite_self]

include ok in
theorem TopnOk.leaveOut
    (full : topn.admited_count = topn.n) (low : inputLevel topn input ≤ topn.cur_low_level.toNat) :
    TopnOk topn (input :: inputs) owner (input :: rest) lists where
  perm := (ok.perm.cons input).trans perm_middle.symm
  bounded := ok.bounded
  value := ok.value
  family := ok.family
  inside := ok.inside
  low := ok.low
  left := by
    intro other leftOut
    cases leftOut with
    | head => exact low
    | tail _ inside => exact ok.left other inside
  score := ok.score
  early early := absurd (congrArg BitVec.toNat full) (Nat.ne_of_lt early)

include ok in
theorem TopnOk.lowScore (cut : input.1 < topn.low_level_score) :
    topn.admited_count = topn.n ∧ inputLevel topn input ≤ topn.cur_low_level.toNat := by
  have score := ok.score
  have below : input.1.toNat < topn.low_level_score.toNat := cut
  have quotient : input.1.toNat / topn.score_step.toNat < topn.cur_low_level.toNat := by
    rw [div_lt_iff_lt_mul]
    · rw [Nat.mul_comm]
      omega
    by_contra none
    rw [Nat.eq_zero_of_not_pos none, Nat.zero_mul] at score
    omega
  constructor
  · by_contra space
    have bounded := ok.bounded
    have apart : topn.admited_count.toNat ≠ topn.n.toNat :=
      fun same => space (BitVec.eq_of_toNat_eq same)
    have start := (ok.early (by omega)).2
    rw [start] at quotient
    exact absurd quotient (not_lt_zero _)
  · rw [inputLevel]
    omega

structure TopnRun.Sound (run : TopnRun) : Prop where
  positive : 0 < run.topn.n
  levels : 0 < run.topn.level_count.toInt
  ok : ∃ owner rest lists, TopnOk run.topn run.inputs owner rest lists ∧ LowFilled run.topn

variable {run : TopnRun}

theorem level_count_pos (levels : 0 < topn.level_count.toInt) : 0 < topn.level_count := by
  rw [BitVec.toInt_eq_toNat_cond] at levels
  show 0 < topn.level_count.toNat
  omega

@[simp]
theorem levelTopnCaclLowLevel_n (topn : LevelTopnS) : (levelTopnCaclLowLevel topn).n = topn.n := by
  rw [levelTopnCaclLowLevel]
  split <;> rfl

@[simp]
theorem levelTopnCaclLowLevel_level_count (topn : LevelTopnS) :
    (levelTopnCaclLowLevel topn).level_count = topn.level_count := by
  rw [levelTopnCaclLowLevel]
  split <;> rfl

@[simp]
theorem levelTopnCaclLowLevel_score_step (topn : LevelTopnS) :
    (levelTopnCaclLowLevel topn).score_step = topn.score_step := by
  rw [levelTopnCaclLowLevel]
  split <;> rfl

theorem levelTopnScoreInput_frame (topn : LevelTopnS) (input : TopnInput) :
    (levelTopnScoreInput topn input.1 input.2).n = topn.n ∧
      (levelTopnScoreInput topn input.1 input.2).level_count = topn.level_count ∧
      (levelTopnScoreInput topn input.1 input.2).score_step = topn.score_step := by
  rw [levelTopnScoreInput, levelTopnLevelInput, levelTopnNotFullProcess, levelTopnFullProcess]
  split
  · exact ⟨rfl, rfl, rfl⟩
  split
  · split <;> simp
  split
  · split <;> simp
  · exact ⟨rfl, rfl, rfl⟩

theorem TopnRun.Sound.next (sound : run.Sound) (fits : run.Fits input) :
    (run.next input).Sound := by
  obtain ⟨positive, levels, _, _, _, ok, filled⟩ := sound
  have counts := level_count_pos levels
  obtain ⟨sameN, sameLevels, _⟩ := levelTopnScoreInput_frame run.topn input
  refine ⟨?_, ?_, ?_⟩
  · rw [TopnRun.next, sameN]
    exact positive
  · rw [TopnRun.next, sameLevels]
    exact levels
  rw [TopnRun.next]
  by_cases low : run.topn.admited_count = run.topn.n ∧
      inputLevel run.topn input ≤ run.topn.cur_low_level.toNat
  · rw [levelTopnScoreInput_low counts low.1 low.2]
    exact ⟨_, _, _, ok.leaveOut low.1 low.2, filled⟩
  have most := levelTopnGetScoreLevel_toNat counts input
  have right : (levelTopnGetScoreLevel run.topn input.1).toNat = inputLevel run.topn input := by
    rw [most, inputLevel]
    have level := fits.resolve_right low
    have cut := mod_le (input.1.toNat / run.topn.score_step.toNat) (2 ^ 32)
    rcases level with small | _
    · rw [mod_eq_of_lt small]
    · omega
  have scored : ¬input.1 < run.topn.low_level_score := fun cut => low (ok.lowScore cut)
  rw [levelTopnScoreInput, if_neg scored, levelTopnLevelInput]
  by_cases space : run.topn.admited_count < run.topn.n
  · rw [if_pos space]
    exact ok.notFull space right levels
  have full : run.topn.admited_count = run.topn.n := by
    apply BitVec.eq_of_toNat_eq
    have bounded := ok.bounded
    rw [BitVec.lt_def] at space
    omega
  have higher : run.topn.cur_low_level < levelTopnGetScoreLevel run.topn input.1 := by
    rw [BitVec.lt_def, right]
    exact Nat.not_le.mp fun under => low ⟨full, under⟩
  rw [if_neg space, if_pos higher]
  exact ok.full filled full positive right levels higher

theorem levelCount {count level : Nat} (perm : inputs.Perm ((range count).map owner ++ rest))
    {nodes : List Nat} (nodup : nodes.Nodup)
    (mem : ∀ i, i ∈ nodes ↔ i < count ∧ inputLevel topn (owner i) = level) :
    inputs.countP (fun input => inputLevel topn input = level) =
      nodes.length + rest.countP fun input => inputLevel topn input = level := by
  have same : nodes.Perm ((range count).filter fun i => inputLevel topn (owner i) = level) := by
    rw [perm_ext_iff_of_nodup nodup (nodup_range.filter _)]
    intro i
    rw [mem, mem_filter, mem_range, decide_eq_true_iff]
  rw [perm.countP_eq, countP_append, countP_map, same.length_eq, countP_eq_length_filter]
  rfl

theorem Admits.home {home : Nat → Nat} (admits : Admits topn inputs owner rest)
    (family : LinkedFamily (fun i => (topn.admissions i).next) topn.level_admissions
      (· < topn.admited_count.toNat) home lists) {i : Nat}
    (inside : i < topn.admited_count.toNat) (level : home i < topn.level_count.toNat) :
    inputLevel topn (owner i) = home i := by
  obtain ⟨nodes, linked, _, mem⟩ := admits.lists _ level
  have same := linked.unique (family.linked _)
  rw [same] at mem
  exact ((mem i).mp ((family.mem _ i).mpr ⟨inside, rfl⟩)).2

/-- Lists in which the input is missing on its level, while a lower level has nodes or nothing
is left out. -/
theorem Admits.absurd {home : Nat → Nat} (admits : Admits topn (input :: inputs) owner rest)
    (family : LinkedFamily (fun i => (topn.admissions i).next) topn.level_admissions
      (· < topn.admited_count.toNat) home lists)
    (levels : 0 < topn.level_count.toNat)
    (missing : inputs.countP (fun other => inputLevel topn other = inputLevel topn input) =
      (lists (inputLevel topn input)).length)
    (lower : inputs.length < topn.n.toNat ∨
      ∃ i, i < topn.admited_count.toNat ∧ home i < inputLevel topn input) : False := by
  have level := inputLevel_lt levels input
  obtain ⟨_, linked, nodup, mem⟩ := admits.lists _ level
  have same := linked.unique (family.linked _)
  have counted := levelCount admits.perm nodup mem
  have none : rest.countP (fun other => inputLevel topn other = inputLevel topn input) = 0 := by
    rcases lower with _ | ⟨i, inside, under⟩
    · have length := admits.perm.length_eq
      have count := admits.count
      rw [length_append, length_map, length_range] at length
      rw [length_cons] at length count
      have empty : rest = [] := length_eq_zero_iff.mp (by omega)
      rw [empty, countP_nil]
    rw [countP_eq_zero]
    intro other leftOut
    have highest := admits.highest i inside other leftOut
    rw [admits.home family inside (Nat.lt_trans under level)] at highest
    rw [decide_eq_true_iff]
    omega
  rw [countP_cons_of_pos (by simp), none, same] at counted
  omega

include ok in
theorem TopnOk.missing {level : Nat} (higher : topn.cur_low_level.toNat < level ∨ rest = []) :
    inputs.countP (fun other => inputLevel topn other = level) = (lists level).length := by
  rw [levelCount ok.perm (ok.family.nodup level) (ok.family.mem level)]
  have none : rest.countP (fun other => inputLevel topn other = level) = 0 := by
    rw [countP_eq_zero]
    intro other leftOut
    rw [decide_eq_true_iff]
    rcases higher with _ | empty
    · have left := ok.left other leftOut
      omega
    · rw [empty] at leftOut
      nomatch leftOut
  rw [none, Nat.add_zero]

theorem levelTopnCaclLowLevel_lists (topn : LevelTopnS) :
    (levelTopnCaclLowLevel topn).admissions = topn.admissions ∧
      (levelTopnCaclLowLevel topn).level_admissions = topn.level_admissions ∧
      (levelTopnCaclLowLevel topn).admited_count = topn.admited_count := by
  rw [levelTopnCaclLowLevel]
  split <;> exact ⟨rfl, rfl, rfl⟩

theorem inputLevel_frame (topn : LevelTopnS) (input : TopnInput) :
    inputLevel (levelTopnScoreInput topn input.1 input.2) = inputLevel topn := by
  obtain ⟨_, sameLevels, sameStep⟩ := levelTopnScoreInput_frame topn input
  funext other
  rw [inputLevel, inputLevel, sameLevels, sameStep]

include ok in
/-- An input on a lower level than its own leaves its own level as it is, and is counted on
none. -/
theorem TopnOk.cut (filled : LowFilled topn)
    (wrong : (levelTopnGetScoreLevel topn input.1).toNat < inputLevel topn input)
    (high : ¬(topn.admited_count = topn.n ∧ inputLevel topn input ≤ topn.cur_low_level.toNat)) :
    let after := levelTopnScoreInput topn input.1 input.2
    ∃ home lists, LinkedFamily (fun i => (after.admissions i).next) after.level_admissions
        (· < after.admited_count.toNat) home lists ∧
      inputs.countP (fun other => inputLevel topn other = inputLevel topn input) =
        (lists (inputLevel topn input)).length ∧
      (inputs.length < topn.n.toNat ∨
        ∃ i, i < after.admited_count.toNat ∧ home i < inputLevel topn input) := by
  have scored : ¬input.1 < topn.low_level_score := fun cut => high (ok.lowScore cut)
  intro after
  let level := levelTopnGetScoreLevel topn input.1
  have apart := (Nat.ne_of_lt wrong).symm
  have stepped : after = levelTopnLevelInput topn level input.2 := if_neg scored
  by_cases space : topn.admited_count < topn.n
  · have counted : (topn.admited_count + 1).toNat = topn.admited_count.toNat + 1 := by
      rw [BitVec.lt_def] at space
      exact mod_eq_of_lt (show topn.admited_count.toNat + 1 < _ by omega)
    have family := notFull_family ok.family level input.2
    have changed : after.admissions = update topn.admissions topn.admited_count.toNat
          ⟨topn.level_admissions level.toNat, input.2⟩ ∧
        after.level_admissions = update topn.level_admissions level.toNat
          (some topn.admited_count.toNat) ∧
        after.admited_count = topn.admited_count + 1 := by
      rw [stepped, levelTopnLevelInput, if_pos space, levelTopnNotFullProcess]
      split
      · exact ⟨rfl, rfl, rfl⟩
      · exact levelTopnCaclLowLevel_lists _
    rw [← changed.1, ← changed.2.1, ← counted, ← changed.2.2] at family
    refine ⟨_, _, family, ?_, .inl ?_⟩
    · rw [update_of_ne apart]
      exact ok.missing (.inr (ok.early space).1)
    have count := ok.admits.count
    rw [BitVec.lt_def] at space
    omega
  have full : topn.admited_count = topn.n := by
    apply BitVec.eq_of_toNat_eq
    have bounded := ok.bounded
    rw [BitVec.lt_def] at space
    omega
  have above := Nat.not_le.mp fun under => high ⟨full, under⟩
  obtain ⟨index, first⟩ := ne_none_iff_exists'.mp (filled full)
  have owned := ok.family.head_owns first
  rw [levelTopnLevelInput, if_neg space] at stepped
  by_cases higher : topn.cur_low_level < level
  · rw [if_pos higher, levelTopnFullProcess, first] at stepped
    let taken := update topn.level_admissions topn.cur_low_level.toNat
      (topn.admissions index).next
    let left := update lists topn.cur_low_level.toNat
      (lists topn.cur_low_level.toNat).tail
    have changed : after.admissions = update topn.admissions index ⟨taken level.toNat, input.2⟩ ∧
        after.level_admissions = update taken level.toNat (some index) ∧
        after.admited_count = topn.admited_count := by
      rw [stepped]
      exact levelTopnCaclLowLevel_lists _
    have family : LinkedFamily (fun i => (after.admissions i).next) after.level_admissions
        (· < after.admited_count.toNat)
        (update (fun i => inputLevel topn (owner i)) index level.toNat)
        (update left level.toNat (index :: left level.toNat)) := by
      rw [changed.1, changed.2.1, changed.2.2]
      exact full_family ok.family first level input.2
    refine ⟨_, _, family, ?_, .inr ⟨index, ?_, ?_⟩⟩
    · have kept : left (inputLevel topn input) = lists (inputLevel topn input) :=
        update_of_ne (Nat.ne_of_gt above) _ _
      rw [update_of_ne apart, kept]
      exact ok.missing (.inl above)
    · rw [changed.2.2]
      exact owned.1
    · rw [update_self]
      exact wrong
  · rw [if_neg higher] at stepped
    rw [stepped]
    exact ⟨_, _, ok.family, ok.missing (.inl above), .inr ⟨index, owned.1, owned.2 ▸ above⟩⟩

theorem TopnRun.Sound.fits (sound : run.Sound) (holds : (run.next input).Holds) :
    run.Fits input := by
  obtain ⟨_, levels, _, _, _, ok, filled⟩ := sound
  have counts := level_count_pos levels
  by_contra unfit
  have high : ¬(run.topn.admited_count = run.topn.n ∧
      inputLevel run.topn input ≤ run.topn.cur_low_level.toNat) := fun low => unfit (.inr low)
  have wrong : (levelTopnGetScoreLevel run.topn input.1).toNat < inputLevel run.topn input := by
    have large : ¬(input.1.toNat / run.topn.score_step.toNat < 2 ^ 32 ∨
        run.topn.level_count.toNat - 1 ≤
          input.1.toNat / run.topn.score_step.toNat % 2 ^ 32) := fun level => unfit (.inl level)
    rw [levelTopnGetScoreLevel_toNat counts input, inputLevel]
    omega
  obtain ⟨_, _, family, missing, lower⟩ := ok.cut filled wrong high
  obtain ⟨_, _, admits⟩ := holds
  have same : inputLevel (run.next input).topn = inputLevel run.topn :=
    inputLevel_frame run.topn input
  obtain ⟨sameN, sameLevels⟩ : (run.next input).topn.n = run.topn.n ∧
      (run.next input).topn.level_count = run.topn.level_count :=
    ⟨(levelTopnScoreInput_frame run.topn input).1, (levelTopnScoreInput_frame run.topn input).2.1⟩
  refine admits.absurd family ?_ ?_ ?_
  · rw [sameLevels]
    exact counts
  · rw [same]
    exact missing
  · rw [same, sameN]
    exact lower

theorem levelTopnReset_sound (positive : 0 < topn.n) (levels : 0 < topn.level_count.toInt) :
    TopnRun.Sound ⟨levelTopnReset topn, []⟩ := by
  refine ⟨positive, levels, fun _ => (0, 0), [], fun _ => [], ?_, ?_⟩
  · refine ⟨.refl _, zero_le _, ?_, ?_, level_count_pos levels, ?_, ?_, zero_le _,
      fun _ => ⟨rfl, rfl⟩⟩
    · exact fun i below => absurd below (not_lt_zero _)
    · exact (LinkedFamily.start _ fun _ => 0).congr
        (fun i => iff_of_false (not_lt_zero i) id) fun _ owned => False.elim owned
    · exact fun i below => absurd below (not_lt_zero _)
    · exact nofun
  · exact fun full => absurd (full ▸ positive) (BitVec.lt_irrefl _)

/-- The values are the highest ones after every input exactly when every input fits. -/
theorem levelTopn_runs (topn : LevelTopnS) (positive : 0 < topn.n)
    (levels : 0 < topn.level_count.toInt) (inputs : List TopnInput) :
    Keeps TopnRun.Holds (fun run input => some (run.next input)) ⟨levelTopnReset topn, []⟩ inputs ↔
      AdmitsAll TopnRun.Fits (fun run input => some (run.next input)) ⟨levelTopnReset topn, []⟩
        inputs := by
  refine keeps_iff_admitsAll ?_ ?_ ?_ (levelTopnReset_sound positive levels)
  · rintro _ ⟨_, _, owner, rest, _, ok, _⟩
    exact ⟨owner, rest, ok.admits⟩
  · intro run input sound fits
    exact ⟨_, rfl, sound.next fits⟩
  intro run input next sound stepped holds
  rw [← some.inj stepped] at holds
  exact sound.fits holds

def smallTopn (n level_count : UINT) (score_step : UINT64) : LevelTopnS :=
  ⟨n, 0, level_count, 0, 0, score_step, fun _ => none, fun _ => ⟨none, 0⟩⟩

/-- Two values out of three. -/
theorem levelTopn_runs_three :
    Keeps TopnRun.Holds (fun run input => some (run.next input))
      ⟨levelTopnReset (smallTopn 2 3 10), []⟩ [(5, 1), (25, 2), (12, 3)] := by
  refine (levelTopn_runs (smallTopn 2 3 10) (by decide) (by decide) _).mpr ⟨?_, fun _ first => ?_⟩
  · exact .inl (.inl (by decide))
  rw [← some.inj first]
  refine ⟨.inl (.inl (by decide)), fun _ second => ?_⟩
  rw [← some.inj second]
  exact ⟨.inl (.inl (by decide)), fun _ _ => trivial⟩

/-- A score of the highest level whose quotient is 2^32. -/
theorem levelTopn_cuts :
    ¬Keeps TopnRun.Holds (fun run input => some (run.next input))
      ⟨levelTopnReset (smallTopn 1 2 1), []⟩ [(0x100000000, 7)] := by
  rintro ⟨_, _, stepped, holds⟩
  have sound : TopnRun.Sound ⟨levelTopnReset (smallTopn 1 2 1), []⟩ :=
    levelTopnReset_sound (by decide) (by decide)
  have last := holds.initially
  rw [← some.inj stepped] at last
  have fits := sound.fits last
  rw [TopnRun.Fits] at fits
  exact absurd fits (by decide)

end MyCode.LevelTopn
