import Mathlib.Logic.Function.Basic
import MyCode.Types

/-!
# Top values by level

The admitted values stand in lists, one for each level, linked by index; an
index of -1 is `none`.
-/

namespace MyCode.LevelTopn

open Function

structure LevelTopnNode where
  next : Option Nat
  value : UINT

structure LevelTopnS where
  n : UINT
  admited_count : UINT
  level_count : UINT
  cur_low_level : UINT
  low_level_score : UINT64
  score_step : UINT64
  level_admissions : Nat → Option Nat
  admissions : Nat → LevelTopnNode

def levelTopnGetLevelScore (topn : LevelTopnS) (level : UINT) : UINT64 :=
  topn.score_step * level.signExtend 64

def levelTopnGetScoreLevel (topn : LevelTopnS) (score : UINT64) : UINT :=
  let level : UINT := (score / topn.score_step).setWidth 32
  if level < topn.level_count - 1 then level else topn.level_count - 1

/-- The loop of `_level_topn_cacl_low_level`, for at most the levels that there are. -/
def levelTopnNextLevel (level_admissions : Nat → Option Nat) : Nat → UINT → UINT
  | 0, level => level
  | levels + 1, level =>
    if (level_admissions level.toNat).isNone then
      levelTopnNextLevel level_admissions levels (level + 1)
    else level

def levelTopnCaclLowLevel (topn : LevelTopnS) : LevelTopnS :=
  if (topn.level_admissions topn.cur_low_level.toNat).isNone then
    let cur_low_level := levelTopnNextLevel topn.level_admissions
      (topn.level_count.toNat - topn.cur_low_level.toNat) topn.cur_low_level
    { topn with
      cur_low_level := cur_low_level
      low_level_score := levelTopnGetLevelScore topn cur_low_level }
  else topn

def levelTopnNotFullProcess (topn : LevelTopnS) (level value : UINT) : LevelTopnS :=
  let index := topn.admited_count.toNat
  let admitted := { topn with
    admissions := update topn.admissions index ⟨topn.level_admissions level.toNat, value⟩
    level_admissions := update topn.level_admissions level.toNat (some index)
    admited_count := topn.admited_count + 1 }
  if admitted.admited_count < topn.n then admitted else levelTopnCaclLowLevel admitted

/-- The first value of the lowest level gives its node away. -/
def levelTopnFullProcess (topn : LevelTopnS) (level value : UINT) : LevelTopnS :=
  match topn.level_admissions topn.cur_low_level.toNat with
  | none => topn
  | some index =>
    let taken := update topn.level_admissions topn.cur_low_level.toNat
      (topn.admissions index).next
    levelTopnCaclLowLevel { topn with
      admissions := update topn.admissions index ⟨taken level.toNat, value⟩
      level_admissions := update taken level.toNat (some index) }

def levelTopnLevelInput (topn : LevelTopnS) (level value : UINT) : LevelTopnS :=
  if topn.admited_count < topn.n then levelTopnNotFullProcess topn level value
  else if topn.cur_low_level < level then levelTopnFullProcess topn level value
  else topn

def levelTopnReset (topn : LevelTopnS) : LevelTopnS :=
  { topn with
    admited_count := 0
    cur_low_level := 0
    low_level_score := 0
    level_admissions := fun _ => none }

def levelTopnScoreInput (topn : LevelTopnS) (score : UINT64) (value : UINT) : LevelTopnS :=
  if score < topn.low_level_score then topn
  else levelTopnLevelInput topn (levelTopnGetScoreLevel topn score) value

end MyCode.LevelTopn
