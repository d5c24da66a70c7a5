import MyCode.Mkv.Tree
import MyCode.Lib.Enumeration
import MyCode.Lib.Transition
import Mathlib.Data.List.Lex

/-!
# Marks as a nested map

A tree stands for a map from paths to maps from keys to values.
-/

namespace MyCode.Mkv

open Function List Option

/-- The order of `strcmp`. -/
instance : LinearOrder Name :=
  LinearOrder.lift' (fun name => name.bytes.map BitVec.toNat) fun first second same => by
    have injective : Injective (BitVec.toNat (w := 8)) := fun _ _ => BitVec.eq_of_toNat_eq
    have bytes := injective.list_map same
    cases first
    cases second
    cases bytes
    rfl

theorem toNat_pos {byte : UCHAR} {bytes : List UCHAR} (terminated : 0 ∉ byte :: bytes) :
    0 < byte.toNat := by
  apply Nat.pos_of_ne_zero
  intro zero
  apply terminated
  rw [show byte = 0 from BitVec.eq_of_toNat_eq zero]
  exact mem_cons_self

theorem strcmp_order {first second : List UCHAR} (isFirst : 0 ∉ first) (isSecond : 0 ∉ second) :
    (strcmp first second = 0 ↔ first = second) ∧
      (strcmp first second < 0 ↔ first.map BitVec.toNat < second.map BitVec.toNat) := by
  induction first generalizing second with
  | nil =>
    cases second with
    | nil => simp [strcmp]
    | cons =>
      have positive := toNat_pos isSecond
      simp only [strcmp, reduceCtorEq, iff_false, map_nil, map_cons, nil_lt_cons, iff_true]
      omega
  | cons byte _ ih =>
    cases second with
    | nil =>
      have positive := toNat_pos isFirst
      simp only [strcmp, reduceCtorEq, map_nil, not_lt_nil, iff_false]
      omega
    | cons other =>
      rw [strcmp, map_cons, map_cons, cons_lt_cons_iff, cons.injEq]
      split
      · next same =>
        obtain ⟨zero, neg⟩ := ih (fun inside => isFirst (mem_cons_of_mem _ inside))
          (fun inside => isSecond (mem_cons_of_mem _ inside))
        rw [zero, neg]
        simp [same]
      · next differs =>
        have apart : byte.toNat ≠ other.toNat := fun same => differs (BitVec.eq_of_toNat_eq same)
        simp only [differs, false_and, iff_false]
        omega

theorem Name.strcmp_lt (first second : Name) :
    strcmp first.bytes second.bytes < 0 ↔ first < second :=
  (strcmp_order first.terminated second.terminated).2

theorem Name.strcmp_eq (first second : Name) :
    strcmp first.bytes second.bytes = 0 ↔ first = second := by
  rw [(strcmp_order first.terminated second.terminated).1, Name.mk.injEq]

theorem isMark_iff (name : Name) (mark : MkvMark) :
    isMark name mark = true ↔ mark.pucMarkName = name := by
  rw [isMark, beq_iff_eq, Name.strcmp_eq, eq_comm]

theorem isKey_iff (name : Name) (key : MkvKey) : isKey name key = true ↔ key.pucKeyName = name := by
  rw [isKey, beq_iff_eq, Name.strcmp_eq, eq_comm]

/-- A path of a mark leads to what its keys are taken for. -/
abbrev PathMap (Keys : Type) := List Name → Option Keys

section PathMap

variable {Keys : Type} (path : List Name) (map : PathMap Keys)

/-- Marks that were not there have no keys yet. -/
def mapAddMark (noKeys : Keys) : PathMap Keys :=
  fun other => if other <+: path then some ((map other).getD noKeys) else map other

def mapWrite (change : Keys → Keys) : PathMap Keys :=
  fun other => if other = path then (map other).map change else map other

def mapDelMark : PathMap Keys :=
  fun other => if path <+: other then none else map other

end PathMap

def keysOf (keys : List MkvKey) (key : Name) : Option (List UCHAR) :=
  (keys.find? (isKey key)).map MkvKey.pucKeyValue

def view {Keys : Type} (observe : List MkvKey → Keys) (root : MkvMark) : PathMap Keys :=
  fun path => (mkvFindMarkByLevel root path).map fun mark => observe mark.stKeyValueDllHead

/-- The marks and the keys of a mark have different names, and so below. -/
inductive MkvOk : MkvMark → Prop where
  | mk {mark : MkvMark} :
      Lib.DistinctKeys MkvMark.pucMarkName mark.stSectionDllHead →
      Lib.DistinctKeys MkvKey.pucKeyName mark.stKeyValueDllHead →
      (∀ child ∈ mark.stSectionDllHead, MkvOk child) →
      MkvOk mark

variable {root mark child : MkvMark} {name last : Name} {path rest parent : List Name}
  {bSort : Bool} {change : MkvMark → MkvMark} {Keys : Type} {observe : List MkvKey → Keys}

theorem MkvOk.marks (ok : MkvOk mark) :
    Lib.DistinctKeys MkvMark.pucMarkName mark.stSectionDllHead := by
  cases ok with
  | mk marks => exact marks

theorem MkvOk.keys (ok : MkvOk mark) :
    Lib.DistinctKeys MkvKey.pucKeyName mark.stKeyValueDllHead := by
  cases ok with
  | mk _ keys => exact keys

theorem MkvOk.children (ok : MkvOk mark) : ∀ child ∈ mark.stSectionDllHead, MkvOk child := by
  cases ok with
  | mk _ _ below => exact below

theorem mkvFormNewMark_ok (name : Name) : MkvOk (mkvFormNewMark name) :=
  .mk .nil .nil nofun

theorem MkvOk.find (ok : MkvOk root) (found : mkvFindMarkByLevel root path = some mark) :
    MkvOk mark := by
  induction path generalizing root with
  | nil =>
    cases found
    exact ok
  | cons _ _ ih =>
    rw [mkvFindMarkByLevel] at found
    split at found
    · cases found
    · next child isChild =>
      exact ih (ok.children child (mem_of_find?_eq_some isChild)) found

theorem view_nil (root : MkvMark) : view observe root [] = some (observe root.stKeyValueDllHead) :=
  rfl

theorem view_cons (root : MkvMark) (name : Name) (rest : List Name) :
    view observe root (name :: rest) =
      (root.stSectionDllHead.find? (isMark name)).bind fun child => view observe child rest := by
  simp only [view, mkvFindMarkByLevel]
  cases root.stSectionDllHead.find? (isMark name) with
  | none => rfl
  | some => rfl

theorem view_updateFirst (keeps : ∀ mark, (change mark).pucMarkName = mark.pucMarkName)
    (first : Name) (others : List Name) :
    view observe { root with
        stSectionDllHead := Lib.updateFirst (isMark name) change root.stSectionDllHead }
      (first :: others) =
      if first = name then
        (mkvFindMarkInMark root name).bind fun child => view observe (change child) others
      else
        view observe root (first :: others) := by
  have found : (Lib.updateFirst (isMark name) change root.stSectionDllHead).find? (isMark first) =
      _ := Lib.find?_updateFirst_key isMark_iff keeps name first
  rw [view_cons, view_cons]
  simp only [found]
  split
  · rw [mkvFindMarkInMark]
    cases root.stSectionDllHead.find? (isMark name) with
    | none => rfl
    | some => rfl
  · rfl

theorem mkvWrite_name (keeps : ∀ mark, (change mark).pucMarkName = mark.pucMarkName) :
    (mkvWrite change path root).pucMarkName = root.pucMarkName := by
  cases path with
  | nil => exact keeps root
  | cons => rfl

theorem MkvOk.write (ok : MkvOk root) (keeps : ∀ mark, (change mark).pucMarkName = mark.pucMarkName)
    (changes : ∀ mark, MkvOk mark → MkvOk (change mark)) : MkvOk (mkvWrite change path root) := by
  induction path generalizing root with
  | nil => exact changes root ok
  | cons name _ ih =>
    refine .mk (ok.marks.updateFirst fun _ => mkvWrite_name keeps) ok.keys ?_
    intro child inside
    rcases (Lib.mem_updateFirst (fun other _ => isMark_iff name other) ok.marks).mp inside with
      ⟨old, isOld, -, rfl⟩ | ⟨isOld, -⟩
    · exact ih (ok.children old isOld)
    · exact ok.children child isOld

theorem view_write {keyChange : Keys → Keys} (ok : MkvOk root)
    (keeps : ∀ mark, (change mark).pucMarkName = mark.pucMarkName)
    (sections : ∀ mark, (change mark).stSectionDllHead = mark.stSectionDllHead)
    (keys : ∀ mark, MkvOk mark → observe (change mark).stKeyValueDllHead =
      keyChange (observe mark.stKeyValueDllHead)) :
    view observe (mkvWrite change path root) = mapWrite path (view observe root) keyChange := by
  induction path generalizing root with
  | nil =>
    funext other
    cases other with
    | nil => exact congrArg some (keys root ok)
    | cons => rw [mapWrite, if_neg (cons_ne_nil _ _), mkvWrite, view_cons, view_cons, sections]
  | cons name _ ih =>
    funext other
    cases other with
    | nil => rfl
    | cons first =>
      rw [mapWrite, mkvWrite, view_updateFirst fun _ => mkvWrite_name keeps]
      simp only [cons.injEq]
      by_cases same : first = name
      · rw [if_pos same, same, view_cons]
        cases found : mkvFindMarkInMark root name with
        | none =>
          have absent : root.stSectionDllHead.find? (isMark name) = none := found
          simp [absent]
        | some child =>
          have isChild : root.stSectionDllHead.find? (isMark name) = some child := found
          have below := ih (ok.children child (mem_of_find?_eq_some isChild))
          simp [isChild, below, mapWrite]
      · rw [if_neg same, if_neg fun both => same both.1]

theorem mkvAddMark_name : (mkvAddMark bSort path root).pucMarkName = root.pucMarkName := by
  cases path with
  | nil => rfl
  | cons => rfl

theorem mkvLinkMark_perm (bSort : Bool) (mark : MkvMark) (marks : List MkvMark) :
    (mark :: marks).Perm (mkvLinkMark bSort mark marks) := by
  rw [mkvLinkMark]
  split
  · exact (Lib.insertWhen_perm _ mark marks).symm
  · exact (perm_append_singleton mark marks).symm

theorem mkvLinkKey_perm (bSort : Bool) (key : MkvKey) (keys : List MkvKey) :
    (key :: keys).Perm (mkvLinkKey bSort key keys) := by
  rw [mkvLinkKey]
  split
  · exact (Lib.insertWhen_perm _ key keys).symm
  · exact (perm_append_singleton key keys).symm

theorem MkvOk.linked (ok : MkvOk root) (absent : mkvFindMarkInMark root name = none)
    (named : child.pucMarkName = name) :
    Lib.DistinctKeys MkvMark.pucMarkName (child :: root.stSectionDllHead) := by
  apply pairwise_cons.mpr ⟨_, ok.marks⟩
  intro other inside same
  apply find?_eq_none.mp absent other inside
  rw [isMark_iff, ← named, same]

theorem view_linkMark (ok : MkvOk root) (absent : mkvFindMarkInMark root name = none)
    (named : child.pucMarkName = name) (first : Name) (others : List Name) :
    view observe { root with stSectionDllHead := mkvLinkMark bSort child root.stSectionDllHead }
      (first :: others) =
      if first = name then view observe child others else view observe root (first :: others) := by
  have perm := mkvLinkMark_perm bSort child root.stSectionDllHead
  rw [view_cons, view_cons, ← Lib.find?_perm_key isMark_iff (ok.linked absent named) perm first,
    find?_cons]
  by_cases same : first = name
  · have isNew : isMark first child = true := by
      rw [isMark_iff, named, same]
    rw [isNew, if_pos same]
    rfl
  have isOld : isMark first child = false := by
    rw [← Bool.not_eq_true, isMark_iff, named]
    exact fun equal => same equal.symm
  rw [isOld, if_neg same]

theorem MkvOk.addMark (ok : MkvOk root) : MkvOk (mkvAddMark bSort path root) := by
  induction path generalizing root with
  | nil => exact ok
  | cons name rest ih =>
    rw [mkvAddMark]
    cases found : mkvFindMarkInMark root name with
    | none =>
      have perm := mkvLinkMark_perm bSort (mkvAddMark bSort rest (mkvFormNewMark name))
        root.stSectionDllHead
      refine .mk ((ok.linked found mkvAddMark_name).perm perm) ok.keys ?_
      intro child inside
      rcases mem_cons.mp (perm.mem_iff.mpr inside) with rfl | isOld
      · exact ih (mkvFormNewMark_ok name)
      · exact ok.children child isOld
    | some =>
      refine .mk (ok.marks.updateFirst fun _ => mkvAddMark_name) ok.keys ?_
      intro child inside
      rcases (Lib.mem_updateFirst (fun other _ => isMark_iff name other) ok.marks).mp inside with
        ⟨old, isOld, -, rfl⟩ | ⟨isOld, -⟩
      · exact ih (ok.children old isOld)
      · exact ok.children child isOld

theorem view_formNewMark (name first : Name) (rest : List Name) :
    view observe (mkvFormNewMark name) (first :: rest) = none :=
  rfl

theorem mapAddMark_nil {map : PathMap Keys} {noKeys : Keys} (isMark : (map []).isSome) :
    mapAddMark [] map noKeys = map := by
  funext other
  rw [mapAddMark]
  split
  · next isPrefix =>
    obtain ⟨_, same⟩ := isSome_iff_exists.mp isMark
    rw [prefix_nil.mp isPrefix, same]
    rfl
  · rfl

theorem view_addMark (bSort : Bool) (ok : MkvOk root) :
    view observe (mkvAddMark bSort path root) = mapAddMark path (view observe root) (observe []) := by
  induction path generalizing root with
  | nil => exact (mapAddMark_nil rfl).symm
  | cons name rest ih =>
    funext other
    cases other with
    | nil => rfl
    | cons first others =>
      rw [mapAddMark, mkvAddMark]
      simp only [cons_prefix_cons]
      cases found : mkvFindMarkInMark root name with
      | none =>
        have absent : root.stSectionDllHead.find? (isMark name) = none := found
        have below := ih (mkvFormNewMark_ok name)
        have named : (mkvAddMark bSort rest (mkvFormNewMark name)).pucMarkName = name :=
          mkvAddMark_name
        simp only [view_linkMark ok found named]
        by_cases same : first = name
        · rw [if_pos same, same, below, mapAddMark, view_cons, absent]
          -- The new mark has no key and no mark.
          cases others with
          | nil => simp [view_nil, mkvFormNewMark]
          | cons => simp [view_formNewMark]
        · rw [if_neg same, if_neg fun both => same both.1]
      | some mark =>
        have isChild : root.stSectionDllHead.find? (isMark name) = some mark := found
        have below := ih (ok.children mark (mem_of_find?_eq_some isChild))
        simp only [view_updateFirst fun _ => mkvAddMark_name]
        by_cases same : first = name
        · rw [if_pos same, same, found, view_cons, isChild]
          simp [below, mapAddMark]
        · rw [if_neg same, if_neg fun both => same both.1]

theorem mkvDelMarkInMark_ok (ok : MkvOk mark) : MkvOk (mkvDelMarkInMark last mark) :=
  .mk (ok.marks.eraseP _) ok.keys fun child inside => ok.children child (mem_of_mem_eraseP inside)

theorem view_delMark (ok : MkvOk root) :
    view observe (mkvWrite (mkvDelMarkInMark last) parent root) =
      mapDelMark (parent ++ [last]) (view observe root) := by
  induction parent generalizing root with
  | nil =>
    funext other
    cases other with
    | nil => rfl
    | cons first =>
      have erased := Lib.find?_eraseP_key isMark_iff ok.marks last first
      rw [mapDelMark, view_cons root, mkvWrite, mkvDelMarkInMark, view_cons]
      simp only [erased, nil_append, cons_prefix_cons, nil_prefix, and_true]
      by_cases same : first = last
      · rw [if_pos same, if_pos same.symm]
        rfl
      · rw [if_neg same, if_neg fun equal => same equal.symm]
  | cons name rest ih =>
    funext other
    cases other with
    | nil => rfl
    | cons first =>
      have named (mark : MkvMark) : (mkvWrite (mkvDelMarkInMark last) rest mark).pucMarkName =
          mark.pucMarkName := mkvWrite_name fun _ => rfl
      rw [mapDelMark, mkvWrite, view_updateFirst named]
      simp only [cons_append, cons_prefix_cons]
      by_cases same : first = name
      · rw [if_pos same, same, view_cons]
        cases found : mkvFindMarkInMark root name with
        | none =>
          have absent : root.stSectionDllHead.find? (isMark name) = none := found
          simp [absent]
        | some child =>
          have isChild : root.stSectionDllHead.find? (isMark name) = some child := found
          have below := ih (ok.children child (mem_of_find?_eq_some isChild))
          simp [isChild, below, mapDelMark]
      · rw [if_neg same, if_neg fun both => same both.1.symm]

variable {key : Name} {value : List UCHAR}

section

variable (ok : MkvOk mark)

include ok

theorem mkvDelKeyInMark_ok : MkvOk (mkvDelKeyInMark key mark) :=
  .mk ok.marks (ok.keys.eraseP _) ok.children

theorem mkvDelAllKeyInMark_ok : MkvOk (mkvDelAllKeyInMark mark) :=
  .mk ok.marks .nil ok.children

theorem MkvOk.set_distinct (key : Name) (value : List UCHAR) :
    Lib.DistinctKeys MkvKey.pucKeyName
      (⟨key, value⟩ :: mark.stKeyValueDllHead.eraseP (isKey key)) := by
  apply pairwise_cons.mpr ⟨_, ok.keys.eraseP _⟩
  intro other inside same
  exact ((Lib.mem_eraseP_iff (fun other _ => isKey_iff key other) ok.keys).mp inside).2 same.symm

theorem mkvSetKeyValueInMark_ok : MkvOk (mkvSetKeyValueInMark key value bSort mark) :=
  .mk ok.marks ((ok.set_distinct key value).perm (mkvLinkKey_perm bSort _ _)) ok.children

theorem keysOf_del :
    keysOf (mkvDelKeyInMark key mark).stKeyValueDllHead =
      update (keysOf mark.stKeyValueDllHead) key none := by
  funext other
  have erased := Lib.find?_eraseP_key isKey_iff ok.keys key other
  simp only [keysOf, mkvDelKeyInMark, erased, update_apply]
  split
  · rfl
  · rfl

theorem keysOf_set :
    keysOf (mkvSetKeyValueInMark key value bSort mark).stKeyValueDllHead =
      update (keysOf mark.stKeyValueDllHead) key (some value) := by
  funext other
  have linked := Lib.find?_perm_key isKey_iff (ok.set_distinct key value)
    (mkvLinkKey_perm bSort ⟨key, value⟩ _) other
  have erased := Lib.find?_eraseP_key isKey_iff ok.keys key other
  simp only [keysOf, mkvSetKeyValueInMark, ← linked, find?_cons, update_apply]
  by_cases same : other = key
  · have isNew : isKey other ⟨key, value⟩ = true := (isKey_iff _ _).mpr same.symm
    rw [isNew, if_pos same]
    rfl
  have isOld : isKey other ⟨key, value⟩ = false := by
    rw [← Bool.not_eq_true, isKey_iff]
    exact fun equal => same equal.symm
  rw [isOld, if_neg same, erased, if_neg same]

end

theorem mkvGetKeyValueAsString_eq (root : MkvMark) (path : List Name) (key : Name) :
    mkvGetKeyValueAsString root path key = (view keysOf root path).bind fun keys => keys key := by
  simp only [mkvGetKeyValueAsString, view]
  cases mkvFindMarkByLevel root path with
  | none => rfl
  | some => rfl

theorem mapWrite_absent {map : PathMap Keys} {keyChange : Keys → Keys}
    (same : ∀ keys, map path = some keys → keyChange keys = keys) :
    mapWrite path map keyChange = map := by
  funext other
  rw [mapWrite]
  split
  · next isPath =>
    rw [isPath]
    cases found : map path with
    | none => rfl
    | some keys => rw [map_some, same keys found]
  · rfl

theorem view_some (found : mkvFindMarkByLevel root path = some mark) :
    view observe root path = some (observe mark.stKeyValueDllHead) := by
  rw [view, found]
  rfl

theorem view_none (absent : mkvFindMarkByLevel root path = none) :
    view observe root path = none := by
  rw [view, absent]
  rfl

theorem mapWrite_missing (absent : mkvFindMarkByLevel root path = none)
    (keyChange : (Name → Option (List UCHAR)) → Name → Option (List UCHAR)) :
    view keysOf root = mapWrite path (view keysOf root) keyChange :=
  (mapWrite_absent fun _ found => by
    rw [view_none absent] at found
    cases found).symm

theorem mkvDelKey_refines (ok : MkvOk root) :
    MkvOk (mkvDelKey root path key).1 ∧ view keysOf (mkvDelKey root path key).1 =
      mapWrite path (view keysOf root) fun keys => update keys key none := by
  rw [mkvDelKey]
  split
  · next absent => exact ⟨ok, mapWrite_missing absent _⟩
  next mark isMark =>
  split
  · next absent =>
    refine ⟨ok, (mapWrite_absent fun keys found => ?_).symm⟩
    rw [view_some isMark] at found
    cases found
    apply update_eq_self_iff.mpr
    rw [mkvFindKeyInMark] at absent
    rw [keysOf, absent]
    rfl
  · exact ⟨ok.write (fun _ => rfl) fun _ => mkvDelKeyInMark_ok,
      view_write ok (fun _ => rfl) (fun _ => rfl) fun _ => keysOf_del⟩

theorem mkvDelAllKeyOfMark_refines (ok : MkvOk root) :
    MkvOk (mkvDelAllKeyOfMark root path).1 ∧ view keysOf (mkvDelAllKeyOfMark root path).1 =
      mapWrite path (view keysOf root) fun _ _ => none := by
  rw [mkvDelAllKeyOfMark]
  split
  · next absent => exact ⟨ok, mapWrite_missing absent _⟩
  · exact ⟨ok.write (fun _ => rfl) fun _ => mkvDelAllKeyInMark_ok,
      view_write ok (fun _ => rfl) (fun _ => rfl) fun _ _ => rfl⟩

theorem view_below_absent (absent : view keysOf root parent = none) (others : List Name) :
    view keysOf root (parent ++ others) = none := by
  induction parent generalizing root with
  | nil => cases absent
  | cons name _ ih =>
    rw [view_cons] at absent
    rw [cons_append, view_cons]
    cases found : root.stSectionDllHead.find? (isMark name) with
    | none => rfl
    | some =>
      rw [found] at absent
      exact ih absent

theorem view_append (found : mkvFindMarkByLevel root parent = some mark) (others : List Name) :
    view keysOf root (parent ++ others) = view keysOf mark others := by
  induction parent generalizing root with
  | nil =>
    cases found
    rfl
  | cons _ _ ih =>
    rw [mkvFindMarkByLevel] at found
    split at found
    · cases found
    next child isChild =>
    rw [cons_append, view_cons, isChild]
    exact ih found

theorem mapDelMark_absent {map : PathMap Keys} (absent : ∀ others, map (path ++ others) = none) :
    mapDelMark path map = map := by
  funext other
  rw [mapDelMark]
  split
  · next below =>
    obtain ⟨others, rfl⟩ := below
    exact (absent others).symm
  · rfl

theorem mkvDelMark_refines (ok : MkvOk root) :
    MkvOk (mkvDelMark root parent last).1 ∧ view keysOf (mkvDelMark root parent last).1 =
      mapDelMark (parent ++ [last]) (view keysOf root) := by
  rw [mkvDelMark]
  split
  · next absent =>
    refine ⟨ok, (mapDelMark_absent fun others => ?_).symm⟩
    rw [append_assoc]
    exact view_below_absent (view_none absent) _
  next mark isMark =>
  split
  · next absent =>
    refine ⟨ok, (mapDelMark_absent fun others => ?_).symm⟩
    rw [append_assoc, view_append isMark, singleton_append, view_cons]
    change (mkvFindMarkInMark mark last).bind _ = none
    rw [absent]
    rfl
  · exact ⟨ok.write (fun _ => rfl) fun _ => mkvDelMarkInMark_ok, view_delMark ok⟩

theorem mkvSetKeyValueAsString_refines (ok : MkvOk root) :
    MkvOk (mkvSetKeyValueAsString root path key value bSort).1 ∧
      view keysOf (mkvSetKeyValueAsString root path key value bSort).1 =
        mapWrite path (mapAddMark path (view keysOf root) fun _ => none) fun keys =>
          update keys key (some value) := by
  have added : MkvOk (mkvAddMark bSort path root) := ok.addMark
  have marks : view keysOf (mkvAddMark bSort path root) =
      mapAddMark path (view keysOf root) fun _ => none := view_addMark bSort ok
  simp only [mkvSetKeyValueAsString]
  split
  · next absent =>
    refine ⟨added, ?_⟩
    rw [← marks]
    exact mapWrite_missing absent _
  · refine ⟨added.write (fun _ => rfl) fun _ => mkvSetKeyValueInMark_ok, ?_⟩
    rw [← marks]
    exact view_write added (fun _ => rfl) (fun _ => rfl) fun _ => keysOf_set

end MyCode.Mkv
