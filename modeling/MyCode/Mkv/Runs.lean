import MyCode.Mkv.Refinement

/-!
# Runs of mark and key operations

The next mark is the one behind the current one in the list, the next key the first
one with a greater name.  A tree is kept beside the nested map that it should stand for.
-/

namespace MyCode.Mkv

open List

variable {root mark : MkvMark} {path : List Name}

theorem mkvScanNext_eq {element : Name} {passed rest : List Name} {marks : List MkvMark}
    (split : marks.map MkvMark.pucMarkName = passed ++ element :: rest)
    (distinct : (marks.map MkvMark.pucMarkName).Nodup) : mkvScanNext element marks = rest.head? := by
  induction passed generalizing marks with
  | nil =>
    cases marks with
    | nil => cases split
    | cons mark =>
      obtain ⟨rfl, rfl⟩ := cons.inj split
      have found : isMark mark.pucMarkName mark = true := (isMark_iff _ _).mpr rfl
      rw [mkvScanNext, if_pos found, head?_map]
  | cons _ _ ih =>
    cases marks with
    | nil => cases split
    | cons mark =>
      obtain ⟨rfl, below⟩ := cons.inj split
      obtain ⟨fresh, distinctRest⟩ := nodup_cons.mp distinct
      have differs : ¬ isMark element mark := by
        rw [isMark_iff]
        intro same
        apply fresh
        rw [below, same]
        simp
      rw [mkvScanNext, if_neg differs]
      exact ih below distinctRest

theorem mkvGetNextMarkInMark_enumerates (ok : MkvOk mark) :
    Lib.Enumerates (mkvGetNextMarkInMark mark) none
      (mark.stSectionDllHead.map MkvMark.pucMarkName) := by
  apply Lib.enumerates_of_next
  · exact (head?_map).symm
  · intro passed element rest split
    exact mkvScanNext_eq split (Lib.distinctKeys_iff_nodup.mp ok.marks)

def KeysAscend (mark : MkvMark) : Prop :=
  Lib.Ascending MkvKey.pucKeyName mark.stKeyValueDllHead

theorem mkvGetNextKeyInMark_some (mark : MkvMark) (key : Name) :
    mkvGetNextKeyInMark mark (some key) =
      (mark.stKeyValueDllHead.map MkvKey.pucKeyName).find? fun other => decide (key < other) := by
  rw [mkvGetNextKeyInMark, find?_map]
  congr 2
  funext other
  simp [Name.strcmp_lt]

theorem mkvGetNextKeyInMark_enumerates (ascend : KeysAscend mark) :
    Lib.Enumerates (mkvGetNextKeyInMark mark) none
      (mark.stKeyValueDllHead.map MkvKey.pucKeyName) := by
  apply Lib.enumerates_of_next
  · exact (head?_map).symm
  intro passed element rest split
  have ordered : (passed ++ element :: rest).Pairwise (· < ·) := by
    rw [← split]
    exact pairwise_map.mpr ascend
  obtain ⟨-, fromElement, across⟩ := pairwise_append.mp ordered
  rw [mkvGetNextKeyInMark_some, split, find?_append, find?_cons]
  have before : passed.find? (fun other => decide (element < other)) = none := by
    rw [find?_eq_none]
    intro other inside
    have less := across other inside element mem_cons_self
    simp only [decide_eq_true_eq]
    exact lt_asymm less
  rw [before, decide_eq_false (lt_irrefl element), Option.none_or]
  cases rest with
  | nil => rfl
  | cons next =>
    have less := (pairwise_cons.mp fromElement).1 next mem_cons_self
    rw [find?_cons, decide_eq_true less]
    rfl

theorem lt_of_picked {names : List Name} {other : Name} {i j : Nat} (ordered : i < j)
    (inside : j < names.length) (distinct : names.Nodup)
    (found : names.find? (fun name => decide (other < name)) = some names[j]) :
    names[i] < names[j] := by
  obtain ⟨greater, place, _, same, before⟩ := find?_eq_some_iff_getElem.mp found
  have isPlace := (Nodup.getElem_inj_iff distinct).mp same
  have least := before i (isPlace ▸ ordered)
  simp only [Bool.not_eq_true', decide_eq_false_iff_not, not_lt] at least
  exact lt_of_le_of_lt least (of_decide_eq_true greater)

theorem keysAscend_of_enumerates (ok : MkvOk mark) {visited : List Name}
    (enumerated : Lib.Enumerates (mkvGetNextKeyInMark mark) none visited)
    (all : ∀ key ∈ mark.stKeyValueDllHead, key.pucKeyName ∈ visited) : KeysAscend mark := by
  have distinct := Lib.distinctKeys_iff_nodup.mp ok.keys
  apply pairwise_map.mp
  rw [pairwise_iff_getElem]
  intro i j isFirst isSecond ordered
  have inside : (mark.stKeyValueDllHead.map MkvKey.pucKeyName)[j] ∈ visited := by
    rw [getElem_map]
    exact all _ (getElem_mem _)
  have notFirst : (mark.stKeyValueDllHead.map MkvKey.pucKeyName).head? ≠
      some (mark.stKeyValueDllHead.map MkvKey.pucKeyName)[j] := by
    intro same
    rw [head?_eq_getElem?, getElem?_eq_getElem (by omega), Option.some.injEq,
      Nodup.getElem_inj_iff distinct] at same
    omega
  rcases enumerated.picked inside with isHead | ⟨_, -, isNext⟩
  · rw [mkvGetNextKeyInMark, ← head?_map] at isHead
    exact absurd isHead notFirst
  · rw [mkvGetNextKeyInMark_some] at isNext
    exact lt_of_picked ordered isSecond distinct isNext

abbrev MkvMap := PathMap (Name → Option (List UCHAR))

def noKeys : Name → Option (List UCHAR) := fun _ => none

inductive MkvCall where
  | addMark (marks : List Name) (bSort : Bool)
  | setKeyValue (marks : List Name) (key : Name) (value : List UCHAR) (bMarkSort : Bool)
  | delKey (marks : List Name) (key : Name)
  | delAllKeyOfMark (marks : List Name)
  | delMark (parent : List Name) (last : Name)

def MkvCall.run (root : MkvMark) : MkvCall → MkvMark
  | addMark marks bSort => mkvAddMark bSort marks root
  | setKeyValue marks key value bMarkSort =>
    (mkvSetKeyValueAsString root marks key value bMarkSort).1
  | delKey marks key => (mkvDelKey root marks key).1
  | delAllKeyOfMark marks => (mkvDelAllKeyOfMark root marks).1
  | delMark parent last => (mkvDelMark root parent last).1

def MkvCall.leaves (map : MkvMap) : MkvCall → MkvMap
  | addMark marks _ => mapAddMark marks map noKeys
  | setKeyValue marks key value _ =>
    mapWrite marks (mapAddMark marks map noKeys) fun keys => Function.update keys key (some value)
  | delKey marks key => mapWrite marks map fun keys => Function.update keys key none
  | delAllKeyOfMark marks => mapWrite marks map fun _ => noKeys
  | delMark parent last => mapDelMark (parent ++ [last]) map

structure MkvRun where
  root : MkvMark
  map : MkvMap

/-- The root alone, which no operation reads the name of. -/
def MkvRun.start (name : Name) : MkvRun :=
  ⟨mkvFormNewMark name, fun path => if path = [] then some noKeys else none⟩

def MkvRun.next (run : MkvRun) (call : MkvCall) : MkvRun :=
  ⟨call.run run.root, call.leaves run.map⟩

def mkvSystem : Lib.System MkvRun MkvCall where
  start run := ∃ name, run = .start name
  step run call after := after = run.next call

/-- A next function visits exactly the names of a set, each once. -/
def VisitsOnce (next : Option Name → Option Name) (expected : Name → Prop) : Prop :=
  ∃ names, Lib.Enumerates next none names ∧ names.Nodup ∧ ∀ name, name ∈ names ↔ expected name

def MkvMap.HasKey (map : MkvMap) (path : List Name) (key : Name) : Prop :=
  ((map path).bind fun keys => keys key).isSome

instance (map : MkvMap) (path : List Name) (key : Name) : Decidable (map.HasKey path key) :=
  inferInstanceAs (Decidable (_ = true))

structure MkvHolds (root : MkvMark) (map : MkvMap) : Prop where
  get : ∀ path key, mkvGetKeyValueAsString root path key = (map path).bind fun keys => keys key
  isMarkExist : ∀ path, mkvIsMarkExist root path = (map path).isSome
  nextMark : ∀ path, VisitsOnce (mkvGetNextMark root path) fun name =>
    (map (path ++ [name])).isSome

def VisitsKeys (run : MkvRun) (path : List Name) : Prop :=
  VisitsOnce (mkvGetNextKey run.root path) (MkvMap.HasKey run.map path)

/-- The keys of the mark of a path, where there is one, are in ascending order. -/
def AscendAt (root : MkvMark) (path : List Name) : Prop :=
  ∀ mark, mkvGetMark root path = some mark → KeysAscend mark

/-- A key that is set is linked by its name, or its name is the greatest of the mark. -/
def InOrder (run : MkvRun) : MkvCall → Prop
  | .setKeyValue marks key _ bMarkSort =>
    bMarkSort = true ∨ ∀ other, other ≠ key → MkvMap.HasKey run.map marks other → other < key
  | _ => True

variable {run : MkvRun} {root mark : MkvMark} {path : List Name} {map : MkvMap}

structure MkvRunOk (run : MkvRun) : Prop where
  ok : MkvOk run.root
  view : view keysOf run.root = run.map

theorem MkvRunOk.next (held : MkvRunOk run) (call : MkvCall) : MkvRunOk (run.next call) := by
  obtain ⟨ok, same⟩ := held
  cases call with
  | addMark _ bSort =>
    refine ⟨ok.addMark, (view_addMark bSort ok).trans ?_⟩
    rw [same]
    rfl
  | setKeyValue =>
    obtain ⟨after, isView⟩ := mkvSetKeyValueAsString_refines ok
    exact ⟨after, isView.trans (by rw [same]; rfl)⟩
  | delKey =>
    obtain ⟨after, isView⟩ := mkvDelKey_refines ok
    exact ⟨after, isView.trans (by rw [same]; rfl)⟩
  | delAllKeyOfMark =>
    obtain ⟨after, isView⟩ := mkvDelAllKeyOfMark_refines ok
    exact ⟨after, isView.trans (by rw [same]; rfl)⟩
  | delMark =>
    obtain ⟨after, isView⟩ := mkvDelMark_refines ok
    exact ⟨after, isView.trans (by rw [same]; rfl)⟩

theorem MkvRunOk.start (name : Name) : MkvRunOk (.start name) := by
  refine ⟨mkvFormNewMark_ok name, ?_⟩
  funext path
  cases path with
  | nil => rfl
  | cons => rfl

theorem mkvSystem_ok (reached : mkvSystem.Reachable run) : MkvRunOk run := by
  apply reached.invariant
  · rintro _ ⟨name, rfl⟩
    exact .start name
  · rintro _ call _ held rfl
    exact held.next call

theorem MkvRunOk.find_isSome (held : MkvRunOk run) (path : List Name) :
    (mkvGetMark run.root path).isSome = (run.map path).isSome := by
  rw [← held.view, Mkv.view, Option.isSome_map]
  rfl

theorem visitsOnce_none {next : Option Name → Option Name} {expected : Name → Prop}
    (stops : next none = none) (none : ∀ name, ¬ expected name) : VisitsOnce next expected :=
  ⟨[], .done stops, .nil, fun name => ⟨nofun, fun isExpected => absurd isExpected (none name)⟩⟩

theorem mem_names_iff {marks : List MkvMark} (name : Name) :
    name ∈ marks.map MkvMark.pucMarkName ↔ (marks.find? (isMark name)).isSome := by
  simp [find?_isSome, isMark_iff]

theorem mem_keys_iff {keys : List MkvKey} (name : Name) :
    name ∈ keys.map MkvKey.pucKeyName ↔ (keysOf keys name).isSome := by
  simp [keysOf, Option.isSome_map, isKey_iff]

theorem MkvRunOk.nextMark (held : MkvRunOk run) (path : List Name) :
    VisitsOnce (mkvGetNextMark run.root path) fun name => (run.map (path ++ [name])).isSome := by
  cases found : mkvGetMark run.root path with
  | none =>
    apply visitsOnce_none
    · rw [mkvGetNextMark, found]
    intro name
    rw [← held.view, view_below_absent (view_none found)]
    exact Bool.false_ne_true
  | some mark =>
    have same : mkvGetNextMark run.root path = mkvGetNextMarkInMark mark := by
      funext current
      rw [mkvGetNextMark, found]
    have ok := held.ok.find found
    rw [same]
    refine ⟨_, mkvGetNextMarkInMark_enumerates ok, Lib.distinctKeys_iff_nodup.mp ok.marks, ?_⟩
    intro name
    rw [mem_names_iff, ← held.view]
    change _ ↔ (Mkv.view keysOf run.root (path ++ [name])).isSome
    rw [view_append found, view_cons]
    cases mark.stSectionDllHead.find? (isMark name) with
    | none => rfl
    | some => simp [view_nil]

theorem MkvRunOk.holds (held : MkvRunOk run) : MkvHolds run.root run.map where
  get path key := by
    rw [mkvGetKeyValueAsString_eq, held.view]
  isMarkExist path := by
    rw [mkvIsMarkExist, held.find_isSome]
  nextMark := held.nextMark

theorem MkvRunOk.hasKey (held : MkvRunOk run) (found : mkvGetMark run.root path = some mark)
    (key : Name) :
    MkvMap.HasKey run.map path key ↔ key ∈ mark.stKeyValueDllHead.map MkvKey.pucKeyName := by
  rw [MkvMap.HasKey, ← held.view, view_some found, mem_keys_iff]
  rfl

theorem MkvRunOk.visitsKeys_iff (held : MkvRunOk run) (path : List Name) :
    VisitsKeys run path ↔ AscendAt run.root path := by
  cases found : mkvGetMark run.root path with
  | none =>
    constructor
    · intro _ mark isMark
      rw [found] at isMark
      cases isMark
    intro _
    apply visitsOnce_none
    · rw [mkvGetNextKey, found]
    intro key
    rw [MkvMap.HasKey, ← held.view, view_none found]
    exact Bool.false_ne_true
  | some mark =>
    have same : mkvGetNextKey run.root path = mkvGetNextKeyInMark mark := by
      funext current
      rw [mkvGetNextKey, found]
    have ok := held.ok.find found
    rw [VisitsKeys, same]
    constructor
    · rintro ⟨_, enumerated, -, covers⟩ _ isOther
      rw [found] at isOther
      cases isOther
      apply keysAscend_of_enumerates ok enumerated
      intro key inside
      exact (covers _).mpr ((held.hasKey found _).mpr (mem_map_of_mem inside))
    · intro ascend
      exact ⟨_, mkvGetNextKeyInMark_enumerates (ascend mark found),
        Lib.distinctKeys_iff_nodup.mp ok.keys, fun key => (held.hasKey found key).symm⟩

/-- The keys of every mark are in ascending order, whichever way they are reached. -/
def AllAscend (root : MkvMark) : Prop :=
  ∀ path keys, view id root path = some keys → Lib.Ascending MkvKey.pucKeyName keys

theorem AllAscend.at (ascend : AllAscend root) (path : List Name) : AscendAt root path := by
  intro mark found
  exact ascend path _ (view_some found)

theorem AllAscend.write (ascend : AllAscend root) (ok : MkvOk root) (change : MkvMark → MkvMark)
    (keyChange : List MkvKey → List MkvKey)
    (keeps : ∀ mark, (change mark).pucMarkName = mark.pucMarkName)
    (sections : ∀ mark, (change mark).stSectionDllHead = mark.stSectionDllHead)
    (isChange : ∀ mark, (change mark).stKeyValueDllHead = keyChange mark.stKeyValueDllHead)
    (changes : ∀ keys, view id root path = some keys →
      Lib.Ascending MkvKey.pucKeyName (keyChange keys)) : AllAscend (mkvWrite change path root) := by
  intro other keys found
  rw [view_write ok keeps sections fun mark _ => isChange mark, mapWrite] at found
  split at found
  · next isPath =>
    obtain ⟨old, isOld, rfl⟩ := Option.map_eq_some_iff.mp found
    rw [isPath] at isOld
    exact changes old isOld
  · exact ascend other keys found

theorem AllAscend.addMark (ascend : AllAscend root) (ok : MkvOk root) (bSort : Bool) :
    AllAscend (mkvAddMark bSort path root) := by
  intro other keys found
  rw [view_addMark bSort ok, mapAddMark] at found
  split at found
  · cases same : view id root other with
    | none =>
      rw [same] at found
      cases found
      exact Pairwise.nil
    | some old =>
      rw [same] at found
      cases found
      exact ascend other old same
  · exact ascend other keys found

theorem AllAscend.delMark (ascend : AllAscend root) (ok : MkvOk root) (parent : List Name)
    (last : Name) : AllAscend (mkvWrite (mkvDelMarkInMark last) parent root) := by
  intro other keys found
  rw [view_delMark ok, mapDelMark] at found
  split at found
  · cases found
  · exact ascend other keys found

theorem mkvLinkKey_ascending {keys : List MkvKey} {new : MkvKey} {bSort : Bool}
    (ascending : Lib.Ascending MkvKey.pucKeyName keys)
    (fresh : ∀ key ∈ keys, key.pucKeyName ≠ new.pucKeyName)
    (last : bSort = false → ∀ key ∈ keys, key.pucKeyName < new.pucKeyName) :
    Lib.Ascending MkvKey.pucKeyName (mkvLinkKey bSort new keys) := by
  cases bSort with
  | true =>
    apply ascending.insertWhen
    · intro key _ stops
      rw [decide_eq_true_iff, Name.strcmp_lt] at stops
      exact stops
    · intro key inside passes
      rw [decide_eq_false_iff_not, Name.strcmp_lt, not_lt] at passes
      exact lt_of_le_of_ne passes (fresh key inside)
  | false =>
    apply pairwise_append.mpr ⟨ascending, pairwise_singleton _ _, _⟩
    intro key inside other isNew
    rw [mem_singleton.mp isNew]
    exact last rfl key inside

theorem keysOf_of_view {keys : List MkvKey} (found : view id root path = some keys) (key : Name) :
    (view keysOf root path).bind (fun values => values key) = keysOf keys key := by
  obtain ⟨_, isMark, rfl⟩ := Option.map_eq_some_iff.mp found
  rw [view_some isMark]
  rfl

theorem mapAddMark_keys {map : MkvMap} (path : List Name) (key : Name) :
    ((mapAddMark path map noKeys path).bind fun keys => keys key) =
      (map path).bind fun keys => keys key := by
  rw [mapAddMark, if_pos (prefix_refl path)]
  cases map path with
  | none => rfl
  | some => rfl

theorem AllAscend.setKeyValue {marks : List Name} {key : Name} {value : List UCHAR}
    {bMarkSort : Bool} (ascend : AllAscend run.root) (held : MkvRunOk run)
    (inOrder : InOrder run (.setKeyValue marks key value bMarkSort)) :
    AllAscend (mkvSetKeyValueAsString run.root marks key value bMarkSort).1 := by
  have added : AllAscend (mkvAddMark bMarkSort marks run.root) := ascend.addMark held.ok bMarkSort
  have ok : MkvOk (mkvAddMark bMarkSort marks run.root) := held.ok.addMark
  have isView : view keysOf (mkvAddMark bMarkSort marks run.root) =
      mapAddMark marks (view keysOf run.root) noKeys := view_addMark bMarkSort held.ok
  simp only [mkvSetKeyValueAsString]
  split
  · exact added
  apply added.write ok (mkvSetKeyValueInMark key value bMarkSort)
    (fun keys => mkvLinkKey bMarkSort ⟨key, value⟩ (keys.eraseP (isKey key)))
    (fun _ => rfl) (fun _ => rfl) fun _ => rfl
  intro keys found
  obtain ⟨_, isMark, rfl⟩ := Option.map_eq_some_iff.mp found
  have distinct := (ok.find isMark).keys
  have remains (other : MkvKey) :=
    @Lib.mem_eraseP_iff _ _ _ _ _ _ (fun other _ => isKey_iff key other) distinct other
  apply mkvLinkKey_ascending
  · exact (added marks _ found).sublist eraseP_sublist
  · intro other inside
    exact ((remains other).mp inside).2
  intro unsorted other inside
  obtain ⟨isKey, differs⟩ := (remains other).mp inside
  rcases inOrder with sorted | greatest
  · rw [sorted] at unsorted
    cases unsorted
  apply greatest _ differs
  rw [MkvMap.HasKey, ← mapAddMark_keys, ← held.view, ← isView, keysOf_of_view found]
  exact (mem_keys_iff _).mp (mem_map_of_mem isKey)

theorem AllAscend.next (ascend : AllAscend run.root) (held : MkvRunOk run) {call : MkvCall}
    (inOrder : InOrder run call) : AllAscend (run.next call).root := by
  cases call with
  | addMark _ bSort => exact ascend.addMark held.ok bSort
  | setKeyValue => exact ascend.setKeyValue held inOrder
  | delKey marks key =>
    change AllAscend (mkvDelKey run.root marks key).1
    rw [mkvDelKey]
    split
    · exact ascend
    split
    · exact ascend
    apply ascend.write held.ok (mkvDelKeyInMark key) (fun keys => keys.eraseP (isKey key))
      (fun _ => rfl) (fun _ => rfl) fun _ => rfl
    intro keys found
    exact (ascend marks keys found).sublist eraseP_sublist
  | delAllKeyOfMark marks =>
    change AllAscend (mkvDelAllKeyOfMark run.root marks).1
    rw [mkvDelAllKeyOfMark]
    split
    · exact ascend
    apply ascend.write held.ok mkvDelAllKeyInMark (fun _ => [])
      (fun _ => rfl) (fun _ => rfl) fun _ => rfl
    intro keys _
    exact Pairwise.nil
  | delMark parent last =>
    change AllAscend (mkvDelMark run.root parent last).1
    rw [mkvDelMark]
    split
    · exact ascend
    split
    · exact ascend
    · exact ascend.delMark held.ok parent last

theorem AllAscend.start (name : Name) : AllAscend (MkvRun.start name).root := by
  intro path keys found
  cases path with
  | nil =>
    cases found
    exact Pairwise.nil
  | cons => cases found

theorem inOrder_ascend (reached : mkvSystem.ReachableWhen InOrder run) :
    MkvRunOk run ∧ AllAscend run.root := by
  apply reached.invariant
  · rintro _ ⟨name, rfl⟩
    exact ⟨.start name, .start name⟩
  · rintro _ call _ ⟨held, ascend⟩ inOrder rfl
    exact ⟨held.next call, ascend.next held inOrder⟩

/-- The tree is the nested map in every run; the iteration over the keys of a mark is
complete exactly when they ascend, as they do where every key is set in order. -/
theorem mkv_refines (run : MkvRun) :
    (mkvSystem.Reachable run → MkvHolds run.root run.map ∧
      ∀ path, VisitsKeys run path ↔ AscendAt run.root path) ∧
    (mkvSystem.ReachableWhen InOrder run → ∀ path, VisitsKeys run path) := by
  constructor
  · intro reached
    have held := mkvSystem_ok reached
    exact ⟨held.holds, held.visitsKeys_iff⟩
  · intro reached path
    obtain ⟨held, ascend⟩ := inOrder_ascend reached
    exact (held.visitsKeys_iff path).mpr (ascend.at path)

def letter (byte : UCHAR) (ends : byte ≠ 0) : Name :=
  ⟨[byte], List.cons_ne_nil _ _, by simpa using ends.symm⟩

def letterA : Name := letter 97 (by decide)

def letterB : Name := letter 98 (by decide)

def twoKeys (bMarkSort : Bool) : List MkvCall :=
  [.setKeyValue [letter 109 (by decide)] letterB [1] bMarkSort,
    .setKeyValue [letter 109 (by decide)] letterA [2] bMarkSort]

def twoKeysRun (bMarkSort : Bool) : MkvRun :=
  (twoKeys bMarkSort).foldl MkvRun.next (.start letterA)

theorem mkv_refines_sorted :
    ∃ run path, mkvSystem.ReachableWhen InOrder run ∧ MkvHolds run.root run.map ∧
      mkvGetKeyValueAsString run.root path letterA = some [2] ∧
      mkvGetNextKey run.root path (some letterA) = some letterB ∧ VisitsKeys run path := by
  have start : mkvSystem.ReachableWhen InOrder (.start letterA) := .start ⟨letterA, rfl⟩
  have sorted (run : MkvRun) (marks : List Name) (key : Name) (value : List UCHAR) :
      InOrder run (.setKeyValue marks key value true) := .inl rfl
  have reached : mkvSystem.ReachableWhen InOrder (twoKeysRun true) :=
    .step (.step start (sorted _ _ _ _) rfl) (sorted _ _ _ _) rfl
  exact ⟨_, [letter 109 (by decide)], reached, ((mkv_refines _).1 reached.reachable).1,
    by decide +kernel, by decide +kernel, (mkv_refines _).2 reached _⟩

/-- Without sorting, the iteration ends at b and misses a, while a get finds it. -/
theorem mkv_misses_key :
    (∃ run path, mkvSystem.Reachable run ∧ mkvGetKeyValueAsString run.root path letterA = some [2] ∧
      Lib.Enumerates (mkvGetNextKey run.root path) none [letterB]) ∧
    ¬ ∀ run, mkvSystem.Reachable run → ∀ path, VisitsKeys run path := by
  have reached : mkvSystem.Reachable (twoKeysRun false) :=
    Lib.System.Reachable.runs (fun _ _ => rfl) _ (.start ⟨letterA, rfl⟩)
  have visits : Lib.Enumerates (mkvGetNextKey (twoKeysRun false).root [letter 109 (by decide)]) none
      [letterB] := .more (by decide +kernel) (.done (by decide +kernel))
  refine ⟨⟨_, [letter 109 (by decide)], reached, by decide +kernel, visits⟩, fun complete => ?_⟩
  obtain ⟨_, enumerated, -, covers⟩ := complete _ reached [letter 109 (by decide)]
  have hasKey : MkvMap.HasKey (twoKeysRun false).map [letter 109 (by decide)] letterA := by
    decide +kernel
  have inside := (covers letterA).mpr hasKey
  rw [enumerated.unique visits] at inside
  exact absurd inside (by decide +kernel)

end MyCode.Mkv
