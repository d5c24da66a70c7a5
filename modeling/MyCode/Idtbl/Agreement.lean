import MyCode.Idtbl.Tree

/-!
# Id tables in hash maps

The map compares the low words of ids.
-/

namespace MyCode.Idtbl

open Hash IdKey List

variable {Data : Type} {contents : Contents Data} {id : UINT64} {data : Data}

/-- No other id of the map has the low word of an id. -/
def LowWordApart (contents : Contents Data) (id : UINT64) : Prop :=
  ∀ other, (contents other).isSome → UINT_HANDLE other = UINT_HANDLE id → other = id

/-- Low words are apart, what is added can be allocated, and the count of the nodes did not
wrap to zero before a reset. -/
def HashMeets (state : IdtblHash Data × Contents Data) : IdtblCall Data → Prop
  | .add id _ memory => LowWordApart state.2 id ∧ (memory = true ∨ (state.2 id).isSome)
  | .get id => LowWordApart state.2 id
  | .del id => LowWordApart state.2 id
  | .reset _ => state.1.hash_map.hHash.uiNodeCount = 0 → ∀ id, state.2 id = none

variable {jhash : List UCHAR → UINT}

/-- A map without a limit whose nodes are those of the contents. -/
structure HashHolds (jhash : List UCHAR → UINT) (ctrl : IdtblHash Data) (contents : Contents Data)
    (stored : Finset (MapEle Data)) : Prop where
  unlimited : ctrl.hash_map.uiCapacity = 0
  stores : HashStores (mapFuncs jhash) ctrl.hash_map.hHash stored
  apart : ∀ id, (contents id).isSome → LowWordApart contents id
  inside : ∀ id data, contents id = some data → ⟨idtblGetKey id, data⟩ ∈ stored
  owned : ∀ ele ∈ stored, ∃ id, ele.key = idtblGetKey id ∧ contents id = some ele.pData

theorem idtblGetKey_eq_iff (id other : UINT64) :
    idtblGetKey other = idtblGetKey id ↔ UINT_HANDLE other = UINT_HANDLE id := by
  simp only [idtblGetKey, mapKey, length_nil, if_true, MapKey.handle.injEq, UINT_HANDLE]
  constructor
  · intro same
    rw [same]
  · intro same
    bv_omega

variable {table : IdtblHash Data} {stored : Finset (MapEle Data)}

section

variable (holds : HashHolds jhash table contents stored) (apart : LowWordApart contents id)

include holds apart

theorem HashHolds.mem_iff : ⟨idtblGetKey id, data⟩ ∈ stored ↔ contents id = some data := by
  refine ⟨fun isStored => ?_, holds.inside id data⟩
  obtain ⟨other, same, held⟩ := holds.owned _ isStored
  have isOther : other = id := by
    apply apart other
    · rw [held]
      rfl
    · exact (idtblGetKey_eq_iff id other).mp same.symm
  rw [← isOther]
  exact held

theorem HashHolds.get : mapGet jhash table.hash_map (idtblGetKey id) = contents id := by
  apply Option.ext
  intro data
  rw [mapGet_eq_some holds.stores]
  exact holds.mem_iff apart

theorem HashHolds.find_eq_none (absent : contents id = none) :
    hashFind (mapFuncs jhash) table.hash_map.hHash (idtblGetKey id) = none := by
  have missed := holds.get apart
  rw [absent, mapGet, Option.map_eq_none_iff] at missed
  exact missed

end

theorem mapAdd_unlimited {map : MapS Data} (unlimited : map.uiCapacity = 0) (memory : Bool) :
    mapAdd jhash map (idtblGetKey id) data MAP_FLAG_DUP_KEY ⟨memory, memory⟩ =
      if (hashFind (mapFuncs jhash) map.hHash (idtblGetKey id)).isSome then
        (map, .alreadyExist)
      else if memory then
        ({ map with hHash := hashAdd (mapFuncs jhash) map.hHash ⟨idtblGetKey id, data⟩ }, .ok)
      else
        (map, .noMemory) := by
  have flags : hasFlag MAP_FLAG_DUP_KEY MAP_FLAG_PERMIT_DUPLICATE = false := by decide
  have notCopied : mapDupKey MAP_FLAG_DUP_KEY (idtblGetKey id) = false := rfl
  cases found : (hashFind (mapFuncs jhash) map.hHash (idtblGetKey id)).isSome with
  | true => simp [mapAdd, mapAddCheck, unlimited, flags, found]
  | false => cases memory <;> simp [mapAdd, mapAddCheck, unlimited, flags, found, notCopied]

section

variable (holds : HashHolds jhash table contents stored)

include holds

theorem HashHolds.add (apart : LowWordApart contents id) (absent : contents id = none) :
    ∃ after, HashHolds jhash ⟨{ table.hash_map with
      hHash := hashAdd (mapFuncs jhash) table.hash_map.hHash ⟨idtblGetKey id, data⟩ }⟩
      (Function.update contents id (some data)) after := by
  classical
  have missed := holds.find_eq_none apart absent
  have others := holds.stores.absent mapFuncs_lawful missed
  have stores : HashStores (mapFuncs jhash)
      (hashAdd (mapFuncs jhash) table.hash_map.hHash ⟨idtblGetKey id, data⟩)
      (insert ⟨idtblGetKey id, data⟩ stored) := holds.stores.add mapFuncs_lawful others
  refine ⟨_, holds.unlimited, stores, ?_, ?_, ?_⟩
  · intro first isFirst other isOther same
    by_cases firstNew : first = id
    · by_cases otherNew : other = id
      · rw [firstNew, otherNew]
      rw [Function.update_of_ne otherNew] at isOther
      rw [firstNew] at same ⊢
      exact apart other isOther same
    rw [Function.update_of_ne firstNew] at isFirst
    by_cases otherNew : other = id
    · rw [otherNew] at same
      exact absurd (apart first isFirst same.symm) firstNew
    · rw [Function.update_of_ne otherNew] at isOther
      exact holds.apart first isFirst other isOther same
  · intro other value held
    rw [Finset.mem_insert]
    by_cases isNew : other = id
    · rw [isNew, Function.update_self] at held
      cases held
      rw [isNew]
      exact .inl rfl
    · rw [Function.update_of_ne isNew] at held
      exact .inr (holds.inside other value held)
  intro ele isStored
  rcases Finset.mem_insert.mp isStored with rfl | isStored
  · exact ⟨id, rfl, Function.update_self ..⟩
  obtain ⟨other, isKey, held⟩ := holds.owned ele isStored
  have isOld : other ≠ id := by
    rintro rfl
    rw [absent] at held
    cases held
  exact ⟨other, isKey, by rw [Function.update_of_ne isOld, held]⟩

theorem HashHolds.del (apart : LowWordApart contents id) :
    ∃ after, HashHolds jhash ⟨mapDel jhash table.hash_map (idtblGetKey id)⟩
      (Function.update contents id none) after := by
  classical
  cases held : contents id with
  | none =>
    have missed := holds.find_eq_none apart held
    have same : mapDel jhash table.hash_map (idtblGetKey id) = table.hash_map := by
      rw [mapDel, missed]
    rw [same, Function.update_eq_self_iff.mpr held.symm]
    exact ⟨stored, holds⟩
  | some data =>
    have isStored := holds.inside id data held
    have stores := (mapDel_stores holds.stores isStored).1
    have limit : (mapDel jhash table.hash_map (idtblGetKey id)).uiCapacity = 0 := by
      rw [mapDel]
      split
      · exact holds.unlimited
      · exact holds.unlimited
    refine ⟨_, limit, stores, ?_, ?_, ?_⟩
    · intro first isFirst other isOther same
      have firstOld : first ≠ id := by
        rintro rfl
        rw [Function.update_self] at isFirst
        cases isFirst
      have otherOld : other ≠ id := by
        rintro rfl
        rw [Function.update_self] at isOther
        cases isOther
      rw [Function.update_of_ne firstOld] at isFirst
      rw [Function.update_of_ne otherOld] at isOther
      exact holds.apart first isFirst other isOther same
    · intro other value kept
      have isOld : other ≠ id := by
        rintro rfl
        rw [Function.update_self] at kept
        cases kept
      rw [Function.update_of_ne isOld] at kept
      refine Finset.mem_erase.mpr ⟨fun equal => isOld ?_, holds.inside other value kept⟩
      apply apart other
      · rw [kept]
        rfl
      · exact (idtblGetKey_eq_iff id other).mp (congrArg MapEle.key equal)
    intro ele isKept
    obtain ⟨differs, inside⟩ := Finset.mem_erase.mp isKept
    obtain ⟨other, isKey, held'⟩ := holds.owned ele inside
    have isOld : other ≠ id := by
      rintro rfl
      rw [held] at held'
      apply differs
      obtain ⟨_, _⟩ := ele
      cases held'
      cases isKey
      rfl
    exact ⟨other, isKey, by rw [Function.update_of_ne isOld, held']⟩

theorem HashHolds.freedOnce :
    FreedOnce contents ((hashWalk table.hash_map.hHash).map MapEle.pData) := by
  choose! idOf isKey held using holds.owned
  have isStored : ∀ ele ∈ hashWalk table.hash_map.hHash, ele ∈ stored := fun ele visited =>
    (holds.stores.mem ele).mp visited
  have isFreed : (hashWalk table.hash_map.hHash).map MapEle.pData =
      ((hashWalk table.hash_map.hHash).map idOf).filterMap contents := by
    rw [filterMap_map, ← filterMap_eq_map]
    apply filterMap_congr
    intro ele visited
    exact (held ele (isStored ele visited)).symm
  rw [isFreed]
  apply FreedOnce.of_cover
  · apply Nodup.of_map idtblGetKey
    have keys := holds.stores.keys_nodup mapFuncs_lawful
    rw [map_map]
    have same : (hashWalk table.hash_map.hHash).map (idtblGetKey ∘ idOf) =
        (hashWalk table.hash_map.hHash).map (mapFuncs jhash).key := by
      apply map_congr_left
      intro ele visited
      exact (isKey ele (isStored ele visited)).symm
    rw [same]
    exact keys
  intro id isSome
  obtain ⟨data, isData⟩ := Option.isSome_iff_exists.mp isSome
  have inside := holds.inside id data isData
  refine mem_map.mpr ⟨_, (holds.stores.mem _).mpr inside, ?_⟩
  apply holds.apart id isSome
  · rw [held _ inside]
    rfl
  · exact (idtblGetKey_eq_iff _ _).mp (isKey _ inside).symm

theorem HashHolds.reset
    (counted : table.hash_map.hHash.uiNodeCount = 0 → ∀ id, contents id = none) :
    ∃ after, HashHolds jhash ⟨mapReset table.hash_map⟩ noContents after := by
  by_cases zero : table.hash_map.hHash.uiNodeCount = 0
  · have same : mapReset table.hash_map = table.hash_map := by
      rw [mapReset, hashDelAllWith, if_pos zero]
    have empty : contents = noContents := funext (counted zero)
    rw [same, ← empty]
    exact ⟨stored, holds⟩
  refine ⟨∅, holds.unlimited, holds.stores.delAll zero, ?_, ?_, ?_⟩
  · intro id isSome
    cases isSome
  · intro id data held
    cases held
  · intro ele inside
    cases inside

end

theorem idtblHashCreate_holds (bucket_num : UINT) :
    HashHolds jhash (idtblHashCreate bucket_num : IdtblHash Data) noContents ∅ := by
  refine ⟨rfl, hashInit_stores _, ?_, ?_, ?_⟩
  · intro id isSome
    cases isSome
  · intro id data held
    cases held
  · intro ele inside
    cases inside

theorem idtblHash_advances {call : IdtblCall Data}
    (holds : ∃ stored, HashHolds jhash table contents stored)
    (met : HashMeets (table, contents) call) :
    Advances (idtblHashFuncs jhash)
      (fun table contents => ∃ stored, HashHolds jhash table contents stored) table contents call := by
  obtain ⟨stored, holds⟩ := holds
  cases call with
  | add id data memory =>
    have apart := met.1
    have allocated := met.2
    have found := holds.get apart
    simp only [Advances, IdtblFuncs.call, idtblHashFuncs, idtblHashAdd,
      mapAdd_unlimited holds.unlimited]
    cases held : contents id with
    | some =>
      have isFound : (hashFind (mapFuncs jhash) table.hash_map.hHash (idtblGetKey id)).isSome := by
        rw [held] at found
        rw [← Option.isSome_map, ← mapGet, found]
        rfl
      refine ⟨table, .status .alreadyExist, by simp [isFound], ?_, stored, ?_⟩
      · simp [IdtblCall.Answers, held]
      · simpa [IdtblCall.leaves, held] using holds
    | none =>
      have isMemory : memory = true := by simpa [held] using allocated
      refine ⟨⟨{ table.hash_map with
        hHash := hashAdd (mapFuncs jhash) table.hash_map.hHash ⟨idtblGetKey id, data⟩ }⟩,
        .status .ok, ?_, ?_, ?_⟩
      · simp [holds.find_eq_none apart held, isMemory]
      · simp [IdtblCall.Answers, held]
      · simp only [IdtblCall.leaves, held]
        exact holds.add apart held
  | get id =>
    refine ⟨table, .data (contents id), ?_, rfl, stored, holds⟩
    simp [IdtblFuncs.call, idtblHashFuncs, idtblHashGet, holds.get met]
  | del id =>
    refine ⟨_, .data (contents id), ?_, rfl, holds.del met⟩
    simp [IdtblFuncs.call, idtblHashFuncs, idtblHashDel, holds.get met]
  | reset free_func =>
    refine ⟨_, .freed ((mapFreed table.hash_map free_func).map .data), rfl, ⟨_, rfl, ?_⟩,
      holds.reset met⟩
    by_cases zero : table.hash_map.hHash.uiNodeCount = 0
    · have empty : contents = noContents := funext (met zero)
      rw [mapFreed, if_pos zero, empty]
      cases free_func with
      | false => rfl
      | true => exact FreedOnce.nothing
    · rw [mapFreed, if_neg zero]
      cases free_func with
      | false => rfl
      | true => exact holds.freedOnce

end MyCode.Idtbl

/-!
## The back ends of id tables

Each back end answers as one map does in all runs that stay away from what it does in its
own way: the array overwrites, the tree and the hash map read the low word of an id, and
the tree releases its nodes.
-/

namespace MyCode.Idtbl

open IdKey

variable {Data Table : Type}

/-- In all runs that stay away from the differences, the back ends answer as one map does. -/
theorem idtbl_agree {max_id : UINT} (sized : ArraySized max_id) (bucket_num : UINT)
    (jhash : List UCHAR → UINT) :
    (∃ ctrl : IdtblArray Data, idtblArrayCreate max_id = some ctrl ∧ ctrl.max_id = max_id ∧
      AnswersWhen idtblArrayFuncs ctrl ArrayMeets) ∧
    AnswersWhen idtblAvlFuncs (idtblAvlCreate : IdtblAvl Data) AvlMeets ∧
    AnswersWhen (idtblHashFuncs jhash) (idtblHashCreate bucket_num : IdtblHash Data) HashMeets := by
  obtain ⟨ctrl, created, isMax, initially⟩ := @idtblArrayCreate_holds Data _ sized
  refine ⟨⟨ctrl, created, isMax, ?_⟩, ?_, ?_⟩
  · exact .of_holds initially fun table contents call => idtblArray_advances
  · exact .of_holds idtblAvlCreate_holds fun table contents call => idtblAvl_advances
  have initially : ∃ stored, HashHolds jhash (idtblHashCreate bucket_num : IdtblHash Data)
      noContents stored := ⟨∅, idtblHashCreate_holds bucket_num⟩
  exact .of_holds initially fun table contents call => idtblHash_advances

def oneNode : IdtblAvl Nat :=
  ⟨.node 1 ⟨5, 7⟩ .nil .nil⟩

theorem idtbl_agree_eight :
    (∃ ctrl : IdtblArray Nat, idtblArrayCreate 8 = some ctrl ∧ ctrl.max_id = 8 ∧
      AnswersWhen idtblArrayFuncs ctrl ArrayMeets) ∧
    (∃ next, idtblAvlFuncs.call oneNode (.add 6 8 true) = some (next, .status .ok)) ∧
    AnswersWhen (idtblHashFuncs fun _ => 0) (idtblHashCreate 4 : IdtblHash Nat) HashMeets := by
  have sized : ArraySized 8 := show 16 + 8 * (8 : UINT).toNat < 2 ^ 32 by decide
  obtain ⟨array, avl, hash⟩ := @idtbl_agree Nat 8 sized 4 fun _ => 0
  refine ⟨array, ?_, hash⟩
  have added : AvlMeets ((idtblAvlCreate : IdtblAvl Nat), noContents) (.add 5 7 true) :=
    ⟨rfl, by decide, by decide⟩
  have reached : (idtblSystem idtblAvlFuncs (idtblAvlCreate : IdtblAvl Nat)).ReachableWhen AvlMeets
      (oneNode, Function.update noContents 5 (some 7)) :=
    .step (.start rfl) added ⟨rfl, _, rfl⟩
  have met : AvlMeets (oneNode, Function.update noContents 5 (some 7)) (.add 6 8 true) :=
    ⟨rfl, by decide, by decide⟩
  obtain ⟨next, result, called, answers⟩ := avl _ reached _ met
  obtain rfl : result = .status .ok := answers
  exact ⟨next, called⟩

def IdtblFuncs.results (funcs : IdtblFuncs Table Data) (table : Table) (calls : List (IdtblCall Data)) :
    Option (List (IdtblResult Data)) :=
  (Lib.runs funcs.call table calls).map Prod.snd

def IdtblCall.Below (bound : UINT64) : IdtblCall Data → Prop
  | add id _ _ => id < bound
  | get id => id < bound
  | del id => id < bound
  | reset _ => True

/-- Adding an id twice, an id with more than 32 bits, ids with the same low word, and a reset. -/
theorem idtbl_differ :
    (∃ ctrl : IdtblArray Nat, idtblArrayCreate 8 = some ctrl ∧
      idtblArrayFuncs.results ctrl [.add 5 1 true, .add 5 2 true, .get 5] =
        some [.status .ok, .status .ok, .data (some 2)] ∧
      idtblAvlFuncs.results (idtblAvlCreate : IdtblAvl Nat) [.add 5 1 true, .add 5 2 true, .get 5] =
        some [.status .ok, .status .alreadyExist, .data (some 1)] ∧
      (idtblHashFuncs fun _ => 0).results (idtblHashCreate 4 : IdtblHash Nat)
          [.add 5 1 true, .add 5 2 true, .get 5] =
        some [.status .ok, .status .alreadyExist, .data (some 1)]) ∧
    idtblAvlFuncs.results (idtblAvlCreate : IdtblAvl Nat) [.add 0x100000005 1 true, .get 0x100000005] =
      some [.status .ok, .data none] ∧
    (idtblHashFuncs fun _ => 0).results (idtblHashCreate 4 : IdtblHash Nat)
        [.add 5 1 true, .add 0x100000005 2 true, .get 0x100000005] =
      some [.status .ok, .status .alreadyExist, .data (some 1)] ∧
    idtblAvlFuncs.results (idtblAvlCreate : IdtblAvl Nat) [.add 5 1 true, .reset true] =
      some [.status .ok, .freed [.node ⟨5, 1⟩]] ∧
    (∃ ctrl : IdtblArray Nat, idtblArrayCreate 0x20000000 = some ctrl ∧
      idtblArrayFuncs.results ctrl [.add 5 1 true] = none) ∧
    (∃ ctrl : IdtblArray Nat, idtblArrayCreate 8 = some ctrl ∧
      ¬ AnswersWhen idtblArrayFuncs ctrl fun state call => call.Below (state.1.max_id.setWidth 64)) ∧
    ¬ AnswersWhen idtblAvlFuncs (idtblAvlCreate : IdtblAvl Nat) (fun _ _ => True) ∧
    ¬ AnswersWhen (idtblHashFuncs fun _ => 0) (idtblHashCreate 4 : IdtblHash Nat) (fun _ _ => True) := by
  refine ⟨⟨_, rfl, by decide, by decide, by decide⟩, by decide, by decide, by decide,
    ⟨_, rfl, by decide⟩, ⟨_, rfl, ?_⟩, ?_, ?_⟩
  · intro agrees
    have below : (5 : UINT64) < (8 : UINT).setWidth 64 := by decide
    have wrong := agrees.second (.add 5 1 true) (.add 5 2 true) below rfl below rfl
    exact absurd (IdtblResult.status.inj wrong) (by decide)
  · intro agrees
    have wrong := agrees.second (.add 0x100000005 1 true) (.get 0x100000005) trivial rfl trivial rfl
    exact absurd (IdtblResult.data.inj wrong) (by decide)
  · intro agrees
    have wrong := agrees.second (.add 5 1 true) (.get 0x100000005) trivial rfl trivial rfl
    exact absurd (IdtblResult.data.inj wrong) (by decide)

end MyCode.Idtbl
