import MyCode.Idtbl

/-!
# Id tables beside a map

The calls of an id table, what a map from ids to data answers to them, and the array, which
answers like this where no id is added twice.
-/

namespace MyCode.Idtbl

open Function BitVec List Nat

variable {Data Table : Type}

inductive IdtblCall (Data : Type) where
  | add (id : UINT64) (data : Data) (memory : Bool)
  | get (id : UINT64)
  | del (id : UINT64)
  | reset (free_func : Bool)

inductive IdtblResult (Data : Type) where
  | status (ret : BsStatus)
  | data (data : Option Data)
  | freed (pointers : List (Freed Data))
  deriving DecidableEq

def IdtblFuncs.call (funcs : IdtblFuncs Table Data) (table : Table) :
    IdtblCall Data → Option (Table × IdtblResult Data)
  | .add id data memory => (funcs.add_func table id data memory).map fun (next, ret) => (next, .status ret)
  | .get id => (funcs.get_func table id).map fun data => (table, .data data)
  | .del id => (funcs.del_func table id).map fun (next, data) => (next, .data data)
  | .reset free_func => (funcs.reset_func table free_func).map fun (next, freed) => (next, .freed freed)

abbrev Contents (Data : Type) := UINT64 → Option Data

def noContents : Contents Data :=
  fun _ => none

def IdtblCall.leaves (contents : Contents Data) : IdtblCall Data → Contents Data
  | add id data _ => if (contents id).isSome then contents else update contents id (some data)
  | get _ => contents
  | del id => update contents id none
  | reset _ => noContents

def FreedOnce (contents : Contents Data) (freed : List Data) : Prop :=
  ∃ ids : List UINT64, ids.Nodup ∧ (∀ id, id ∈ ids ↔ (contents id).isSome) ∧
    freed = ids.filterMap contents

def IdtblCall.Answers (contents : Contents Data) : IdtblCall Data → IdtblResult Data → Prop
  | add id _ _, result => result = .status (if (contents id).isSome then .alreadyExist else .ok)
  | get id, result => result = .data (contents id)
  | del id, result => result = .data (contents id)
  | reset free_func, result => ∃ freed : List Data, result = .freed (freed.map .data) ∧
      if free_func then FreedOnce contents freed else freed = []

/-- The runs of a table beside those of the map. -/
def idtblSystem (funcs : IdtblFuncs Table Data) (start : Table) :
    Lib.System (Table × Contents Data) (IdtblCall Data) where
  start state := state = (start, noContents)
  step state call next := next.2 = call.leaves state.2 ∧
    ∃ result, funcs.call state.1 call = some (next.1, result)

/-- In every run whose calls meet a condition, every call is answered as by the map. -/
def AnswersWhen (funcs : IdtblFuncs Table Data) (start : Table)
    (meets : Table × Contents Data → IdtblCall Data → Prop) : Prop :=
  ∀ state, (idtblSystem funcs start).ReachableWhen meets state → ∀ call, meets state call →
    ∃ next result, funcs.call state.1 call = some (next, result) ∧ call.Answers state.2 result

/-- A call is answered, and the table still holds the contents. -/
def Advances (funcs : IdtblFuncs Table Data) (holds : Table → Contents Data → Prop) (table : Table)
    (contents : Contents Data) (call : IdtblCall Data) : Prop :=
  ∃ next result, funcs.call table call = some (next, result) ∧ call.Answers contents result ∧
    holds next (call.leaves contents)

theorem AnswersWhen.of_holds {funcs : IdtblFuncs Table Data} {start : Table}
    {meets : Table × Contents Data → IdtblCall Data → Prop} {holds : Table → Contents Data → Prop}
    (initially : holds start noContents)
    (advances : ∀ table contents call, holds table contents → meets (table, contents) call →
      Advances funcs holds table contents call) : AnswersWhen funcs start meets := by
  intro state reached call met
  have held : (fun state : Table × Contents Data => holds state.1 state.2) state := by
    apply reached.invariant
    · rintro _ rfl
      exact initially
    rintro ⟨table, contents⟩ call ⟨_, _⟩ held met ⟨rfl, _, called⟩
    obtain ⟨_, _, isOther, -, stillHeld⟩ := advances table contents call held met
    rw [isOther] at called
    cases called
    exact stillHeld
  obtain ⟨next, result, called, answers, -⟩ := advances state.1 state.2 call held met
  exact ⟨next, result, called, answers⟩

theorem AnswersWhen.second {funcs : IdtblFuncs Table Data} {start : Table}
    {meets : Table × Contents Data → IdtblCall Data → Prop} (agrees : AnswersWhen funcs start meets)
    (first second : IdtblCall Data) {middle last : Table} {result answer : IdtblResult Data}
    (met : meets (start, noContents) first) (called : funcs.call start first = some (middle, result))
    (metAgain : meets (middle, first.leaves noContents) second)
    (calledAgain : funcs.call middle second = some (last, answer)) :
    second.Answers (first.leaves noContents) answer := by
  have reached : (idtblSystem funcs start).ReachableWhen meets (middle, first.leaves noContents) :=
    .step (.start rfl) met ⟨rfl, result, called⟩
  obtain ⟨_, _, isCall, answers⟩ := agrees _ reached second metAgain
  rw [calledAgain] at isCall
  cases isCall
  exact answers

theorem FreedOnce.of_cover {contents : Contents Data} {ids : List UINT64} (distinct : ids.Nodup)
    (covers : ∀ id, (contents id).isSome → id ∈ ids) : FreedOnce contents (ids.filterMap contents) := by
  refine ⟨ids.filter fun id => (contents id).isSome, distinct.filter _, fun id => ?_, ?_⟩
  · rw [mem_filter]
    exact ⟨And.right, fun stored => ⟨covers id stored, stored⟩⟩
  rw [filterMap_filter]
  apply filterMap_congr
  intro id _
  cases held : contents id with
  | none => rfl
  | some => rfl

theorem FreedOnce.nothing : FreedOnce (noContents : Contents Data) [] :=
  ⟨[], nodup_nil, fun _ => ⟨nofun, nofun⟩, rfl⟩

/-- No id is added twice, and the ids are below `max_id`. -/
def ArrayMeets (state : IdtblArray Data × Contents Data) : IdtblCall Data → Prop
  | .add id _ _ => state.2 id = none ∧ id < state.1.max_id.setWidth 64
  | _ => True

structure ArrayHolds (ctrl : IdtblArray Data) (contents : Contents Data) : Prop where
  slots : ctrl.data.length = ctrl.max_id.toNat
  data : ∀ id : UINT64, ctrl.data[id.toNat]?.join = contents id

variable {ctrl : IdtblArray Data} {contents : Contents Data} {id : UINT64} {data : Data}

section

variable (holds : ArrayHolds ctrl contents)

include holds

theorem ArrayHolds.bound : id ≥ ctrl.max_id.setWidth 64 ↔ ctrl.data.length ≤ id.toNat := by
  rw [holds.slots, ge_iff_le, le_def, toNat_setWidth]
  omega

theorem ArrayHolds.missing (outside : ctrl.data.length ≤ id.toNat) : contents id = none := by
  rw [← holds.data id, List.getElem?_eq_none outside]
  rfl

theorem ArrayHolds.slot (id : UINT64) (inside : id.toNat < ctrl.data.length) :
    ctrl.data[id.toNat]? = some (contents id) := by
  rw [← holds.data id, List.getElem?_eq_getElem inside]
  rfl

theorem ArrayHolds.set (inside : id.toNat < ctrl.data.length) (slot : Option Data) :
    ArrayHolds { ctrl with data := ctrl.data.set id.toNat slot } (update contents id slot) := by
  refine ⟨by rw [length_set, holds.slots], fun other => ?_⟩
  by_cases same : other = id
  · rw [same, update_self]
    simp [inside]
  have apart : id.toNat ≠ other.toNat := fun equal => same (eq_of_toNat_eq equal.symm)
  rw [update_of_ne same, ← holds.data other]
  simp [getElem?_set_ne apart]

end

def slotIds (max_id : UINT) : List UINT64 :=
  (range max_id.toNat).map (BitVec.ofNat 64)

theorem slotIds_nodup (max_id : UINT) : (slotIds max_id).Nodup := by
  apply Nodup.map_on _ nodup_range
  intro first isFirst second isSecond same
  have equal := congrArg BitVec.toNat same
  rw [mem_range] at isFirst isSecond
  rw [toNat_ofNat, toNat_ofNat] at equal
  omega

theorem ArrayHolds.reduceOption (holds : ArrayHolds ctrl contents) :
    ctrl.data.reduceOption = (slotIds ctrl.max_id).filterMap contents := by
  have isData : ctrl.data = (slotIds ctrl.max_id).map contents := by
    apply ext_getElem
    · rw [holds.slots, slotIds, length_map, length_map, length_range]
    intro i bound _
    have isIndex : (BitVec.ofNat 64 i).toNat = i := by
      rw [toNat_ofNat]
      have slots := holds.slots
      omega
    have slot := holds.slot (BitVec.ofNat 64 i) (by rw [isIndex]; exact bound)
    rw [isIndex, List.getElem?_eq_getElem bound] at slot
    simpa [slotIds] using Option.some.inj slot
  change ctrl.data.filterMap id = _
  rw [isData, filterMap_map]
  rfl

theorem ArrayHolds.freedOnce (holds : ArrayHolds ctrl contents) :
    FreedOnce contents ctrl.data.reduceOption := by
  rw [holds.reduceOption]
  apply FreedOnce.of_cover (slotIds_nodup ctrl.max_id)
  intro id stored
  have inside : id.toNat < ctrl.data.length := by
    by_contra outside
    rw [holds.missing (Nat.le_of_not_lt outside)] at stored
    cases stored
  rw [holds.slots] at inside
  exact mem_map.mpr ⟨id.toNat, mem_range.mpr inside, by simp⟩

theorem idtblArray_advances {call : IdtblCall Data} (holds : ArrayHolds ctrl contents)
    (met : ArrayMeets (ctrl, contents) call) :
    Advances idtblArrayFuncs ArrayHolds ctrl contents call := by
  cases call with
  | add id data =>
    have absent : contents id = none := met.1
    have below := met.2
    have notOut : ¬ id ≥ ctrl.max_id.setWidth 64 := by bv_omega
    have inside : id.toNat < ctrl.data.length := by
      rw [holds.bound] at notOut
      omega
    refine ⟨{ ctrl with data := ctrl.data.set id.toNat (some data) }, .status .ok, ?_, ?_, ?_⟩
    · simp [IdtblFuncs.call, idtblArrayFuncs, idtblArrayAdd, if_neg notOut, if_pos inside]
    · simp only [IdtblCall.Answers, absent]
      rfl
    · simp only [IdtblCall.leaves, absent]
      exact holds.set inside (some data)
  | get id =>
    refine ⟨ctrl, .data (contents id), ?_, rfl, holds⟩
    simp only [IdtblFuncs.call, idtblArrayFuncs, idtblArrayGet]
    split
    · next outside =>
      rw [holds.missing (holds.bound.mp outside)]
      rfl
    next within =>
    rw [holds.bound] at within
    rw [holds.slot id (by omega)]
    rfl
  | del id =>
    simp only [Advances, IdtblFuncs.call, idtblArrayFuncs, idtblArrayDel]
    by_cases outside : id ≥ ctrl.max_id.setWidth 64
    · have missing := holds.missing (holds.bound.mp outside)
      refine ⟨ctrl, .data none, by rw [if_pos outside]; rfl, ?_, ?_⟩
      · rw [IdtblCall.Answers, missing]
      · rw [IdtblCall.leaves, update_eq_self_iff.mpr missing.symm]
        exact holds
    have inside : id.toNat < ctrl.data.length := by
      rw [holds.bound] at outside
      omega
    refine ⟨_, .data (contents id), ?_, rfl, holds.set inside none⟩
    rw [if_neg outside, holds.slot id inside]
    rfl
  | reset free_func =>
    have wide : ¬ ctrl.data.length < ctrl.max_id.toNat := by
      rw [holds.slots]
      exact lt_irrefl _
    have cleared : ArrayHolds { ctrl with
        data := replicate ctrl.max_id.toNat none ++ ctrl.data.drop ctrl.max_id.toNat }
        noContents := by
      rw [← holds.slots, drop_length, append_nil]
      refine ⟨by simp [holds.slots], fun other => ?_⟩
      rw [getElem?_replicate]
      split <;> rfl
    have whole : ctrl.data.take ctrl.max_id.toNat = ctrl.data := by
      rw [← holds.slots, take_length]
    simp only [Advances, IdtblFuncs.call, idtblArrayFuncs, idtblArrayReset, idtblArrayDeleteAll]
    cases free_func with
    | false =>
      refine ⟨_, .freed [], ?_, ⟨[], rfl, rfl⟩, cleared⟩
      simp [wide]
    | true =>
      refine ⟨_, .freed (ctrl.data.reduceOption.map .data), ?_, ⟨_, rfl, holds.freedOnce⟩, cleared⟩
      simp [wide, whole]

def ArraySized (max_id : UINT) : Prop :=
  16 + 8 * max_id.toNat < 2 ^ 32

theorem idtblArrayCreate_holds {max_id : UINT} (sized : ArraySized max_id) :
    ∃ ctrl : IdtblArray Data, idtblArrayCreate max_id = some ctrl ∧ ctrl.max_id = max_id ∧
      ArrayHolds ctrl noContents := by
  have size : (idtblArraySize max_id).toNat = 16 + 8 * max_id.toNat := by
    rw [ArraySized] at sized
    rw [idtblArraySize]
    bv_omega
  have large : ¬ idtblArraySize max_id < 16 := by
    rw [lt_def, size]
    exact not_lt.mpr (le_add_right 16 _)
  refine ⟨⟨max_id, replicate max_id.toNat none⟩, ?_, rfl, length_replicate, fun id => ?_⟩
  · rw [idtblArrayCreate, if_neg large, size, Nat.add_sub_cancel_left,
      Nat.mul_div_cancel_left _ (by decide)]
  · rw [getElem?_replicate]
    split <;> rfl

end MyCode.Idtbl
