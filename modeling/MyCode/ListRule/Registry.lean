import MyCode.ListRule.Heads

/-!
# The registry of rule lists

`list_rule.c`: a context owns lists through the heads of its pool.  A list that
`ListRule_CreateList` or `ListRule_DetachList` returned belongs to the caller
until it is attached.  The library does not look for a name before it adds a
list under it; its callers do, or add the new list first and delete the old
one of the name afterwards.
-/

namespace MyCode.ListRule

open Nap LBitMap List Option Function

variable {other : Nat}

inductive BsActionE where
  | undef
  | deny
  | permit
  deriving DecidableEq, Repr

structure ListRuleListS where
  list_name : List UCHAR
  default_action : BsActionE
  list_id : UINT
  uiRefCount : UINT
  deriving DecidableEq, Repr

def listRuleListNameSize : Nat := 64

/-- `pstListRule` is what the heads point to, and `lists` the memory of lists by address. -/
structure ListRuleCtrlS where
  hListNap : NapHead
  pstListRule : NapNode → Option Nat
  lists : Nat → ListRuleListS

section Operations

variable (ctx : ListRuleCtrlS)

/-- `strlcpy` keeps what fits before the final zero. -/
def newList (list_name : List UCHAR) : ListRuleListS :=
  ⟨list_name.take (listRuleListNameSize - 1), .undef, 0, 0⟩

/-- `address` is the memory of the list. -/
def listRuleCreateList (address : Nat) (list_name : List UCHAR) : ListRuleCtrlS :=
  { ctx with lists := update ctx.lists address (newList list_name) }

def setListID (list : Nat) (list_id : UINT) : ListRuleCtrlS :=
  { ctx with lists := update ctx.lists list { ctx.lists list with list_id := list_id } }

def listRuleAttachList (alloc : NodeAlloc) (address : Option Nat) (list : Nat) : ListRuleCtrlS × UINT :=
  match napAlloc ctx.hListNap alloc address with
  | (hListNap, none) => ({ ctx with hListNap := hListNap }, 0)
  | (hListNap, some pstListHead) =>
    let list_id := hListNap.ulID pstListHead
    (setListID { ctx with
      hListNap := hListNap
      pstListRule := update ctx.pstListRule pstListHead (some list) } list list_id, list_id)

def freeHead (pstListHead : NapNode) : ListRuleCtrlS :=
  { ctx with
    hListNap := napFree ctx.hListNap pstListHead
    pstListRule := update ctx.pstListRule pstListHead none }

def findHead (list_id : UINT) : ListRuleCtrlS × Option NapNode :=
  let (hListNap, pstListHead) := napGetNodeByID ctx.hListNap list_id
  ({ ctx with hListNap := hListNap }, pstListHead)

def listRuleDetachList (list_id : UINT) : ListRuleCtrlS × Option Nat :=
  match findHead ctx list_id with
  | (ctx, none) => (ctx, none)
  | (ctx, some pstListHead) =>
    match ctx.pstListRule pstListHead with
    | none => (freeHead ctx pstListHead, none)
    | some list => (setListID (freeHead ctx pstListHead) list napInvalidId, some list)

/-- `memory` is the memory of the list, if there is any. -/
def listRuleAddList (alloc : NodeAlloc) (address memory : Option Nat) (list_name : List UCHAR) :
    ListRuleCtrlS × UINT :=
  match memory with
  | none => (ctx, napInvalidId)
  | some list => listRuleAttachList (listRuleCreateList ctx list list_name) alloc address list

def listRuleDelListID (uiListID : UINT) : ListRuleCtrlS :=
  match findHead ctx uiListID with
  | (ctx, none) => ctx
  | (ctx, some pstListHead) => freeHead ctx pstListHead

def listRuleDelList (list : Nat) : ListRuleCtrlS :=
  listRuleDelListID ctx (ctx.lists list).list_id

def listRuleGetListByID (uiListID : UINT) : ListRuleCtrlS × Option Nat :=
  match findHead ctx uiListID with
  | (ctx, none) => (ctx, none)
  | (ctx, some pstListHead) => (ctx, ctx.pstListRule pstListHead)

/-- The identifier of the new list stays what it is. -/
def listRuleReplaceList (uiListID : UINT) (pstListNew : Nat) : ListRuleCtrlS × BsStatus :=
  match findHead ctx uiListID with
  | (ctx, none) => (ctx, .notFound)
  | (ctx, some pstListHead) =>
    let lists := match ctx.pstListRule pstListHead with
      | none => ctx.lists
      | some pstListOld => update ctx.lists pstListNew
          { ctx.lists pstListNew with
            uiRefCount := (ctx.lists pstListOld).uiRefCount
            default_action := (ctx.lists pstListOld).default_action }
    ({ ctx with
      pstListRule := update ctx.pstListRule pstListHead (some pstListNew)
      lists := lists }, .ok)

/-- `ListRule_IncListRef` and `ListRule_DecListRef`. -/
def changeListRef (change : UINT → UINT) (uiListID : UINT) : ListRuleCtrlS × BsStatus :=
  match listRuleGetListByID ctx uiListID with
  | (ctx, none) => (ctx, .notFound)
  | (ctx, some pstList) =>
    ({ ctx with
      lists := update ctx.lists pstList
        { ctx.lists pstList with uiRefCount := change (ctx.lists pstList).uiRefCount } }, .ok)

def listRuleIncListRef (uiListID : UINT) : ListRuleCtrlS × BsStatus :=
  changeListRef ctx (fun uiRefCount => uiRefCount + 1) uiListID

def listRuleDecListRef (uiListID : UINT) : ListRuleCtrlS × BsStatus :=
  changeListRef ctx (fun uiRefCount => uiRefCount - 1) uiListID

end Operations

def Owns (ctx : ListRuleCtrlS) (list : Nat) : Prop :=
  ∃ pstListHead, ctx.pstListRule pstListHead = some list

/-- Owned lists are found by their identifiers, which are distinct, and have distinct names
if `named`. -/
structure Registered (named : Bool) (ctx : ListRuleCtrlS) : Prop where
  byID : ∀ list, Owns ctx list →
    (listRuleGetListByID ctx (ctx.lists list).list_id).2 = some list
  ids : ∀ first second, Owns ctx first → Owns ctx second →
    (ctx.lists first).list_id = (ctx.lists second).list_id → first = second
  names : named = true → ∀ first second, Owns ctx first → Owns ctx second →
    (ctx.lists first).list_name = (ctx.lists second).list_name → first = second

structure RegistryOk (named : Bool) (ctx : ListRuleCtrlS) (live : List NapNode) : Prop where
  heads : HeadsOk ctx.hListNap live
  held : ∀ n, n ∈ live ↔ ctx.pstListRule n ≠ none
  apart : ∀ m n list, ctx.pstListRule m = some list → ctx.pstListRule n = some list → m = n
  ids : ∀ n list, ctx.pstListRule n = some list → (ctx.lists list).list_id = ctx.hListNap.ulID n
  names : named = true → ∀ first second, Owns ctx first → Owns ctx second →
    (ctx.lists first).list_name = (ctx.lists second).list_name → first = second

variable {named : Bool} {ctx : ListRuleCtrlS} {live : List NapNode} {n : NapNode} {list : Nat}

section

variable (ok : RegistryOk named ctx live)

include ok

theorem RegistryOk.live_of (points : ctx.pstListRule n = some list) : n ∈ live :=
  (ok.held n).mpr (by rw [points]; exact some_ne_none _)

theorem RegistryOk.getListByID (points : ctx.pstListRule n = some list) :
    (listRuleGetListByID ctx (ctx.hListNap.ulID n)).2 = some list := by
  have found := (ok.heads.slotted.getNodeByID (ctx.hListNap.ulID n)).mpr ⟨ok.live_of points, rfl⟩
  simp [listRuleGetListByID, findHead, found, points]

theorem RegistryOk.registered : Registered named ctx := by
  constructor
  · rintro list ⟨n, points⟩
    rw [ok.ids n list points]
    exact ok.getListByID points
  · rintro first second ⟨m, isFirst⟩ ⟨n, isSecond⟩ same
    rw [ok.ids m first isFirst, ok.ids n second isSecond] at same
    have sameHead := ok.heads.slotted.eq_of_id (ok.live_of isFirst) (ok.live_of isSecond) same
    rw [sameHead, isSecond] at isFirst
    exact (some.inj isFirst).symm
  · exact ok.names

theorem RegistryOk.findHead (list_id : UINT) : RegistryOk named (findHead ctx list_id).1 live := by
  obtain ⟨heads, sameIDs⟩ := ok.heads.lookup list_id
  exact { ok with
    heads := heads
    ids := fun n list points => (ok.ids n list points).trans (congrFun sameIDs n).symm }

end

theorem findHead_fields (ctx : ListRuleCtrlS) (list_id : UINT) :
    (findHead ctx list_id).1.pstListRule = ctx.pstListRule ∧
      (findHead ctx list_id).1.lists = ctx.lists :=
  ⟨rfl, rfl⟩

variable (ok : RegistryOk named ctx live)

section

include ok

theorem RegistryOk.found_live {list_id : UINT}
    (found : (ListRule.findHead ctx list_id).2 = some n) : n ∈ live :=
  ((ok.heads.slotted.getNodeByID list_id).mp found).1

theorem RegistryOk.update {changed : ListRuleListS}
    (sameID : changed.list_id = (ctx.lists list).list_id)
    (sameName : changed.list_name = (ctx.lists list).list_name) :
    RegistryOk named { ctx with lists := update ctx.lists list changed } live := by
  have ids (other : Nat) : (Function.update ctx.lists list changed other).list_id =
      (ctx.lists other).list_id := by
    by_cases same : other = list
    · subst same
      rw [update_self, sameID]
    · rw [update_of_ne same]
  have names (other : Nat) : (Function.update ctx.lists list changed other).list_name =
      (ctx.lists other).list_name := by
    by_cases same : other = list
    · subst same
      rw [update_self, sameName]
    · rw [update_of_ne same]
  exact { ok with
    ids := fun n other points => (ids other).trans (ok.ids n other points)
    names := by
      intro isNamed first second isFirst isSecond same
      rw [names, names] at same
      exact ok.names isNamed first second isFirst isSecond same }

theorem RegistryOk.updateLoose (loose : ¬ Owns ctx list) (changed : ListRuleListS) :
    RegistryOk named { ctx with lists := Function.update ctx.lists list changed } live := by
  have kept (other : Nat) (isOwned : Owns ctx other) :
      Function.update ctx.lists list changed other = ctx.lists other := by
    apply update_of_ne
    rintro rfl
    exact loose isOwned
  exact { ok with
    ids := by
      intro n other points
      change (Function.update ctx.lists list changed other).list_id = _
      rw [kept other ⟨n, points⟩]
      exact ok.ids n other points
    names := by
      intro isNamed first second isFirst isSecond same
      change (Function.update ctx.lists list changed first).list_name =
        (Function.update ctx.lists list changed second).list_name at same
      rw [kept first isFirst, kept second isSecond] at same
      exact ok.names isNamed first second isFirst isSecond same }

end

theorem freeHead_points {m : NapNode} (points : (freeHead ctx n).pstListRule m = some other) :
    ctx.pstListRule m = some other := by
  change update ctx.pstListRule n none m = some other at points
  by_cases same : m = n
  · rw [same, update_self] at points
    cases points
  · rwa [update_of_ne same] at points

theorem owns_freeHead (owns : Owns (freeHead ctx n) other) : Owns ctx other :=
  owns.imp fun _ points => freeHead_points points

include ok in
theorem RegistryOk.freeHead (inside : n ∈ live) :
    RegistryOk named (freeHead ctx n) (live.erase n) := by
  have nodup : live.Nodup := ok.heads.distinct.imp fun different same => different (by rw [same])
  exact {
    heads := ok.heads.free inside
    held := by
      intro m
      rw [nodup.mem_erase_iff, ok.held m]
      by_cases same : m = n
      · simp [ListRule.freeHead, same]
      · simp [ListRule.freeHead, same]
    apart := fun m k list first second => ok.apart m k list (freeHead_points first) (freeHead_points second)
    ids := fun m list isList => ok.ids m list (freeHead_points isList)
    names := fun isNamed first second isFirst isSecond =>
      ok.names isNamed first second (owns_freeHead isFirst) (owns_freeHead isSecond) }

include ok in
theorem RegistryOk.attachList (loose : ¬ Owns ctx list)
    (fresh : named = true → ∀ other, Owns ctx other →
      (ctx.lists other).list_name ≠ (ctx.lists list).list_name)
    (alloc : NodeAlloc) (address : Option Nat) :
    ((listRuleAttachList ctx alloc address list).2 = 0 ∧
        (listRuleAttachList ctx alloc address list).1.pstListRule = ctx.pstListRule ∧
        RegistryOk named (listRuleAttachList ctx alloc address list).1 live) ∨
      ∃ head, (listRuleAttachList ctx alloc address list).2 ≠ 0 ∧
        (listRuleAttachList ctx alloc address list).1.pstListRule =
          Function.update ctx.pstListRule head (some list) ∧
        RegistryOk named (listRuleAttachList ctx alloc address list).1 (head :: live) := by
  have allocated := ok.heads.alloc alloc address
  unfold listRuleAttachList
  cases got : napAlloc ctx.hListNap alloc address with
  | mk hListNap =>
    rw [got] at allocated
    cases allocated with
    | failed heads sameIDs =>
      refine .inl ⟨rfl, rfl, { ok with
        heads := heads
        ids := fun n other points => (ok.ids n other points).trans (congrFun sameIDs n).symm }⟩
    | @taken _ head heads _ sameIDs =>
      refine .inr ⟨head, heads.valid mem_cons_self, rfl, ?_⟩
      have points (m : NapNode) (other : Nat)
          (isList : Function.update ctx.pstListRule head (some list) m = some other) :
          m = head ∧ other = list ∨ m ≠ head ∧ ctx.pstListRule m = some other := by
        by_cases same : m = head
        · rw [same, update_self] at isList
          exact .inl ⟨same, (some.inj isList).symm⟩
        · rw [update_of_ne same] at isList
          exact .inr ⟨same, isList⟩
      have kept (m : NapNode) (other : Nat) (isList : ctx.pstListRule m = some other) (changed : ListRuleListS) :
          Function.update ctx.lists list changed other = ctx.lists other := by
        apply update_of_ne
        rintro rfl
        exact loose ⟨m, isList⟩
      exact {
        heads := heads
        held := by
          intro m
          by_cases same : m = head
          · simp [setListID, same]
          · simp [setListID, same, ok.held m]
        apart := by
          intro m k other isFirst isSecond
          rcases points m other isFirst with ⟨rfl, rfl⟩ | ⟨-, first⟩
          · rcases points k _ isSecond with ⟨rfl, -⟩ | ⟨-, second⟩
            · rfl
            · exact absurd ⟨k, second⟩ loose
          · rcases points k other isSecond with ⟨rfl, rfl⟩ | ⟨-, second⟩
            · exact absurd ⟨m, first⟩ loose
            · exact ok.apart m k other first second
        ids := by
          intro m other isList
          rcases points m other isList with ⟨rfl, rfl⟩ | ⟨-, first⟩
          · simp [setListID]
          have same := kept m other first { ctx.lists list with list_id := hListNap.ulID head }
          change (Function.update ctx.lists list _ other).list_id = hListNap.ulID m
          rw [same, sameIDs m (ok.live_of first)]
          exact ok.ids m other first
        names := by
          rintro isNamed first second ⟨m, isFirst⟩ ⟨k, isSecond⟩ same
          change (Function.update ctx.lists list _ first).list_name =
            (Function.update ctx.lists list _ second).list_name at same
          rcases points m first isFirst with ⟨rfl, rfl⟩ | ⟨-, ofFirst⟩
          · rcases points k second isSecond with ⟨-, rfl⟩ | ⟨-, ofSecond⟩
            · rfl
            · rw [kept k second ofSecond, update_self] at same
              exact absurd same.symm (fresh isNamed second ⟨k, ofSecond⟩)
          rcases points k second isSecond with ⟨-, rfl⟩ | ⟨-, ofSecond⟩
          · rw [kept m first ofFirst, update_self] at same
            exact absurd same (fresh isNamed first ⟨m, ofFirst⟩)
          · rw [kept m first ofFirst, kept k second ofSecond] at same
            exact ok.names isNamed first second ⟨m, ofFirst⟩ ⟨k, ofSecond⟩ same }

structure State where
  ctx : ListRuleCtrlS
  loose : List Nat

inductive Operation where
  | createList (address : Nat) (list_name : List UCHAR)
  | destroyList (list : Nat)
  | addList (alloc : NodeAlloc) (address memory : Option Nat) (list_name : List UCHAR)
  | attachList (alloc : NodeAlloc) (address : Option Nat) (list : Nat)
  | detachList (list_id : UINT)
  | delListID (uiListID : UINT)
  | delList (list : Nat)
  | replaceList (uiListID : UINT) (pstListNew : Nat)
  | incListRef (uiListID : UINT)
  | decListRef (uiListID : UINT)

def next (state : State) : Operation → State
  | .createList address list_name => ⟨listRuleCreateList state.ctx address list_name, address :: state.loose⟩
  | .destroyList list => ⟨state.ctx, state.loose.filter (· ≠ list)⟩
  | .addList alloc address memory list_name =>
    ⟨(listRuleAddList state.ctx alloc address memory list_name).1, state.loose⟩
  | .attachList alloc address list =>
    let (ctx, list_id) := listRuleAttachList state.ctx alloc address list
    ⟨ctx, if list_id = 0 then state.loose else state.loose.filter (· ≠ list)⟩
  | .detachList list_id =>
    match listRuleDetachList state.ctx list_id with
    | (ctx, none) => ⟨ctx, state.loose⟩
    | (ctx, some list) => ⟨ctx, list :: state.loose⟩
  | .delListID uiListID => ⟨listRuleDelListID state.ctx uiListID, state.loose⟩
  | .delList list => ⟨listRuleDelList state.ctx list, state.loose⟩
  | .replaceList uiListID pstListNew =>
    match listRuleReplaceList state.ctx uiListID pstListNew with
    | (ctx, .ok) => ⟨ctx, state.loose.filter (· ≠ pstListNew)⟩
    | (ctx, _) => ⟨ctx, state.loose⟩
  | .incListRef uiListID => ⟨(listRuleIncListRef state.ctx uiListID).1, state.loose⟩
  | .decListRef uiListID => ⟨(listRuleDecListRef state.ctx uiListID).1, state.loose⟩

/-- Memory that is allocated is no list's, and callers attach and destroy what is theirs. -/
def Ready (state : State) : Operation → Prop
  | .createList address _ => address ∉ state.loose ∧ ¬ Owns state.ctx address
  | .addList _ _ memory _ => ∀ list, memory = some list → list ∉ state.loose ∧ ¬ Owns state.ctx list
  | .destroyList list | .attachList _ _ list | .replaceList _ list => list ∈ state.loose
  | .delList list => list ∈ state.loose ∨ Owns state.ctx list
  | .detachList _ | .delListID _ | .incListRef _ | .decListRef _ => True

def listRuleSystem (needBits : UINT → Nat) : Lib.System State Operation where
  start state := ∃ memory ulID hListNap lists,
    napCreate needBits memory ulID ⟨.hash, 0⟩ = some hListNap ∧
      state = ⟨⟨hListNap, fun _ => none, lists⟩, []⟩
  step state operation after := Ready state operation ∧ after = next state operation

/-- No list is replaced, and if `named` lists come under names that no owned list has. -/
def Admissible (named : Bool) (state : State) : Operation → Prop
  | .addList _ _ _ list_name =>
    named = true → ∀ other, Owns state.ctx other →
      (state.ctx.lists other).list_name ≠ (newList list_name).list_name
  | .attachList _ _ list =>
    named = true → ∀ other, Owns state.ctx other →
      (state.ctx.lists other).list_name ≠ (state.ctx.lists list).list_name
  | .replaceList uiListID _ => (findHead state.ctx uiListID).2 = none
  | _ => True

structure StateOk (named : Bool) (state : State) : Prop where
  registry : ∃ live, RegistryOk named state.ctx live
  loose : ∀ list ∈ state.loose, ¬ Owns state.ctx list

variable {state : State} {operation : Operation} {needBits : UINT → Nat}

theorem owns_update {pstListRule : NapNode → Option Nat} {head : NapNode}
    (owns : ∃ n, update pstListRule head (some list) n = some other) :
    other = list ∨ ∃ n, pstListRule n = some other := by
  obtain ⟨n, points⟩ := owns
  by_cases same : n = head
  · rw [same, update_self] at points
    exact .inl (some.inj points).symm
  · rw [update_of_ne same] at points
    exact .inr ⟨n, points⟩

section

include ok

theorem RegistryOk.detachList (list_id : UINT) :
    (∃ after, RegistryOk named (listRuleDetachList ctx list_id).1 after) ∧
      (∀ other, Owns (listRuleDetachList ctx list_id).1 other → Owns ctx other) ∧
      ∀ list, (listRuleDetachList ctx list_id).2 = some list →
        ¬ Owns (listRuleDetachList ctx list_id).1 list := by
  have looked := ok.findHead list_id
  have isLive := fun n => @RegistryOk.found_live named ctx live n ok list_id
  obtain ⟨samePoints, -⟩ := findHead_fields ctx list_id
  unfold listRuleDetachList
  generalize ListRule.findHead ctx list_id = result at looked isLive samePoints
  obtain ⟨found, head⟩ := result
  cases head with
  | none =>
    refine ⟨⟨live, looked⟩, fun other owns => ?_, nofun⟩
    rwa [Owns, samePoints] at owns
  | some n =>
    have inside := isLive n rfl
    have freed := looked.freeHead inside
    obtain ⟨list, points⟩ : ∃ list, found.pstListRule n = some list :=
      ne_none_iff_exists'.mp ((looked.held n).mp inside)
    have loose : ¬ Owns (ListRule.freeHead found n) list := by
      rintro ⟨m, isList⟩
      have sameHead := looked.apart m n list (freeHead_points isList) points
      change Function.update found.pstListRule n none m = some list at isList
      rw [sameHead, update_self] at isList
      cases isList
    simp only [points]
    refine ⟨⟨_, freed.updateLoose loose _⟩, fun other owns => ?_, ?_⟩
    · have before := owns_freeHead owns
      rwa [Owns, samePoints] at before
    · rintro _ ⟨⟩
      exact loose

theorem RegistryOk.delListID (uiListID : UINT) :
    (∃ after, RegistryOk named (listRuleDelListID ctx uiListID) after) ∧
      ∀ other, Owns (listRuleDelListID ctx uiListID) other → Owns ctx other := by
  have looked := ok.findHead uiListID
  have isLive := fun n => @RegistryOk.found_live named ctx live n ok uiListID
  obtain ⟨samePoints, -⟩ := findHead_fields ctx uiListID
  unfold listRuleDelListID
  generalize ListRule.findHead ctx uiListID = result at looked isLive samePoints
  obtain ⟨found, head⟩ := result
  cases head with
  | none =>
    refine ⟨⟨live, looked⟩, fun other owns => ?_⟩
    rwa [Owns, samePoints] at owns
  | some n =>
    refine ⟨⟨_, looked.freeHead (isLive n rfl)⟩, fun other owns => ?_⟩
    have before := owns_freeHead owns
    rwa [Owns, samePoints] at before

theorem RegistryOk.changeListRef (change : UINT → UINT) (uiListID : UINT) :
    RegistryOk named (changeListRef ctx change uiListID).1 live ∧
      (changeListRef ctx change uiListID).1.pstListRule = ctx.pstListRule := by
  have looked := ok.findHead uiListID
  obtain ⟨samePoints, -⟩ := findHead_fields ctx uiListID
  unfold ListRule.changeListRef listRuleGetListByID
  generalize ListRule.findHead ctx uiListID = result at looked samePoints
  obtain ⟨found, head⟩ := result
  cases head with
  | none => exact ⟨looked, samePoints⟩
  | some n =>
    simp only
    cases found.pstListRule n with
    | none => exact ⟨looked, samePoints⟩
    | some => exact ⟨looked.update rfl rfl, samePoints⟩

end

theorem StateOk.changeListRef (ok : StateOk named state) (change : UINT → UINT) (uiListID : UINT) :
    StateOk named ⟨(ListRule.changeListRef state.ctx change uiListID).1, state.loose⟩ := by
  obtain ⟨live, registry⟩ := ok.registry
  obtain ⟨changed, samePoints⟩ := registry.changeListRef change uiListID
  refine ⟨⟨live, changed⟩, fun list isLoose owns => ?_⟩
  apply ok.loose list isLoose
  rwa [Owns, samePoints] at owns

theorem StateOk.attachList (ok : StateOk named state) {loose : List Nat}
    (notOwned : ¬ Owns state.ctx list)
    (fresh : named = true → ∀ other, Owns state.ctx other → (state.ctx.lists other).list_name ≠ (state.ctx.lists list).list_name)
    (alloc : NodeAlloc) (address : Option Nat) (still : ∀ other ∈ loose, other ∈ state.loose)
    (given : (listRuleAttachList state.ctx alloc address list).2 ≠ 0 → list ∉ loose) :
    StateOk named ⟨(listRuleAttachList state.ctx alloc address list).1, loose⟩ := by
  obtain ⟨live, registry⟩ := ok.registry
  rcases registry.attachList notOwned fresh alloc address with
    ⟨-, samePoints, kept⟩ | ⟨_, valid, points, taken⟩
  · refine ⟨⟨live, kept⟩, fun other isLoose owns => ?_⟩
    apply ok.loose other (still other isLoose)
    rwa [Owns, samePoints] at owns
  refine ⟨⟨_, taken⟩, fun other isLoose owns => ?_⟩
  rw [Owns, points] at owns
  rcases owns_update owns with rfl | before
  · exact given valid isLoose
  · exact ok.loose other (still other isLoose) before

theorem StateOk.next (ok : StateOk named state) (ready : Ready state operation)
    (admissible : Admissible named state operation) : StateOk named (next state operation) := by
  obtain ⟨live, registry⟩ := ok.registry
  cases operation with
  | createList =>
    refine ⟨⟨live, registry.updateLoose ready.2 _⟩, ?_⟩
    intro list isLoose
    rcases mem_cons.mp isLoose with rfl | old
    · exact ready.2
    · exact ok.loose list old
  | destroyList =>
    exact ⟨⟨live, registry⟩, fun other isLoose => ok.loose other (mem_filter.mp isLoose).1⟩
  | addList alloc address memory list_name =>
    cases memory with
    | none => exact ok
    | some list =>
      obtain ⟨notLoose, notOwned⟩ := ready list rfl
      have created : StateOk named ⟨listRuleCreateList state.ctx list list_name, state.loose⟩ :=
        ⟨⟨live, registry.updateLoose notOwned _⟩, ok.loose⟩
      apply StateOk.attachList created notOwned _ alloc address (fun _ isLoose => isLoose)
      · exact fun _ => notLoose
      intro isNamed other isOwned
      have isOther : other ≠ list := by
        rintro rfl
        exact notOwned isOwned
      have free := admissible isNamed other isOwned
      simpa [listRuleCreateList, update_of_ne isOther] using free
  | attachList alloc address list =>
    have notOwned := ok.loose list ready
    have still (list_id : UINT) : ∀ other ∈ if list_id = 0 then state.loose
        else state.loose.filter (· ≠ list), other ∈ state.loose := by
      intro other isLoose
      split at isLoose
      · exact isLoose
      · exact (mem_filter.mp isLoose).1
    have given (list_id : UINT) (valid : list_id ≠ 0) : list ∉ if list_id = 0 then state.loose
        else state.loose.filter (· ≠ list) := by
      rw [if_neg valid]
      simp
    exact ok.attachList notOwned admissible alloc address (still _) (given _)
  | detachList list_id =>
    obtain ⟨after, still, loose⟩ := registry.detachList list_id
    rw [ListRule.next]
    generalize listRuleDetachList state.ctx list_id = result at after still loose
    obtain ⟨_, found⟩ := result
    cases found with
    | none => exact ⟨after, fun other isLoose owns => ok.loose other isLoose (still other owns)⟩
    | some =>
      refine ⟨after, fun other isLoose owns => ?_⟩
      rcases mem_cons.mp isLoose with rfl | old
      · exact loose other rfl owns
      · exact ok.loose other old (still other owns)
  | delListID uiListID =>
    obtain ⟨after, still⟩ := registry.delListID uiListID
    exact ⟨after, fun other isLoose owns => ok.loose other isLoose (still other owns)⟩
  | delList list =>
    obtain ⟨after, still⟩ := registry.delListID (state.ctx.lists list).list_id
    exact ⟨after, fun other isLoose owns => ok.loose other isLoose (still other owns)⟩
  | replaceList uiListID =>
    have looked := registry.findHead uiListID
    have missing : (findHead state.ctx uiListID).2 = none := admissible
    rw [ListRule.next, listRuleReplaceList]
    generalize found : ListRule.findHead state.ctx uiListID = result at looked missing
    obtain ⟨after, head⟩ := result
    subst missing
    have samePoints := (findHead_fields state.ctx uiListID).1
    rw [found] at samePoints
    refine ⟨⟨live, looked⟩, fun other isLoose owns => ?_⟩
    apply ok.loose other isLoose
    change ∃ n, after.pstListRule n = some other at owns
    rwa [samePoints] at owns
  | incListRef uiListID => exact ok.changeListRef _ uiListID
  | decListRef uiListID => exact ok.changeListRef _ uiListID

/-- In runs that replace no list the identifiers of owned lists lead to them. -/
theorem listRule_registered (needs : NeedBitsOk needBits)
    (reached : (listRuleSystem needBits).ReachableWhen (Admissible named) state) :
    Registered named state.ctx := by
  have ok : StateOk named state := by
    apply Lib.System.ReachableWhen.invariant _ _ reached
    · rintro _ ⟨_, _, _, _, created, rfl⟩
      refine ⟨⟨[], ?_⟩, fun list isLoose => (not_mem_nil isLoose).elim⟩
      exact {
        heads := headsOk_create needs created
        held := fun n => by simp
        apart := nofun
        ids := nofun
        names := nofun }
    · rintro _ _ _ ok admissible ⟨ready, rfl⟩
      exact ok.next ready admissible
  obtain ⟨_, registry⟩ := ok.registry
  exact registry.registered

theorem exampleNap_created : (napCreate bitsOf (fun _ => none) (fun _ => 0) ⟨.hash, 0⟩).isSome := by
  decide +kernel

def exampleStart : State :=
  ⟨⟨(napCreate bitsOf (fun _ => none) (fun _ => 0) ⟨.hash, 0⟩).get exampleNap_created,
    fun _ => none, fun _ => newList []⟩, []⟩

theorem exampleStart_start : (listRuleSystem bitsOf).start exampleStart :=
  ⟨fun _ => none, fun _ => 0, _, _, (some_get exampleNap_created).symm, rfl⟩

/-- The list of name `a` at address 1. -/
def exampleAdded : State :=
  next exampleStart (.addList (fun _ => true) (some 100) (some 1) [97])

theorem exampleAdded_reached {guard : State → Operation → Prop}
    (admissible : guard exampleStart (.addList (fun _ => true) (some 100) (some 1) [97])) :
    (listRuleSystem bitsOf).ReachableWhen guard exampleAdded := by
  refine .step (.start exampleStart_start) admissible ⟨?_, rfl⟩
  rintro - -
  exact ⟨not_mem_nil, nofun⟩

theorem exampleAdded_owns (owns : Owns exampleAdded.ctx other) : other = 1 := by
  exact (owns_update owns).resolve_right nofun

theorem listRule_registered_referenced :
    Registered true (next exampleAdded (.incListRef 0x80000000)).ctx := by
  apply listRule_registered bitsOf_ok
  have added := @exampleAdded_reached (Admissible true) nofun
  have admissible : Admissible true exampleAdded (.incListRef 0x80000000) := trivial
  exact added.step admissible ⟨trivial, rfl⟩

/-- Two lists of one name, and a list that replaces another and keeps the identifier 0. -/
theorem listRule_unregistered :
    (∃ state, (listRuleSystem bitsOf).Reachable state ∧ Owns state.ctx 1 ∧ Owns state.ctx 2 ∧
        (state.ctx.lists 1).list_name = (state.ctx.lists 2).list_name) ∧
      ∃ state, (listRuleSystem bitsOf).Reachable state ∧ Owns state.ctx 2 ∧
        (state.ctx.lists 2).list_id = 0 ∧ (listRuleGetListByID state.ctx 0).2 = none := by
  have added : (listRuleSystem bitsOf).Reachable exampleAdded := exampleAdded_reached trivial
  have free : 2 ∉ exampleAdded.loose ∧ ¬ Owns exampleAdded.ctx 2 :=
    ⟨not_mem_nil, fun owns => absurd (exampleAdded_owns owns) (by decide)⟩
  constructor
  · refine ⟨next exampleAdded (.addList (fun _ => true) (some 101) (some 2) [97]), ?_,
      ⟨⟨100, 0⟩, by decide +kernel⟩, ⟨⟨101, 1⟩, by decide +kernel⟩, by decide +kernel⟩
    refine added.next ⟨?_, rfl⟩
    rintro - ⟨⟩
    exact free
  · refine ⟨next (next exampleAdded (.createList 2 [97])) (.replaceList 0x80000000 2), ?_,
      ⟨⟨100, 0⟩, by decide +kernel⟩, by decide +kernel, by decide +kernel⟩
    have ready : Ready exampleAdded (.createList 2 [97]) := free
    have created := added.next ⟨ready, rfl⟩
    exact created.next ⟨mem_cons_self, rfl⟩

end MyCode.ListRule
