import MyCode.Hash.Contents

/-!
# Instances with an id and a key for each node

The operations of `idkey_impl_base.c` on two maps of `map_utl.c`, and those of
`idkey_wrapper_idmgr.c`, which takes the ids from a manager of its own.  The manager is
a parameter.  A key without a length is compared by the low word of its pointer, any
other key by its bytes.  Allocations succeed or fail as a call says.
-/

namespace MyCode.IdKey

open Hash

def MAP_FLAG_DUP_KEY : UINT := 0x1

def MAP_FLAG_PERMIT_DUPLICATE : UINT := 0x2

/-- What `_map_hash_cmp` reads of a key. -/
inductive MapKey where
  | handle (value : UINT)
  | buffer (bytes : List UCHAR)
  deriving DecidableEq

def mapKey (pKey : UINT64) (bytes : List UCHAR) : MapKey :=
  if bytes.length = 0 then .handle (pKey.setWidth 32) else .buffer bytes

structure MapEle (Data : Type) where
  key : MapKey
  pData : Data
  deriving DecidableEq

structure MapS (Data : Type) where
  hHash : HashS (MapEle Data)
  uiCapacity : UINT

structure MapMemory where
  link : Bool
  dupKey : Bool

def mapHashCmp : MapKey → MapKey → UINT
  | .handle first, .handle second => first - second
  | .buffer first, .buffer second =>
    if first.length = second.length then memCmp first second else -1
  | _, _ => -1

def mapKeyHashFactor (jhash : List UCHAR → UINT) : MapKey → UINT
  | .handle value => value
  | .buffer bytes => jhash bytes

section Operations

variable {Data : Type} (jhash : List UCHAR → UINT) (map : MapS Data)

def mapFuncs : HashFuncs (MapEle Data) MapKey where
  key := MapEle.key
  pfHashIndexFunc := mapKeyHashFactor jhash
  pfCmpFunc := mapHashCmp

def mapCount : UINT :=
  map.hHash.uiNodeCount

def mapHashCreate (bucket_num : UINT) : MapS Data :=
  ⟨hashInit (bucket_num - 1), 0⟩

def mapSetCapacity (capacity : UINT) : MapS Data :=
  { map with uiCapacity := capacity }

def mapAddCheck (key : MapKey) (flag : UINT) : BsStatus :=
  if map.uiCapacity ≠ 0 ∧ map.uiCapacity ≤ mapCount map then
    .noResource
  else if !hasFlag flag MAP_FLAG_PERMIT_DUPLICATE &&
      (hashFind (mapFuncs jhash) map.hHash key).isSome then
    .alreadyExist
  else
    .ok

/-- Whether `_map_hash_add` copies the key. -/
def mapDupKey (flag : UINT) : MapKey → Bool
  | .handle _ => false
  | .buffer _ => hasFlag flag MAP_FLAG_DUP_KEY

def mapAdd (key : MapKey) (pData : Data) (flag : UINT) (memory : MapMemory) :
    MapS Data × BsStatus :=
  match mapAddCheck jhash map key flag with
  | .ok =>
    if !memory.link then
      (map, .noMemory)
    else if mapDupKey flag key && !memory.dupKey then
      (map, .noMemory)
    else
      ({ map with hHash := hashAdd (mapFuncs jhash) map.hHash ⟨key, pData⟩ }, .ok)
  | status => (map, status)

def mapGet (key : MapKey) : Option Data :=
  (hashFind (mapFuncs jhash) map.hHash key).map MapEle.pData

def mapDel (key : MapKey) : MapS Data :=
  match hashFind (mapFuncs jhash) map.hHash key with
  | none => map
  | some _ => { map with hHash := hashDel (mapFuncs jhash) map.hHash key }

def mapReset : MapS Data :=
  { map with hHash := hashDelAllWith map.hHash true }

end Operations

theorem mapHashCmp_eq_zero (first second : MapKey) :
    mapHashCmp first second = 0 ↔ first = second := by
  cases first with
  | handle =>
    cases second with
    | handle =>
      simp only [mapHashCmp, MapKey.handle.injEq]
      constructor
      · intro zero
        bv_omega
      · intro equal
        simp [equal]
    | buffer => simp [mapHashCmp]
  | buffer =>
    cases second with
    | handle => simp [mapHashCmp]
    | buffer =>
      rw [mapHashCmp, MapKey.buffer.injEq]
      split
      · next same => exact memCmp_eq_zero same
      next differs =>
      constructor
      · intro zero
        exact absurd zero (by decide)
      · intro equal
        exact absurd (congrArg List.length equal) differs

variable {Data : Type} {jhash : List UCHAR → UINT} {map : MapS Data} {key : MapKey}
  {pData : Data} {flag : UINT} {memory : MapMemory}

theorem mapFuncs_lawful : (@mapFuncs Data jhash).Lawful :=
  mapHashCmp_eq_zero

theorem mapAdd_cases (jhash : List UCHAR → UINT) (map : MapS Data) (key : MapKey) (pData : Data)
    (memory : MapMemory) :
    (∃ status, status ≠ .ok ∧ mapAdd jhash map key pData 0 memory = (map, status)) ∨
      hashFind (mapFuncs jhash) map.hHash key = none ∧ mapAdd jhash map key pData 0 memory =
        ({ map with hHash := hashAdd (mapFuncs jhash) map.hHash ⟨key, pData⟩ }, .ok) := by
  rw [mapAdd]
  split
  · next checked =>
    split
    · exact .inl ⟨.noMemory, by simp, rfl⟩
    split
    · exact .inl ⟨.noMemory, by simp, rfl⟩
    refine .inr ⟨?_, rfl⟩
    rw [mapAddCheck] at checked
    split at checked
    · cases checked
    split at checked
    · cases checked
    · next absent =>
      simpa [hasFlag, MAP_FLAG_PERMIT_DUPLICATE] using absent
  · next refused => exact .inl ⟨_, refused, rfl⟩

theorem mapDel_add (absent : hashFind (mapFuncs jhash) map.hHash key = none) :
    mapDel jhash { map with hHash := hashAdd (mapFuncs jhash) map.hHash ⟨key, pData⟩ } key =
      map := by
  have self := (mapHashCmp_eq_zero key key).mpr rfl
  let added : MapEle Data := ⟨key, pData⟩
  have found : hashFind (mapFuncs jhash) (hashAdd (mapFuncs jhash) map.hHash added) key =
      some added := hashFind_add_absent absent self
  have undone : hashDel (mapFuncs jhash) (hashAdd (mapFuncs jhash) map.hHash added) key =
      map.hHash := hashDel_add absent self
  simp only [mapDel, added] at found undone ⊢
  rw [found]
  simp [undone]

variable {stored : Finset (MapEle Data)} {ele : MapEle Data}

theorem mapDel_stores [DecidableEq Data] (stores : HashStores (mapFuncs jhash) map.hHash stored)
    (inside : ele ∈ stored) :
    HashStores (mapFuncs jhash) (mapDel jhash map ele.key).hHash (stored.erase ele) ∧
      mapCount (mapDel jhash map ele.key) = mapCount map - 1 := by
  have found := (stores.find_eq_some_iff mapFuncs_lawful).mpr ⟨inside, rfl⟩
  have isDel := hashDelNode_eq mapFuncs_lawful stores.ok ((stores.mem ele).mpr inside)
  have deleted := stores.del mapFuncs_lawful inside
  rw [isDel] at deleted
  rw [mapDel, show hashFind (mapFuncs jhash) map.hHash ele.key = some ele from found]
  exact ⟨deleted, rfl⟩

theorem mapGet_eq_some (stores : HashStores (mapFuncs jhash) map.hHash stored) :
    mapGet jhash map key = some pData ↔ ⟨key, pData⟩ ∈ stored := by
  rw [mapGet, Option.map_eq_some_iff]
  constructor
  · rintro ⟨_, found, rfl⟩
    obtain ⟨inside, rfl⟩ := (stores.find_eq_some_iff mapFuncs_lawful).mp found
    exact inside
  · intro inside
    exact ⟨_, (stores.find_eq_some_iff mapFuncs_lawful).mpr ⟨inside, rfl⟩, rfl⟩

def IDKEY_NODE_FLAG_DUP_KEY : UINT := 0x1

structure IdkeyKl where
  key : UINT64
  /-- The `key_len` bytes that `key` leads to. -/
  bytes : List UCHAR
  deriving DecidableEq

def IdkeyKl.mapKey (kl : IdkeyKl) : MapKey :=
  IdKey.mapKey kl.key kl.bytes

structure IdkeyNode where
  id : UINT64
  data : UINT64
  kl : IdkeyKl
  deriving DecidableEq

def idBytes (id : UINT64) : List UCHAR :=
  (List.range 8).map fun i => id.extractLsb' (8 * i) 8

def idMapKey (id : UINT64) : MapKey :=
  .buffer (idBytes id)

structure IdkeyImpl where
  id_to_use : UINT64
  id_tbl : MapS IdkeyNode
  key_tbl : MapS IdkeyNode

/-- Which allocations of `IDKEY_Set` succeed, and where a copy of the key is put. -/
structure IdkeyMemory where
  node : Bool
  dupKey : Option UINT64
  idEle : MapMemory
  keyEle : MapMemory

section Base

variable (jhash : List UCHAR → UINT) (ctrl : IdkeyImpl)

def idkeyDelNode (node : IdkeyNode) : IdkeyImpl :=
  { ctrl with
    id_tbl := mapDel jhash ctrl.id_tbl (idMapKey node.id)
    key_tbl := mapDel jhash ctrl.key_tbl node.kl.mapKey }

def idkeyFindById (id : UINT64) : Option IdkeyNode :=
  mapGet jhash ctrl.id_tbl (idMapKey id)

def idkeyFindByKey (kl : IdkeyKl) : Option IdkeyNode :=
  mapGet jhash ctrl.key_tbl kl.mapKey

def idkeyBaseReset : IdkeyImpl where
  id_to_use := 1
  id_tbl := mapReset ctrl.id_tbl
  key_tbl := mapReset ctrl.key_tbl

def idkeyBaseSetcapacity (capacity : UINT64) : IdkeyImpl :=
  { ctrl with id_tbl := mapSetCapacity ctrl.id_tbl (capacity.setWidth 32) }

/-- The two `MAP_Add` of `idkey_base_set`, the first undone when the second fails. -/
def idkeyAddNode (node : IdkeyNode) (memory : IdkeyMemory) : IdkeyImpl × BsStatus :=
  match mapAdd jhash ctrl.id_tbl (idMapKey node.id) node 0 memory.idEle with
  | (id_tbl, .ok) =>
    match mapAdd jhash ctrl.key_tbl node.kl.mapKey node 0 memory.keyEle with
    | (key_tbl, .ok) => ({ ctrl with id_tbl := id_tbl, key_tbl := key_tbl }, .ok)
    | (key_tbl, _) =>
      ({ ctrl with
        id_tbl := mapDel jhash id_tbl (idMapKey node.id)
        key_tbl := key_tbl }, .noResource)
  | (id_tbl, _) => ({ ctrl with id_tbl := id_tbl }, .noResource)

def idkeyBaseSet (id : UINT64) (kl : IdkeyKl) (data : UINT64) (flag : UINT)
    (memory : IdkeyMemory) : IdkeyImpl × BsStatus :=
  if !memory.node then
    (ctrl, .noMemory)
  else if hasFlag flag IDKEY_NODE_FLAG_DUP_KEY then
    match memory.dupKey with
    | none => (ctrl, .noMemory)
    | some key_tmp => idkeyAddNode jhash ctrl ⟨id, data, { kl with key := key_tmp }⟩ memory
  else
    idkeyAddNode jhash ctrl ⟨id, data, kl⟩ memory

/-- `none` where the code returns the number -1 of a failure. -/
def idkeyBaseAdd (kl : IdkeyKl) (data : UINT64) (flag : UINT) (memory : IdkeyMemory) :
    IdkeyImpl × Option UINT64 :=
  match idkeyBaseSet jhash ctrl ctrl.id_to_use kl data flag memory with
  | (ctrl, .ok) => ({ ctrl with id_to_use := ctrl.id_to_use + 1 }, some ctrl.id_to_use)
  | (ctrl, _) => (ctrl, none)

def idkeyBaseDelByKey (kl : IdkeyKl) : IdkeyImpl × Option UINT64 :=
  match idkeyFindByKey jhash ctrl kl with
  | none => (ctrl, none)
  | some node => (idkeyDelNode jhash ctrl node, some node.data)

def idkeyBaseDelById (id : UINT64) : IdkeyImpl × Option UINT64 :=
  match idkeyFindById jhash ctrl id with
  | none => (ctrl, none)
  | some node => (idkeyDelNode jhash ctrl node, some node.data)

def idkeyBaseGetIdByKey (kl : IdkeyKl) : UINT64 :=
  match idkeyFindByKey jhash ctrl kl with
  | none => -1
  | some node => node.id

def idkeyBaseGetKeyById (id : UINT64) : Option IdkeyKl :=
  (idkeyFindById jhash ctrl id).map IdkeyNode.kl

def idkeyBaseGetDataById (id : UINT64) : Option UINT64 :=
  (idkeyFindById jhash ctrl id).map IdkeyNode.data

def idkeyBaseGetDataByKey (kl : IdkeyKl) : Option UINT64 :=
  (idkeyFindByKey jhash ctrl kl).map IdkeyNode.data

end Base

def idkeyBaseCreate (bucket_num : UINT) : IdkeyImpl :=
  ⟨1, mapHashCreate bucket_num, mapHashCreate bucket_num⟩

/-- The functions behind an `IDMGR_S`. -/
structure IdmgrFuncs (Idmgr : Type) where
  alloc : Idmgr → Idmgr × UINT64
  set : Idmgr → UINT64 → Idmgr × BsStatus
  free : Idmgr → UINT64 → Idmgr
  isExist : Idmgr → UINT64 → Bool
  reset : Idmgr → Idmgr

/-- An `IDKEY_S`: the maps themselves, or a wrapper around another instance. -/
inductive Idkey (Idmgr : Type) where
  | base (ctrl : IdkeyImpl)
  | wrapper (impl : Idkey Idmgr) (idmgr : Idmgr)

section Wrapper

variable {Idmgr : Type} (funcs : IdmgrFuncs Idmgr) (jhash : List UCHAR → UINT)

def idkeySetCapacity (capacity : UINT64) : Idkey Idmgr → Idkey Idmgr
  | .base ctrl => .base (idkeyBaseSetcapacity ctrl capacity)
  | .wrapper impl idmgr => .wrapper (idkeySetCapacity capacity impl) idmgr

def idkeyReset : Idkey Idmgr → Idkey Idmgr
  | .base ctrl => .base (idkeyBaseReset ctrl)
  | .wrapper impl idmgr => .wrapper (idkeyReset impl) (funcs.reset idmgr)

def idkeySet (id : UINT64) (kl : IdkeyKl) (data : UINT64) (flag : UINT) (memory : IdkeyMemory) :
    Idkey Idmgr → Idkey Idmgr × BsStatus
  | .base ctrl =>
    let (ctrl, ret) := idkeyBaseSet jhash ctrl id kl data flag memory
    (.base ctrl, ret)
  | .wrapper impl idmgr =>
    if funcs.isExist idmgr id then
      (.wrapper impl idmgr, .alreadyExist)
    else
      match funcs.set idmgr id with
      | (idmgr, .ok) =>
        match idkeySet id kl data flag memory impl with
        | (impl, .ok) => (.wrapper impl idmgr, .ok)
        | (impl, ret) => (.wrapper impl (funcs.free idmgr id), ret)
      | (idmgr, ret) => (.wrapper impl idmgr, ret)

def idkeyAdd (kl : IdkeyKl) (data : UINT64) (flag : UINT) (memory : IdkeyMemory) :
    Idkey Idmgr → Idkey Idmgr × Option UINT64
  | .base ctrl =>
    let (ctrl, id) := idkeyBaseAdd jhash ctrl kl data flag memory
    (.base ctrl, id)
  | .wrapper impl idmgr =>
    let (idmgr, id) := funcs.alloc idmgr
    if id.toInt < 0 then
      (.wrapper impl idmgr, none)
    else
      match idkeySet funcs jhash id kl data flag memory impl with
      | (impl, .ok) => (.wrapper impl idmgr, some id)
      | (impl, _) => (.wrapper impl (funcs.free idmgr id), none)

def idkeyGetIdByKey (kl : IdkeyKl) : Idkey Idmgr → UINT64
  | .base ctrl => idkeyBaseGetIdByKey jhash ctrl kl
  | .wrapper impl _ => idkeyGetIdByKey kl impl

def idkeyGetKeyById (id : UINT64) : Idkey Idmgr → Option IdkeyKl
  | .base ctrl => idkeyBaseGetKeyById jhash ctrl id
  | .wrapper impl _ => idkeyGetKeyById id impl

def idkeyGetDataById (id : UINT64) : Idkey Idmgr → Option UINT64
  | .base ctrl => idkeyBaseGetDataById jhash ctrl id
  | .wrapper impl _ => idkeyGetDataById id impl

def idkeyGetDataByKey (kl : IdkeyKl) : Idkey Idmgr → Option UINT64
  | .base ctrl => idkeyBaseGetDataByKey jhash ctrl kl
  | .wrapper impl _ => idkeyGetDataByKey kl impl

def idkeyDelById (id : UINT64) : Idkey Idmgr → Idkey Idmgr × Option UINT64
  | .base ctrl =>
    let (ctrl, data) := idkeyBaseDelById jhash ctrl id
    (.base ctrl, data)
  | .wrapper impl idmgr =>
    let (impl, data) := idkeyDelById id impl
    (.wrapper impl (funcs.free idmgr id), data)

def idkeyDelByKey (kl : IdkeyKl) : Idkey Idmgr → Idkey Idmgr × Option UINT64
  | .base ctrl =>
    let (ctrl, data) := idkeyBaseDelByKey jhash ctrl kl
    (.base ctrl, data)
  | .wrapper impl idmgr =>
    let id := idkeyGetIdByKey jhash kl impl
    if id.toInt < 0 then
      (.wrapper impl idmgr, none)
    else
      let (impl, data) := idkeyDelById funcs jhash id impl
      (.wrapper impl (funcs.free idmgr id), data)

end Wrapper

section Runs

variable {Idmgr : Type} (funcs : IdmgrFuncs Idmgr) (jhash : List UCHAR → UINT)

inductive IdkeyCall where
  | set (id : UINT64) (kl : IdkeyKl) (data : UINT64) (flag : UINT) (memory : IdkeyMemory)
  | add (kl : IdkeyKl) (data : UINT64) (flag : UINT) (memory : IdkeyMemory)
  | delByKey (kl : IdkeyKl)
  | delById (id : UINT64)
  | reset
  | setCapacity (capacity : UINT64)

/-- The instance after a call, and whether the call succeeded. -/
def IdkeyCall.run (inst : Idkey Idmgr) : IdkeyCall → Idkey Idmgr × Bool
  | set id kl data flag memory =>
    let (inst, ret) := idkeySet funcs jhash id kl data flag memory inst
    (inst, ret = .ok)
  | add kl data flag memory =>
    let (inst, id) := idkeyAdd funcs jhash kl data flag memory inst
    (inst, id.isSome)
  | delByKey kl =>
    let (inst, data) := idkeyDelByKey funcs jhash kl inst
    (inst, data.isSome)
  | delById id =>
    let (inst, data) := idkeyDelById funcs jhash id inst
    (inst, data.isSome)
  | reset => (idkeyReset funcs inst, true)
  | setCapacity capacity => (idkeySetCapacity capacity inst, true)

inductive Idkey.Fresh : Idkey Idmgr → Prop where
  | base (bucket_num : UINT) : Fresh (.base (idkeyBaseCreate bucket_num))
  | wrapper {impl : Idkey Idmgr} (fresh : Fresh impl) (idmgr : Idmgr) : Fresh (.wrapper impl idmgr)

def idkeySystem : Lib.System (Idkey Idmgr) IdkeyCall where
  start := Idkey.Fresh
  step inst call after := after = (call.run funcs jhash inst).1

def Idkey.ctrl : Idkey Idmgr → IdkeyImpl
  | base ctrl => ctrl
  | wrapper impl _ => impl.ctrl

end Runs

end MyCode.IdKey
