import MyCode.IdKey.Instance

/-!
# Ids and keys of an instance

Both maps of an instance hold the same nodes, whichever calls fail.
-/

namespace MyCode.IdKey

open Hash List

theorem idBytes_injective {first second : UINT64} (same : idBytes first = idBytes second) :
    first = second := by
  have pieces := map_inj_left.mp same
  apply BitVec.eq_of_getLsbD_eq
  intro i bounded
  have piece := congrArg (fun byte => byte.getLsbD (i % 8))
    (pieces (i / 8) (mem_range.mpr (by omega)))
  simp only [BitVec.getLsbD_extractLsb', Nat.div_add_mod] at piece
  simpa [Nat.mod_lt] using piece

theorem idMapKey_injective {first second : UINT64} (same : idMapKey first = idMapKey second) :
    first = second :=
  idBytes_injective (MapKey.buffer.inj same)

def idEle (node : IdkeyNode) : MapEle IdkeyNode :=
  ⟨idMapKey node.id, node⟩

def keyEle (node : IdkeyNode) : MapEle IdkeyNode :=
  ⟨node.kl.mapKey, node⟩

theorem idEle_injective : Function.Injective idEle := by
  intro first second same
  exact congrArg MapEle.pData same

theorem keyEle_injective : Function.Injective keyEle := by
  intro first second same
  exact congrArg MapEle.pData same

/-- Both maps hold a set of nodes, one by the ids and one by the keys. -/
structure IdkeyStores (jhash : List UCHAR → UINT) (ctrl : IdkeyImpl) (nodes : Finset IdkeyNode) :
    Prop where
  ids : HashStores (mapFuncs jhash) ctrl.id_tbl.hHash (nodes.image idEle)
  keys : HashStores (mapFuncs jhash) ctrl.key_tbl.hHash (nodes.image keyEle)
  counts : mapCount ctrl.id_tbl = mapCount ctrl.key_tbl

variable {jhash : List UCHAR → UINT} {ctrl : IdkeyImpl} {nodes : Finset IdkeyNode}
  {node : IdkeyNode} {id : UINT64} {kl : IdkeyKl} {data : UINT64} {flag : UINT}
  {memory : IdkeyMemory}

section

variable (stores : IdkeyStores jhash ctrl nodes)

include stores

theorem IdkeyStores.findById :
    idkeyFindById jhash ctrl id = some node ↔ node ∈ nodes ∧ node.id = id := by
  rw [idkeyFindById, mapGet_eq_some stores.ids, Finset.mem_image]
  constructor
  · rintro ⟨_, inside, same⟩
    obtain ⟨isKey, rfl⟩ := MapEle.mk.inj same
    exact ⟨inside, idMapKey_injective isKey⟩
  · rintro ⟨inside, rfl⟩
    exact ⟨node, inside, rfl⟩

theorem IdkeyStores.findByKey :
    idkeyFindByKey jhash ctrl kl = some node ↔ node ∈ nodes ∧ node.kl.mapKey = kl.mapKey := by
  rw [idkeyFindByKey, mapGet_eq_some stores.keys, Finset.mem_image]
  constructor
  · rintro ⟨_, inside, same⟩
    obtain ⟨isKey, rfl⟩ := MapEle.mk.inj same
    exact ⟨inside, isKey⟩
  · rintro ⟨inside, same⟩
    refine ⟨node, inside, ?_⟩
    rw [keyEle, same]

theorem IdkeyStores.delNode (inside : node ∈ nodes) :
    IdkeyStores jhash (idkeyDelNode jhash ctrl node) (nodes.erase node) := by
  obtain ⟨ids, idCount⟩ := mapDel_stores stores.ids (Finset.mem_image_of_mem idEle inside)
  obtain ⟨keys, keyCount⟩ := mapDel_stores stores.keys (Finset.mem_image_of_mem keyEle inside)
  rw [← Finset.image_erase idEle_injective] at ids
  rw [← Finset.image_erase keyEle_injective] at keys
  refine ⟨ids, keys, ?_⟩
  calc mapCount (idkeyDelNode jhash ctrl node).id_tbl
      _ = mapCount ctrl.id_tbl - 1 := idCount
      _ = mapCount ctrl.key_tbl - 1 := by rw [stores.counts]
      _ = mapCount (idkeyDelNode jhash ctrl node).key_tbl := keyCount.symm

theorem IdkeyStores.reset : ∃ left, IdkeyStores jhash (idkeyBaseReset ctrl) left := by
  by_cases empty : mapCount ctrl.id_tbl = 0
  · -- Without nodes to count neither map changes.
    have idsSame : hashDelAllWith ctrl.id_tbl.hHash true = ctrl.id_tbl.hHash := if_pos empty
    have keysSame : hashDelAllWith ctrl.key_tbl.hHash true = ctrl.key_tbl.hHash :=
      if_pos (stores.counts.symm.trans empty)
    refine ⟨nodes, ?_, ?_, ?_⟩
    · simp only [idkeyBaseReset, mapReset, idsSame]
      exact stores.ids
    · simp only [idkeyBaseReset, mapReset, keysSame]
      exact stores.keys
    · simp only [idkeyBaseReset, mapReset, mapCount, idsSame, keysSame]
      exact stores.counts
  · have some : mapCount ctrl.key_tbl ≠ 0 := by
      rw [← stores.counts]
      exact empty
    refine ⟨∅, stores.ids.delAll empty, stores.keys.delAll some, ?_⟩
    simp only [mapCount] at empty some
    simp only [idkeyBaseReset, mapReset, mapCount, hashDelAllWith, if_neg empty, if_neg some]

theorem IdkeyStores.addNode (node : IdkeyNode) (memory : IdkeyMemory) :
    (idkeyAddNode jhash ctrl node memory).2 = .ok ∧
        IdkeyStores jhash (idkeyAddNode jhash ctrl node memory).1 (insert node nodes) ∨
      (idkeyAddNode jhash ctrl node memory).2 ≠ .ok ∧
        (idkeyAddNode jhash ctrl node memory).1 = ctrl := by
  rcases mapAdd_cases jhash ctrl.id_tbl (idMapKey node.id) node memory.idEle with
    ⟨status, refused, result⟩ | ⟨idAbsent, idAdded⟩
  · rw [idkeyAddNode, result]
    cases status with
    | ok => exact absurd rfl refused
    | _ => exact .inr (by simp)
  rw [idkeyAddNode, idAdded]
  rcases mapAdd_cases jhash ctrl.key_tbl node.kl.mapKey node memory.keyEle with
    ⟨status, refused, result⟩ | ⟨keyAbsent, keyAdded⟩
  · simp only [result, mapDel_add idAbsent]
    cases status with
    | ok => exact absurd rfl refused
    | _ => exact .inr (by simp)
  refine .inl ?_
  simp only [keyAdded]
  have ids := @HashStores.add _ _ _ _ _ _ (idEle node) mapFuncs_lawful stores.ids
    (stores.ids.absent mapFuncs_lawful idAbsent)
  have keys := @HashStores.add _ _ _ _ _ _ (keyEle node) mapFuncs_lawful stores.keys
    (stores.keys.absent mapFuncs_lawful keyAbsent)
  rw [← Finset.image_insert] at ids keys
  refine ⟨trivial, ids, keys, ?_⟩
  have counts : mapCount ctrl.id_tbl + 1 = mapCount ctrl.key_tbl + 1 := by
    rw [stores.counts]
  exact counts

end

/-- What a call leaves of the maps, with or without success. -/
structure Keeps (jhash : List UCHAR → UINT) (before after : IdkeyImpl) (succeeded : Prop) :
    Prop where
  stores : ∃ left, IdkeyStores jhash after left
  failed : ¬ succeeded → after = before

section

variable (stores : IdkeyStores jhash ctrl nodes)

include stores

theorem IdkeyStores.keepsSame (succeeded : Prop) : Keeps jhash ctrl ctrl succeeded :=
  ⟨⟨nodes, stores⟩, fun _ => rfl⟩

theorem IdkeyStores.keepsAdd :
    Keeps jhash ctrl (idkeyAddNode jhash ctrl node memory).1
      ((idkeyAddNode jhash ctrl node memory).2 = .ok) := by
  rcases stores.addNode node memory with ⟨done, added⟩ | ⟨-, same⟩
  · exact ⟨⟨_, added⟩, fun failed => absurd done failed⟩
  · rw [same]
    exact stores.keepsSame _

theorem IdkeyStores.keepsSet (id : UINT64) (kl : IdkeyKl)
    (data : UINT64) (flag : UINT) (memory : IdkeyMemory) :
    Keeps jhash ctrl (idkeyBaseSet jhash ctrl id kl data flag memory).1
      ((idkeyBaseSet jhash ctrl id kl data flag memory).2 = .ok) := by
  rw [idkeyBaseSet]
  split
  · exact stores.keepsSame _
  split
  · cases memory.dupKey with
    | none => exact stores.keepsSame _
    | some => exact stores.keepsAdd
  · exact stores.keepsAdd

theorem IdkeyStores.keepsBaseAdd :
    Keeps jhash ctrl (idkeyBaseAdd jhash ctrl kl data flag memory).1
      ((idkeyBaseAdd jhash ctrl kl data flag memory).2.isSome) := by
  have keeps := stores.keepsSet ctrl.id_to_use kl data flag memory
  rw [idkeyBaseAdd]
  split
  · next isResult =>
    rw [isResult] at keeps
    obtain ⟨left, stored⟩ := keeps.stores
    exact ⟨⟨left, stored.ids, stored.keys, stored.counts⟩, fun failed => absurd rfl failed⟩
  · next refused isResult =>
    rw [isResult] at keeps
    exact ⟨keeps.stores, fun _ => keeps.failed refused⟩

theorem IdkeyStores.keepsDelNode (inside : node ∈ nodes) :
    Keeps jhash ctrl (idkeyDelNode jhash ctrl node) True :=
  ⟨⟨_, stores.delNode inside⟩, fun failed => absurd trivial failed⟩

theorem IdkeyStores.keepsDelByKey :
    Keeps jhash ctrl (idkeyBaseDelByKey jhash ctrl kl).1
      ((idkeyBaseDelByKey jhash ctrl kl).2.isSome) := by
  rw [idkeyBaseDelByKey]
  split
  · exact stores.keepsSame _
  next node found =>
  have keeps := stores.keepsDelNode (stores.findByKey.mp found).1
  exact ⟨keeps.stores, fun failed => absurd rfl failed⟩

theorem IdkeyStores.keepsDelById :
    Keeps jhash ctrl (idkeyBaseDelById jhash ctrl id).1
      ((idkeyBaseDelById jhash ctrl id).2.isSome) := by
  rw [idkeyBaseDelById]
  split
  · exact stores.keepsSame _
  next node found =>
  have keeps := stores.keepsDelNode (stores.findById.mp found).1
  exact ⟨keeps.stores, fun failed => absurd rfl failed⟩

end

section Calls

variable {Idmgr : Type} {funcs : IdmgrFuncs Idmgr} {inst : Idkey Idmgr}

section

variable (stores : IdkeyStores jhash inst.ctrl nodes)

include stores

theorem idkeySet_keeps (id : UINT64) (kl : IdkeyKl)
    (data : UINT64) (flag : UINT) (memory : IdkeyMemory) :
    Keeps jhash inst.ctrl (idkeySet funcs jhash id kl data flag memory inst).1.ctrl
      ((idkeySet funcs jhash id kl data flag memory inst).2 = .ok) := by
  induction inst with
  | base => exact stores.keepsSet id kl data flag memory
  | wrapper _ _ ih =>
    have keeps := ih stores
    rw [idkeySet]
    split
    · exact stores.keepsSame _
    split
    · split
      · next isResult =>
        rw [isResult] at keeps
        exact ⟨keeps.stores, fun failed => absurd rfl failed⟩
      · next refused isResult =>
        rw [isResult] at keeps
        exact ⟨keeps.stores, fun _ => keeps.failed refused⟩
    · exact stores.keepsSame _

theorem idkeyAdd_keeps :
    Keeps jhash inst.ctrl (idkeyAdd funcs jhash kl data flag memory inst).1.ctrl
      ((idkeyAdd funcs jhash kl data flag memory inst).2.isSome) := by
  cases inst with
  | base => exact stores.keepsBaseAdd
  | wrapper impl idmgr =>
    simp only [idkeyAdd]
    split
    · exact stores.keepsSame _
    have keeps := @idkeySet_keeps _ _ _ funcs impl stores (funcs.alloc idmgr).2 kl data flag memory
    split
    · next isResult =>
      rw [isResult] at keeps
      exact ⟨keeps.stores, fun failed => absurd rfl failed⟩
    · next refused isResult =>
      rw [isResult] at keeps
      exact ⟨keeps.stores, fun _ => keeps.failed refused⟩

theorem idkeyDelById_keeps :
    Keeps jhash inst.ctrl (idkeyDelById funcs jhash id inst).1.ctrl
      ((idkeyDelById funcs jhash id inst).2.isSome) := by
  induction inst with
  | base => exact stores.keepsDelById
  | wrapper _ _ ih => exact ih stores

theorem idkeyDelByKey_keeps :
    Keeps jhash inst.ctrl (idkeyDelByKey funcs jhash kl inst).1.ctrl
      ((idkeyDelByKey funcs jhash kl inst).2.isSome) := by
  cases inst with
  | base => exact stores.keepsDelByKey
  | wrapper impl =>
    simp only [idkeyDelByKey]
    split
    · exact stores.keepsSame _
    · exact @idkeyDelById_keeps _ _ _ _ funcs impl stores

theorem idkeyReset_keeps : ∃ left, IdkeyStores jhash (idkeyReset funcs inst).ctrl left := by
  induction inst with
  | base => exact stores.reset
  | wrapper _ _ ih => exact ih stores

end

theorem idkeySetCapacity_keeps {capacity : UINT64} (stores : IdkeyStores jhash inst.ctrl nodes) :
    IdkeyStores jhash (idkeySetCapacity capacity inst).ctrl nodes := by
  induction inst with
  | base => exact ⟨stores.ids, stores.keys, stores.counts⟩
  | wrapper _ _ ih => exact ih stores

theorem IdkeyCall.keeps (call : IdkeyCall) (stores : IdkeyStores jhash inst.ctrl nodes) :
    Keeps jhash inst.ctrl (call.run funcs jhash inst).1.ctrl (call.run funcs jhash inst).2 := by
  cases call with
  | set id kl data flag memory =>
    have keeps := @idkeySet_keeps _ _ _ funcs inst stores id kl data flag memory
    refine ⟨keeps.stores, fun failed => keeps.failed ?_⟩
    simpa [IdkeyCall.run] using failed
  | add => exact idkeyAdd_keeps stores
  | delByKey => exact idkeyDelByKey_keeps stores
  | delById => exact idkeyDelById_keeps stores
  | reset => exact ⟨idkeyReset_keeps stores, fun failed => absurd rfl failed⟩
  | setCapacity => exact ⟨⟨nodes, idkeySetCapacity_keeps stores⟩, fun failed => absurd rfl failed⟩

end Calls

def mapNodes {Data : Type} (map : MapS Data) : List Data :=
  (hashWalk map.hHash).map MapEle.pData

/-- The maps hold the same nodes, and their ids and keys lead to each other. -/
structure IdkeyBijective {Idmgr : Type} (jhash : List UCHAR → UINT) (inst : Idkey Idmgr) :
    Prop where
  same : (mapNodes inst.ctrl.id_tbl).Perm (mapNodes inst.ctrl.key_tbl)
  ids : ((mapNodes inst.ctrl.id_tbl).map IdkeyNode.id).Nodup
  keys : ((mapNodes inst.ctrl.key_tbl).map fun node => node.kl.mapKey).Nodup
  inverse : ∀ kl id, id ≠ -1 → (idkeyGetIdByKey jhash kl inst = id ↔
    ∃ stored, idkeyGetKeyById jhash id inst = some stored ∧ stored.mapKey = kl.mapKey)

section

variable (stores : IdkeyStores jhash ctrl nodes)

include stores

theorem IdkeyStores.mem_ids : node ∈ mapNodes ctrl.id_tbl ↔ node ∈ nodes := by
  simp only [mapNodes, mem_map, stores.ids.mem, Finset.mem_image]
  constructor
  · rintro ⟨_, ⟨_, inside, rfl⟩, rfl⟩
    exact inside
  · intro inside
    exact ⟨idEle node, ⟨node, inside, rfl⟩, rfl⟩

theorem IdkeyStores.mem_keys : node ∈ mapNodes ctrl.key_tbl ↔ node ∈ nodes := by
  simp only [mapNodes, mem_map, stores.keys.mem, Finset.mem_image]
  constructor
  · rintro ⟨_, ⟨_, inside, rfl⟩, rfl⟩
    exact inside
  · intro inside
    exact ⟨keyEle node, ⟨node, inside, rfl⟩, rfl⟩

theorem IdkeyStores.ids_nodup : ((mapNodes ctrl.id_tbl).map IdkeyNode.id).Nodup := by
  have distinct := stores.ids.keys_nodup mapFuncs_lawful
  have isKeys : (hashWalk ctrl.id_tbl.hHash).map (mapFuncs jhash).key =
      ((mapNodes ctrl.id_tbl).map IdkeyNode.id).map idMapKey := by
    rw [mapNodes, map_map, map_map]
    apply map_congr_left
    intro ele inside
    obtain ⟨-, -, rfl⟩ := Finset.mem_image.mp ((stores.ids.mem ele).mp inside)
    rfl
  rw [isKeys] at distinct
  exact distinct.of_map

theorem IdkeyStores.keys_nodup :
    ((mapNodes ctrl.key_tbl).map fun node => node.kl.mapKey).Nodup := by
  have distinct := stores.keys.keys_nodup mapFuncs_lawful
  have isKeys : (hashWalk ctrl.key_tbl.hHash).map (mapFuncs jhash).key =
      (mapNodes ctrl.key_tbl).map fun node => node.kl.mapKey := by
    rw [mapNodes, map_map]
    apply map_congr_left
    intro ele inside
    obtain ⟨-, -, rfl⟩ := Finset.mem_image.mp ((stores.keys.mem ele).mp inside)
    rfl
  rwa [isKeys] at distinct

theorem IdkeyStores.inverse (kl : IdkeyKl) {id : UINT64}
    (isId : id ≠ -1) : idkeyBaseGetIdByKey jhash ctrl kl = id ↔
      ∃ stored, idkeyBaseGetKeyById jhash ctrl id = some stored ∧ stored.mapKey = kl.mapKey := by
  rw [idkeyBaseGetIdByKey]
  constructor
  · intro same
    split at same
    · exact absurd same.symm isId
    next node found =>
    obtain ⟨inside, isKey⟩ := stores.findByKey.mp found
    have byId := stores.findById.mpr ⟨inside, same⟩
    refine ⟨node.kl, ?_, isKey⟩
    rw [idkeyBaseGetKeyById, byId]
    rfl
  · rintro ⟨_, byId, isKey⟩
    obtain ⟨_, found, rfl⟩ := Option.map_eq_some_iff.mp byId
    obtain ⟨inside, isNode⟩ := stores.findById.mp found
    rw [stores.findByKey.mpr ⟨inside, isKey⟩]
    exact isNode

end

variable {Idmgr : Type} {funcs : IdmgrFuncs Idmgr} {inst : Idkey Idmgr}

theorem idkeyGetIdByKey_ctrl (kl : IdkeyKl) :
    idkeyGetIdByKey jhash kl inst = idkeyBaseGetIdByKey jhash inst.ctrl kl := by
  induction inst with
  | base => rfl
  | wrapper _ _ ih => exact ih

theorem idkeyGetKeyById_ctrl (id : UINT64) :
    idkeyGetKeyById jhash id inst = idkeyBaseGetKeyById jhash inst.ctrl id := by
  induction inst with
  | base => rfl
  | wrapper _ _ ih => exact ih

theorem IdkeyStores.bijective (stores : IdkeyStores jhash inst.ctrl nodes) :
    IdkeyBijective jhash inst where
  same := by
    apply (perm_ext_iff_of_nodup stores.ids_nodup.of_map stores.keys_nodup.of_map).mpr
    intro node
    rw [stores.mem_ids, stores.mem_keys]
  ids := stores.ids_nodup
  keys := stores.keys_nodup
  inverse kl id isId := by
    rw [idkeyGetIdByKey_ctrl, idkeyGetKeyById_ctrl]
    exact stores.inverse kl isId

theorem Idkey.Fresh.stores (fresh : inst.Fresh) : IdkeyStores jhash inst.ctrl ∅ := by
  induction fresh with
  | base => exact ⟨hashInit_stores _, hashInit_stores _, rfl⟩
  | wrapper _ _ ih => exact ih

theorem idkeySystem_stores (reached : (idkeySystem funcs jhash).Reachable inst) :
    ∃ nodes, IdkeyStores jhash inst.ctrl nodes := by
  apply reached.invariant
  · intro inst fresh
    exact ⟨∅, fresh.stores⟩
  · rintro _ call _ ⟨_, stores⟩ rfl
    exact (call.keeps stores).stores

/-- Ids and keys agree after every run, and a failed call changes neither map. -/
theorem idkey_bijective (reached : (idkeySystem funcs jhash).Reachable inst) :
    IdkeyBijective jhash inst ∧ ∀ call : IdkeyCall, (call.run funcs jhash inst).2 = false →
      (call.run funcs jhash inst).1.ctrl = inst.ctrl := by
  obtain ⟨_, stores⟩ := idkeySystem_stores reached
  refine ⟨stores.bijective, fun call failed => (call.keeps stores).failed ?_⟩
  rw [failed]
  exact Bool.false_ne_true

/-- A manager that gives out the ids from 0 on and never takes one back. -/
def countingFuncs : IdmgrFuncs UINT64 where
  alloc next := (next + 1, next)
  set next _ := (next, .ok)
  free next _ := next
  isExist next id := id.ult next
  reset _ := 0

def byteSum (bytes : List UCHAR) : UINT :=
  bytes.foldl (fun sum byte => sum + byte.setWidth 32) 0

def allMemory : IdkeyMemory :=
  ⟨true, none, ⟨true, true⟩, ⟨true, true⟩⟩

def noKeyMemory : IdkeyMemory :=
  ⟨true, none, ⟨true, true⟩, ⟨false, true⟩⟩

/-- The second addition finds no memory for the key, the third a key that exists. -/
def idkeyCalls : List IdkeyCall :=
  [.add ⟨100, [1]⟩ 7 0 allMemory, .add ⟨108, [2]⟩ 8 0 noKeyMemory, .add ⟨116, [1]⟩ 9 0 allMemory]

def idkeyRun (inst : Idkey UINT64) (calls : List IdkeyCall) : Idkey UINT64 :=
  calls.foldl (fun inst call => (call.run countingFuncs byteSum inst).1) inst

theorem idkeyRun_reachable {first : Idkey UINT64} (fresh : first.Fresh) (calls : List IdkeyCall) :
    (idkeySystem countingFuncs byteSum).Reachable (idkeyRun first calls) :=
  Lib.System.Reachable.runs (fun _ _ => rfl) _ (.start fresh)

theorem idkey_bijective_undone :
    ∃ inst : Idkey UINT64, (idkeySystem countingFuncs byteSum).Reachable inst ∧
      idkeyGetIdByKey byteSum ⟨200, [1]⟩ inst = 5 ∧
      idkeyGetIdByKey byteSum ⟨200, [2]⟩ inst = -1 ∧
      (mapNodes inst.ctrl.id_tbl).length = 1 ∧ IdkeyBijective byteSum inst := by
  have reached := idkeyRun_reachable (.wrapper (.base 4) 5) idkeyCalls
  exact ⟨_, reached, by decide +kernel, by decide +kernel, by decide +kernel,
    (idkey_bijective reached).1⟩

/-- A node set with the id -1 has the id that stands for no node. -/
theorem idkey_not_bijective :
    (∃ inst : Idkey UINT64, (idkeySystem countingFuncs byteSum).Reachable inst ∧
      idkeyGetKeyById byteSum (-1) inst = some ⟨100, [1]⟩ ∧
      idkeyGetIdByKey byteSum ⟨108, [2]⟩ inst = -1) ∧
    ¬ ∀ inst : Idkey UINT64, (idkeySystem countingFuncs byteSum).Reachable inst →
      ∀ kl id, (idkeyGetIdByKey byteSum kl inst = id ↔
        ∃ stored, idkeyGetKeyById byteSum id inst = some stored ∧ stored.mapKey = kl.mapKey) := by
  have reached := idkeyRun_reachable (.base 4) [.set (-1) ⟨100, [1]⟩ 7 0 allMemory]
  have isKey : idkeyGetKeyById byteSum (-1)
      (idkeyRun (.base (idkeyBaseCreate 4)) [.set (-1) ⟨100, [1]⟩ 7 0 allMemory]) =
        some ⟨100, [1]⟩ := by decide +kernel
  have absent : idkeyGetIdByKey byteSum ⟨108, [2]⟩
      (idkeyRun (.base (idkeyBaseCreate 4)) [.set (-1) ⟨100, [1]⟩ 7 0 allMemory]) = -1 := by
    decide +kernel
  refine ⟨⟨_, reached, isKey, absent⟩, fun bijective => ?_⟩
  obtain ⟨_, isStored, same⟩ := (bijective _ reached ⟨108, [2]⟩ (-1)).mp absent
  cases isKey.symm.trans isStored
  exact absurd same (by decide)

end MyCode.IdKey
