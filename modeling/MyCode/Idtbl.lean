import MyCode.Avl
import MyCode.IdKey.Instance

/-!
# Id tables

The back ends of `idtbl_utl.h`: an array of slots, an AVL tree of nodes and a hash map.
Data are not `NULL`.  Whether the allocation of a call succeeds is said by the call; no
result means that memory which is not the table's was read or written, that `NULL` was
called or that the array of the ancestors was overrun.
-/

namespace MyCode.Idtbl

open Avl Hash IdKey

variable {Data : Type}

structure IdtblAvlNode (Data : Type) where
  id : UINT64
  data : Data
  deriving DecidableEq

inductive Freed (Data : Type) where
  | data (data : Data)
  | node (node : IdtblAvlNode Data)
  deriving DecidableEq

/-- `IDTBL_FUNC_S`. -/
structure IdtblFuncs (Table Data : Type) where
  add_func : Table → (id : UINT64) → (data : Data) → (memory : Bool) → Option (Table × BsStatus)
  get_func : Table → (id : UINT64) → Option (Option Data)
  del_func : Table → (id : UINT64) → Option (Table × Option Data)
  reset_func : Table → (free_func : Bool) → Option (Table × List (Freed Data))

/-- `IDTBL_ARRAY_S` with the slots that were allocated. -/
structure IdtblArray (Data : Type) where
  max_id : UINT
  data : List (Option Data)
  deriving DecidableEq

def idtblArraySize (max_id : UINT) : UINT :=
  16 + 8 * max_id

/-- `IDTBL_ArrayCreate`; the table is written to after the allocation. -/
def idtblArrayCreate (max_id : UINT) : Option (IdtblArray Data) :=
  let size := idtblArraySize max_id
  if size < 16 then
    none
  else
    some ⟨max_id, List.replicate ((size.toNat - 16) / 8) none⟩

def idtblArrayAdd (ctrl : IdtblArray Data) (id : UINT64) (data : Data) (_memory : Bool) :
    Option (IdtblArray Data × BsStatus) :=
  if id ≥ ctrl.max_id.setWidth 64 then
    some (ctrl, .outOfRange)
  else if id.toNat < ctrl.data.length then
    some ({ ctrl with data := ctrl.data.set id.toNat (some data) }, .ok)
  else
    none

def idtblArrayGet (ctrl : IdtblArray Data) (id : UINT64) : Option (Option Data) :=
  if id ≥ ctrl.max_id.setWidth 64 then
    some none
  else
    ctrl.data[id.toNat]?

def idtblArrayDel (ctrl : IdtblArray Data) (id : UINT64) : Option (IdtblArray Data × Option Data) :=
  if id ≥ ctrl.max_id.setWidth 64 then
    some (ctrl, none)
  else do
    let data ← ctrl.data[id.toNat]?
    some ({ ctrl with data := ctrl.data.set id.toNat none }, data)

def idtblArrayDeleteAll (ctrl : IdtblArray Data) (free_func : Bool) : Option (List (Freed Data)) :=
  if !free_func then
    some []
  else if ctrl.data.length < ctrl.max_id.toNat then
    none
  else
    some ((ctrl.data.take ctrl.max_id.toNat).reduceOption.map .data)

def idtblArrayReset (ctrl : IdtblArray Data) (free_func : Bool) :
    Option (IdtblArray Data × List (Freed Data)) := do
  let freed ← idtblArrayDeleteAll ctrl free_func
  if ctrl.data.length < ctrl.max_id.toNat then
    none
  else
    some ({ ctrl with
      data := List.replicate ctrl.max_id.toNat none ++ ctrl.data.drop ctrl.max_id.toNat }, freed)

def idtblArrayFuncs : IdtblFuncs (IdtblArray Data) Data :=
  ⟨idtblArrayAdd, idtblArrayGet, idtblArrayDel, idtblArrayReset⟩

def UINT_HANDLE (uiValue : UINT64) : UINT64 :=
  (uiValue.setWidth 32).setWidth 64

def HANDLE_UINT (hValue : UINT64) : UINT :=
  hValue.setWidth 32

structure IdtblAvl (Data : Type) where
  avl_root : AvlTree (IdtblAvlNode Data)

def idtblAvlCreate : IdtblAvl Data :=
  ⟨.nil⟩

def idtblAvlCmp (key : UINT64) (pstNode : IdtblAvlNode Data) : Int :=
  let id : UINT64 := (HANDLE_UINT key).setWidth 64
  if pstNode.id = id then
    0
  else if id > pstNode.id then
    1
  else
    -1

def idtblAvlAdd (ctrl : IdtblAvl Data) (id : UINT64) (data : Data) (memory : Bool) :
    Option (IdtblAvl Data × BsStatus) :=
  if !memory then
    some (ctrl, .noMemory)
  else do
    let (root, ret) ← avlInsert ctrl.avl_root ⟨id, data⟩ (idtblAvlCmp (UINT_HANDLE id))
    some (⟨root⟩, ret)

def idtblAvlGet (ctrl : IdtblAvl Data) (id : UINT64) : Option (Option Data) :=
  some ((avlSearch (idtblAvlCmp (UINT_HANDLE id)) ctrl.avl_root).map IdtblAvlNode.data)

def idtblAvlDel (ctrl : IdtblAvl Data) (id : UINT64) : Option (IdtblAvl Data × Option Data) := do
  let (root, pstNode) ← avlDelete ctrl.avl_root (idtblAvlCmp (UINT_HANDLE id))
  some (⟨root⟩, pstNode.map IdtblAvlNode.data)

def idtblAvlReset (ctrl : IdtblAvl Data) (free_func : Bool) :
    Option (IdtblAvl Data × List (Freed Data)) := do
  let (root, freed) ← avlTreeErase ctrl.avl_root free_func
  some (⟨root⟩, freed.map .node)

def idtblAvlFuncs : IdtblFuncs (IdtblAvl Data) Data :=
  ⟨idtblAvlAdd, idtblAvlGet, idtblAvlDel, idtblAvlReset⟩

def MAP_HASH_BUCKET_NUM : UINT := 1024

structure IdtblHash (Data : Type) where
  hash_map : MapS Data

/-- `IDTBL_HashCreate`, with the number of buckets that `MAP_HashCreate` takes for 0. -/
def idtblHashCreate (bucket_num : UINT) : IdtblHash Data :=
  ⟨mapHashCreate (if bucket_num = 0 then MAP_HASH_BUCKET_NUM else bucket_num)⟩

/-- `idtbl_get_key` with the length of `idtbl_get_key_len`. -/
def idtblGetKey (id : UINT64) : MapKey :=
  mapKey id []

variable (jhash : List UCHAR → UINT)

def idtblHashAdd (ctrl : IdtblHash Data) (id : UINT64) (data : Data) (memory : Bool) :
    Option (IdtblHash Data × BsStatus) :=
  let (map, ret) := mapAdd jhash ctrl.hash_map (idtblGetKey id) data MAP_FLAG_DUP_KEY ⟨memory, memory⟩
  some (⟨map⟩, ret)

def idtblHashGet (ctrl : IdtblHash Data) (id : UINT64) : Option (Option Data) :=
  some (mapGet jhash ctrl.hash_map (idtblGetKey id))

def idtblHashDel (ctrl : IdtblHash Data) (id : UINT64) : Option (IdtblHash Data × Option Data) :=
  some (⟨mapDel jhash ctrl.hash_map (idtblGetKey id)⟩, mapGet jhash ctrl.hash_map (idtblGetKey id))

/-- `MAP_Reset`: the data of the nodes that `HASH_DelAll` takes out. -/
def mapFreed (map : MapS Data) (free_func : Bool) : List Data :=
  if map.hHash.uiNodeCount = 0 then
    []
  else if free_func then
    (hashWalk map.hHash).map MapEle.pData
  else
    []

def idtblHashReset (ctrl : IdtblHash Data) (free_func : Bool) :
    Option (IdtblHash Data × List (Freed Data)) :=
  some (⟨mapReset ctrl.hash_map⟩, (mapFreed ctrl.hash_map free_func).map .data)

def idtblHashFuncs : IdtblFuncs (IdtblHash Data) Data :=
  ⟨idtblHashAdd jhash, idtblHashGet jhash, idtblHashDel jhash, idtblHashReset⟩

end MyCode.Idtbl
