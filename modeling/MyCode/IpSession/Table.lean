import MyCode.Cuckoo.Table
import MyCode.Vclock.Instance

/-!
# The IP session table

`ip_session.c` over the box of `iptup_box.c`.  A session is the address of its memory,
which is also the identity of its timer.  The memory is kept with the table, since the
box and the cache read the keys of their sessions there.
-/

namespace MyCode.IpSession

open MyCode.Cuckoo MyCode.Vclock Function

def ipSessionStateMax : Nat := 13

structure IpTupKey where
  family : UCHAR
  protocol : UCHAR
  reserved1 : UCHAR
  reserved2 : UCHAR
  ip : Vector (Vector UINT 4) 2
  port : Vector USHORT 2
  tun_id : UINT
  deriving DecidableEq

structure IpSessionS where
  key : IpTupKey
  key_hash : UINT
  state : BitVec 4

/-- A pointer to a key: to that of a session or to one of the caller. -/
inductive IpTupPtr where
  | session (session : NodeId)
  | key (key : IpTupKey)
  deriving DecidableEq

structure IpSessionCtrl where
  ip_tup_box : CuckooHashS IpTupPtr
  vclock : VclockInstance
  timeout_tick : List UINT
  find_cache : Option (USHORT → Option NodeId)
  session : NodeId → IpSessionS

def IpTupPtr.read (session : NodeId → IpSessionS) : IpTupPtr → IpTupKey
  | .session id => (session id).key
  | .key caller => caller

/-- The table asks only whether the result of `memcmp` is zero. -/
def ipTupFuncs (JHASH_GeneralBuffer : IpTupKey → UINT) (session : NodeId → IpSessionS) :
    CuckooFuncs IpTupPtr where
  index_func data := JHASH_GeneralBuffer (data.read session)
  cmp_func data1 data2 := if data1.read session = data2.read session then 0 else 1

def IpTupPtr.owner : IpTupPtr → Option NodeId
  | .session id => some id
  | .key _ => none

def ipSessionDftTimeoutSteps : List UINT :=
  [5, 5, 10, 10, 300, 5, 10, 10, 10, 10, 5, 10, 5]

def ipSessionInit (NUM_IS2N : UINT → Bool) (hash_table : Nat → CuckooHashNode IpTupPtr)
    (session : NodeId → IpSessionS) (bucket_num bucket_depth : UINT) : Option IpSessionCtrl :=
  (cuckooHashInit NUM_IS2N hash_table bucket_num bucket_depth).map fun box =>
    ⟨box, vclockInitInstance, ipSessionDftTimeoutSteps, none, session⟩

section Operations

variable (JHASH_GeneralBuffer : IpTupKey → UINT) (ctrl : IpSessionCtrl)

def IpSessionCtrl.funcs : CuckooFuncs IpTupPtr :=
  ipTupFuncs JHASH_GeneralBuffer ctrl.session

def ipSessionCacheEnable (allocated : Bool) : IpSessionCtrl :=
  match ctrl.find_cache with
  | some _ => ctrl
  | none => if allocated then { ctrl with find_cache := some fun _ => none } else ctrl

def IpSessionCtrl.tick (state : BitVec 4) : UINT :=
  ctrl.timeout_tick.getD state.toNat 0

def IpSessionCtrl.write (session : NodeId) (memory : IpSessionS) : IpSessionCtrl :=
  { ctrl with session := update ctrl.session session memory }

def ipSessionAdd (RAND_Get : Nat → UINT) (session : NodeId) : IpSessionCtrl × Option Nat :=
  let added := cuckooHashAdd (ctrl.funcs JHASH_GeneralBuffer) ctrl.ip_tup_box RAND_Get
    (.session session)
  let ctrl := { ctrl with ip_tup_box := added.1 }
  match added.2 with
  | none => (ctrl, none)
  | some index =>
    let ctrl := ctrl.write session { ctrl.session session with
      key_hash := cuckooHashGetKeyFactor ctrl.ip_tup_box index }
    let tick := ctrl.tick (ctrl.session session).state
    ({ ctrl with vclock := vclockAddTimer ctrl.vclock session tick tick 0 }, some index)

def ipSessionFind (key : IpTupKey) : Option Nat :=
  cuckooHashFind (ctrl.funcs JHASH_GeneralBuffer) ctrl.ip_tup_box (.key key)

def boxFindData (key : IpTupKey) : Option NodeId :=
  (cuckooHashFindData (ctrl.funcs JHASH_GeneralBuffer) ctrl.ip_tup_box (.key key)).bind
    IpTupPtr.owner

def cacheIndex (key : IpTupKey) : USHORT :=
  key.port[0] ^^^ key.port[1]

def ipSessionCached (key : IpTupKey) : Option NodeId :=
  match ctrl.find_cache with
  | none => none
  | some cache => (cache (cacheIndex key)).filter fun sess => (ctrl.session sess).key = key

def ipSessionFindSession (key : IpTupKey) : IpSessionCtrl × Option NodeId :=
  match ipSessionCached ctrl key with
  | some sess => (ctrl, some sess)
  | none =>
    match ctrl.find_cache, boxFindData JHASH_GeneralBuffer ctrl key with
    | some cache, some sess =>
      ({ ctrl with find_cache := some (update cache (cacheIndex key) (some sess)) },
        some sess)
    | _, sess => (ctrl, sess)

def ipSessionDelByIndex (index : Nat) : IpSessionCtrl × Option NodeId :=
  match (cuckooHashGetData ctrl.ip_tup_box index).bind IpTupPtr.owner with
  | none => (ctrl, none)
  | some session =>
    ({ ctrl with
      find_cache := ctrl.find_cache.map fun cache =>
        update cache (cacheIndex (ctrl.session session).key) none
      ip_tup_box := (cuckooHashDelIndex ctrl.ip_tup_box index).1
      vclock := vclockDelTimer ctrl.vclock session }, some session)

def ipSessionDel (key : IpTupKey) : IpSessionCtrl × Option NodeId :=
  match ipSessionFind JHASH_GeneralBuffer ctrl key with
  | none => (ctrl, none)
  | some index => ipSessionDelByIndex ctrl index

def ipSessionRefresh (session : NodeId) : IpSessionCtrl :=
  { ctrl with vclock := vclockRefresh ctrl.vclock session }

def ipSessionSetState (session : NodeId) (state : BitVec 4) : IpSessionCtrl :=
  let ctrl := ctrl.write session { ctrl.session session with state := state }
  { ctrl with vclock :=
      vclockRestartWithTick ctrl.vclock session (ctrl.tick state) (ctrl.tick state) }

def ipSessionTimeout (timer : NodeId) : IpSessionCtrl :=
  (ipSessionDel JHASH_GeneralBuffer ctrl (ctrl.session timer).key).1

end Operations

/-- The firing loop of `VCLOCK_Step`, for at most `turns` turns, and the timers that it fires. -/
def ipSessionFiring (JHASH_GeneralBuffer : IpTupKey → UINT) :
    (turns : Nat) → (ctrl : IpSessionCtrl) → IpSessionCtrl × List NodeId
  | 0, ctrl => (ctrl, [])
  | turns + 1, ctrl =>
    match vclockStepFire ctrl.vclock with
    | none => (ctrl, [])
    | some (timer, vclock) =>
      let rest := ipSessionFiring JHASH_GeneralBuffer turns
        (ipSessionTimeout JHASH_GeneralBuffer { ctrl with vclock := vclock } timer)
      (rest.1, timer :: rest.2)

def ipSessionTimeStep (JHASH_GeneralBuffer : IpTupKey → UINT) (ctrl : IpSessionCtrl) :
    IpSessionCtrl × List NodeId :=
  let vclock := vclockStepBegin ctrl.vclock
  ipSessionFiring JHASH_GeneralBuffer
    (vclock.stTimerLevel 0 (vclock.ulCurrentLevelTick 0)).length { ctrl with vclock := vclock }

end MyCode.IpSession
