import MyCode.Bitmap
import MyCode.Lib.DigitTree
import MyCode.Lib.Transition

/-!
# Trie nodes

The five node layouts of the tries: `trie_simple.c`, `trie_ll.c`, `trie_darray.c`,
`trie_4bits.c` and `trie_2bits.c`.  Nodes have addresses; an address is not used again
after the node is freed, which happens only to a node that was never linked.  A call is
given the number of allocations that succeed in it.
-/

namespace MyCode.Trie

open MyCode.Bitmap

def trieNodeFlagMatched : UINT := 0x1

def trieNodeFlagWildcard : UINT := 0x2

/-- `ud` is an address, and zero for none. -/
structure TrieCommon where
  ud : Nat
  flag : UINT
  deriving DecidableEq

structure TrieNode (Links : Type) where
  common : TrieCommon
  links : Links

structure TrieHeap (Links : Type) where
  node : Nat → TrieNode Links
  /-- The address of the next new node. -/
  used : Nat
  /-- How many allocations succeed before one fails. -/
  left : Nat

section Memory

variable {Links : Type} (heap : TrieHeap Links)

def TrieHeap.setLinks (address : Nat) (links : Links) : TrieHeap Links :=
  { heap with node := Function.update heap.node address { heap.node address with links := links } }

def TrieHeap.setCommon (address : Nat) (common : TrieCommon) : TrieHeap Links :=
  { heap with node := Function.update heap.node address { heap.node address with common := common } }

/-- `MEM_ZMalloc` of a node. -/
def TrieHeap.zMalloc (zero : Links) : TrieHeap Links × Option Nat :=
  if heap.left = 0 then
    (heap, none)
  else
    ({ node := Function.update heap.node heap.used ⟨⟨0, 0⟩, zero⟩
       used := heap.used + 1
       left := heap.left - 1 }, some heap.used)

def TrieHeap.malloc : TrieHeap Links × Bool :=
  if heap.left = 0 then (heap, false) else ({ heap with left := heap.left - 1 }, true)

end Memory

structure TrieFuncs (Links : Type) where
  zero : Links
  insert : TrieHeap Links → Nat → UCHAR → TrieHeap Links × Option Nat
  /-- The child that `prefix_match` goes to. -/
  findNode : TrieHeap Links → Nat → UCHAR → Option Nat

/-- `nexts`. -/
abbrev NextLinks := UCHAR → Option Nat

def nextZero : NextLinks := fun _ => none

def trieTryInsert (heap : TrieHeap NextLinks) (cur : Nat) (c : UCHAR) :
    TrieHeap NextLinks × Option Nat :=
  match (heap.node cur).links c with
  | some next => (heap, some next)
  | none =>
    match heap.zMalloc nextZero with
    | (heap, none) => (heap, none)
    | (heap, some newNode) =>
      (heap.setLinks cur (Function.update (heap.node cur).links c (some newNode)), some newNode)

def trieSimpleInsert := trieTryInsert

def trieSimpleFindNode (heap : TrieHeap NextLinks) (cur : Nat) (c : UCHAR) : Option Nat :=
  (heap.node cur).links c

def trie4bTryInsert4bits := trieTryInsert

def trie4bInsert (heap : TrieHeap NextLinks) (cur : Nat) (c : UCHAR) : TrieHeap NextLinks × Option Nat :=
  match trie4bTryInsert4bits heap cur (c >>> 4 &&& 0xf) with
  | (heap, none) => (heap, none)
  | (heap, some node) => trie4bTryInsert4bits heap node (c &&& 0xf)

def trie4bFindNode (heap : TrieHeap NextLinks) (cur : Nat) (c : UCHAR) : Option Nat :=
  match (heap.node cur).links (c >>> 4 &&& 0xf) with
  | none => none
  | some found => (heap.node found).links (c &&& 0xf)

def trie2bTryInsert2bits := trieTryInsert

def trie2bInsert (heap : TrieHeap NextLinks) (cur : Nat) (c : UCHAR) : TrieHeap NextLinks × Option Nat :=
  match trie2bTryInsert2bits heap cur (c >>> 6 &&& 0x3) with
  | (heap, none) => (heap, none)
  | (heap, some node) =>
    match trie2bTryInsert2bits heap node (c >>> 4 &&& 0x3) with
    | (heap, none) => (heap, none)
    | (heap, some node) =>
      match trie2bTryInsert2bits heap node (c >>> 2 &&& 0x3) with
      | (heap, none) => (heap, none)
      | (heap, some node) => trie2bTryInsert2bits heap node (c &&& 0x3)

def trie2bFindNode (heap : TrieHeap NextLinks) (cur : Nat) (c : UCHAR) : Option Nat :=
  match (heap.node cur).links (c >>> 6 &&& 0x3) with
  | none => none
  | some found =>
    match (heap.node found).links (c >>> 4 &&& 0x3) with
    | none => none
    | some found =>
      match (heap.node found).links (c >>> 2 &&& 0x3) with
      | none => none
      | some found => (heap.node found).links (c &&& 0x3)

structure LlLinks where
  next : List Nat
  bits : Nat → UINT
  c : UCHAR

def llZero : LlLinks := ⟨[], fun _ => 0, 0⟩

def triellGetNode (heap : TrieHeap LlLinks) (this_node : Nat) (c : UCHAR) : Option Nat :=
  if !arrayBitTest (heap.node this_node).links.bits c.toNat then
    none
  else
    (heap.node this_node).links.next.find? fun node => (heap.node node).links.c == c

def triellCreateNode (heap : TrieHeap LlLinks) (this_node : Nat) (c : UCHAR) :
    TrieHeap LlLinks × Option Nat :=
  match heap.zMalloc llZero with
  | (heap, none) => (heap, none)
  | (heap, some node) =>
    let heap := heap.setLinks node { (heap.node node).links with c := c }
    let links := (heap.node this_node).links
    (heap.setLinks this_node
      { links with next := node :: links.next, bits := arrayBitSet links.bits c.toNat }, some node)

def triellInsert (heap : TrieHeap LlLinks) (cur : Nat) (c : UCHAR) : TrieHeap LlLinks × Option Nat :=
  match triellGetNode heap cur c with
  | some next => (heap, some next)
  | none => triellCreateNode heap cur c

/-- `_DARRAY_CTRL_S`, whose `uiSize` is the length of the array. -/
structure Darray where
  step_num : Nat
  phArray : List (Option Nat)

structure DarrayLinks where
  nexts : Option Darray
  bits : Nat → UINT
  c : UCHAR

def darrayZero : DarrayLinks := ⟨none, fun _ => 0, 0⟩

def darrayCreate (heap : TrieHeap DarrayLinks) (init_num step_num : Nat) :
    TrieHeap DarrayLinks × Option Darray :=
  match heap.malloc with
  | (heap, false) => (heap, none)
  | (heap, true) =>
    match heap.malloc with
    | (heap, false) => (heap, none)
    | (heap, true) => (heap, some ⟨step_num, List.replicate init_num none⟩)

def darrayAddToSpace (array : Darray) (hData : Nat) : Option Darray :=
  if none ∈ array.phArray then
    some { array with phArray := array.phArray.set (array.phArray.idxOf none) (some hData) }
  else
    none

def darrayExpandAndAdd (heap : TrieHeap DarrayLinks) (array : Darray) (hData : Nat) :
    TrieHeap DarrayLinks × Option Darray :=
  match heap.malloc with
  | (heap, false) => (heap, none)
  | (heap, true) =>
    (heap, some { array with
      phArray := (array.phArray ++ List.replicate array.step_num none).set array.phArray.length
        (some hData) })

def darrayAdd (heap : TrieHeap DarrayLinks) (array : Darray) (hData : Nat) :
    TrieHeap DarrayLinks × Option Darray :=
  match darrayAddToSpace array hData with
  | some array => (heap, some array)
  | none => darrayExpandAndAdd heap array hData

def triedarrayGetNode (heap : TrieHeap DarrayLinks) (this_node : Nat) (c : UCHAR) : Option Nat :=
  if !arrayBitTest (heap.node this_node).links.bits c.toNat then
    none
  else
    match (heap.node this_node).links.nexts with
    | none => none
    | some array =>
      array.phArray.findSome? fun slot =>
        slot.bind fun node => if (heap.node node).links.c == c then some node else none

/-- The list of children, which is created with the first child. -/
def triedarrayNexts (heap : TrieHeap DarrayLinks) (this_node : Nat) :
    TrieHeap DarrayLinks × Option Darray :=
  match (heap.node this_node).links.nexts with
  | some nexts => (heap, some nexts)
  | none =>
    match darrayCreate heap 1 1 with
    | (heap, none) => (heap, none)
    | (heap, some nexts) =>
      (heap.setLinks this_node { (heap.node this_node).links with nexts := some nexts }, some nexts)

def triedarrayCreateNode (heap : TrieHeap DarrayLinks) (this_node : Nat) (c : UCHAR) :
    TrieHeap DarrayLinks × Option Nat :=
  match heap.zMalloc darrayZero with
  | (heap, none) => (heap, none)
  | (heap, some node) =>
    match triedarrayNexts heap this_node with
    | (heap, none) => (heap, none)
    | (heap, some nexts) =>
      let heap := heap.setLinks node { (heap.node node).links with c := c }
      match darrayAdd heap nexts node with
      | (heap, none) => (heap, none)
      | (heap, some nexts) =>
        let links := (heap.node this_node).links
        (heap.setLinks this_node
          { links with nexts := some nexts, bits := arrayBitSet links.bits c.toNat }, some node)

def triedarrayInsert (heap : TrieHeap DarrayLinks) (cur : Nat) (c : UCHAR) :
    TrieHeap DarrayLinks × Option Nat :=
  match triedarrayGetNode heap cur c with
  | some next => (heap, some next)
  | none => triedarrayCreateNode heap cur c

inductive TrieType where
  | simple
  | ll
  | darray
  | fourBits
  | twoBits
  deriving DecidableEq

def TrieType.Links : TrieType → Type
  | simple => NextLinks
  | ll => LlLinks
  | darray => DarrayLinks
  | fourBits => NextLinks
  | twoBits => NextLinks

def TrieType.funcTbl : (type : TrieType) → TrieFuncs type.Links
  | simple => ⟨nextZero, trieSimpleInsert, trieSimpleFindNode⟩
  | ll => ⟨llZero, triellInsert, triellGetNode⟩
  | darray => ⟨darrayZero, triedarrayInsert, triedarrayGetNode⟩
  | fourBits => ⟨nextZero, trie4bInsert, trie4bFindNode⟩
  | twoBits => ⟨nextZero, trie2bInsert, trie2bFindNode⟩

end MyCode.Trie

/-!
## Tries

`trie_utl.c`: insertion, deletion and matching over the functions of a node layout.  The
five `prefix_match` functions differ in the child that they go to only.  The root is the
first address.
-/

namespace MyCode.Trie

section Functions

variable {Links : Type} (funcs : TrieFuncs Links) (heap : TrieHeap Links)

def trieRoot : Nat := 0

def trieCreate : TrieHeap Links :=
  ⟨fun _ => ⟨⟨0, 0⟩, funcs.zero⟩, trieRoot + 1, 0⟩

/-- The first loop of `Trie_InsertEx`. -/
def trieInsertNodes : TrieHeap Links → Nat → List UCHAR → TrieHeap Links × Option Nat
  | heap, cur, [] => (heap, some cur)
  | heap, cur, c :: rest =>
    match funcs.insert heap cur c with
    | (heap, none) => (heap, none)
    | (heap, some cur) => trieInsertNodes heap cur rest

def trieInsertEx (data : List UCHAR) (flag : UINT) (ud_set : Nat → Nat → Nat) (uh : Nat) :
    TrieHeap Links × Option Nat :=
  if data = [] then
    (heap, none)
  else
    match trieInsertNodes funcs heap trieRoot data with
    | (heap, none) => (heap, none)
    | (heap, some cur) =>
      let common := (heap.node cur).common
      (heap.setCommon cur
        ⟨ud_set common.ud uh, common.flag ||| trieNodeFlagMatched ||| flag⟩, some cur)

def trieDftSetUd (_old_ud uh : Nat) : Nat := uh

def trieInsert (data : List UCHAR) (flag : UINT) (ud : Nat) : TrieHeap Links × Option Nat :=
  trieInsertEx funcs heap data flag trieDftSetUd ud

/-- The loop of `prefix_match`. -/
def triePrefixMatchFrom (func : Option Nat → Nat → Nat → Option Nat) :
    (found matched_len : Nat) → (best : Option Nat) → List UCHAR → Option Nat
  | _, _, best, [] => best
  | found, matched_len, best, c :: rest =>
    match funcs.findNode heap found c with
    | none => best
    | some found =>
      let best :=
        if hasFlag (heap.node found).common.flag trieNodeFlagMatched then
          (func best found (matched_len + 1)).or best
        else
          best
      triePrefixMatchFrom func found (matched_len + 1) best rest

def triePrefixMatch (data : List UCHAR) (func : Option Nat → Nat → Nat → Option Nat) : Option Nat :=
  if data = [] then none else triePrefixMatchFrom funcs heap func trieRoot 0 none data

inductive TrieMatchType where
  | exact
  | maxLen
  | wildcard
  deriving DecidableEq

def trieExactMatch (data_len : Nat) (_old : Option Nat) (cur matched_len : Nat) : Option Nat :=
  if matched_len = data_len then some cur else none

def trieMaxMatch (_old : Option Nat) (cur _matched_len : Nat) : Option Nat :=
  some cur

def trieWildcardMatch (data_len : Nat) (_old : Option Nat) (cur matched_len : Nat) : Option Nat :=
  if matched_len = data_len then some cur
  else if hasFlag (heap.node cur).common.flag trieNodeFlagWildcard then some cur
  else none

def trieMatchFunc (data_len : Nat) : TrieMatchType → Option Nat → Nat → Nat → Option Nat
  | .exact => trieExactMatch data_len
  | .maxLen => trieMaxMatch
  | .wildcard => trieWildcardMatch heap data_len

def trieMatch (data : List UCHAR) (match_type : TrieMatchType) : Option Nat :=
  triePrefixMatch funcs heap data (trieMatchFunc heap data.length match_type)

def trieDel (data : List UCHAR) : TrieHeap Links × Nat :=
  match trieMatch funcs heap data .exact with
  | none => (heap, 0)
  | some common => (heap.setCommon common ⟨0, 0⟩, (heap.node common).common.ud)

end Functions

inductive TrieCall where
  /-- `left` allocations succeed. -/
  | insert (left : Nat) (data : List UCHAR) (flag : UINT) (ud : Nat)
  | del (data : List UCHAR)

/-- What was inserted for a string: the node that the insertion returned, the last data
and the flags of all insertions since the string was deleted. -/
structure TrieEntry where
  node : Nat
  common : TrieCommon

structure TrieRun (type : TrieType) where
  heap : TrieHeap type.Links
  entries : List UCHAR → Option TrieEntry

def TrieCall.Enabled : TrieCall → Prop
  | insert _ data _ _ => data ≠ []
  | del data => data ≠ []

variable {type : TrieType}

/-- The entries after an insertion that returned `node`. -/
def trieEntered (entries : List UCHAR → Option TrieEntry) (data : List UCHAR) (flag : UINT) (ud : Nat) :
    (node : Option Nat) → List UCHAR → Option TrieEntry
  | none => entries
  | some node =>
    let old : UINT := ((entries data).map fun entry => entry.common.flag).getD 0
    Function.update entries data (some ⟨node, ud, old ||| trieNodeFlagMatched ||| flag⟩)

def trieNext (run : TrieRun type) : TrieCall → TrieRun type
  | .insert left data flag ud =>
    let inserted := trieInsert type.funcTbl { run.heap with left := left } data flag ud
    ⟨inserted.1, trieEntered run.entries data flag ud inserted.2⟩
  | .del data => ⟨(trieDel type.funcTbl run.heap data).1, Function.update run.entries data none⟩

def trieSystem (type : TrieType) : Lib.System (TrieRun type) TrieCall where
  start run := run = ⟨trieCreate type.funcTbl, fun _ => none⟩
  step run call after := call.Enabled ∧ after = trieNext run call

/-- A string whose entry a kind of matching takes for some data. -/
structure TrieAccepts (entries : List UCHAR → Option TrieEntry) (data : List UCHAR)
    (match_type : TrieMatchType) (found : List UCHAR) (entry : TrieEntry) : Prop where
  inserted : entries found = some entry
  isPrefix : found <+: data
  accepted : found = data ∨ match_type = .maxLen ∨
    match_type = .wildcard ∧ hasFlag entry.common.flag trieNodeFlagWildcard = true

/-- The result is the node of the longest accepted string, which holds its data and flags. -/
def TrieAnswers (run : TrieRun type) (data : List UCHAR) (match_type : TrieMatchType) :
    Option Nat → Prop
  | none => ∀ found entry, ¬ TrieAccepts run.entries data match_type found entry
  | some node => ∃ found entry, TrieAccepts run.entries data match_type found entry ∧
      entry.node = node ∧ (run.heap.node node).common = entry.common ∧
      ∀ other otherEntry, TrieAccepts run.entries data match_type other otherEntry →
        other.length ≤ found.length

end MyCode.Trie
