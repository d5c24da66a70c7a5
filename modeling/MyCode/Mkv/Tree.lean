import MyCode.Types
import MyCode.Lib.KeyedList
import MyCode.Lib.SortedList

/-!
# Marks with keys and values

The tree of `mkv_utl.c`: a mark has a list of keys and a list of marks.  Memory is
always there.  An operation on a path goes to the first mark of each name.
-/

namespace MyCode.Mkv

/-- A C string that is not empty, without its terminator. -/
structure Name where
  bytes : List UCHAR
  nonempty : bytes ≠ []
  terminated : 0 ∉ bytes
  deriving DecidableEq

def strcmp : List UCHAR → List UCHAR → Int
  | [], [] => 0
  | [], byte :: _ => -byte.toNat
  | byte :: _, [] => byte.toNat
  | first :: firsts, second :: seconds =>
    if first = second then strcmp firsts seconds else (first.toNat : Int) - second.toNat

structure MkvKey where
  pucKeyName : Name
  pucKeyValue : List UCHAR

structure MkvMark where
  pucMarkName : Name
  stSectionDllHead : List MkvMark
  stKeyValueDllHead : List MkvKey

def isMark (pszMarkName : Name) (pstNode : MkvMark) : Bool :=
  strcmp pszMarkName.bytes pstNode.pucMarkName.bytes == 0

def isKey (pucKeyName : Name) (pstKeyNode : MkvKey) : Bool :=
  strcmp pucKeyName.bytes pstKeyNode.pucKeyName.bytes == 0

def mkvFormNewMark (pszMarkName : Name) : MkvMark :=
  ⟨pszMarkName, [], []⟩

def mkvFindMarkInMark (pstRoot : MkvMark) (pszMarkName : Name) : Option MkvMark :=
  pstRoot.stSectionDllHead.find? (isMark pszMarkName)

def mkvFindKeyInMark (pstMark : MkvMark) (pucKeyName : Name) : Option MkvKey :=
  pstMark.stKeyValueDllHead.find? (isKey pucKeyName)

/-- Where `MKV_AddMark2Mark` and `MKV_AddMark2MarkWithSort` link a mark. -/
def mkvLinkMark (bSort : Bool) (pstMark : MkvMark) (marks : List MkvMark) : List MkvMark :=
  if bSort then
    Lib.insertWhen
      (fun pstMarkTmp => strcmp pstMark.pucMarkName.bytes pstMarkTmp.pucMarkName.bytes ≤ 0)
      pstMark marks
  else
    marks ++ [pstMark]

/-- Where `MKV_AddNewKey2Mark` links a key. -/
def mkvLinkKey (bSort : Bool) (pstKey : MkvKey) (keys : List MkvKey) : List MkvKey :=
  if bSort then
    Lib.insertWhen
      (fun pstKeyTmp => strcmp pstKey.pucKeyName.bytes pstKeyTmp.pucKeyName.bytes < 0) pstKey keys
  else
    keys ++ [pstKey]

/-- The new key is linked before the old one is deleted.  The old one is never the
place of the new one, so the list is the same with the old one taken out first. -/
def mkvSetKeyValueInMark (pszKeyName : Name) (pszValue : List UCHAR) (bSort : Bool)
    (pstMark : MkvMark) : MkvMark :=
  { pstMark with
    stKeyValueDllHead := mkvLinkKey bSort ⟨pszKeyName, pszValue⟩
      (pstMark.stKeyValueDllHead.eraseP (isKey pszKeyName)) }

/-- `MKV_DelKeyInMark` of the key that `MKV_FindKeyInMark` returns. -/
def mkvDelKeyInMark (pucKeyName : Name) (pstMark : MkvMark) : MkvMark :=
  { pstMark with stKeyValueDllHead := pstMark.stKeyValueDllHead.eraseP (isKey pucKeyName) }

def mkvDelAllKeyInMark (pstMark : MkvMark) : MkvMark :=
  { pstMark with stKeyValueDllHead := [] }

/-- `MKV_DelMarkInMark` of the mark that `MKV_FindMarkInMark` returns. -/
def mkvDelMarkInMark (pszMarkName : Name) (pstMarkRoot : MkvMark) : MkvMark :=
  { pstMarkRoot with
    stSectionDllHead := pstMarkRoot.stSectionDllHead.eraseP (isMark pszMarkName) }

def mkvFindMarkByLevel : MkvMark → List Name → Option MkvMark
  | pstRoot, [] => some pstRoot
  | pstRoot, name :: apszArgs =>
    match pstRoot.stSectionDllHead.find? (isMark name) with
    | none => none
    | some pstMark => mkvFindMarkByLevel pstMark apszArgs

/-- Writing to the mark that `MKV_FindMarkByLevel` returns. -/
def mkvWrite (change : MkvMark → MkvMark) : List Name → MkvMark → MkvMark
  | [], pstRoot => change pstRoot
  | name :: apszArgs, pstRoot =>
    { pstRoot with
      stSectionDllHead :=
        Lib.updateFirst (isMark name) (mkvWrite change apszArgs) pstRoot.stSectionDllHead }

def mkvDelKey (pstRoot : MkvMark) (pstMarks : List Name) (pszKey : Name) : MkvMark × BsStatus :=
  match mkvFindMarkByLevel pstRoot pstMarks with
  | none => (pstRoot, .noSuch)
  | some pstMark =>
    match mkvFindKeyInMark pstMark pszKey with
    | none => (pstRoot, .noSuch)
    | some _ => (mkvWrite (mkvDelKeyInMark pszKey) pstMarks pstRoot, .ok)

def mkvDelAllKeyOfMark (pstRoot : MkvMark) (pstMarks : List Name) : MkvMark × BsStatus :=
  match mkvFindMarkByLevel pstRoot pstMarks with
  | none => (pstRoot, .noSuch)
  | some _ => (mkvWrite mkvDelAllKeyInMark pstMarks pstRoot, .ok)

/-- The path of the mark is that of its parent with a last name. -/
def mkvDelMark (pstRoot : MkvMark) (parent : List Name) (last : Name) : MkvMark × BsStatus :=
  match mkvFindMarkByLevel pstRoot parent with
  | none => (pstRoot, .noSuch)
  | some pstMarkRoot =>
    match mkvFindMarkInMark pstMarkRoot last with
    | none => (pstRoot, .noSuch)
    | some _ => (mkvWrite (mkvDelMarkInMark last) parent pstRoot, .ok)

/-- The loop of `MKV_AddMark`, which always returns `BS_OK`. -/
def mkvAddMark (bSort : Bool) : List Name → MkvMark → MkvMark
  | [], pstMarkRoot => pstMarkRoot
  | name :: rest, pstMarkRoot =>
    { pstMarkRoot with
      stSectionDllHead :=
        match mkvFindMarkInMark pstMarkRoot name with
        | none =>
          mkvLinkMark bSort (mkvAddMark bSort rest (mkvFormNewMark name))
            pstMarkRoot.stSectionDllHead
        | some _ =>
          Lib.updateFirst (isMark name) (mkvAddMark bSort rest) pstMarkRoot.stSectionDllHead }

def mkvGetMark (pstRoot : MkvMark) (pstMarks : List Name) : Option MkvMark :=
  mkvFindMarkByLevel pstRoot pstMarks

def mkvIsMarkExist (pstRoot : MkvMark) (pstMarks : List Name) : Bool :=
  (mkvGetMark pstRoot pstMarks).isSome

def mkvSetKeyValueAsString (pstRoot : MkvMark) (pstMarks : List Name) (pszKeyName : Name)
    (pszValue : List UCHAR) (bMarkSort : Bool) : MkvMark × BsStatus :=
  let pstRoot := mkvAddMark bMarkSort pstMarks pstRoot
  match mkvGetMark pstRoot pstMarks with
  | none => (pstRoot, .noSuch)
  | some _ => (mkvWrite (mkvSetKeyValueInMark pszKeyName pszValue bMarkSort) pstMarks pstRoot, .ok)

def mkvGetKeyValueAsString (pstRoot : MkvMark) (pstMarks : List Name) (pszKeyName : Name) :
    Option (List UCHAR) :=
  match mkvFindMarkByLevel pstRoot pstMarks with
  | none => none
  | some pstMark => (mkvFindKeyInMark pstMark pszKeyName).map MkvKey.pucKeyValue

/-- The scan of `MKV_GetNextMarkInMark` behind the first mark of a name. -/
def mkvScanNext (pcCurMarkName : Name) : List MkvMark → Option Name
  | [] => none
  | pstMark :: rest =>
    if isMark pcCurMarkName pstMark then
      rest.head?.map MkvMark.pucMarkName
    else
      mkvScanNext pcCurMarkName rest

def mkvGetNextMarkInMark (pstRoot : MkvMark) (pcCurMarkName : Option Name) : Option Name :=
  match pcCurMarkName with
  | none => pstRoot.stSectionDllHead.head?.map MkvMark.pucMarkName
  | some pcCurMarkName => mkvScanNext pcCurMarkName pstRoot.stSectionDllHead

def mkvGetNextMark (pstRoot : MkvMark) (pstMarks : List Name) (pcCurMarkName : Option Name) :
    Option Name :=
  match mkvGetMark pstRoot pstMarks with
  | none => none
  | some pstMarkRoot => mkvGetNextMarkInMark pstMarkRoot pcCurMarkName

/-- The first key with a greater name, in the order of the list. -/
def mkvGetNextKeyInMark (pstMark : MkvMark) (ppszKeyName : Option Name) : Option Name :=
  match ppszKeyName with
  | none => pstMark.stKeyValueDllHead.head?.map MkvKey.pucKeyName
  | some ppszKeyName =>
    (pstMark.stKeyValueDllHead.find? fun pstKey =>
      strcmp ppszKeyName.bytes pstKey.pucKeyName.bytes < 0).map MkvKey.pucKeyName

def mkvGetNextKey (pstRoot : MkvMark) (pstMarks : List Name) (ppszKeyName : Option Name) :
    Option Name :=
  match mkvGetMark pstRoot pstMarks with
  | none => none
  | some pstMark => mkvGetNextKeyInMark pstMark ppszKeyName

end MyCode.Mkv
