import MyCode.Types

/-!
# The XML parser

`xml/xml_parse.c`.  A text is the bytes from `pszContent` on, and its pointers are offsets.
-/

namespace MyCode.Xml

inductive XmlParseState where
  | init
  | content
  | mark
  | remark1
  | remark2
  | remark3
  | remark
  | remarkEnd1
  | remarkEnd2
  | markName
  | markNameEnd
  | markKey
  | markKeyEnd
  | markKeyEquel
  | markValueSingleQuote
  | markValueSingleQuoteValue
  | markValueDoubleQuote
  | markValueDoubleQuoteValue
  | markValueQuoteEnd
  | markValue
  | markValueEnd
  | markEnd
  | bfEndMark
  | error
  deriving DecidableEq, Repr

inductive XmlParseAct where
  | none
  | str1
  | len1
  | str2
  | len2
  | l2Zero
  deriving DecidableEq, Repr

inductive XmlType where
  | none
  | markName
  | markKeyvalue
  | endMark
  deriving DecidableEq, Repr

structure XmlParseStateChangeTo where
  cChar : UCHAR
  eToState : XmlParseState
  eAction : XmlParseAct
  eType : XmlType
  deriving DecidableEq, Repr

structure XmlParseStateMachine where
  eState : XmlParseState
  astStateChange : List XmlParseStateChangeTo

def less : UCHAR := 0x3c

def greater : UCHAR := 0x3e

def slash : UCHAR := 0x2f

def bang : UCHAR := 0x21

def dash : UCHAR := 0x2d

def equal : UCHAR := 0x3d

def singleQuote : UCHAR := 0x27

def doubleQuote : UCHAR := 0x22

def space : UCHAR := 0x20

def tab : UCHAR := 0x09

def carriage : UCHAR := 0x0d

def newline : UCHAR := 0x0a

def gXmlParseStateMachine : List XmlParseStateMachine := [⟨.init, [⟨less, .mark, .none, .none⟩,
    ⟨0, .init, .none, .none⟩]⟩,
  ⟨.content, [⟨less, .mark, .none, .none⟩, ⟨0, .content, .none, .none⟩]⟩,
  ⟨.mark, [⟨greater, .markEnd, .none, .none⟩, ⟨slash, .bfEndMark, .none, .none⟩,
    ⟨space, .mark, .none, .none⟩,
    ⟨tab, .mark, .none, .none⟩,
    ⟨carriage, .mark, .none, .none⟩,
    ⟨newline, .mark, .none, .none⟩,
    ⟨bang, .remark1, .none, .none⟩,
    ⟨0, .markName, .str1, .none⟩]⟩,
  ⟨.remark1, [⟨dash, .remark2, .none, .none⟩, ⟨0, .error, .none, .none⟩]⟩,
  ⟨.remark2, [⟨dash, .remark3, .none, .none⟩, ⟨0, .error, .none, .none⟩]⟩,
  ⟨.remark3, [⟨dash, .remarkEnd1, .none, .none⟩, ⟨greater, .error, .none, .none⟩,
    ⟨0, .remark, .none, .none⟩]⟩,
  ⟨.remark, [⟨dash, .remarkEnd1, .none, .none⟩, ⟨greater, .error, .none, .none⟩,
    ⟨0, .remark, .none, .none⟩]⟩,
  ⟨.remarkEnd1, [⟨dash, .remarkEnd2, .none, .none⟩, ⟨greater, .error, .none, .none⟩,
    ⟨0, .remark, .none, .none⟩]⟩,
  ⟨.remarkEnd2, [⟨greater, .markEnd, .none, .none⟩, ⟨0, .remark, .none, .none⟩]⟩,
  ⟨.markName, [⟨space, .markNameEnd, .len1, .markName⟩, ⟨tab, .markNameEnd, .len1, .markName⟩,
    ⟨carriage, .markNameEnd, .len1, .markName⟩,
    ⟨newline, .markNameEnd, .len1, .markName⟩,
    ⟨slash, .bfEndMark, .len1, .markName⟩,
    ⟨greater, .markEnd, .len1, .markName⟩,
    ⟨0, .markName, .none, .none⟩]⟩,
  ⟨.markNameEnd, [⟨space, .markNameEnd, .none, .none⟩, ⟨tab, .markNameEnd, .none, .none⟩,
    ⟨carriage, .markNameEnd, .none, .none⟩,
    ⟨newline, .markNameEnd, .none, .none⟩,
    ⟨slash, .bfEndMark, .none, .none⟩,
    ⟨greater, .markEnd, .none, .none⟩,
    ⟨equal, .error, .none, .none⟩,
    ⟨0, .markKey, .str1, .none⟩]⟩,
  ⟨.markKey, [⟨space, .markKeyEnd, .len1, .none⟩, ⟨tab, .markKeyEnd, .len1, .none⟩,
    ⟨carriage, .markKeyEnd, .len1, .none⟩,
    ⟨newline, .markKeyEnd, .len1, .none⟩,
    ⟨equal, .markKeyEquel, .len1, .none⟩,
    ⟨slash, .error, .none, .none⟩,
    ⟨greater, .error, .none, .none⟩,
    ⟨0, .markKey, .none, .none⟩]⟩,
  ⟨.markKeyEnd, [⟨space, .markKeyEnd, .none, .none⟩, ⟨tab, .markKeyEnd, .none, .none⟩,
    ⟨carriage, .markKeyEnd, .none, .none⟩,
    ⟨newline, .markKeyEnd, .none, .none⟩,
    ⟨equal, .markKeyEquel, .none, .none⟩,
    ⟨0, .error, .none, .none⟩]⟩,
  ⟨.markKeyEquel, [⟨space, .markKeyEquel, .none, .none⟩, ⟨tab, .markKeyEquel, .none, .none⟩,
    ⟨carriage, .markKeyEquel, .none, .none⟩,
    ⟨newline, .markKeyEquel, .none, .none⟩,
    ⟨singleQuote, .markValueSingleQuote, .none, .none⟩,
    ⟨doubleQuote, .markValueDoubleQuote, .none, .none⟩,
    ⟨equal, .error, .none, .none⟩,
    ⟨slash, .error, .none, .none⟩,
    ⟨greater, .error, .none, .none⟩,
    ⟨0, .markValue, .str2, .none⟩]⟩,
  ⟨.markValueSingleQuote, [⟨singleQuote, .markValueQuoteEnd, .l2Zero, .markKeyvalue⟩,
    ⟨0, .markValueSingleQuoteValue, .str2, .none⟩]⟩,
  ⟨.markValueSingleQuoteValue, [⟨singleQuote, .markValueQuoteEnd, .len2, .markKeyvalue⟩,
    ⟨0, .markValueSingleQuoteValue, .none, .none⟩]⟩,
  ⟨.markValueDoubleQuote, [⟨doubleQuote, .markValueQuoteEnd, .l2Zero, .markKeyvalue⟩,
    ⟨0, .markValueDoubleQuoteValue, .str2, .none⟩]⟩,
  ⟨.markValueDoubleQuoteValue, [⟨doubleQuote, .markValueQuoteEnd, .len2, .markKeyvalue⟩,
    ⟨0, .markValueDoubleQuoteValue, .none, .none⟩]⟩,
  ⟨.markValueQuoteEnd, [⟨slash, .bfEndMark, .none, .none⟩, ⟨greater, .markEnd, .none, .none⟩,
    ⟨space, .markValueEnd, .none, .none⟩,
    ⟨tab, .markValueEnd, .none, .none⟩,
    ⟨carriage, .markValueEnd, .none, .none⟩,
    ⟨newline, .markValueEnd, .none, .none⟩,
    ⟨0, .error, .none, .none⟩]⟩,
  ⟨.markValue, [⟨slash, .bfEndMark, .len2, .markKeyvalue⟩,
    ⟨greater, .markEnd, .len2, .markKeyvalue⟩,
    ⟨space, .markValueEnd, .len2, .markKeyvalue⟩,
    ⟨tab, .markValueEnd, .len2, .markKeyvalue⟩,
    ⟨carriage, .markValueEnd, .len2, .markKeyvalue⟩,
    ⟨newline, .markValueEnd, .len2, .markKeyvalue⟩,
    ⟨0, .markValue, .none, .none⟩]⟩,
  ⟨.markValueEnd, [⟨slash, .bfEndMark, .none, .none⟩, ⟨greater, .markEnd, .none, .none⟩,
    ⟨space, .markValueEnd, .none, .none⟩,
    ⟨tab, .markValueEnd, .none, .none⟩,
    ⟨carriage, .markValueEnd, .none, .none⟩,
    ⟨newline, .markValueEnd, .none, .none⟩,
    ⟨0, .markKey, .str1, .none⟩]⟩,
  ⟨.markEnd, [⟨less, .mark, .none, .none⟩, ⟨0, .content, .none, .none⟩]⟩,
  ⟨.bfEndMark, [⟨greater, .markEnd, .none, .endMark⟩, ⟨0, .bfEndMark, .none, .none⟩]⟩]

/-- `XML_PARSE_S`; a null pointer is `none`. -/
structure XmlParseS where
  eType : XmlType
  pszStr1 : Option Nat
  pszStr2 : Option Nat
  uiStr1Len : UINT
  uiStr2Len : UINT
  deriving DecidableEq, Repr

/-- The changes of the state; what a row leaves open is zero. -/
def stateChanges (eState : XmlParseState) : List XmlParseStateChangeTo :=
  match gXmlParseStateMachine[eState.ctorIdx]? with
  | some row =>
    row.astStateChange ++
      List.replicate (10 - row.astStateChange.length) ⟨0, .init, .none, .none⟩
  | none => []

def changeTo (eState : XmlParseState) (cChar : UCHAR) : Option XmlParseStateChangeTo :=
  (stateChanges eState).find? fun pstChangeTo =>
    pstChangeTo.cChar = cChar || pstChangeTo.cChar = 0

def xmlParseAct (stParse : XmlParseS) (pt : Nat) : XmlParseAct → XmlParseS
  | .none => stParse
  | .str1 => { stParse with pszStr1 := some pt }
  | .len1 => { stParse with uiStr1Len := BitVec.ofNat 32 (pt - stParse.pszStr1.getD 0) }
  | .str2 => { stParse with pszStr2 := some pt }
  | .len2 => { stParse with uiStr2Len := BitVec.ofNat 32 (pt - stParse.pszStr2.getD 0) }
  | .l2Zero => { stParse with pszStr2 := some pt, uiStr2Len := 0 }

def xmlParseReport (stParse : XmlParseS) (pt : Nat) (pstChangeTo : XmlParseStateChangeTo) :
    XmlParseS :=
  { xmlParseAct stParse pt pstChangeTo.eAction with eType := pstChangeTo.eType }

/-- What `XML_Parse` returns, with the callbacks that it has made. -/
structure XmlParsed (User : Type) where
  eRet : BsStatus
  hUserHandle : User
  callbacks : List XmlParseS

def XmlParsed.after {User : Type} (callbacks : List XmlParseS) (parsed : XmlParsed User) :
    XmlParsed User :=
  { parsed with callbacks := callbacks ++ parsed.callbacks }

section Parse

variable {User : Type} (pfFunc : XmlParseS → User → BsStatus × User)

def xmlParseLoop : (rest : List UCHAR) → (pt : Nat) → (eState : XmlParseState) →
    (stParse : XmlParseS) → (hUserHandle : User) → XmlParsed User
  | [], _, _, _, hUserHandle => ⟨.ok, hUserHandle, []⟩
  | cChar :: rest, pt, eState, stParse, hUserHandle =>
    if cChar = 0 then ⟨.ok, hUserHandle, []⟩
    else
      match changeTo eState cChar with
      | none => xmlParseLoop rest (pt + 1) eState stParse hUserHandle
      | some pstChangeTo =>
        if pstChangeTo.eToState = .error then ⟨.err, hUserHandle, []⟩
        else
          if pstChangeTo.eType ≠ .none then
            let stParse := xmlParseReport stParse pt pstChangeTo
            let called := pfFunc stParse hUserHandle
            if called.1 ≠ .ok then ⟨called.1, called.2, [stParse]⟩
            else
              (xmlParseLoop rest (pt + 1) pstChangeTo.eToState stParse called.2).after [stParse]
          else
            let stParse := xmlParseAct stParse pt pstChangeTo.eAction
            xmlParseLoop rest (pt + 1) pstChangeTo.eToState stParse hUserHandle

def xmlParse (pszContent : List UCHAR) (hUserHandle : User) : XmlParsed User :=
  xmlParseLoop pfFunc pszContent 0 .init ⟨.none, none, none, 0, 0⟩ hUserHandle

end Parse

end MyCode.Xml
