import Mathlib.Data.List.Infix
import MyCode.Xml

/-!
# What the parser reports lies in the text

Between a start pointer and its length the parser stays in one state; the table shows it
change by change, and every other state keeps whole ranges.
-/

namespace MyCode.Xml

open Option List Nat

/-- The first string has started and waits for its length. -/
def opens1 : XmlParseState → Bool
  | .markName | .markKey => true
  | _ => false

def opens2 : XmlParseState → Bool
  | .markValueSingleQuoteValue | .markValueDoubleQuoteValue | .markValue => true
  | _ => false

def hasName : XmlParseState → Bool
  | .markName | .markNameEnd | .markKey | .markKeyEnd | .markKeyEquel | .markValueSingleQuote
  | .markValueSingleQuoteValue | .markValueDoubleQuote | .markValueDoubleQuoteValue
  | .markValueQuoteEnd | .markValue | .markValueEnd => true
  | _ => false

/-- How an action may open and close the two strings. -/
def ActFits (eState eToState : XmlParseState) : XmlParseAct → Prop
  | .none => opens1 eToState = opens1 eState ∧ opens2 eToState = opens2 eState
  | .str1 => opens1 eToState = true ∧ opens2 eToState = opens2 eState
  | .len1 => opens1 eState = true ∧ opens1 eToState = false ∧ opens2 eToState = opens2 eState
  | .str2 => opens1 eToState = opens1 eState ∧ opens2 eToState = true
  | .len2 => opens2 eState = true ∧ opens1 eToState = opens1 eState ∧ opens2 eToState = false
  | .l2Zero => opens1 eToState = opens1 eState ∧ opens2 eToState = false

instance (eState eToState : XmlParseState) (eAction : XmlParseAct) :
    Decidable (ActFits eState eToState eAction) := by
  cases eAction <;> unfold ActFits <;> infer_instance

def TypeFits (eState : XmlParseState) (change : XmlParseStateChangeTo) : Prop :=
  change.eType = .none ∨
    opens1 change.eToState = false ∧ opens2 change.eToState = false ∧
      (change.eType = .endMark ∨ (hasName eState = true ∧
          (change.eType = .markKeyvalue → change.eAction = .len2 ∨ change.eAction = .l2Zero)))

instance (eState : XmlParseState) (change : XmlParseStateChangeTo) :
    Decidable (TypeFits eState change) := by
  unfold TypeFits
  infer_instance

structure ChangeFits (eState : XmlParseState) (change : XmlParseStateChangeTo) : Prop where
  act : ActFits eState change.eToState change.eAction
  type : TypeFits eState change
  named : hasName change.eToState = true → hasName eState = true ∨ change.eAction = .str1

instance (eState : XmlParseState) (change : XmlParseStateChangeTo) :
    Decidable (ChangeFits eState change) :=
  decidable_of_iff (ActFits eState change.eToState change.eAction ∧ TypeFits eState change ∧
      (hasName change.eToState = true → hasName eState = true ∨ change.eAction = .str1))
    ⟨fun ⟨act, type, named⟩ => ⟨act, type, named⟩, fun ⟨act, type, named⟩ => ⟨act, type, named⟩⟩

/-- The changes that the row of a state writes out. -/
def rowChanges (eState : XmlParseState) : List XmlParseStateChangeTo :=
  (gXmlParseStateMachine[eState.ctorIdx]?.map (·.astStateChange)).getD []

theorem rowChanges_fit (eState : XmlParseState) : ∀ change ∈ rowChanges eState,
    change.eToState ≠ .error → ChangeFits eState change := by
  cases eState <;> decide

theorem rowChanges_wild {eState : XmlParseState} (live : eState ≠ .error) :
    ∃ change ∈ rowChanges eState, change.cChar = 0 := by
  revert live
  cases eState <;> decide

theorem changeTo_eq {eState : XmlParseState} (live : eState ≠ .error) (cChar : UCHAR) :
    changeTo eState cChar = (rowChanges eState).find? fun pstChangeTo =>
      pstChangeTo.cChar = cChar || pstChangeTo.cChar = 0 := by
  obtain ⟨wild, listed, isWild⟩ := rowChanges_wild live
  have found : ((rowChanges eState).find? fun pstChangeTo =>
      pstChangeTo.cChar = cChar || pstChangeTo.cChar = 0).isSome := by
    rw [find?_isSome]
    exact ⟨wild, listed, by simp [isWild]⟩
  rw [changeTo, stateChanges]
  rw [rowChanges] at found ⊢
  cases row : gXmlParseStateMachine[eState.ctorIdx]? with
  | none => rfl
  | some =>
    rw [row] at found
    simp only [Option.map_some, getD_some] at found ⊢
    rw [find?_append, or_of_isSome found]

/-- A string inside the first `size` bytes; a null pointer has no length. -/
def InText (size : Nat) : (pszStr : Option Nat) → (uiStrLen : UINT) → Prop
  | none, uiStrLen => uiStrLen = 0
  | some start, uiStrLen => start + uiStrLen.toNat ≤ size

theorem InText.mono {size larger : Nat} {pszStr : Option Nat} {uiStrLen : UINT}
    (inside : InText size pszStr uiStrLen) (grows : size ≤ larger) :
    InText larger pszStr uiStrLen := by
  cases pszStr with
  | none => exact inside
  | some start => exact le_trans (show start + uiStrLen.toNat ≤ size from inside) grows

/-- A started string begins before `pt`, any other one is whole. -/
def Tracked (pt : Nat) (pszStr : Option Nat) (uiStrLen : UINT) : (opened : Bool) → Prop
  | true => ∃ start, pszStr = some start ∧ start ≤ pt
  | false => InText pt pszStr uiStrLen

theorem Tracked.mono {pt later : Nat} {pszStr : Option Nat} {uiStrLen : UINT} {opened : Bool}
    (tracked : Tracked pt pszStr uiStrLen opened) (grows : pt ≤ later) :
    Tracked later pszStr uiStrLen opened := by
  cases opened with
  | true =>
    obtain ⟨start, isStart, before⟩ := tracked
    exact ⟨start, isStart, le_trans before grows⟩
  | false => exact InText.mono tracked grows

theorem Tracked.start (pt : Nat) (uiStrLen : UINT) : Tracked (pt + 1) (some pt) uiStrLen true :=
  ⟨pt, rfl, le_succ pt⟩

theorem Tracked.close {pt : Nat} {pszStr : Option Nat} {uiStrLen : UINT}
    (tracked : Tracked pt pszStr uiStrLen true) :
    Tracked (pt + 1) pszStr (BitVec.ofNat 32 (pt - pszStr.getD 0)) false := by
  obtain ⟨start, rfl, _⟩ := tracked
  have length : (BitVec.ofNat 32 (pt - start)).toNat ≤ pt - start := by
    exact mod_le _ _
  change start + (BitVec.ofNat 32 (pt - start)).toNat ≤ pt + 1
  omega

structure RangesOk (pt : Nat) (eState : XmlParseState) (stParse : XmlParseS) : Prop where
  first : Tracked pt stParse.pszStr1 stParse.uiStr1Len (opens1 eState)
  second : Tracked pt stParse.pszStr2 stParse.uiStr2Len (opens2 eState)
  named : hasName eState = true → stParse.pszStr1.isSome

/-- What a callback is given lies in a text of `size` bytes. -/
structure ReportsInText (size : Nat) (stParse : XmlParseS) : Prop where
  first : InText size stParse.pszStr1 stParse.uiStr1Len
  second : InText size stParse.pszStr2 stParse.uiStr2Len
  typed : stParse.eType ≠ .none
  named : stParse.eType ≠ .endMark → stParse.pszStr1.isSome
  valued : stParse.eType = .markKeyvalue → stParse.pszStr2.isSome

section Act

variable {pt : Nat} {eState : XmlParseState} {stParse : XmlParseS}
  {change : XmlParseStateChangeTo}

theorem RangesOk.act (ok : RangesOk pt eState stParse) (fits : ChangeFits eState change) :
    RangesOk (pt + 1) change.eToState (xmlParseAct stParse pt change.eAction) := by
  have first := ok.first.mono (le_succ pt)
  have second := ok.second.mono (le_succ pt)
  have act := fits.act
  have named : hasName change.eToState = true →
      (xmlParseAct stParse pt change.eAction).pszStr1.isSome := by
    intro isNamed
    rcases fits.named isNamed with before | starts
    · have known := ok.named before
      cases change.eAction <;> first | exact known | rfl
    · rw [starts]
      rfl
  cases eAction : change.eAction with rw [eAction] at act named
  | none => exact ⟨act.1 ▸ first, act.2 ▸ second, named⟩
  | str1 => exact ⟨act.1 ▸ .start pt _, act.2 ▸ second, named⟩
  | len1 =>
    have opened := ok.first
    rw [act.1] at opened
    exact ⟨act.2.1 ▸ opened.close, act.2.2 ▸ second, named⟩
  | str2 => exact ⟨act.1 ▸ first, act.2 ▸ .start pt _, named⟩
  | len2 =>
    have opened := ok.second
    rw [act.1] at opened
    exact ⟨act.2.1 ▸ first, act.2.2 ▸ opened.close, named⟩
  | l2Zero =>
    have nothing := le_succ pt
    exact ⟨act.1 ▸ first, act.2 ▸ nothing, named⟩

theorem RangesOk.reports (ok : RangesOk pt eState stParse) (fits : ChangeFits eState change)
    (reports : change.eType ≠ .none) :
    ReportsInText (pt + 1) (xmlParseReport stParse pt change) := by
  have after := ok.act fits
  obtain ⟨closed1, closed2, kind⟩ := fits.type.resolve_left reports
  have first := after.first
  have second := after.second
  rw [closed1] at first
  rw [closed2] at second
  refine ⟨first, second, reports, fun isNamed => ?_, fun isValued => ?_⟩
  · obtain ⟨named, -⟩ := kind.resolve_left isNamed
    have known := ok.named named
    change (xmlParseAct stParse pt change.eAction).pszStr1.isSome
    cases change.eAction <;> first | exact known | rfl
  have valued : change.eType ≠ .endMark := by
    intro isEnd
    cases isEnd.symm.trans isValued
  change (xmlParseAct stParse pt change.eAction).pszStr2.isSome
  rcases (kind.resolve_left valued).2 isValued with closes | isEmpty
  · have act := fits.act
    rw [closes] at act
    obtain ⟨start, isStart, -⟩ : ∃ start, stParse.pszStr2 = some start ∧ start ≤ pt := by
      have opened := ok.second
      rwa [act.1] at opened
    rw [closes]
    exact isSome_of_eq_some isStart
  · rw [isEmpty]
    rfl

end Act

theorem ReportsInText.mono {size larger : Nat} {stParse : XmlParseS}
    (inside : ReportsInText size stParse) (grows : size ≤ larger) : ReportsInText larger stParse :=
  ⟨inside.first.mono grows, inside.second.mono grows, inside.typed, inside.named, inside.valued⟩

def content (pszContent : List UCHAR) : List UCHAR :=
  pszContent.takeWhile (· ≠ 0)

theorem content_cons {cChar : UCHAR} (inside : cChar ≠ 0) (rest : List UCHAR) :
    content (cChar :: rest) = cChar :: content rest := by
  exact takeWhile_cons_of_pos (decide_eq_true inside)

section Loop

variable {User : Type} (pfFunc : XmlParseS → User → BsStatus × User)

theorem xmlParseLoop_inText (rest : List UCHAR) {pt : Nat} {eState : XmlParseState}
    {stParse : XmlParseS} (live : eState ≠ .error) (ok : RangesOk pt eState stParse)
    (hUserHandle : User) :
    ∀ callback ∈ (xmlParseLoop pfFunc rest pt eState stParse hUserHandle).callbacks,
      ReportsInText (pt + (content rest).length) callback := by
  induction rest generalizing pt eState stParse hUserHandle with
  | nil => simp [xmlParseLoop]
  | cons cChar rest ih =>
    rw [xmlParseLoop, changeTo_eq live]
    split
    · simp
    next inside =>
    have shifted : pt + (content (cChar :: rest)).length = pt + 1 + (content rest).length := by
      rw [content_cons inside, length_cons]
      omega
    have here : pt + 1 ≤ pt + (content (cChar :: rest)).length := by omega
    obtain ⟨wild, listed, isWild⟩ := rowChanges_wild live
    split
    · next missing =>
      have passed := find?_eq_none.mp missing wild listed
      simp [isWild] at passed
    next change found =>
    have fits := rowChanges_fit eState change (mem_of_find?_eq_some found)
    split
    · simp
    next lives =>
    have fits := fits lives
    simp only
    split
    · next reports =>
      have reported := (ok.reports fits reports).mono here
      have after : RangesOk (pt + 1) change.eToState (xmlParseReport stParse pt change) := by
        obtain ⟨first, second, named⟩ := ok.act fits
        exact ⟨first, second, named⟩
      split
      · intro callback isCallback
        rw [mem_singleton.mp isCallback]
        exact reported
      intro callback isCallback
      rcases mem_append.mp isCallback with isThis | isLater
      · rw [mem_singleton.mp isThis]
        exact reported
      · rw [shifted]
        exact ih lives after _ callback isLater
    · rw [shifted]
      exact ih lives (ok.act fits) _

theorem xmlParse_inText (pszContent : List UCHAR) (hUserHandle : User) :
    ∀ callback ∈ (xmlParse pfFunc pszContent hUserHandle).callbacks,
      ReportsInText (content pszContent).length callback := by
  have start : RangesOk 0 .init ⟨.none, none, none, 0, 0⟩ := by
    refine ⟨rfl, rfl, fun impossible => ?_⟩
    cases impossible
  have reported := xmlParseLoop_inText pfFunc pszContent (by decide) start hUserHandle
  rwa [Nat.zero_add] at reported

end Loop

end MyCode.Xml

/-!
## Documents

The grammar of the documents that the parser is for, and what it reports of them.
-/

namespace MyCode.Xml

def IsBlank (cChar : UCHAR) : Prop :=
  cChar = space ∨ cChar = tab ∨ cChar = carriage ∨ cChar = newline

structure Blanks where
  chars : List UCHAR
  blank : ∀ cChar ∈ chars, IsBlank cChar

structure IsWordChar (cChar : UCHAR) : Prop where
  nonzero : cChar ≠ 0
  notBlank : ¬IsBlank cChar
  notEqual : cChar ≠ equal
  notSlash : cChar ≠ slash
  notGreater : cChar ≠ greater
  notSingle : cChar ≠ singleQuote
  notDouble : cChar ≠ doubleQuote

structure Word where
  chars : List UCHAR
  word : ∀ cChar ∈ chars, IsWordChar cChar
  nonempty : chars ≠ []

structure Name extends Word where
  notBang : chars.head? ≠ some bang

inductive Value where
  | unquoted (word : Word)
  | singleQuoted (chars : List UCHAR) (inside : ∀ cChar ∈ chars, cChar ≠ 0 ∧ cChar ≠ singleQuote)
  | doubleQuoted (chars : List UCHAR) (inside : ∀ cChar ∈ chars, cChar ≠ 0 ∧ cChar ≠ doubleQuote)

structure Attribute where
  before : Blanks
  apart : before.chars ≠ []
  name : Name
  beforeEqual : Blanks
  afterEqual : Blanks
  value : Value

structure Tag where
  beforeName : Blanks
  name : Name
  attributes : List Attribute
  atEnd : Blanks

inductive Part where
  | text (chars : List UCHAR) (plain : ∀ cChar ∈ chars, cChar ≠ 0 ∧ cChar ≠ less)
  | comment (chars : List UCHAR) (inside : ∀ cChar ∈ chars, cChar ≠ 0 ∧ cChar ≠ greater)
      (apart : ¬[dash, dash] <:+: chars) (ends : chars.getLast? ≠ some dash)
  | startTag (tag : Tag)
  | selfClosing (tag : Tag) (afterSlash : Blanks)
  | endTag (beforeSlash beforeName : Blanks) (name : Name) (atEnd : Blanks)

abbrev Document := List Part

def Value.text : Value → List UCHAR
  | .unquoted word => word.chars
  | .singleQuoted chars _ => singleQuote :: (chars ++ [singleQuote])
  | .doubleQuoted chars _ => doubleQuote :: (chars ++ [doubleQuote])

def Attribute.text (pair : Attribute) : List UCHAR :=
  pair.before.chars ++ (pair.name.chars ++ (pair.beforeEqual.chars ++
    equal :: pair.afterEqual.chars ++ pair.value.text))

def Tag.text (tag : Tag) : List UCHAR :=
  less :: tag.beforeName.chars ++ (tag.name.chars ++ (tag.attributes.flatMap Attribute.text ++
    tag.atEnd.chars))

def Part.chars : Part → List UCHAR
  | .text chars _ => chars
  | .comment chars _ _ _ => [less, bang, dash, dash] ++ (chars ++ [dash, dash, greater])
  | .startTag tag => tag.text ++ [greater]
  | .selfClosing tag afterSlash => tag.text ++ (slash :: afterSlash.chars ++ [greater])
  | .endTag beforeSlash beforeName name atEnd =>
    less :: beforeSlash.chars ++
      (slash :: (beforeName.chars ++ name.chars ++ atEnd.chars) ++ [greater])

def Document.text (document : Document) : List UCHAR :=
  document.flatMap Part.chars

inductive XmlReport where
  | markName (name : List UCHAR)
  | keyValue (name value : List UCHAR)
  | endMark

def Value.chars : Value → List UCHAR
  | .unquoted word => word.chars
  | .singleQuoted chars _ => chars
  | .doubleQuoted chars _ => chars

def Attribute.report (pair : Attribute) : XmlReport :=
  .keyValue pair.name.chars pair.value.chars

def Tag.reports (tag : Tag) : List XmlReport :=
  .markName tag.name.chars :: tag.attributes.map Attribute.report

def Part.reports : Part → List XmlReport
  | .text _ _ => []
  | .comment _ _ _ _ => []
  | .startTag tag => tag.reports
  | .selfClosing tag _ => tag.reports ++ [.endMark]
  | .endTag _ _ _ _ => [.endMark]

def Document.reports (document : Document) : List XmlReport :=
  document.flatMap Part.reports

def stringAt (text : List UCHAR) (pszStr : Option Nat) (uiStrLen : UINT) : Option (List UCHAR) :=
  pszStr.map fun start => (text.drop start).take uiStrLen.toNat

def Tells (text : List UCHAR) (callback : XmlParseS) : XmlReport → Prop
  | .markName name =>
    callback.eType = .markName ∧ stringAt text callback.pszStr1 callback.uiStr1Len = some name
  | .keyValue name value =>
    callback.eType = .markKeyvalue ∧
      stringAt text callback.pszStr1 callback.uiStr1Len = some name ∧
      stringAt text callback.pszStr2 callback.uiStr2Len = some value
  | .endMark => callback.eType = .endMark

/-- The names and values have a length that fits a word. -/
def XmlReport.Short : XmlReport → Prop
  | .markName name => name.length < 2 ^ 32
  | .keyValue name value => name.length < 2 ^ 32 ∧ value.length < 2 ^ 32
  | .endMark => True

theorem stringAt_length {text name : List UCHAR} {pszStr : Option Nat} {uiStrLen : UINT}
    (isName : stringAt text pszStr uiStrLen = some name) : name.length < 2 ^ 32 := by
  obtain ⟨-, -, rfl⟩ := Option.map_eq_some_iff.mp isName
  exact lt_of_le_of_lt (List.length_take_le _ _) uiStrLen.isLt

theorem Tells.short {text : List UCHAR} {callback : XmlParseS} {report : XmlReport}
    (tells : Tells text callback report) : report.Short := by
  cases report with
  | markName => exact stringAt_length tells.2
  | keyValue => exact ⟨stringAt_length tells.2.1, stringAt_length tells.2.2⟩
  | endMark => trivial

theorem stringAt_of_read {text read word : List UCHAR} (lies : read ++ word <+: text)
    (short : word.length < 2 ^ 32) :
    stringAt text (some read.length) (BitVec.ofNat 32 ((read ++ word).length - read.length)) =
      some word := by
  obtain ⟨-, rfl⟩ := lies
  have length : (BitVec.ofNat 32 ((read ++ word).length - read.length)).toNat = word.length := by
    rw [List.length_append, Nat.add_sub_cancel_left, BitVec.toNat_ofNat, Nat.mod_eq_of_lt short]
  rw [stringAt, Option.map_some, length, List.append_assoc, List.drop_left, List.take_left]

end MyCode.Xml
