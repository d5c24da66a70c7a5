import MyCode.Xml.Documents
import Mathlib.Data.List.Forall2

/-!
# Parsing a document

Every part of a document takes the machine from one of the states between two parts to
another one, with the reports of the part.
-/

namespace MyCode.Xml

open List

variable {chars : List UCHAR}

structure Machine where
  eState : XmlParseState
  stParse : XmlParseS

/-- The machine reads `word` after `read`, and the callbacks tell the reports. -/
inductive Takes (text : List UCHAR) :
    (read : List UCHAR) → Machine → (word : List UCHAR) → List XmlReport → Machine → Prop where
  | nil {read machine} : Takes text read machine [] [] machine
  | quiet {read eState stParse cChar change word reports after}
      (found : changeTo eState cChar = some change) (nonzero : cChar ≠ 0)
      (lives : change.eToState ≠ .error) (silent : change.eType = .none)
      (rest : Takes text (read ++ [cChar])
        ⟨change.eToState, xmlParseAct stParse read.length change.eAction⟩ word reports after) :
      Takes text read ⟨eState, stParse⟩ (cChar :: word) reports after
  | call {read eState stParse cChar change word report reports after}
      (found : changeTo eState cChar = some change) (nonzero : cChar ≠ 0)
      (lives : change.eToState ≠ .error) (reported : change.eType ≠ .none)
      (tells : Tells text (xmlParseReport stParse read.length change) report)
      (rest : Takes text (read ++ [cChar])
        ⟨change.eToState, xmlParseReport stParse read.length change⟩ word reports after) :
      Takes text read ⟨eState, stParse⟩ (cChar :: word) (report :: reports) after

section Takes

variable {text read word later : List UCHAR} {machine middle after : Machine}
  {reports more : List XmlReport} {eState : XmlParseState} {stParse : XmlParseS}

theorem Takes.trans (first : Takes text read machine word reports middle)
    (second : Takes text (read ++ word) middle later more after) :
    Takes text read machine (word ++ later) (reports ++ more) after := by
  induction first with
  | nil =>
    rw [append_nil] at second
    exact second
  | quiet found nonzero lives silent _ ih =>
    rw [append_cons] at second
    exact .quiet found nonzero lives silent (ih second)
  | call found nonzero lives reported tells _ ih =>
    rw [append_cons] at second
    exact .call found nonzero lives reported tells (ih second)

theorem Takes.stay (same : ∀ cChar ∈ word, cChar ≠ 0 ∧
      ∃ key, changeTo eState cChar = some ⟨key, eState, .none, .none⟩) (live : eState ≠ .error)
    (read : List UCHAR) (stParse : XmlParseS) :
    Takes text read ⟨eState, stParse⟩ word [] ⟨eState, stParse⟩ := by
  induction word generalizing read with
  | nil => exact .nil
  | cons cChar _ ih =>
    obtain ⟨nonzero, _, found⟩ := same cChar mem_cons_self
    have rest := ih (fun other listed => same other (mem_cons_of_mem _ listed))
      (read ++ [cChar])
    exact .quiet found nonzero live rfl rest

variable {User : Type} {pfFunc : XmlParseS → User → BsStatus × User}

theorem XmlParsed.after_after (first second : List XmlParseS) (parsed : XmlParsed User) :
    (parsed.after second).after first = parsed.after (first ++ second) := by
  rw [XmlParsed.after, XmlParsed.after, XmlParsed.after, append_assoc]

theorem Takes.loop (takes : Takes text read machine word reports after)
    (accepts : ∀ stParse hUserHandle, (pfFunc stParse hUserHandle).1 = .ok)
    (rest : List UCHAR) (hUserHandle : User) :
    ∃ callbacks hLater, Forall₂ (Tells text) callbacks reports ∧
      xmlParseLoop pfFunc (word ++ rest) read.length machine.eState machine.stParse hUserHandle =
        (xmlParseLoop pfFunc rest (read ++ word).length after.eState after.stParse hLater).after
          callbacks := by
  induction takes generalizing hUserHandle with
  | nil => exact ⟨[], hUserHandle, .nil, by rw [append_nil]; rfl⟩
  | @quiet read _ _ _ _ _ _ _ found nonzero lives silent _ ih =>
    obtain ⟨callbacks, hLater, told, goes⟩ := ih hUserHandle
    refine ⟨callbacks, hLater, told, ?_⟩
    rw [append_cons read, ← goes, cons_append, xmlParseLoop, if_neg nonzero, found]
    simp [if_neg lives, silent]
  | @call read _ stParse cChar change word _ _ _ found nonzero lives reported tells _
      ih =>
      let called := xmlParseReport stParse read.length change
      obtain ⟨callbacks, hLater, told, goes⟩ := ih (pfFunc called hUserHandle).2
      refine ⟨called :: callbacks, hLater, .cons tells told, ?_⟩
      rw [← singleton_append (l := callbacks), ← XmlParsed.after_after, append_cons read,
        ← goes, cons_append, xmlParseLoop, if_neg nonzero, found]
      simp only [if_neg lives, if_pos reported, accepts, ne_eq, not_true_eq_false, if_false,
        length_append, length_singleton]
      rfl

end Takes

theorem changeTo_blank {cChar : UCHAR} (isBlank : IsBlank cChar) :
    cChar ≠ 0 ∧
      changeTo .mark cChar = some ⟨cChar, .mark, .none, .none⟩ ∧
      changeTo .markName cChar = some ⟨cChar, .markNameEnd, .len1, .markName⟩ ∧
      changeTo .markNameEnd cChar = some ⟨cChar, .markNameEnd, .none, .none⟩ ∧
      changeTo .markKey cChar = some ⟨cChar, .markKeyEnd, .len1, .none⟩ ∧
      changeTo .markKeyEnd cChar = some ⟨cChar, .markKeyEnd, .none, .none⟩ ∧
      changeTo .markKeyEquel cChar = some ⟨cChar, .markKeyEquel, .none, .none⟩ ∧
      changeTo .markValueQuoteEnd cChar = some ⟨cChar, .markValueEnd, .none, .none⟩ ∧
      changeTo .markValue cChar = some ⟨cChar, .markValueEnd, .len2, .markKeyvalue⟩ ∧
      changeTo .markValueEnd cChar = some ⟨cChar, .markValueEnd, .none, .none⟩ := by
  rcases isBlank with rfl | rfl | rfl | rfl <;> decide

theorem changeTo_other {eState : XmlParseState} {cChar : UCHAR} (keys : List UCHAR)
    {wild : XmlParseStateChangeTo} (live : eState ≠ .error)
    (isWild : (rowChanges eState).getLast? = some wild) (zero : wild.cChar = 0)
    (isKeys : ∀ change ∈ (rowChanges eState).dropLast, change.cChar ∈ keys ∧ change.cChar ≠ 0)
    (other : cChar ∉ keys) : changeTo eState cChar = some wild := by
  have passed : ((rowChanges eState).dropLast.find? fun pstChangeTo =>
      pstChangeTo.cChar = cChar || pstChangeTo.cChar = 0) = none := by
    rw [find?_eq_none]
    intro change listed
    obtain ⟨isKey, notZero⟩ := isKeys change listed
    have apart : change.cChar ≠ cChar := fun same => other (same ▸ isKey)
    rw [Bool.or_eq_true, decide_eq_true_eq, decide_eq_true_eq]
    exact not_or.mpr ⟨apart, notZero⟩
  rw [changeTo_eq live, ← dropLast_append_getLast? wild isWild, find?_append, passed,
    Option.none_or, find?_singleton, zero]
  simp

def wordEnds : List UCHAR :=
  [space, tab, carriage, newline, equal, slash, greater, singleQuote, doubleQuote]

theorem IsWordChar.notEnd {cChar : UCHAR} (isWord : IsWordChar cChar) : cChar ∉ wordEnds := by
  have notBlank := isWord.notBlank
  rw [IsBlank] at notBlank
  push Not at notBlank
  simp [wordEnds, notBlank, isWord.notEqual, isWord.notSlash, isWord.notGreater, isWord.notSingle,
    isWord.notDouble]

theorem changeTo_word {cChar : UCHAR} (isWord : IsWordChar cChar) :
    changeTo .markName cChar = some ⟨0, .markName, .none, .none⟩ ∧
      changeTo .markNameEnd cChar = some ⟨0, .markKey, .str1, .none⟩ ∧
      changeTo .markKey cChar = some ⟨0, .markKey, .none, .none⟩ ∧
      changeTo .markKeyEquel cChar = some ⟨0, .markValue, .str2, .none⟩ ∧
      changeTo .markValue cChar = some ⟨0, .markValue, .none, .none⟩ ∧
      changeTo .markValueEnd cChar = some ⟨0, .markKey, .str1, .none⟩ := by
  refine ⟨?_, ?_, ?_, ?_, ?_, ?_⟩ <;>
    exact changeTo_other wordEnds (by decide) rfl rfl (by decide) isWord.notEnd

theorem changeTo_nameStart {cChar : UCHAR} (isWord : IsWordChar cChar) (notBang : cChar ≠ bang) :
    changeTo .mark cChar = some ⟨0, .markName, .str1, .none⟩ := by
  have other : cChar ∉ bang :: wordEnds := by
    rw [mem_cons]
    exact not_or.mpr ⟨notBang, isWord.notEnd⟩
  exact changeTo_other (bang :: wordEnds) (by decide) rfl rfl (by decide) other

section Words

variable {text read : List UCHAR} {eState eToState : XmlParseState} {stParse : XmlParseS}
  {eAction : XmlParseAct}

theorem Takes.blanks (blanks : Blanks) (live : eState ≠ .error)
    (same : ∀ cChar, IsBlank cChar → changeTo eState cChar = some ⟨cChar, eState, .none, .none⟩)
    (read : List UCHAR) (stParse : XmlParseS) :
    Takes text read ⟨eState, stParse⟩ blanks.chars [] ⟨eState, stParse⟩ := by
  refine .stay (fun cChar listed => ?_) live read stParse
  have isBlank := blanks.blank cChar listed
  exact ⟨(changeTo_blank isBlank).1, cChar, same cChar isBlank⟩

theorem Takes.one {cChar key : UCHAR} (nonzero : cChar ≠ 0) (lives : eToState ≠ .error)
    (found : changeTo eState cChar = some ⟨key, eToState, eAction, .none⟩)
    (read : List UCHAR) (stParse : XmlParseS) :
    Takes text read ⟨eState, stParse⟩ [cChar] []
      ⟨eToState, xmlParseAct stParse read.length eAction⟩ :=
  .quiet found nonzero lives rfl .nil

theorem Takes.endName {cChar key : UCHAR} {name : List UCHAR} (nonzero : cChar ≠ 0)
    (lives : eToState ≠ .error)
    (found : changeTo .markName cChar = some ⟨key, eToState, .len1, .markName⟩)
    (isName : stringAt text stParse.pszStr1
      (BitVec.ofNat 32 (read.length - stParse.pszStr1.getD 0)) = some name) :
    ∃ after, Takes text read ⟨.markName, stParse⟩ [cChar] [.markName name] ⟨eToState, after⟩ :=
  ⟨_, .call found nonzero lives (nofun) ⟨rfl, isName⟩ .nil⟩

theorem Takes.endValue {cChar key : UCHAR} {name value : List UCHAR} (nonzero : cChar ≠ 0)
    (lives : eToState ≠ .error)
    (found : changeTo eState cChar = some ⟨key, eToState, .len2, .markKeyvalue⟩)
    (isName : stringAt text stParse.pszStr1 stParse.uiStr1Len = some name)
    (isValue : stringAt text stParse.pszStr2
      (BitVec.ofNat 32 (read.length - stParse.pszStr2.getD 0)) = some value) :
    ∃ after, Takes text read ⟨eState, stParse⟩ [cChar] [.keyValue name value]
      ⟨eToState, after⟩ :=
  ⟨_, .call found nonzero lives (nofun) ⟨rfl, isName, isValue⟩ .nil⟩

theorem Takes.word (eAction : XmlParseAct) (word : Word) (live : eToState ≠ .error)
    (opens : ∀ cChar, IsWordChar cChar → word.chars.head? = some cChar →
      changeTo eState cChar = some ⟨0, eToState, eAction, .none⟩)
    (stays : ∀ cChar, IsWordChar cChar → changeTo eToState cChar = some ⟨0, eToState, .none, .none⟩)
    (read : List UCHAR) (stParse : XmlParseS) :
    Takes text read ⟨eState, stParse⟩ word.chars []
      ⟨eToState, xmlParseAct stParse read.length eAction⟩ := by
  obtain ⟨chars, isWord, nonempty⟩ := word
  cases chars with
  | nil => exact absurd rfl nonempty
  | cons cChar chars =>
    have first := isWord cChar mem_cons_self
    have rest : Takes text (read ++ [cChar])
        ⟨eToState, xmlParseAct stParse read.length eAction⟩ chars []
        ⟨eToState, xmlParseAct stParse read.length eAction⟩ := by
      refine .stay (fun other listed => ?_) live _ _
      have isOther := isWord other (mem_cons_of_mem _ listed)
      exact ⟨isOther.nonzero, 0, stays other isOther⟩
    exact .quiet (opens cChar first rfl) first.nonzero live rfl rest

theorem Takes.tagName (text : List UCHAR) (name : Name) (read : List UCHAR) (stParse : XmlParseS) :
    Takes text read ⟨.mark, stParse⟩ name.chars []
      ⟨.markName, { stParse with pszStr1 := some read.length }⟩ := by
  refine .word .str1 name.toWord (by decide) (fun cChar isWord isHead => ?_)
    (fun cChar isWord => (changeTo_word isWord).1) read stParse
  apply changeTo_nameStart isWord
  rintro rfl
  exact name.notBang isHead

theorem Takes.equalSign (before after : Blanks) (read : List UCHAR) (stParse : XmlParseS) :
    Takes text read ⟨.markKey, stParse⟩ (before.chars ++ equal :: after.chars) []
      ⟨.markKeyEquel, { stParse with
        uiStr1Len := BitVec.ofNat 32 (read.length - stParse.pszStr1.getD 0) }⟩ := by
  obtain ⟨chars, isBlank⟩ := before
  have afterwards (read : List UCHAR) (stParse : XmlParseS) :
      Takes text read ⟨.markKeyEquel, stParse⟩ after.chars [] ⟨.markKeyEquel, stParse⟩ :=
    .blanks after (by decide) (fun cChar blank => (changeTo_blank blank).2.2.2.2.2.2.1) read stParse
  cases chars with
  | nil =>
    have found : changeTo .markKey equal = some ⟨equal, .markKeyEquel, .len1, .none⟩ := by decide
    exact .quiet found (by decide) (by decide) rfl (afterwards _ _)
  | cons cChar chars =>
    obtain ⟨nonzero, -, -, -, found, -⟩ := changeTo_blank (isBlank cChar mem_cons_self)
    let others : Blanks := ⟨chars, fun other listed => isBlank other (mem_cons_of_mem _ listed)⟩
    let ended := xmlParseAct stParse read.length .len1
    have blanks : Takes text (read ++ [cChar]) ⟨.markKeyEnd, ended⟩ chars [] ⟨.markKeyEnd, ended⟩ :=
      .blanks others (by decide) (fun cChar blank => (changeTo_blank blank).2.2.2.2.2.1) _ _
    have sign : Takes text (read ++ [cChar] ++ chars) ⟨.markKeyEnd, ended⟩
        (equal :: after.chars) [] ⟨.markKeyEquel, ended⟩ := by
      have found : changeTo .markKeyEnd equal = some ⟨equal, .markKeyEquel, .none, .none⟩ := by
        decide
      exact .quiet found (by decide) (by decide) rfl (afterwards _ _)
    exact .quiet found nonzero (nofun) rfl (blanks.trans sign)

end Words

/-- Between the parts of a tag a name or a value may still have to be reported. -/
inductive Ready (text read : List UCHAR) : Machine → List XmlReport → Prop where
  | name {stParse name}
      (isName : stringAt text stParse.pszStr1
        (BitVec.ofNat 32 (read.length - stParse.pszStr1.getD 0)) = some name) :
      Ready text read ⟨.markName, stParse⟩ [.markName name]
  | value {stParse key value}
      (isKey : stringAt text stParse.pszStr1 stParse.uiStr1Len = some key)
      (isValue : stringAt text stParse.pszStr2
        (BitVec.ofNat 32 (read.length - stParse.pszStr2.getD 0)) = some value) :
      Ready text read ⟨.markValue, stParse⟩ [.keyValue key value]
  | nameEnd {stParse} : Ready text read ⟨.markNameEnd, stParse⟩ []
  | quoteEnd {stParse} : Ready text read ⟨.markValueQuoteEnd, stParse⟩ []
  | valueEnd {stParse} : Ready text read ⟨.markValueEnd, stParse⟩ []

/-- After some blanks everything is reported, and an attribute may begin. -/
def AfterBlank (machine : Machine) : Prop :=
  machine.eState = .markNameEnd ∨ machine.eState = .markValueEnd

theorem AfterBlank.ready {text read : List UCHAR} {machine : Machine} (blank : AfterBlank machine) :
    Ready text read machine [] := by
  obtain ⟨_, _⟩ := machine
  rcases blank with rfl | rfl
  · exact .nameEnd
  · exact .valueEnd

section Ready

variable {text read : List UCHAR} {machine : Machine} {pending : List XmlReport}

section

variable (ready : Ready text read machine pending)

include ready

theorem Ready.blank {cChar : UCHAR} (isBlank : IsBlank cChar) :
    ∃ after, Takes text read machine [cChar] pending after ∧ AfterBlank after := by
  obtain ⟨nonzero, -, name, nameEnd, -, -, -, quoteEnd, value, valueEnd⟩ := changeTo_blank isBlank
  cases ready with
  | name isName =>
    obtain ⟨_, takes⟩ := Takes.endName nonzero (by decide) name isName
    exact ⟨_, takes, .inl rfl⟩
  | value isKey isValue =>
    obtain ⟨_, takes⟩ := Takes.endValue nonzero (by decide) value isKey isValue
    exact ⟨_, takes, .inr rfl⟩
  | nameEnd => exact ⟨_, .one nonzero (by decide) nameEnd _ _, .inl rfl⟩
  | quoteEnd => exact ⟨_, .one nonzero (by decide) quoteEnd _ _, .inr rfl⟩
  | valueEnd => exact ⟨_, .one nonzero (by decide) valueEnd _ _, .inr rfl⟩

theorem Ready.blanks (blanks : Blanks) (nonempty : blanks.chars ≠ []) :
    ∃ after, Takes text read machine blanks.chars pending after ∧ AfterBlank after := by
  obtain ⟨chars, isBlank⟩ := blanks
  cases chars with
  | nil => exact absurd rfl nonempty
  | cons cChar chars =>
    obtain ⟨⟨eState, stParse⟩, takes, blank⟩ := ready.blank (isBlank cChar mem_cons_self)
    let others : Blanks := ⟨chars, fun other listed => isBlank other (mem_cons_of_mem _ listed)⟩
    have rest : Takes text (read ++ [cChar]) ⟨eState, stParse⟩ others.chars []
        ⟨eState, stParse⟩ := by
      rcases blank with rfl | rfl
      · exact .blanks others (by decide) (fun cChar blank => (changeTo_blank blank).2.2.2.1) _ _
      · exact .blanks others (by decide)
          (fun cChar blank => (changeTo_blank blank).2.2.2.2.2.2.2.2.2) _ _
    have whole := takes.trans rest
    rw [append_nil] at whole
    exact ⟨_, whole, blank⟩

theorem Ready.ends {cChar : UCHAR} {eToState : XmlParseState}
    (isEnd : cChar = greater ∧ eToState = .markEnd ∨ cChar = slash ∧ eToState = .bfEndMark) :
    ∃ stParse, Takes text read machine [cChar] pending ⟨eToState, stParse⟩ := by
  have nonzero : cChar ≠ 0 := by
    rcases isEnd with ⟨rfl, -⟩ | ⟨rfl, -⟩ <;> decide
  have lives : eToState ≠ .error := by
    rcases isEnd with ⟨-, rfl⟩ | ⟨-, rfl⟩ <;> decide
  have found : changeTo .markName cChar = some ⟨cChar, eToState, .len1, .markName⟩ ∧
      changeTo .markValue cChar = some ⟨cChar, eToState, .len2, .markKeyvalue⟩ ∧
      changeTo .markNameEnd cChar = some ⟨cChar, eToState, .none, .none⟩ ∧
      changeTo .markValueQuoteEnd cChar = some ⟨cChar, eToState, .none, .none⟩ ∧
      changeTo .markValueEnd cChar = some ⟨cChar, eToState, .none, .none⟩ := by
    rcases isEnd with ⟨rfl, rfl⟩ | ⟨rfl, rfl⟩ <;> decide
  obtain ⟨name, value, nameEnd, quoteEnd, valueEnd⟩ := found
  cases ready with
  | name isName => exact Takes.endName nonzero lives name isName
  | value isKey isValue => exact Takes.endValue nonzero lives value isKey isValue
  | nameEnd => exact ⟨_, .one nonzero lives nameEnd _ _⟩
  | quoteEnd => exact ⟨_, .one nonzero lives quoteEnd _ _⟩
  | valueEnd => exact ⟨_, .one nonzero lives valueEnd _ _⟩

end

end Ready

/-- The machine reads `word` up to a point where a report may wait for the next character. -/
def Advances (text read : List UCHAR) (machine : Machine) (word : List UCHAR)
    (reports : List XmlReport) : Prop :=
  ∃ after told pending, Takes text read machine word told after ∧
    Ready text (read ++ word) after pending ∧ told ++ pending = reports

section Attributes

variable {text read word later : List UCHAR} {machine : Machine} {reports more : List XmlReport}

theorem Takes.advances {middle : Machine} {told : List XmlReport}
    (takes : Takes text read machine word told middle)
    (rest : Advances text (read ++ word) middle later more) :
    Advances text read machine (word ++ later) (told ++ more) := by
  obtain ⟨after, others, pending, second, ready, isAll⟩ := rest
  rw [append_assoc] at ready
  exact ⟨after, told ++ others, pending, takes.trans second, ready, by rw [← isAll, append_assoc]⟩

theorem Takes.quietly {middle : Machine} (takes : Takes text read machine word [] middle)
    (rest : Advances text (read ++ word) middle later more) :
    Advances text read machine (word ++ later) more :=
  takes.advances rest

theorem Advances.trans (first : Advances text read machine word reports)
    (rest : ∀ middle pending, Ready text (read ++ word) middle pending →
      Advances text (read ++ word) middle later (pending ++ more)) :
    Advances text read machine (word ++ later) (reports ++ more) := by
  obtain ⟨middle, _, pending, takes, ready, rfl⟩ := first
  rw [append_assoc]
  exact takes.advances (rest middle pending ready)

theorem Ready.advances {pending : List XmlReport} (ready : Ready text read machine pending) :
    Advances text read machine [] pending :=
  ⟨machine, [], pending, .nil, by rwa [append_nil], rfl⟩

theorem Ready.anyBlanks {pending : List XmlReport} (ready : Ready text read machine pending)
    (blanks : Blanks) : Advances text read machine blanks.chars pending := by
  by_cases nothing : blanks.chars = []
  · rw [nothing]
    exact ready.advances
  · obtain ⟨after, takes, blank⟩ := ready.blanks blanks nothing
    exact ⟨after, pending, [], takes, blank.ready, append_nil _⟩

structure Quoting (quote : UCHAR) (opened valued : XmlParseState) : Prop where
  nonzero : quote ≠ 0
  openedLives : opened ≠ .error
  valuedLives : valued ≠ .error
  opens : changeTo .markKeyEquel quote = some ⟨quote, opened, .none, .none⟩
  empty : changeTo opened quote = some ⟨quote, .markValueQuoteEnd, .l2Zero, .markKeyvalue⟩
  starts : ∀ cChar, cChar ≠ quote → changeTo opened cChar = some ⟨0, valued, .str2, .none⟩
  stays : ∀ cChar, cChar ≠ quote → changeTo valued cChar = some ⟨0, valued, .none, .none⟩
  closes : changeTo valued quote = some ⟨quote, .markValueQuoteEnd, .len2, .markKeyvalue⟩

theorem quoting_single : Quoting singleQuote .markValueSingleQuote .markValueSingleQuoteValue := by
  refine ⟨by decide, by decide, by decide, by decide, by decide, fun cChar other => ?_,
    fun cChar other => ?_, by decide⟩ <;>
  exact changeTo_other [singleQuote] (by decide) rfl rfl (by decide)
    fun listed => other (mem_singleton.mp listed)

theorem quoting_double : Quoting doubleQuote .markValueDoubleQuote .markValueDoubleQuoteValue := by
  refine ⟨by decide, by decide, by decide, by decide, by decide, fun cChar other => ?_,
    fun cChar other => ?_, by decide⟩ <;>
  exact changeTo_other [doubleQuote] (by decide) rfl rfl (by decide)
    fun listed => other (mem_singleton.mp listed)

variable {stParse : XmlParseS} {key : List UCHAR}

theorem Quoting.advances {quote : UCHAR} {opened valued : XmlParseState}
    (quoting : Quoting quote opened valued) (inside : ∀ cChar ∈ chars, cChar ≠ 0 ∧ cChar ≠ quote)
    (isKey : stringAt text stParse.pszStr1 stParse.uiStr1Len = some key)
    (lies : read ++ quote :: (chars ++ [quote]) <+: text) (short : chars.length < 2 ^ 32) :
    Advances text read ⟨.markKeyEquel, stParse⟩ (quote :: (chars ++ [quote]))
      [.keyValue key chars] := by
  have opens : Takes text read ⟨.markKeyEquel, stParse⟩ [quote] [] ⟨opened, stParse⟩ :=
    .one quoting.nonzero quoting.openedLives quoting.opens read stParse
  refine opens.quietly ?_
  cases chars with
  | nil =>
    have isValue : stringAt text (some (read ++ [quote]).length) 0 = some [] := by
      exact congrArg some (take_zero)
    have tells : Tells text (xmlParseReport stParse (read ++ [quote]).length
        ⟨quote, .markValueQuoteEnd, .l2Zero, .markKeyvalue⟩) (.keyValue key []) :=
      ⟨rfl, isKey, isValue⟩
    exact ⟨_, _, [], .call quoting.empty quoting.nonzero (nofun) (nofun) tells .nil, .quoteEnd, rfl⟩
  | cons cChar chars =>
    have first := inside cChar mem_cons_self
    let started := { stParse with pszStr2 := some (read ++ [quote]).length }
    have rest : Takes text (read ++ [quote] ++ [cChar]) ⟨valued, started⟩ chars []
        ⟨valued, started⟩ := by
      refine .stay (fun other listed => ?_) quoting.valuedLives _ _
      have isOther := inside other (mem_cons_of_mem _ listed)
      exact ⟨isOther.1, 0, quoting.stays other isOther.2⟩
    have whole : Takes text (read ++ [quote]) ⟨opened, stParse⟩ (cChar :: chars) []
        ⟨valued, started⟩ :=
      .quiet (quoting.starts cChar first.2) first.1 quoting.valuedLives rfl rest
    have within : read ++ [quote] ++ (cChar :: chars) <+: text := by
      refine IsPrefix.trans ⟨[quote], ?_⟩ lies
      simp
    have isStarted : stringAt text started.pszStr1 started.uiStr1Len = some key := isKey
    have isValue := stringAt_of_read within short
    have lives : XmlParseState.markValueQuoteEnd ≠ .error := by decide
    obtain ⟨_, ends⟩ := Takes.endValue quoting.nonzero lives quoting.closes isStarted isValue
    exact ⟨_, _, [], whole.trans ends, .quoteEnd, rfl⟩

theorem Value.advances (value : Value)
    (isKey : stringAt text stParse.pszStr1 stParse.uiStr1Len = some key)
    (lies : read ++ value.text <+: text) (short : value.chars.length < 2 ^ 32) :
    Advances text read ⟨.markKeyEquel, stParse⟩ value.text [.keyValue key value.chars] := by
  cases value with
  | unquoted word =>
    have takes : Takes text read ⟨.markKeyEquel, stParse⟩ word.chars []
        ⟨.markValue, { stParse with pszStr2 := some read.length }⟩ :=
      .word .str2 word (by decide)
        (fun cChar isWord _ => (changeTo_word isWord).2.2.2.1)
        (fun cChar isWord => (changeTo_word isWord).2.2.2.2.1) read stParse
    exact ⟨_, [], _, takes, .value isKey (stringAt_of_read lies short), rfl⟩
  | singleQuoted _ inside => exact quoting_single.advances inside isKey lies short
  | doubleQuoted _ inside => exact quoting_double.advances inside isKey lies short

theorem Ready.pair {pending : List XmlReport} (ready : Ready text read machine pending)
    (pair : Attribute) (lies : read ++ pair.text <+: text) (short : pair.report.Short) :
    Advances text read machine pair.text (pending ++ [pair.report]) := by
  obtain ⟨⟨eState, stParse⟩, blanks, blank⟩ := ready.blanks pair.before pair.apart
  refine blanks.advances ?_
  rw [Attribute.text, ← append_assoc] at lies
  have starts : ∀ cChar, IsWordChar cChar →
      changeTo eState cChar = some ⟨0, .markKey, .str1, .none⟩ := by
    intro cChar isWord
    rcases blank with rfl | rfl
    · exact (changeTo_word isWord).2.1
    · exact (changeTo_word isWord).2.2.2.2.2
  let started := { stParse with pszStr1 := some (read ++ pair.before.chars).length }
  have name : Takes text (read ++ pair.before.chars) ⟨eState, stParse⟩ pair.name.chars []
      ⟨.markKey, started⟩ :=
    .word .str1 pair.name.toWord (by decide) (fun cChar isWord _ => starts cChar isWord)
      (fun cChar isWord => (changeTo_word isWord).2.2.1) _ stParse
  refine name.quietly ?_
  rw [← append_assoc] at lies
  have isKey := stringAt_of_read (IsPrefix.trans (prefix_append _ _) lies) short.1
  refine (Takes.equalSign pair.beforeEqual pair.afterEqual _ started).quietly ?_
  rw [← append_assoc] at lies
  exact pair.value.advances isKey lies short.2

theorem Ready.pairs {pending : List XmlReport} (ready : Ready text read machine pending)
    (pairs : List Attribute) (lies : read ++ pairs.flatMap Attribute.text <+: text)
    (short : ∀ pair ∈ pairs, pair.report.Short) :
    Advances text read machine (pairs.flatMap Attribute.text)
      (pending ++ pairs.map Attribute.report) := by
  induction pairs generalizing read machine pending with
  | nil =>
    rw [map_nil, append_nil]
    exact ready.advances
  | cons pair _ ih =>
    rw [flatMap_cons, ← append_assoc] at lies
    have first := ready.pair pair (IsPrefix.trans (prefix_append _ _) lies)
      (short pair mem_cons_self)
    rw [flatMap_cons, map_cons, append_cons]
    refine first.trans fun middle pending ready => ?_
    exact ih ready lies fun other listed => short other (mem_cons_of_mem _ listed)

end Attributes

/-- The machine is between two parts of a document. -/
def Between (eState : XmlParseState) : Prop :=
  eState = .init ∨ eState = .content ∨ eState = .markEnd

theorem Between.less {eState : XmlParseState} (between : Between eState) :
    changeTo eState less = some ⟨less, .mark, .none, .none⟩ := by
  rcases between with rfl | rfl | rfl <;> decide

section Parts

variable {text read : List UCHAR} {eState : XmlParseState} {stParse : XmlParseS}

theorem Between.opens (between : Between eState) (text : List UCHAR) (blanks : Blanks)
    (read : List UCHAR) (stParse : XmlParseS) :
    Takes text read ⟨eState, stParse⟩ (Xml.less :: blanks.chars) [] ⟨.mark, stParse⟩ :=
  .quiet between.less (by decide) (nofun) rfl
    (.blanks blanks (by decide) (fun _ blank => (changeTo_blank blank).2.1) _ _)

theorem Tag.advances (tag : Tag) (stParse : XmlParseS) (between : Between eState)
    (lies : read ++ tag.text <+: text) (short : ∀ report ∈ tag.reports, report.Short) :
    Advances text read ⟨eState, stParse⟩ tag.text tag.reports := by
  rw [Tag.text, ← append_assoc] at lies
  have nameShort := short _ mem_cons_self
  have pairsShort : ∀ pair ∈ tag.attributes, pair.report.Short := fun pair listed =>
    short _ (mem_cons_of_mem _ (mem_map_of_mem listed))
  refine (between.opens text tag.beforeName read stParse).quietly ?_
  generalize read ++ (less :: tag.beforeName.chars) = opened at lies ⊢
  have name := Takes.tagName text tag.name opened stParse
  refine name.quietly ?_
  rw [← append_assoc] at lies
  have ready : Ready text (opened ++ tag.name.chars)
      ⟨.markName, { stParse with pszStr1 := some opened.length }⟩ [.markName tag.name.chars] :=
    .name (stringAt_of_read (IsPrefix.trans (prefix_append _ _) lies) nameShort)
  rw [← append_assoc] at lies
  have pairs := ready.pairs tag.attributes (IsPrefix.trans (prefix_append _ _) lies) pairsShort
  obtain ⟨_, told, _, takes, ready, isAll⟩ := pairs
  obtain ⟨after, others, last, blanks, readyStill, isPending⟩ := ready.anyBlanks tag.atEnd
  refine ⟨after, told ++ others, last, takes.trans blanks, ?_, ?_⟩
  · rw [← append_assoc]
    exact readyStill
  · rw [append_assoc, isPending]
    exact isAll

theorem Tag.takes (tag : Tag) (stParse : XmlParseS) (between : Between eState)
    (lies : read ++ tag.text <+: text)
    (short : ∀ report ∈ tag.reports, report.Short) {cChar : UCHAR} {eToState : XmlParseState}
    (isEnd : cChar = greater ∧ eToState = .markEnd ∨ cChar = slash ∧ eToState = .bfEndMark) :
    ∃ after, Takes text read ⟨eState, stParse⟩ (tag.text ++ [cChar]) tag.reports
      ⟨eToState, after⟩ := by
  obtain ⟨_, _, _, takes, ready, isAll⟩ := tag.advances stParse between lies short
  obtain ⟨after, ends⟩ := ready.ends isEnd
  rw [← isAll]
  exact ⟨after, takes.trans ends⟩

theorem Takes.endMark (text : List UCHAR) (plain : ∀ cChar ∈ chars, cChar ≠ 0 ∧ cChar ≠ greater)
    (read : List UCHAR) (stParse : XmlParseS) :
    ∃ after, Takes text read ⟨.bfEndMark, stParse⟩ (chars ++ [greater]) [.endMark]
      ⟨.markEnd, after⟩ := by
  have passes : Takes text read ⟨.bfEndMark, stParse⟩ chars [] ⟨.bfEndMark, stParse⟩ := by
    refine .stay (fun cChar listed => ?_) (by decide) read stParse
    obtain ⟨nonzero, other⟩ := plain cChar listed
    exact ⟨nonzero, 0, changeTo_other [greater] (by decide) rfl rfl (by decide)
      fun isGreater => other (mem_singleton.mp isGreater)⟩
  have found : changeTo .bfEndMark greater = some ⟨greater, .markEnd, .none, .endMark⟩ := by decide
  have ends : Takes text (read ++ chars) ⟨.bfEndMark, stParse⟩ [greater] [.endMark] ⟨.markEnd, _⟩ :=
    .call found (by decide) (nofun) (nofun) rfl .nil
  exact ⟨_, passes.trans ends⟩

theorem IsBlank.plain {cChar : UCHAR} (isBlank : IsBlank cChar) : cChar ≠ 0 ∧ cChar ≠ greater := by
  rcases isBlank with rfl | rfl | rfl | rfl <;> decide

theorem Takes.remark (text : List UCHAR) {eState : XmlParseState}
    (inside : ∀ cChar ∈ chars, cChar ≠ 0 ∧ cChar ≠ greater)
    (isRemark : eState = .remark3 ∨ eState = .remark ∨ (eState = .remarkEnd1 ∧ chars ≠ [] ∧ chars.head? ≠ some dash))
    (apart : ¬[dash, dash] <:+: chars) (ends : chars.getLast? ≠ some dash) (read : List UCHAR)
    (stParse : XmlParseS) :
    ∃ after, Takes text read ⟨eState, stParse⟩ chars [] ⟨after, stParse⟩ ∧
      (after = .remark3 ∨ after = .remark) := by
  induction chars generalizing eState read with
  | nil =>
    refine ⟨eState, .nil, ?_⟩
    rcases isRemark with isRemark | isRemark | ⟨-, nonempty, -⟩
    · exact .inl isRemark
    · exact .inr isRemark
    · exact absurd rfl nonempty
  | cons cChar chars ih =>
    obtain ⟨nonzero, notGreater⟩ := inside cChar mem_cons_self
    have others := fun other listed => inside other (mem_cons_of_mem cChar listed)
    have restApart : ¬[dash, dash] <:+: chars := fun within =>
      apart (within.trans (infix_cons (infix_refl chars)))
    by_cases isDash : cChar = dash
    · subst isDash
      have nonempty : chars ≠ [] := by
        rintro rfl
        exact ends rfl
      have notDash : chars.head? ≠ some dash := by
        intro isHead
        obtain ⟨rest, rfl⟩ := head?_eq_some_iff.mp isHead
        exact apart ⟨[], rest, rfl⟩
      have restEnds : chars.getLast? ≠ some dash := by
        rwa [getLast?_cons_of_ne_nil nonempty] at ends
      obtain ⟨after, takes, isAfter⟩ := ih others
        (.inr (.inr ⟨rfl, nonempty, notDash⟩)) restApart restEnds (read ++ [dash])
      have found : changeTo eState dash = some ⟨dash, .remarkEnd1, .none, .none⟩ := by
        rcases isRemark with rfl | rfl | ⟨-, -, notHead⟩
        · decide
        · decide
        · exact absurd rfl notHead
      exact ⟨after, .quiet found nonzero (nofun) rfl takes, isAfter⟩
    have restEnds : chars.getLast? ≠ some dash := by
      cases chars with
      | nil => exact nofun
      | cons => rwa [getLast?_cons_cons] at ends
    obtain ⟨after, takes, isAfter⟩ := ih others (.inr (.inl rfl)) restApart
      restEnds (read ++ [cChar])
    have other : cChar ∉ [dash, greater] := by
      simp [isDash, notGreater]
    have found : changeTo eState cChar = some ⟨0, .remark, .none, .none⟩ := by
      rcases isRemark with rfl | rfl | ⟨rfl, -, -⟩ <;>
        exact changeTo_other [dash, greater] (by decide) rfl rfl (by decide) other
    exact ⟨after, .quiet found nonzero (nofun) rfl takes, isAfter⟩

theorem Takes.remarkEnd {eState : XmlParseState}
    (isRemark : eState = .remark3 ∨ eState = .remark) (read : List UCHAR) (stParse : XmlParseS) :
    Takes text read ⟨eState, stParse⟩ [dash, dash, greater] [] ⟨.markEnd, stParse⟩ := by
  have first : changeTo eState dash = some ⟨dash, .remarkEnd1, .none, .none⟩ := by
    rcases isRemark with rfl | rfl <;> decide
  have second : changeTo .remarkEnd1 dash = some ⟨dash, .remarkEnd2, .none, .none⟩ := by decide
  have third : changeTo .remarkEnd2 greater = some ⟨greater, .markEnd, .none, .none⟩ := by decide
  exact .quiet first (by decide) (nofun) rfl
    (.quiet second (by decide) (nofun) rfl
      (.one (by decide) (by decide) third _ _))

theorem Between.remarkStart (between : Between eState) (text read : List UCHAR)
    (stParse : XmlParseS) :
    Takes text read ⟨eState, stParse⟩ [Xml.less, bang, dash, dash] []
      ⟨.remark3, stParse⟩ := by
  have second : changeTo .mark bang = some ⟨bang, .remark1, .none, .none⟩ := by decide
  have third : changeTo .remark1 dash = some ⟨dash, .remark2, .none, .none⟩ := by decide
  have fourth : changeTo .remark2 dash = some ⟨dash, .remark3, .none, .none⟩ := by decide
  exact .quiet between.less (by decide) (nofun) rfl
    (.quiet second (by decide) (nofun) rfl
      (.quiet third (by decide) (nofun) rfl
        (.one (by decide) (by decide) fourth _ _)))

theorem Between.plain (between : Between eState)
    (plain : ∀ cChar ∈ chars, cChar ≠ 0 ∧ cChar ≠ Xml.less) (read : List UCHAR)
    (stParse : XmlParseS) :
    ∃ after, Takes text read ⟨eState, stParse⟩ chars [] ⟨after, stParse⟩ ∧ Between after := by
  induction chars generalizing eState read with
  | nil => exact ⟨eState, .nil, between⟩
  | cons cChar _ ih =>
    obtain ⟨nonzero, other⟩ := plain cChar mem_cons_self
    have notLess : cChar ∉ [Xml.less] := fun isLess => other (mem_singleton.mp isLess)
    obtain ⟨next, nextBetween, lives, found⟩ : ∃ next, Between next ∧ next ≠ .error ∧
        changeTo eState cChar = some ⟨0, next, .none, .none⟩ := by
      rcases between with rfl | rfl | rfl
      · exact ⟨.init, .inl rfl, by decide,
          changeTo_other [Xml.less] (by decide) rfl rfl (by decide) notLess⟩
      · exact ⟨.content, .inr (.inl rfl), by decide,
          changeTo_other [Xml.less] (by decide) rfl rfl (by decide) notLess⟩
      · exact ⟨.content, .inr (.inl rfl), by decide,
          changeTo_other [Xml.less] (by decide) rfl rfl (by decide) notLess⟩
    obtain ⟨after, takes, isBetween⟩ := ih nextBetween
      (fun other listed => plain other (mem_cons_of_mem _ listed)) (read ++ [cChar])
    exact ⟨after, .quiet found nonzero lives rfl takes, isBetween⟩

end Parts

theorem Part.takes {text read : List UCHAR} {eState : XmlParseState} (part : Part)
    (stParse : XmlParseS) (between : Between eState) (lies : read ++ part.chars <+: text)
    (short : ∀ report ∈ part.reports, report.Short) :
    ∃ after last, Takes text read ⟨eState, stParse⟩ part.chars part.reports ⟨after, last⟩ ∧
      Between after := by
  have ended : Between .markEnd := .inr (.inr rfl)
  cases part with
  | text _ plain =>
    obtain ⟨after, takes, isBetween⟩ := between.plain plain read stParse
    exact ⟨after, stParse, takes, isBetween⟩
  | comment _ inside apart ends =>
    have start := between.remarkStart text read stParse
    obtain ⟨_, takes, isRemark⟩ := Takes.remark text inside (.inl rfl) apart ends
      (read ++ [less, bang, dash, dash]) stParse
    exact ⟨_, _, start.trans (takes.trans (.remarkEnd isRemark _ _)), ended⟩
  | startTag tag =>
    have tagLies : read ++ tag.text <+: text := by
      refine IsPrefix.trans ?_ lies
      rw [Part.chars, ← append_assoc]
      exact prefix_append _ _
    obtain ⟨after, takes⟩ := tag.takes stParse between tagLies short (.inl ⟨rfl, rfl⟩)
    exact ⟨_, after, takes, ended⟩
  | selfClosing tag afterSlash =>
    have tagLies : read ++ tag.text <+: text := by
      refine IsPrefix.trans ?_ lies
      rw [Part.chars, ← append_assoc]
      exact prefix_append _ _
    obtain ⟨middle, takes⟩ := tag.takes stParse between tagLies
      (fun report listed => short report (mem_append_left _ listed)) (.inr ⟨rfl, rfl⟩)
    obtain ⟨after, closes⟩ := Takes.endMark text
      (fun cChar listed => (afterSlash.blank cChar listed).plain)
      (read ++ (tag.text ++ [slash])) middle
    have whole := takes.trans closes
    rw [append_assoc, singleton_append] at whole
    exact ⟨_, after, whole, ended⟩
  | endTag beforeSlash beforeName name atEnd =>
    have found : changeTo .mark slash = some ⟨slash, .bfEndMark, .none, .none⟩ := by decide
    have plain : ∀ cChar ∈ beforeName.chars ++ name.chars ++ atEnd.chars,
        cChar ≠ 0 ∧ cChar ≠ greater := by
      intro cChar listed
      rcases mem_append.mp listed with listed | listed
      · rcases mem_append.mp listed with listed | listed
        · exact (beforeName.blank cChar listed).plain
        · have isWord := name.word cChar listed
          exact ⟨isWord.nonzero, isWord.notGreater⟩
      · exact (atEnd.blank cChar listed).plain
    have opens := between.opens text beforeSlash read stParse
    obtain ⟨after, closes⟩ := Takes.endMark text plain
      (read ++ (less :: beforeSlash.chars) ++ [slash]) stParse
    exact ⟨_, after, opens.trans (.quiet found (by decide) (nofun) rfl closes), ended⟩

theorem Document.takes {text : List UCHAR} (read : List UCHAR) {eState : XmlParseState}
    (document : Document) (stParse : XmlParseS) (between : Between eState) (lies : read ++ document.text <+: text)
    (short : ∀ report ∈ document.reports, report.Short) :
    ∃ after, Takes text read ⟨eState, stParse⟩ document.text document.reports after := by
  induction document generalizing read eState stParse with
  | nil => exact ⟨_, .nil⟩
  | cons part _ ih =>
    rw [Document.text, flatMap_cons, ← append_assoc] at lies
    obtain ⟨_, last, first, isBetween⟩ := part.takes stParse between
      (IsPrefix.trans (prefix_append _ _) lies)
      fun report listed => short report (mem_append_left _ listed)
    obtain ⟨after, rest⟩ := ih _ last isBetween lies
      fun report listed => short report (mem_append_right _ listed)
    exact ⟨after, first.trans rest⟩

/-- Every name of a tag, and every name and value of an attribute, is shorter than the numbers
of a word. -/
def Document.Short (document : Document) : Prop :=
  ∀ report ∈ document.reports, report.Short

section Parsed

variable {User : Type} (pfFunc : XmlParseS → User → BsStatus × User)

/-- The document is parsed to its end, and the callbacks are its reports. -/
def ParsesTo (document : Document) (memory : List UCHAR) (hUserHandle : User) : Prop :=
  let parsed := xmlParse pfFunc (document.text ++ 0 :: memory) hUserHandle
  parsed.eRet = .ok ∧ Forall₂ (Tells document.text) parsed.callbacks document.reports

theorem told_short {text : List UCHAR} {callbacks : List XmlParseS} {reports : List XmlReport}
    (told : Forall₂ (Tells text) callbacks reports) : ∀ report ∈ reports, report.Short := by
  induction told with
  | nil => exact nofun
  | cons tells _ ih =>
    rintro report (_ | ⟨_, listed⟩)
    · exact tells.short
    · exact ih report listed

/-- Whatever the callback says, it is only given strings of the text; and a document is parsed
to its reports exactly when their strings fit the lengths. -/
theorem xmlParse_reports :
    (∀ pszContent hUserHandle, ∀ callback ∈ (xmlParse pfFunc pszContent hUserHandle).callbacks,
        ReportsInText (content pszContent).length callback) ∧
    ((∀ stParse hUserHandle, (pfFunc stParse hUserHandle).1 = .ok) →
      ∀ (document : Document) memory hUserHandle,
        ParsesTo pfFunc document memory hUserHandle ↔ document.Short) := by
  refine ⟨xmlParse_inText pfFunc, fun accepts document memory hUserHandle => ?_⟩
  constructor
  · intro parses
    exact told_short parses.2
  intro short
  obtain ⟨after, takes⟩ := document.takes [] ⟨.none, none, none, 0, 0⟩ (.inl rfl)
    (prefix_refl document.text) short
  obtain ⟨callbacks, hLater, told, goes⟩ := takes.loop accepts (0 :: memory) hUserHandle
  have stops : xmlParseLoop pfFunc (0 :: memory) ([] ++ document.text).length after.eState
      after.stParse hLater = ⟨.ok, hLater, []⟩ := by
    rw [xmlParseLoop, if_pos rfl]
  rw [stops] at goes
  have parsed : xmlParse pfFunc (document.text ++ 0 :: memory) hUserHandle =
      ⟨.ok, hLater, callbacks⟩ := by
    refine goes.trans ?_
    rw [XmlParsed.after, append_nil]
  rw [ParsesTo, parsed]
  exact ⟨rfl, told⟩

end Parsed

def noBlanks : Blanks :=
  ⟨[], fun _ impossible => nomatch impossible⟩

theorem isWordChar_a : IsWordChar 0x61 where
  nonzero := by decide
  notBlank := by
    rw [IsBlank]
    decide
  notEqual := by decide
  notSlash := by decide
  notGreater := by decide
  notSingle := by decide
  notDouble := by decide

/-- The name `aa…a`. -/
def nameA (length : Nat) : Name where
  chars := replicate (length + 1) 0x61
  word _ listed := by
    rw [eq_of_mem_replicate listed]
    exact isWordChar_a
  nonempty := by
    rw [replicate_succ]
    exact cons_ne_nil _ _
  notBang := by
    rw [replicate_succ, head?_cons]
    decide

def accepts (_ : XmlParseS) (_ : Unit) : BsStatus × Unit :=
  (.ok, ())

/-- `<a a=''>`. -/
def shortDocument : Document :=
  [.startTag ⟨noBlanks, nameA 0,
    [⟨⟨[space], fun _ listed => .inl (mem_singleton.mp listed)⟩, cons_ne_nil _ _, nameA 0,
      noBlanks, noBlanks, .singleQuoted [] fun _ impossible => nomatch impossible⟩], noBlanks⟩]

theorem xmlParse_shortDocument : ParsesTo accepts shortDocument [] () := by
  refine ((xmlParse_reports accepts).2 (fun _ _ => rfl) shortDocument [] ()).mpr ?_
  intro report listed
  have isReport : report = .markName [0x61] ∨ report = .keyValue [0x61] [] := by
    simpa [shortDocument, Document.reports, Part.reports, Tag.reports, Attribute.report, nameA,
      Value.chars] using listed
  have one : ([0x61] : List UCHAR).length < 2 ^ 32 := by decide
  have zero : ([] : List UCHAR).length < 2 ^ 32 := by decide
  rcases isReport with rfl | rfl
  · exact one
  · exact ⟨one, zero⟩

/-- `<aa…a>` with a name of `2 ^ 32` bytes: its length does not fit the report. -/
theorem xmlParse_long_name :
    ¬ParsesTo accepts [.startTag ⟨noBlanks, nameA (2 ^ 32 - 1), [], noBlanks⟩] [] () := by
  intro parses
  have short : (replicate (2 ^ 32 - 1 + 1) (0x61 : UCHAR)).length < 2 ^ 32 :=
    told_short parses.2 (.markName (nameA (2 ^ 32 - 1)).chars)
      (mem_append_left _ mem_cons_self)
  rw [length_replicate] at short
  exact absurd short (by decide)

end MyCode.Xml
