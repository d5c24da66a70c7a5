import MyCode.Tmsg.Message
import MyCode.Lib.Transition
import Mathlib.Data.List.Basic

/-!
# Two instances of trusty messages

Two instances exchange packets over a channel that loses, duplicates, delays and
reorders them.  Each side keeps the sequence numbers that it has drawn, with the
messages that they are for.
-/

namespace MyCode.Tmsg

open Function List Bool

structure TmsgSide where
  ctrl : TmsgCtrl
  drawn : List (UINT × List UCHAR)

def tmsgSideStart : TmsgSide :=
  ⟨tmsg2Create, []⟩

def TmsgCall.draws (outcome : TmsgOutcome) (ctrl : TmsgCtrl) : TmsgCall → List (UINT × List UCHAR)
  | send payload =>
    if outcome.prepend && outcome.makeContinue && outcome.malloc then
      [(ctrl.uiSequence, payload)]
    else
      []
  | input _ | timeOut _ => []

def TmsgSide.next (side : TmsgSide) (outcome : TmsgOutcome) (call : TmsgCall) : TmsgSide :=
  ⟨call.run outcome side.ctrl, side.drawn ++ call.draws outcome side.ctrl⟩

def tmsgPairNext (pair : Bool → TmsgSide) (label : Bool × TmsgOutcome × TmsgCall) :
    Bool → TmsgSide :=
  update pair label.1 ((pair label.1).next label.2.1 label.2.2)

/-- A packet that arrives is any one that the other side has sent. -/
def TmsgEnabled (pair : Bool → TmsgSide) (label : Bool × TmsgOutcome × TmsgCall) : Prop :=
  match label.2.2 with
  | .input pkt => pkt ∈ (pair !label.1).ctrl.sent
  | .send _ | .timeOut _ => True

def tmsgPair : Lib.System (Bool → TmsgSide) (Bool × TmsgOutcome × TmsgCall) where
  start pair := pair = fun _ => tmsgSideStart
  step pair label after := TmsgEnabled pair label ∧ after = tmsgPairNext pair label

/-- What is handed to `pfRecvFunc` was passed to `TMSG2_Send` by the peer. -/
def Handed (pair : Bool → TmsgSide) : Prop :=
  ∀ endpoint, ∀ payload ∈ (pair endpoint).ctrl.recved, payload ∈ (pair !endpoint).ctrl.submitted

/-- The peer's `pfRecvFunc` was called with the messages that had success. -/
def Delivered (pair : Bool → TmsgSide) : Prop :=
  ∀ endpoint, ∀ payload ∈ (pair endpoint).ctrl.succeeded, payload ∈ (pair !endpoint).ctrl.recved

/-- An acknowledgement of a waiting message arrives only after the peer has passed an
empty message to `TMSG2_Send`. -/
def AckSpares (pair : Bool → TmsgSide) (label : Bool × TmsgOutcome × TmsgCall) : Prop :=
  match label.2.2 with
  | .input pkt => label.2.1.makeContinue = true → hasFlag pkt.stTmsg.uiFlag tmsgFlagIsAck = true →
      ((pair label.1).ctrl.stMsgList.find? (tmsgHasSequence pkt.stTmsg.uiSequence)).isSome →
        [] ∈ (pair !label.1).ctrl.submitted
  | .send _ | .timeOut _ => True

def SequenceFresh (pair : Bool → TmsgSide) (label : Bool × TmsgOutcome × TmsgCall) : Prop :=
  ∀ drawn ∈ label.2.2.draws label.2.1 (pair label.1).ctrl,
    ∀ earlier ∈ (pair label.1).drawn, earlier.1 ≠ drawn.1

/-- A packet of a message, or an acknowledgement of a message that was received. -/
inductive SentOk (near far : TmsgSide) (pkt : TmsgPkt) : Prop where
  | message :
      pkt.stTmsg.uiFlag = tmsgFlagNeedAck →
      (pkt.stTmsg.uiSequence, pkt.payload) ∈ near.drawn →
      SentOk near far pkt
  | ack (payload : List UCHAR) :
      pkt.stTmsg.uiFlag = tmsgFlagIsAck →
      pkt.payload = [] →
      (pkt.stTmsg.uiSequence, payload) ∈ far.drawn →
      payload ∈ near.ctrl.recved →
      SentOk near far pkt

structure NodeOk (drawn : List (UINT × List UCHAR)) (node : TmsgNode) : Prop where
  flag : node.stOpt.stTmsg.uiFlag = tmsgFlagNeedAck
  drawn : (node.stOpt.stTmsg.uiSequence, node.payload) ∈ drawn

structure SideOk (near far : TmsgSide) : Prop where
  sent : ∀ pkt ∈ near.ctrl.sent, SentOk near far pkt
  nodes : ∀ node ∈ near.ctrl.stMsgList, NodeOk near.drawn node
  drawn : ∀ drawn ∈ near.drawn, drawn.2 ∈ near.ctrl.submitted

variable {near far nearAfter farAfter : TmsgSide} {outcome : TmsgOutcome} {call : TmsgCall}
  {pkt : TmsgPkt} {node : TmsgNode} {payload : List UCHAR}

theorem SentOk.mono (sentOk : SentOk near far pkt)
    (drawn : ∀ drawn ∈ near.drawn, drawn ∈ nearAfter.drawn)
    (theirs : ∀ drawn ∈ far.drawn, drawn ∈ farAfter.drawn)
    (recved : ∀ payload ∈ near.ctrl.recved, payload ∈ nearAfter.ctrl.recved) :
    SentOk nearAfter farAfter pkt := by
  cases sentOk with
  | message flag isDrawn => exact .message flag (drawn _ isDrawn)
  | ack payload flag empty isDrawn isRecved =>
    exact .ack payload flag empty (theirs _ isDrawn) (recved _ isRecved)

theorem hasFlag_needAck_isAck : hasFlag tmsgFlagNeedAck tmsgFlagIsAck = false := by
  decide

theorem hasFlag_isAck_isAck : hasFlag tmsgFlagIsAck tmsgFlagIsAck = true := by
  decide

/-- A call hands over, ends with success and answers, and else sends only messages. -/
structure Grown (near nearAfter : TmsgSide) (handed succeeded : List (List UCHAR))
    (answers : List TmsgPkt) : Prop where
  submitted : ∀ payload ∈ near.ctrl.submitted, payload ∈ nearAfter.ctrl.submitted
  drawn : ∀ drawn ∈ near.drawn, drawn ∈ nearAfter.drawn
  recved : nearAfter.ctrl.recved = near.ctrl.recved ++ handed
  succeeded : nearAfter.ctrl.succeeded = near.ctrl.succeeded ++ succeeded
  nodes : ∀ node ∈ nearAfter.ctrl.stMsgList, NodeOk nearAfter.drawn node
  sent : ∀ pkt ∈ nearAfter.ctrl.sent, pkt ∈ near.ctrl.sent ∨ pkt ∈ answers ∨
    pkt.stTmsg.uiFlag = tmsgFlagNeedAck ∧ (pkt.stTmsg.uiSequence, pkt.payload) ∈ nearAfter.drawn
  known : ∀ drawn ∈ nearAfter.drawn, drawn.2 ∈ nearAfter.ctrl.submitted

theorem SideOk.grown_same (nearOk : SideOk near far) : Grown near near [] [] [] where
  submitted _ := id
  drawn _ := id
  recved := (append_nil _).symm
  succeeded := (append_nil _).symm
  nodes := nearOk.nodes
  sent _ := .inl
  known := nearOk.drawn

theorem SideOk.timeOut (nearOk : SideOk near far) (place : Nat) :
    Grown near (near.next outcome (.timeOut place)) [] [] [] := by
  have same : near.next outcome (.timeOut place) = { near with ctrl := tmsgTimeOut near.ctrl place } := by
    rw [TmsgSide.next, TmsgCall.draws, append_nil]
    rfl
  rw [same, tmsgTimeOut]
  cases found : near.ctrl.stMsgList[place]? with
  | none => exact nearOk.grown_same
  | some node =>
    have nodeOk := nearOk.nodes node (mem_of_getElem? found)
    dsimp only
    split
    · refine { nearOk.grown_same with nodes := fun other inside => ?_, sent := fun pkt inside => ?_ }
      · rcases mem_or_eq_of_mem_set inside with old | rfl
        · exact nearOk.nodes other old
        · exact ⟨nodeOk.flag, nodeOk.drawn⟩
      rcases mem_append.mp inside with old | new
      · exact .inl old
      · rw [mem_singleton.mp new]
        exact .inr (.inr ⟨nodeOk.flag, nodeOk.drawn⟩)
    · have needs : hasFlag node.stOpt.stTmsg.uiFlag tmsgFlagNeedAck = true := by
        rw [nodeOk.flag]
        decide
      simp only [needs, if_true]
      exact { nearOk.grown_same with
        nodes := fun other inside => nearOk.nodes other (mem_of_mem_eraseIdx inside) }

theorem SideOk.send (nearOk : SideOk near far) (payload : List UCHAR) :
    Grown near (near.next outcome (.send payload)) [] [] [] := by
  have submits : ∀ other ∈ near.ctrl.submitted, other ∈ near.ctrl.submitted ++ [payload] :=
    fun other inside => mem_append_left _ inside
  have idle (errors : Nat) : Grown near { near with
      ctrl.submitted := near.ctrl.submitted ++ [payload], ctrl.errors := errors } [] [] [] :=
    { nearOk.grown_same with
      submitted := submits
      known := fun drawn inside => submits _ (nearOk.drawn drawn inside) }
  have later : ∀ drawn ∈ near.drawn, drawn ∈ near.drawn ++ [(near.ctrl.uiSequence, payload)] :=
    fun drawn inside => mem_append_left _ inside
  have known : ∀ drawn ∈ near.drawn ++ [(near.ctrl.uiSequence, payload)],
      drawn.2 ∈ near.ctrl.submitted ++ [payload] := by
    intro drawn inside
    rcases mem_append.mp inside with old | new
    · exact submits _ (nearOk.drawn drawn old)
    · rw [mem_singleton.mp new]
      exact mem_append_right _ (mem_singleton_self _)
  have nodes : ∀ node ∈ near.ctrl.stMsgList,
      NodeOk (near.drawn ++ [(near.ctrl.uiSequence, payload)]) node :=
    fun node inside => ⟨(nearOk.nodes node inside).flag, later _ (nearOk.nodes node inside).drawn⟩
  have isDrawn : (near.ctrl.uiSequence, payload) ∈
      near.drawn ++ [(near.ctrl.uiSequence, payload)] :=
    mem_append_right _ (mem_singleton_self _)
  simp only [TmsgSide.next, TmsgCall.run, TmsgCall.draws, tmsg2Send, tmsgSend]
  cases prepend : outcome.prepend with
  | false =>
    simp only [Bool.false_and, false_eq_true, Bool.not_false, if_true, if_false, append_nil]
    exact idle near.ctrl.errors
  | true =>
  cases continues : outcome.makeContinue with
  | false =>
    simp only [Bool.and_false, Bool.false_and, false_eq_true, Bool.not_false, Bool.not_true,
      if_true, if_false, append_nil]
    exact idle near.ctrl.errors
  | true =>
  cases malloc : outcome.malloc with
  | false =>
    simp only [Bool.and_false, false_eq_true, Bool.not_false, Bool.not_true, if_true,
      if_false, append_nil]
    exact idle (near.ctrl.errors + 1)
  | true =>
  cases timer : outcome.createTimer with
  | false =>
    exact
      { submitted := submits
        drawn := later
        recved := (append_nil _).symm
        succeeded := (append_nil _).symm
        nodes := nodes
        sent := fun _ inside => .inl inside
        known := known }
  | true =>
    refine
      { submitted := submits
        drawn := later
        recved := (append_nil _).symm
        succeeded := (append_nil _).symm
        nodes := fun node inside => ?_
        sent := fun pkt inside => ?_
        known := known }
    · rcases mem_append.mp inside with old | new
      · exact nodes node old
      · rw [mem_singleton.mp new]
        exact ⟨rfl, isDrawn⟩
    rcases mem_append.mp inside with old | new
    · exact .inl old
    · rw [mem_singleton.mp new]
      exact .inr (.inr ⟨rfl, isDrawn⟩)

/-- What an arriving packet hands over, ends with success and is answered by. -/
inductive Arrives (near : TmsgSide) (outcome : TmsgOutcome) (pkt : TmsgPkt) :
    List (List UCHAR) → List (List UCHAR) → List TmsgPkt → Prop where
  | dropped :
      (outcome.makeContinue = true → hasFlag pkt.stTmsg.uiFlag tmsgFlagIsAck = true →
        near.ctrl.stMsgList.find? (tmsgHasSequence pkt.stTmsg.uiSequence) = none) →
      Arrives near outcome pkt [] [] []
  | acked (node : TmsgNode) :
      outcome.makeContinue = true →
      hasFlag pkt.stTmsg.uiFlag tmsgFlagIsAck = true →
      near.ctrl.stMsgList.find? (tmsgHasSequence pkt.stTmsg.uiSequence) = some node →
      Arrives near outcome pkt [pkt.payload] [node.payload] []
  | message (answers : List TmsgPkt) :
      hasFlag pkt.stTmsg.uiFlag tmsgFlagIsAck = false →
      (∀ answer ∈ answers, answer = ⟨{ pkt.stTmsg with uiFlag := tmsgFlagIsAck }, []⟩) →
      Arrives near outcome pkt [pkt.payload] [] answers

theorem SideOk.input (nearOk : SideOk near far) (pkt : TmsgPkt) :
    ∃ handed succeeded answers,
      Grown near (near.next outcome (.input pkt)) handed succeeded answers ∧
      Arrives near outcome pkt handed succeeded answers := by
  have same : near.next outcome (.input pkt) =
      { near with ctrl := tmsg2Input outcome near.ctrl pkt } := by
    rw [TmsgSide.next, TmsgCall.draws, append_nil]
    rfl
  rw [same, tmsg2Input]
  cases continues : outcome.makeContinue with
  | false => exact ⟨[], [], [], nearOk.grown_same, .dropped fun isTrue => by rw [continues] at isTrue; cases isTrue⟩
  | true =>
  cases isAck : hasFlag pkt.stTmsg.uiFlag tmsgFlagIsAck with
  | true =>
    cases found : near.ctrl.stMsgList.find? (tmsgHasSequence pkt.stTmsg.uiSequence) with
    | none =>
      refine ⟨[], [], [], ?_, .dropped fun _ _ => found⟩
      simp only [tmsgRecvedAck, isAck, found, Bool.not_true, false_eq_true, if_false,
        Bool.not_false, if_true]
      exact nearOk.grown_same
    | some node =>
      refine ⟨_, _, _, ?_, .acked node continues isAck found⟩
      simp only [tmsgRecvedAck, isAck, found, Bool.not_true, false_eq_true, if_false, if_true]
      exact
        { nearOk.grown_same with
          recved := rfl
          succeeded := rfl
          nodes := fun other inside => nearOk.nodes other (mem_of_mem_eraseP inside) }
  | false =>
    have plain : Grown near { near with ctrl := tmsg2Recv near.ctrl pkt.payload }
        [pkt.payload] [] [] :=
      { nearOk.grown_same with
        recved := rfl }
    cases needs : hasFlag pkt.stTmsg.uiFlag tmsgFlagNeedAck with
    | false => exact ⟨_, _, _, plain, .message [] isAck nofun⟩
    | true =>
      cases creates : outcome.createAck with
      | false =>
        refine ⟨_, _, _, ?_, .message [] isAck nofun⟩
        simp only [tmsg2SendAck, creates, false_eq_true, if_false, Bool.not_true, if_true]
        exact plain
      | true =>
        refine ⟨_, _, _, ?_, .message _ isAck fun _ inside => mem_singleton.mp inside⟩
        simp only [tmsg2SendAck, creates, false_eq_true, if_false, Bool.not_true, if_true]
        refine
          { plain with
            sent := fun answer inside => ?_ }
        rcases mem_append.mp inside with old | new
        · exact .inl old
        · exact .inr (.inl new)

/-- What a call hands over, ends with success and answers. -/
def TmsgTurn (near : TmsgSide) (outcome : TmsgOutcome) (call : TmsgCall)
    (handed succeeded : List (List UCHAR)) (answers : List TmsgPkt) : Prop :=
  match call with
  | .input pkt => Arrives near outcome pkt handed succeeded answers
  | .send _ | .timeOut _ => handed = [] ∧ succeeded = [] ∧ answers = []

theorem SideOk.turn (nearOk : SideOk near far) (outcome : TmsgOutcome) (call : TmsgCall) :
    ∃ handed succeeded answers, Grown near (near.next outcome call) handed succeeded answers ∧
      TmsgTurn near outcome call handed succeeded answers := by
  cases call with
  | send payload => exact ⟨[], [], [], nearOk.send payload, rfl, rfl, rfl⟩
  | input pkt => exact nearOk.input pkt
  | timeOut place => exact ⟨[], [], [], nearOk.timeOut place, rfl, rfl, rfl⟩

section Step

variable {handed succeeded : List (List UCHAR)} {answers : List TmsgPkt}
  (grown : Grown near nearAfter handed succeeded answers)
  (turn : TmsgTurn near outcome call handed succeeded answers)
  (nearOk : SideOk near far) (farOk : SideOk far near)
  (authentic : ∀ pkt, call = .input pkt → pkt ∈ far.ctrl.sent)

include grown

theorem Grown.recved_mono {payload : List UCHAR} (inside : payload ∈ near.ctrl.recved) :
    payload ∈ nearAfter.ctrl.recved := by
  rw [grown.recved]
  exact mem_append_left _ inside

include farOk in
theorem Grown.beyond : SideOk far nearAfter :=
  { farOk with
    sent := fun pkt inside => (farOk.sent pkt inside).mono (fun _ => id) grown.drawn fun _ => id }

include turn nearOk farOk authentic

theorem Grown.sideOk : SideOk nearAfter far where
  sent answer inside := by
    rcases grown.sent answer inside with old | new | ⟨flag, drawn⟩
    · exact (nearOk.sent answer old).mono grown.drawn (fun _ => id) fun _ => grown.recved_mono
    · cases call with
      | send | timeOut =>
        rw [turn.2.2] at new
        cases new
      | input pkt =>
        cases turn with
        | dropped | acked => cases new
        | message _ isMessage all =>
          rw [all answer new]
          have isRecved : pkt.payload ∈ nearAfter.ctrl.recved := by
            rw [grown.recved]
            exact mem_append_right _ (mem_singleton_self _)
          cases farOk.sent pkt (authentic pkt rfl) with
          | message _ drawn => exact .ack pkt.payload rfl rfl drawn isRecved
          | ack _ flag =>
            rw [flag, hasFlag_isAck_isAck] at isMessage
            cases isMessage
    · exact .message flag drawn
  nodes := grown.nodes
  drawn := grown.known

omit nearOk in
theorem Grown.handed_submitted (inside : payload ∈ handed) : payload ∈ far.ctrl.submitted ∨
    payload = [] ∧ ∃ pkt node, call = .input pkt ∧ outcome.makeContinue = true ∧
      hasFlag pkt.stTmsg.uiFlag tmsgFlagIsAck = true ∧
      near.ctrl.stMsgList.find? (tmsgHasSequence pkt.stTmsg.uiSequence) = some node := by
  cases call with
  | send | timeOut =>
    rw [turn.1] at inside
    cases inside
  | input pkt =>
    cases turn with
    | dropped => cases inside
    | acked node continues isAck found =>
      refine .inr ⟨?_, pkt, node, rfl, continues, isAck, found⟩
      rw [mem_singleton.mp inside]
      cases farOk.sent pkt (authentic pkt rfl) with
      | message flag =>
        rw [flag, hasFlag_needAck_isAck] at isAck
        cases isAck
      | ack _ _ empty => exact empty
    | message _ isMessage =>
      rw [mem_singleton.mp inside]
      cases farOk.sent pkt (authentic pkt rfl) with
      | message _ drawn => exact .inl (farOk.drawn _ drawn)
      | ack _ flag =>
        rw [flag, hasFlag_isAck_isAck] at isMessage
        cases isMessage

theorem Grown.succeeded_drawn (inside : payload ∈ succeeded) :
    ∃ uiSequence received, (uiSequence, payload) ∈ near.drawn ∧
      (uiSequence, received) ∈ near.drawn ∧ received ∈ far.ctrl.recved := by
  cases call with
  | send | timeOut =>
    rw [turn.2.1] at inside
    cases inside
  | input pkt =>
    cases turn with
    | dropped | message => cases inside
    | acked node _ isAck found =>
      rw [mem_singleton.mp inside]
      have matched := find?_some found
      have sequence := beq_iff_eq.mp matched
      have nodeDrawn := (nearOk.nodes node (mem_of_find?_eq_some found)).drawn
      rw [sequence] at nodeDrawn
      cases farOk.sent pkt (authentic pkt rfl) with
      | message flag =>
        rw [flag, hasFlag_needAck_isAck] at isAck
        cases isAck
      | ack received _ _ drawn recved =>
        exact ⟨pkt.stTmsg.uiSequence, received, nodeDrawn, drawn, recved⟩

end Step

variable {pair : Bool → TmsgSide} {label : Bool × TmsgOutcome × TmsgCall} {endpoint : Bool}

def PairOk (pair : Bool → TmsgSide) : Prop :=
  ∀ endpoint, SideOk (pair endpoint) (pair !endpoint)

structure Stepped (pair : Bool → TmsgSide) (label : Bool × TmsgOutcome × TmsgCall)
    (handed succeeded : List (List UCHAR)) (answers : List TmsgPkt) : Prop where
  grown : Grown (pair label.1) (tmsgPairNext pair label label.1) handed succeeded answers
  turn : TmsgTurn (pair label.1) label.2.1 label.2.2 handed succeeded answers
  authentic : ∀ pkt, label.2.2 = .input pkt → pkt ∈ (pair !label.1).ctrl.sent

theorem PairOk.beyond (pairOk : PairOk pair) (endpoint : Bool) :
    SideOk (pair !endpoint) (pair endpoint) := by
  have farOk := pairOk !endpoint
  rw [Bool.not_not] at farOk
  exact farOk

theorem PairOk.stepped (pairOk : PairOk pair) (enabled : TmsgEnabled pair label) :
    ∃ handed succeeded answers, Stepped pair label handed succeeded answers := by
  obtain ⟨handed, succeeded, answers, grown, turn⟩ := (pairOk label.1).turn label.2.1 label.2.2
  refine ⟨handed, succeeded, answers, ?_, turn, fun pkt isInput => ?_⟩
  · rw [tmsgPairNext, update_self]
    exact grown
  · rw [TmsgEnabled, isInput] at enabled
    exact enabled

theorem same_or_other (endpoint other : Bool) : endpoint = other ∨ endpoint = !other := by
  cases endpoint <;> cases other <;> decide

theorem tmsgPairNext_other : tmsgPairNext pair label (!label.1) = pair !label.1 :=
  update_of_ne (by cases label.1 <;> decide) _ _

theorem PairOk.next (pairOk : PairOk pair) (enabled : TmsgEnabled pair label) :
    PairOk (tmsgPairNext pair label) := by
  obtain ⟨_, _, _, stepped⟩ := pairOk.stepped enabled
  intro endpoint
  rcases same_or_other endpoint label.1 with same | differs
  · rw [same, tmsgPairNext_other]
    exact stepped.grown.sideOk stepped.turn (pairOk label.1) (pairOk.beyond label.1) stepped.authentic
  · rw [differs, Bool.not_not, tmsgPairNext_other]
    exact stepped.grown.beyond (pairOk.beyond label.1)

theorem tmsgPair_ok (reached : tmsgPair.Reachable pair) : PairOk pair := by
  apply reached.invariant
  · rintro _ rfl _
    exact ⟨nofun, nofun, nofun⟩
  · rintro _ _ _ pairOk ⟨enabled, rfl⟩
    exact pairOk.next enabled

/-- A step keeps what was handed over submitted exactly where the acknowledgement of a
waiting message does not arrive before an empty message was submitted. -/
theorem Handed.next_iff (handedOk : Handed pair) (pairOk : PairOk pair)
    (enabled : TmsgEnabled pair label) :
    Handed (tmsgPairNext pair label) ↔ AckSpares pair label := by
  obtain ⟨_, _, _, stepped⟩ := pairOk.stepped enabled
  have recved := stepped.grown.recved
  constructor
  · intro next
    have turn := stepped.turn
    have authentic := stepped.authentic
    rw [AckSpares]
    split
    · next pkt isInput =>
      intro continues isAck isSome
      rw [isInput] at turn
      have inside := authentic pkt isInput
      cases turn with
      | dropped misses =>
        rw [misses continues isAck] at isSome
        cases isSome
      | message _ isMessage =>
        rw [isMessage] at isAck
        cases isAck
      | acked =>
        have empty : pkt.payload = [] := by
          cases (pairOk.beyond label.1).sent pkt inside with
          | message flag =>
            rw [flag, hasFlag_needAck_isAck] at isAck
            cases isAck
          | ack _ _ empty => exact empty
        have isRecved : [] ∈ (tmsgPairNext pair label label.1).ctrl.recved := by
          rw [recved, empty]
          exact mem_append_right _ (mem_singleton_self _)
        have submitted := next label.1 [] isRecved
        rw [tmsgPairNext_other] at submitted
        exact submitted
    · trivial
    · trivial
  intro spares endpoint payload inside
  rcases same_or_other endpoint label.1 with same | differs
  · rw [same] at inside ⊢
    rw [tmsgPairNext_other]
    rw [recved] at inside
    rcases mem_append.mp inside with old | new
    · exact handedOk label.1 payload old
    rcases stepped.grown.handed_submitted stepped.turn (pairOk.beyond label.1)
      stepped.authentic new with submitted | ⟨rfl, _, _, isInput, continues, isAck, found⟩
    · exact submitted
    · rw [AckSpares, isInput] at spares
      exact spares continues isAck (by rw [found]; rfl)
  · rw [differs] at inside ⊢
    rw [tmsgPairNext_other] at inside
    rw [Bool.not_not]
    have submitted := handedOk (!label.1) payload inside
    rw [Bool.not_not] at submitted
    exact stepped.grown.submitted payload submitted

def DrawnOnce (side : TmsgSide) : Prop :=
  ∀ first ∈ side.drawn, ∀ second ∈ side.drawn, first.1 = second.1 → first.2 = second.2

theorem DrawnOnce.next {side : TmsgSide} (once : DrawnOnce side)
    (fresh : ∀ drawn ∈ call.draws outcome side.ctrl, ∀ earlier ∈ side.drawn, earlier.1 ≠ drawn.1) :
    DrawnOnce (side.next outcome call) := by
  have alone : ∀ first ∈ call.draws outcome side.ctrl, ∀ second ∈ call.draws outcome side.ctrl,
      first = second := by
    intro first isFirst second isSecond
    cases call with
    | input | timeOut => cases isFirst
    | send payload =>
      rw [TmsgCall.draws] at isFirst isSecond
      split at isFirst
      · next draws =>
        rw [if_pos draws] at isSecond
        rw [mem_singleton.mp isFirst, mem_singleton.mp isSecond]
      · cases isFirst
  intro first isFirst second isSecond same
  rcases mem_append.mp isFirst with oldFirst | newFirst <;>
    rcases mem_append.mp isSecond with oldSecond | newSecond
  · exact once first oldFirst second oldSecond same
  · exact absurd same (fresh second newSecond first oldFirst)
  · exact absurd same.symm (fresh first newFirst second oldSecond)
  · rw [alone first newFirst second newSecond]

theorem tmsgPair_delivered (reached : tmsgPair.ReachableWhen SequenceFresh pair) :
    (∀ endpoint, DrawnOnce (pair endpoint)) ∧ PairOk pair ∧ Delivered pair := by
  apply reached.invariant
  · rintro _ rfl
    refine ⟨nofun, tmsgPair_ok (.start rfl), ?_⟩
    exact nofun
  rintro _ label _ ⟨once, pairOk, delivered⟩ fresh ⟨enabled, rfl⟩
  obtain ⟨_, succeeded, _, stepped⟩ := pairOk.stepped enabled
  refine ⟨fun endpoint => ?_, pairOk.next enabled, fun endpoint payload inside => ?_⟩
  · rw [tmsgPairNext, update_apply]
    split
    · exact (once label.1).next fresh
    · exact once endpoint
  rcases same_or_other endpoint label.1 with same | differs
  · rw [same] at inside ⊢
    rw [tmsgPairNext_other]
    rw [stepped.grown.succeeded] at inside
    rcases mem_append.mp inside with old | new
    · exact delivered label.1 payload old
    obtain ⟨_, received, drawn, other, recved⟩ := stepped.grown.succeeded_drawn
      stepped.turn (pairOk label.1) (pairOk.beyond label.1) stepped.authentic new
    have isSame : payload = received := once label.1 _ drawn _ other rfl
    rw [isSame]
    exact recved
  · rw [differs] at inside ⊢
    rw [tmsgPairNext_other] at inside
    rw [Bool.not_not]
    have recved := delivered (!label.1) payload inside
    rw [Bool.not_not] at recved
    exact stepped.grown.recved_mono recved

/-- What is handed over was submitted as long as no acknowledgement of a waiting message
arrives before an empty message was submitted, and what has success was handed over as
long as sequence numbers are not drawn again. -/
theorem tmsg2_delivers (pair : Bool → TmsgSide) :
    (tmsgPair.ReachableWhen AckSpares pair → Handed pair ∧ ∀ label, TmsgEnabled pair label →
        (Handed (tmsgPairNext pair label) ↔ AckSpares pair label)) ∧
    (tmsgPair.ReachableWhen SequenceFresh pair → Delivered pair) := by
  refine ⟨fun reached => ?_, fun reached => (tmsgPair_delivered reached).2.2⟩
  have both : PairOk pair ∧ Handed pair := by
    apply reached.invariant
    · rintro _ rfl
      exact ⟨tmsgPair_ok (.start rfl), nofun⟩
    · rintro _ _ _ ⟨pairOk, handed⟩ spares ⟨enabled, rfl⟩
      exact ⟨pairOk.next enabled, (handed.next_iff pairOk enabled).mpr spares⟩
  exact ⟨both.2, fun label enabled => both.2.next_iff both.1 enabled⟩

instance (pair : Bool → TmsgSide) (label : Bool × TmsgOutcome × TmsgCall) :
    Decidable (TmsgEnabled pair label) :=
  match label with
  | (endpoint, _, .input pkt) => inferInstanceAs (Decidable (pkt ∈ (pair !endpoint).ctrl.sent))
  | (_, _, .send _) | (_, _, .timeOut _) => isTrue trivial

instance (pair : Bool → TmsgSide) (label : Bool × TmsgOutcome × TmsgCall) :
    Decidable (AckSpares pair label) :=
  match label with
  | (endpoint, outcome, .input pkt) => inferInstanceAs (Decidable (outcome.makeContinue = true →
      hasFlag pkt.stTmsg.uiFlag tmsgFlagIsAck = true →
        ((pair endpoint).ctrl.stMsgList.find? (tmsgHasSequence pkt.stTmsg.uiSequence)).isSome →
          [] ∈ (pair !endpoint).ctrl.submitted))
  | (_, _, .send _) | (_, _, .timeOut _) => isTrue trivial

instance (pair : Bool → TmsgSide) (label : Bool × TmsgOutcome × TmsgCall) :
    Decidable (SequenceFresh pair label) :=
  inferInstanceAs (Decidable (∀ drawn ∈ label.2.2.draws label.2.1 (pair label.1).ctrl,
    ∀ earlier ∈ (pair label.1).drawn, earlier.1 ≠ drawn.1))

def tmsgOutcomeOk (createTimer : Bool) : TmsgOutcome :=
  ⟨true, true, true, createTimer, true⟩

def tmsgAckPkt : TmsgPkt :=
  ⟨⟨tmsgFlagIsAck, 0⟩, []⟩

def tmsgLabels : List (Bool × TmsgOutcome × TmsgCall) :=
  [(true, tmsgOutcomeOk true, .send [1]),
    (false, tmsgOutcomeOk true, .input ⟨⟨tmsgFlagNeedAck, 0⟩, [1]⟩)]

def tmsgAckLabels : List (Bool × TmsgOutcome × TmsgCall) :=
  tmsgLabels ++ [(true, tmsgOutcomeOk true, .input tmsgAckPkt)]

def tmsgAfter (labels : List (Bool × TmsgOutcome × TmsgCall)) : Bool → TmsgSide :=
  labels.foldl tmsgPairNext fun _ => tmsgSideStart

theorem tmsg2_delivers_one :
    (Handed (tmsgAfter tmsgLabels) ∧ (tmsgAfter tmsgLabels false).ctrl.recved = [[1]]) ∧
      Delivered (tmsgAfter tmsgAckLabels) ∧
      (tmsgAfter tmsgAckLabels true).ctrl.succeeded = [[1]] := by
  have spares (state : Bool → TmsgSide) (label : Bool × TmsgOutcome × TmsgCall)
      (met : AckSpares state label ∧ TmsgEnabled state label) :
      AckSpares state label ∧ tmsgPair.step state label (tmsgPairNext state label) :=
    ⟨met.1, met.2, rfl⟩
  have fresh (state : Bool → TmsgSide) (label : Bool × TmsgOutcome × TmsgCall)
      (met : SequenceFresh state label ∧ TmsgEnabled state label) :
      SequenceFresh state label ∧ tmsgPair.step state label (tmsgPairNext state label) :=
    ⟨met.1, met.2, rfl⟩
  have handed := (tmsg2_delivers _).1
    (.foldl spares (.start rfl) (by decide +kernel) : tmsgPair.ReachableWhen AckSpares
      (tmsgAfter tmsgLabels))
  have delivered := (tmsg2_delivers _).2
    (.foldl fresh (.start rfl) (by decide +kernel) : tmsgPair.ReachableWhen SequenceFresh
      (tmsgAfter tmsgAckLabels))
  exact ⟨⟨handed.1, by decide +kernel⟩, delivered, by decide +kernel⟩

/-- A message without a timer, which draws a sequence number. -/
def tmsgSkip : Bool × TmsgOutcome × TmsgCall :=
  (true, tmsgOutcomeOk false, .send [2])

theorem tmsgSkip_enabled : TmsgEnabled pair tmsgSkip :=
  trivial

theorem tmsgPair_skips (reached : tmsgPair.Reachable pair) (count : Nat) :
    ∃ after, tmsgPair.Reachable after ∧ after false = pair false ∧
      (after true).ctrl.stMsgList = (pair true).ctrl.stMsgList ∧
      (after true).ctrl.uiSequence = (pair true).ctrl.uiSequence + BitVec.ofNat 32 count := by
  induction count with
  | zero => exact ⟨pair, reached, rfl, rfl, (BitVec.add_zero _).symm⟩
  | succ _ ih =>
    obtain ⟨before, reachedBefore, other, nodes, sequence⟩ := ih
    refine ⟨tmsgPairNext before tmsgSkip, reachedBefore.next ⟨tmsgSkip_enabled, rfl⟩, ?_, nodes, ?_⟩
    · exact other
    change (before true).ctrl.uiSequence + 1 = _
    rw [sequence, BitVec.ofNat_add, BitVec.add_assoc]
    rfl

theorem tmsgPair_stale (reached : tmsgPair.Reachable pair) (nodes : (pair true).ctrl.stMsgList = [])
    (sequence : (pair true).ctrl.uiSequence = 0) (acked : tmsgAckPkt ∈ (pair false).ctrl.sent)
    (unknown : [3] ∉ (pair false).ctrl.recved) :
    ∃ after, tmsgPair.Reachable after ∧ ¬ Delivered after := by
  let send : Bool × TmsgOutcome × TmsgCall := (true, tmsgOutcomeOk true, .send [3])
  let ack : Bool × TmsgOutcome × TmsgCall := (true, tmsgOutcomeOk true, .input tmsgAckPkt)
  have sends : tmsgPair.step pair send (tmsgPairNext pair send) := ⟨trivial, rfl⟩
  have ends : tmsgPair.step (tmsgPairNext pair send) ack
      (tmsgPairNext (tmsgPairNext pair send) ack) := ⟨acked, rfl⟩
  refine ⟨_, (reached.next sends).next ends, fun delivered => unknown (delivered true [3] ?_)⟩
  change [3] ∈ (tmsg2Input (tmsgOutcomeOk true)
    (tmsg2Send (tmsgOutcomeOk true) (pair true).ctrl [3]).1 tmsgAckPkt).succeeded
  simp [tmsg2Input, tmsg2Send, tmsgSend, tmsgOutcomeOk, tmsgAckPkt, tmsgRecvedAck, nodes, sequence,
    tmsg2TmsgCallBacks, tmsgHasSequence, tmsg2Recv, hasFlag_isAck_isAck]

/-- The acknowledgement is handed over, and an old one ends another message. -/
theorem tmsg2_misroutes :
    (∃ pair, tmsgPair.Reachable pair ∧ (pair true).ctrl.recved = [[]] ∧
      (pair false).ctrl.submitted = []) ∧
    (∃ pair, tmsgPair.Reachable pair ∧ ¬ Delivered pair) ∧
    ¬ ∀ pair, tmsgPair.Reachable pair → Handed pair ∧ Delivered pair := by
  have steps (state : Bool → TmsgSide) (label : Bool × TmsgOutcome × TmsgCall)
      (met : TmsgEnabled state label) :
      True ∧ tmsgPair.step state label (tmsgPairNext state label) := ⟨trivial, met, rfl⟩
  have reached : tmsgPair.Reachable (tmsgAfter tmsgAckLabels) :=
    .foldl steps (.start rfl) (by decide +kernel)
  have recved : (tmsgAfter tmsgAckLabels true).ctrl.recved = [[]] := by decide +kernel
  have submitted : (tmsgAfter tmsgAckLabels false).ctrl.submitted = [] := by decide +kernel
  obtain ⟨_, skipped, other, nodes, sequence⟩ := tmsgPair_skips reached (2 ^ 32 - 1)
  have stale := tmsgPair_stale skipped (nodes.trans (by decide +kernel))
    (sequence.trans (by decide +kernel)) (by rw [other]; decide +kernel)
    (by rw [other]; decide +kernel)
  refine ⟨⟨_, reached, recved, submitted⟩, stale, fun holds => ?_⟩
  have handed := (holds _ reached).1 true [] (by rw [recved]; exact mem_singleton_self _)
  cases handed

end MyCode.Tmsg
