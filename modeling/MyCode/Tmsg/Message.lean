import MyCode.Types

/-!
# Trusty messages

`tmsg_utl.c` with the callbacks of `tmsg2_utl.c`.  What is handed to `pfSendFunc`, to
`pfRecvFunc` and to `TMSG2_Send` is kept in order, and so are the messages for which
there was `TMSG_EVENT_SUCCESS`.  A time-out of any message may come at any time.
-/

namespace MyCode.Tmsg

def tmsgFlagIsAck : UINT := 0x1

def tmsgFlagNeedAck : UINT := 0x10

def tmsg2DftRetryTimes : UINT := 5

structure TmsgS where
  uiFlag : UINT
  uiSequence : UINT
  deriving DecidableEq, Repr

structure TmsgOpt where
  stTmsg : TmsgS
  uiRetryTimes : UINT
  deriving DecidableEq, Repr

/-- A packet: the head in host order and what follows it. -/
structure TmsgPkt where
  stTmsg : TmsgS
  payload : List UCHAR
  deriving DecidableEq, Repr

/-- `TMSG_NODE_S` with the packet of its user handle. -/
structure TmsgNode where
  stOpt : TmsgOpt
  payload : List UCHAR
  uiCount : UINT
  deriving DecidableEq, Repr

inductive TmsgEvent where
  | send
  | success
  | failed
  deriving DecidableEq, Repr

structure TmsgCtrl where
  stMsgList : List TmsgNode
  uiSequence : UINT
  submitted : List (List UCHAR)
  sent : List TmsgPkt
  recved : List (List UCHAR)
  succeeded : List (List UCHAR)
  errors : Nat
  deriving DecidableEq, Repr

def tmsg2Create : TmsgCtrl :=
  ⟨[], 0, [], [], [], [], 0⟩

/-- What the calls of other modules return: whether the head is prepended and made
continuous, there is memory for a node and for an acknowledgement, and a timer. -/
structure TmsgOutcome where
  prepend : Bool
  makeContinue : Bool
  malloc : Bool
  createTimer : Bool
  createAck : Bool

def tmsg2TmsgCallBacks (ctrl : TmsgCtrl) (event : TmsgEvent) (opt : TmsgOpt)
    (payload : List UCHAR) : TmsgCtrl :=
  match event with
  | .send => { ctrl with sent := ctrl.sent ++ [⟨opt.stTmsg, payload⟩] }
  | .success => { ctrl with succeeded := ctrl.succeeded ++ [payload] }
  | .failed => { ctrl with errors := ctrl.errors + 1 }

/-- `tmsg_TimeOut` of the message at one place of the list. -/
def tmsgTimeOut (ctrl : TmsgCtrl) (place : Nat) : TmsgCtrl :=
  match ctrl.stMsgList[place]? with
  | none => ctrl
  | some node =>
    let node := { node with uiCount := node.uiCount + 1 }
    if node.stOpt.uiRetryTimes = 0 ∨ node.uiCount ≤ node.stOpt.uiRetryTimes then
      tmsg2TmsgCallBacks { ctrl with stMsgList := ctrl.stMsgList.set place node } .send node.stOpt
        node.payload
    else
      let event := if hasFlag node.stOpt.stTmsg.uiFlag tmsgFlagNeedAck then .failed else .success
      let ctrl := tmsg2TmsgCallBacks ctrl event node.stOpt node.payload
      { ctrl with stMsgList := ctrl.stMsgList.eraseIdx place }

def tmsgSend (outcome : TmsgOutcome) (ctrl : TmsgCtrl) (opt : TmsgOpt) (payload : List UCHAR) :
    TmsgCtrl × BsStatus :=
  if !outcome.malloc then
    (tmsg2TmsgCallBacks ctrl .failed opt payload, .noMemory)
  else
    let opt := { opt with stTmsg.uiSequence := ctrl.uiSequence }
    let ctrl := { ctrl with uiSequence := ctrl.uiSequence + 1 }
    if !outcome.createTimer then
      (tmsg2TmsgCallBacks ctrl .failed opt payload, .err)
    else
      let ctrl := { ctrl with stMsgList := ctrl.stMsgList ++ [⟨opt, payload, 1⟩] }
      (tmsg2TmsgCallBacks ctrl .send opt payload, .ok)

def tmsg2Send (outcome : TmsgOutcome) (ctrl : TmsgCtrl) (payload : List UCHAR) :
    TmsgCtrl × BsStatus :=
  let ctrl := { ctrl with submitted := ctrl.submitted ++ [payload] }
  if !outcome.prepend then
    (ctrl, .noMemory)
  else if !outcome.makeContinue then
    (ctrl, .noMemory)
  else
    tmsgSend outcome ctrl ⟨⟨tmsgFlagNeedAck, 0⟩, tmsg2DftRetryTimes⟩ payload

def tmsgHasSequence (uiSequence : UINT) (node : TmsgNode) : Bool :=
  node.stOpt.stTmsg.uiSequence == uiSequence

def tmsgRecvedAck (ctrl : TmsgCtrl) (tmsg : TmsgS) : TmsgCtrl × Bool :=
  if !hasFlag tmsg.uiFlag tmsgFlagIsAck then
    (ctrl, false)
  else
    match ctrl.stMsgList.find? (tmsgHasSequence tmsg.uiSequence) with
    | none => (ctrl, false)
    | some node =>
      let ctrl := tmsg2TmsgCallBacks ctrl .success node.stOpt node.payload
      ({ ctrl with
        stMsgList := ctrl.stMsgList.eraseP (tmsgHasSequence tmsg.uiSequence) }, true)

def tmsg2SendAck (outcome : TmsgOutcome) (ctrl : TmsgCtrl) (tmsg : TmsgS) : TmsgCtrl :=
  if outcome.createAck then
    { ctrl with sent := ctrl.sent ++ [⟨{ tmsg with uiFlag := tmsgFlagIsAck }, []⟩] }
  else
    ctrl

def tmsg2Recv (ctrl : TmsgCtrl) (payload : List UCHAR) : TmsgCtrl :=
  { ctrl with recved := ctrl.recved ++ [payload] }

def tmsg2Input (outcome : TmsgOutcome) (ctrl : TmsgCtrl) (pkt : TmsgPkt) : TmsgCtrl :=
  if !outcome.makeContinue then
    ctrl
  else if hasFlag pkt.stTmsg.uiFlag tmsgFlagIsAck then
    let acked := tmsgRecvedAck ctrl pkt.stTmsg
    if !acked.2 then acked.1 else tmsg2Recv acked.1 pkt.payload
  else if hasFlag pkt.stTmsg.uiFlag tmsgFlagNeedAck then
    tmsg2Recv (tmsg2SendAck outcome ctrl pkt.stTmsg) pkt.payload
  else
    tmsg2Recv ctrl pkt.payload

inductive TmsgCall where
  | send (payload : List UCHAR)
  | input (pkt : TmsgPkt)
  | timeOut (place : Nat)
  deriving DecidableEq, Repr

def TmsgCall.run (outcome : TmsgOutcome) (ctrl : TmsgCtrl) : TmsgCall → TmsgCtrl
  | send payload => (tmsg2Send outcome ctrl payload).1
  | input pkt => tmsg2Input outcome ctrl pkt
  | timeOut place => tmsgTimeOut ctrl place

end MyCode.Tmsg
