import Mathlib.Logic.Function.Basic
import MyCode.KeepAlive
import MyCode.Lib.Transition

/-!
# Sessions

`ses_utl.c` without properties, user contexts and event callbacks.  Whatever is
handed to `pfSendPktFunc` and to `pfRecvPktFunc` is kept in order, the latter with
the session that it is for.
-/

namespace MyCode.Ses

open KeepAlive

inductive SesStatus where
  | init
  | synSend
  | synRcvd
  | establish
  | closed
  deriving DecidableEq, Repr

def sesNodeFlagIsConnecter : UINT := 0x1

def sesDftPktResendCountMax : USHORT := 3

def sesPktFlagData : USHORT := 0x1

def sesPktFlagSyn : USHORT := 0x2

def sesPktFlagAck : USHORT := 0x4

def sesPktFlagRst : USHORT := 0x8

def sesPktFlagKeepAlive : USHORT := 0x10

/-- `_SES_PKT_HEAD_S` in host order. -/
structure SesPktHead where
  usPktFlag : USHORT
  uiDstSesId : UINT
  uiSrcSesId : UINT
  uiCookie : UINT
  deriving DecidableEq, Repr

def SesPktHead.has (head : SesPktHead) (flag : USHORT) : Bool :=
  head.usPktFlag &&& flag != 0

structure SesPkt where
  stPktHeader : SesPktHead
  data : List UCHAR
  deriving DecidableEq, Repr

/-- `_SES_NODE_S`, with whether there is a resend timer. -/
structure SesNode where
  uiStatus : SesStatus
  uiFlag : UINT
  uiLocalSesID : UINT
  uiPeerSesID : UINT
  uiCookie : UINT
  pstSendMbuf : Option SesPkt
  usResendCount : USHORT
  hResendTimer : Bool
  stKeepAliveOpt : Ka
  deriving DecidableEq, Repr

/-- What `pfRecvPktFunc` is called with, and the session at that moment. -/
structure SesRecv where
  pstSesNode : SesNode
  pkt : SesPkt
  deriving DecidableEq, Repr

structure SesKeepAliveTime where
  usIdle : USHORT
  usIntval : USHORT
  usMaxProbeCount : USHORT
  deriving DecidableEq, Repr

structure SesCtrl where
  uiCookie : UINT
  hNap : UINT → Option SesNode
  stDftKeepAlive : SesKeepAliveTime
  sent : List SesPkt
  recved : List SesRecv

def sesCreateInstance : SesCtrl :=
  ⟨0, fun _ => none, ⟨300, 3, 3⟩, [], []⟩

/-- What the calls of other modules return: the id of a node from `NAP_ZAlloc`, and
whether there is memory for its user context and properties, a packet is built,
the second one of a call is built, `pstSendMbuf` is copied, a packet is made
continuous, a head is prepended and the timers are created. -/
structure SesOutcome where
  sesAlloc : Option UINT
  sesMemory : Bool
  buildPkt : Bool
  buildNext : Bool
  rawCopy : Bool
  makeContinue : Bool
  prepend : Bool
  createTimer : Bool
  keepAliveStart : Bool
  recvPkt : BsStatus

/-- The context and the session that a function has in its hands. -/
structure SesWork where
  ctrl : SesCtrl
  session : SesNode

def SesCtrl.setSession (ctrl : SesCtrl) (session : SesNode) : SesCtrl :=
  { ctrl with hNap := Function.update ctrl.hNap session.uiLocalSesID (some session) }

def SesWork.store (work : SesWork) : SesCtrl :=
  work.ctrl.setSession work.session

def sesFillPktHeader (session : SesNode) (usPktFlag : USHORT) : SesPktHead where
  usPktFlag := usPktFlag
  uiDstSesId := session.uiPeerSesID
  uiSrcSesId := session.uiLocalSesID
  uiCookie := session.uiCookie

def sesBuildProtocolPkt (session : SesNode) (usPktFlag : USHORT) : SesPkt :=
  ⟨sesFillPktHeader session usPktFlag, []⟩

def sesSendPkt (ctrl : SesCtrl) (mbuf : SesPkt) : SesCtrl :=
  { ctrl with sent := ctrl.sent ++ [mbuf] }

def SesWork.send (work : SesWork) (mbuf : SesPkt) : SesWork :=
  { work with ctrl := sesSendPkt work.ctrl mbuf }

def sesBuildRstPkt (pkt : SesPktHead) : SesPkt where
  stPktHeader :=
    { usPktFlag := sesPktFlagRst
      uiDstSesId := pkt.uiSrcSesId
      uiSrcSesId := pkt.uiDstSesId
      uiCookie := pkt.uiCookie }
  data := []

def sesSendRst (outcome : SesOutcome) (ctrl : SesCtrl) (pkt : SesPktHead) : SesCtrl :=
  if outcome.buildPkt then sesSendPkt ctrl (sesBuildRstPkt pkt) else ctrl

def sesStartResenderTimer (outcome : SesOutcome) (session : SesNode) : SesNode × BsStatus :=
  if session.hResendTimer then
    (session, .ok)
  else if outcome.createTimer then
    ({ session with hResendTimer := true }, .ok)
  else
    (session, .err)

def sesRecordAndSendPkt (outcome : SesOutcome) (work : SesWork) (mbuf : SesPkt) :
    SesWork × BsStatus :=
  let started := sesStartResenderTimer outcome work.session
  if started.2 ≠ .ok then
    (work, .err)
  else
    let work := { work with session := { started.1 with pstSendMbuf := some mbuf } }
    (if outcome.rawCopy then work.send mbuf else work, .ok)

def sesSendSyn (outcome : SesOutcome) (work : SesWork) : SesWork × BsStatus :=
  if !outcome.buildPkt then
    (work, .noMemory)
  else
    sesRecordAndSendPkt outcome { work with session.uiStatus := .synSend }
      (sesBuildProtocolPkt work.session sesPktFlagSyn)

def sesSendSynAck (outcome : SesOutcome) (work : SesWork) : SesWork × BsStatus :=
  if !outcome.buildPkt then
    (work, .noMemory)
  else
    sesRecordAndSendPkt outcome work
      (sesBuildProtocolPkt work.session (sesPktFlagSyn ||| sesPktFlagAck))

/-- A packet that is sent where there is memory for it. -/
def sesSendProtocolPkt (buildPkt : Bool) (usPktFlag : USHORT) (work : SesWork) : SesWork :=
  if buildPkt then work.send (sesBuildProtocolPkt work.session usPktFlag) else work

def sesSendAck (buildPkt : Bool) (work : SesWork) : SesWork :=
  sesSendProtocolPkt buildPkt sesPktFlagAck work

def sesStopResenderTimer (session : SesNode) : SesNode :=
  { session with hResendTimer := false }

def sesStopTimer (session : SesNode) : SesNode :=
  let session :=
    if session.hResendTimer then
      { session with hResendTimer := false, usResendCount := 0 }
    else
      session
  { session with stKeepAliveOpt := kaStop session.stKeepAliveOpt }

def sesAbort (session : SesNode) : SesNode :=
  { sesStopTimer session with uiStatus := .closed }

def sesResendTimeOut (outcome : SesOutcome) (work : SesWork) : SesWork :=
  match work.session.pstSendMbuf with
  | none => { work with session := sesStopResenderTimer work.session }
  | some mbuf =>
    if sesDftPktResendCountMax ≤ work.session.usResendCount then
      { work with session := sesAbort work.session }
    else
      let work := { work with session.usResendCount := work.session.usResendCount + 1 }
      if outcome.rawCopy then work.send mbuf else work

def sesSendKeepAlive (outcome : SesOutcome) (work : SesWork) : SesWork :=
  sesSendProtocolPkt outcome.buildPkt sesPktFlagKeepAlive work

/-- `ka_KeepAlive` with the functions of `ses_InitKA`. -/
def sesKeepAlive (outcome : SesOutcome) (work : SesWork) : SesWork :=
  let probe := kaKeepAlive work.session.stKeepAliveOpt
  let work := { work with session.stKeepAliveOpt := probe.1 }
  if probe.2 then
    { work with session := sesAbort work.session }
  else
    sesSendKeepAlive outcome work

def sesStartKeepAliveTimer (outcome : SesOutcome) (session : SesNode) : SesNode :=
  { session with stKeepAliveOpt := (kaStart session.stKeepAliveOpt outcome.keepAliveStart).1 }

def sesRefreshKeepAlive (session : SesNode) : SesNode :=
  { session with stKeepAliveOpt := kaReset session.stKeepAliveOpt }

def sesFindSesNode (ctrl : SesCtrl) (pkt : SesPktHead) : Option SesNode :=
  match ctrl.hNap pkt.uiDstSesId with
  | none => none
  | some session =>
    if session.uiPeerSesID ≠ 0 ∧ session.uiPeerSesID ≠ pkt.uiSrcSesId then
      none
    else if session.uiStatus ≠ .synSend ∧ session.uiCookie ≠ pkt.uiCookie then
      none
    else if session.uiStatus = .closed then
      none
    else
      some session

def sesFreeSes (ctrl : SesCtrl) (uiSesID : UINT) : SesCtrl :=
  { ctrl with hNap := Function.update ctrl.hNap uiSesID none }

/-- The id of a new session.  A node without its memory is freed again. -/
def sesNewID (outcome : SesOutcome) : Option UINT :=
  if outcome.sesMemory then outcome.sesAlloc else none

/-- `ses_NewSes` on a zeroed node. -/
def sesNewSes (ctrl : SesCtrl) (uiSesID : UINT) : SesNode where
  uiStatus := .init
  uiFlag := 0
  uiLocalSesID := uiSesID
  uiPeerSesID := 0
  uiCookie := 0
  pstSendMbuf := none
  usResendCount := 0
  hResendTimer := false
  stKeepAliveOpt := ⟨ctrl.stDftKeepAlive.usIdle, ctrl.stDftKeepAlive.usIntval,
    ctrl.stDftKeepAlive.usMaxProbeCount, false, 0, none⟩

def sesSynInput (outcome : SesOutcome) (ctrl : SesCtrl) (pkt : SesPktHead) : SesCtrl × BsStatus :=
  if !pkt.has sesPktFlagSyn then
    (sesSendRst outcome ctrl pkt, .noSuch)
  else
    match sesNewID outcome with
    | none => (sesSendRst outcome ctrl pkt, .noMemory)
    | some uiSesID =>
      let session := { sesNewSes ctrl uiSesID with
        uiPeerSesID := pkt.uiSrcSesId
        uiStatus := .synRcvd
        uiCookie := ctrl.uiCookie }
      let ctrl := { ctrl with uiCookie := ctrl.uiCookie + 1 }
      let answered := sesSendSynAck outcome ⟨ctrl, session⟩
      if answered.2 ≠ .ok then
        (sesFreeSes answered.1.store uiSesID, .err)
      else
        (answered.1.store, .ok)

def sesClrSendBufBecauseAck (session : SesNode) : SesNode :=
  sesStopResenderTimer { session with pstSendMbuf := none }

def sesAck1Input (outcome : SesOutcome) (session : SesNode) : SesNode :=
  sesClrSendBufBecauseAck
    (sesStartKeepAliveTimer outcome { session with uiStatus := .establish })

def sesAck2Input (outcome : SesOutcome) (session : SesNode) : SesNode :=
  sesClrSendBufBecauseAck
    (sesStartKeepAliveTimer outcome { session with uiStatus := .establish })

def sesKeepAliveInput (outcome : SesOutcome) (work : SesWork) : SesWork :=
  sesSendAck outcome.buildNext work

def sesRstInput (session : SesNode) : SesNode :=
  if session.uiStatus ≠ .closed then sesAbort session else session

/-- What a packet with the flag `SYN` does to a session in `SYN_SEND`. -/
def sesSynFlagIn (outcome : SesOutcome) (pkt : SesPktHead) (work : SesWork) : SesWork :=
  if pkt.has sesPktFlagSyn then
    sesSendAck outcome.buildPkt { work with
      session.uiPeerSesID := pkt.uiSrcSesId
      session.uiCookie := pkt.uiCookie }
  else
    work

/-- What a packet with the flag `ACK` does to a session. -/
def sesAckFlagIn (outcome : SesOutcome) (pkt : SesPktHead) (work : SesWork) : SesWork :=
  if pkt.has sesPktFlagAck then
    match work.session.uiStatus with
    | .synSend => { work with session := sesAck1Input outcome work.session }
    | .synRcvd => { work with session := sesAck2Input outcome work.session }
    | _ => work
  else
    work

def sesFlagsIn (outcome : SesOutcome) (pkt : SesPktHead) (work : SesWork) : SesWork :=
  let work := sesAckFlagIn outcome pkt (sesSynFlagIn outcome pkt work)
  let work := if pkt.has sesPktFlagKeepAlive then sesKeepAliveInput outcome work else work
  if pkt.has sesPktFlagRst then { work with session := sesRstInput work.session } else work

def sesProtocolPktIn (outcome : SesOutcome) (ctrl : SesCtrl) (pkt : SesPktHead) :
    SesCtrl × BsStatus :=
  if pkt.uiDstSesId = 0 then
    sesSynInput outcome ctrl pkt
  else
    match sesFindSesNode ctrl pkt with
    | none =>
      if !pkt.has sesPktFlagRst then
        (sesSendRst outcome ctrl pkt, .noSuch)
      else
        (ctrl, .noSuch)
    | some session =>
      let session := sesRefreshKeepAlive session
      if pkt.has sesPktFlagSyn ∧ session.uiStatus ≠ .synSend then
        (sesSendRst outcome (ctrl.setSession session) pkt, .ok)
      else
        ((sesFlagsIn outcome pkt ⟨ctrl, session⟩).store, .ok)

def sesDataIn (outcome : SesOutcome) (ctrl : SesCtrl) (pkt : SesPkt) : SesCtrl × BsStatus :=
  match sesFindSesNode ctrl pkt.stPktHeader with
  | none => (sesSendRst outcome ctrl pkt.stPktHeader, .notFound)
  | some session =>
    let session := sesRefreshKeepAlive session
    ({ ctrl.setSession session with recved := ctrl.recved ++ [⟨session, pkt⟩] }, outcome.recvPkt)

def sesPktInput (outcome : SesOutcome) (ctrl : SesCtrl) (pkt : SesPkt) : SesCtrl × BsStatus :=
  if !outcome.makeContinue then
    (ctrl, .err)
  else if pkt.stPktHeader.has sesPktFlagData then
    sesDataIn outcome ctrl pkt
  else
    sesProtocolPktIn outcome ctrl pkt.stPktHeader

end MyCode.Ses

/-!
## Calls of an instance of sessions

The functions of `ses_utl.h` that read or change a session, and the timers of
the sessions.  A keep-alive that is not attached to a clock has no timer there.
-/

namespace MyCode.Ses

open KeepAlive

def sesCreateClient (outcome : SesOutcome) (ctrl : SesCtrl) : SesCtrl × UINT :=
  match sesNewID outcome with
  | none => (ctrl, 0)
  | some uiSesID =>
    let session := sesNewSes ctrl uiSesID
    (ctrl.setSession { session with
      uiStatus := .init, uiFlag := session.uiFlag ||| sesNodeFlagIsConnecter }, uiSesID)

def sesClose (ctrl : SesCtrl) (uiSesID : UINT) : SesCtrl :=
  match ctrl.hNap uiSesID with
  | none => ctrl
  | some _ => sesFreeSes ctrl uiSesID

def sesConnect (outcome : SesOutcome) (ctrl : SesCtrl) (uiSesID : UINT) : SesCtrl × BsStatus :=
  match ctrl.hNap uiSesID with
  | none => (ctrl, .notFound)
  | some session =>
    let syn := sesSendSyn outcome ⟨ctrl, session⟩
    (syn.1.store, syn.2)

/-- `SES_SendPkt`. -/
def sesSendData (outcome : SesOutcome) (ctrl : SesCtrl) (uiSesID : UINT) (data : List UCHAR) :
    SesCtrl × BsStatus :=
  match ctrl.hNap uiSesID with
  | none => (ctrl, .notFound)
  | some session =>
    if session.uiStatus ≠ .establish then
      (ctrl, .notReady)
    else if !outcome.prepend then
      (ctrl, .noMemory)
    else if !outcome.makeContinue then
      (ctrl, .noMemory)
    else
      (sesSendPkt ctrl ⟨sesFillPktHeader session sesPktFlagData, data⟩, .ok)

/-- `SES_SetOpt` with `SES_OPT_KEEP_ALIVE_TIME`. -/
def sesSetOptKeepAliveTime (ctrl : SesCtrl) (uiSesID : UINT) (pstKeepAlive : SesKeepAliveTime) :
    SesCtrl × BsStatus :=
  match ctrl.hNap uiSesID with
  | none => (ctrl, .noSuch)
  | some session =>
    (ctrl.setSession { session with stKeepAliveOpt := kaReset { session.stKeepAliveOpt with
      usIdle := pstKeepAlive.usIdle
      usIntval := pstKeepAlive.usIntval
      usMaxProbeCount := pstKeepAlive.usMaxProbeCount } }, .ok)

def sesSetDftKeepAlive (ctrl : SesCtrl) (pstKeepAlive : SesKeepAliveTime) : SesCtrl :=
  { ctrl with stDftKeepAlive := pstKeepAlive }

def sesTimer (ctrl : SesCtrl) (uiSesID : UINT) (timeOut : SesWork → SesWork) : SesCtrl :=
  match ctrl.hNap uiSesID with
  | none => ctrl
  | some session => (timeOut ⟨ctrl, session⟩).store

inductive SesCall where
  | createClient
  | close (uiSesID : UINT)
  | connect (uiSesID : UINT)
  | sendPkt (uiSesID : UINT) (data : List UCHAR)
  | setOptKeepAliveTime (uiSesID : UINT) (pstKeepAlive : SesKeepAliveTime)
  | setDftKeepAlive (pstKeepAlive : SesKeepAliveTime)
  | resendTimeOut (uiSesID : UINT)
  | keepAliveTimeOut (uiSesID : UINT)
  | pktInput (pkt : SesPkt)
  deriving DecidableEq

namespace SesCall

def run (outcome : SesOutcome) (ctrl : SesCtrl) : SesCall → SesCtrl
  | createClient => (sesCreateClient outcome ctrl).1
  | close uiSesID => sesClose ctrl uiSesID
  | connect uiSesID => (sesConnect outcome ctrl uiSesID).1
  | sendPkt uiSesID data => (sesSendData outcome ctrl uiSesID data).1
  | setOptKeepAliveTime uiSesID pstKeepAlive => (sesSetOptKeepAliveTime ctrl uiSesID pstKeepAlive).1
  | setDftKeepAlive pstKeepAlive => sesSetDftKeepAlive ctrl pstKeepAlive
  | resendTimeOut uiSesID => sesTimer ctrl uiSesID (sesResendTimeOut outcome)
  | keepAliveTimeOut uiSesID => sesTimer ctrl uiSesID (sesKeepAlive outcome)
  | pktInput pkt => (sesPktInput outcome ctrl pkt).1

/-- Timers run out while they are linked, and a new node has an id that is not
in use. -/
def Enabled (outcome : SesOutcome) (ctrl : SesCtrl) (call : SesCall) : Prop :=
  (∀ uiSesID ∈ outcome.sesAlloc, uiSesID ≠ 0 ∧ ctrl.hNap uiSesID = none) ∧
    match call with
    | resendTimeOut uiSesID => ∃ session ∈ ctrl.hNap uiSesID, session.hResendTimer
    | keepAliveTimeOut uiSesID => ∃ session ∈ ctrl.hNap uiSesID,
        session.stKeepAliveOpt.hVClockInstance ∧ session.stKeepAliveOpt.vclock.isSome
    | _ => True

instance (outcome : SesOutcome) (ctrl : SesCtrl) (call : SesCall) :
    Decidable (call.Enabled outcome ctrl) :=
  @instDecidableAnd _ _
    (@Option.decidableForallMem _
      (fun uiSesID => uiSesID ≠ 0 ∧ ctrl.hNap uiSesID = none) (fun _ => instDecidableAnd) _)
    (match call with
      | resendTimeOut uiSesID =>
        inferInstanceAs (Decidable (∃ session ∈ ctrl.hNap uiSesID, session.hResendTimer))
      | keepAliveTimeOut uiSesID => inferInstanceAs (Decidable (∃ session ∈ ctrl.hNap uiSesID,
          session.stKeepAliveOpt.hVClockInstance ∧ session.stKeepAliveOpt.vclock.isSome))
      | createClient | close _ | connect _ | sendPkt _ _ | setOptKeepAliveTime _ _
      | setDftKeepAlive _ | pktInput _ => isTrue trivial)

def packet : SesCall → Option SesPkt
  | pktInput pkt => some pkt
  | _ => none

end SesCall

def sesOutcomeOk (sesAlloc : Option UINT) : SesOutcome :=
  ⟨sesAlloc, true, true, true, true, true, true, true, true, .ok⟩

end MyCode.Ses
