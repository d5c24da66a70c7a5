import MyCode.Ses.Moves

/-!
# Two instances of sessions

Two instances exchange packets over a channel that loses, duplicates, delays and
reorders them.  Each side keeps the ids that it has used and the ids whose session
was closed, gave up resending or failed its keep-alive there.
-/

namespace MyCode.Ses

open KeepAlive List

inductive SesEndpoint where
  | one
  | two
  deriving DecidableEq, Repr

def SesEndpoint.other : SesEndpoint → SesEndpoint
  | one => two
  | two => one

structure SesSide where
  ctrl : SesCtrl
  used : UINT → Bool
  quit : UINT → Bool

def sesSideStart : SesSide :=
  ⟨sesCreateInstance, fun _ => false, fun _ => false⟩

def SesSide.next (side : SesSide) (outcome : SesOutcome) (call : SesCall) : SesSide where
  ctrl := call.run outcome side.ctrl
  used uiSesID := side.used uiSesID || ((call.run outcome side.ctrl).hNap uiSesID).isSome
  quit uiSesID := side.quit uiSesID || call.quits side.ctrl uiSesID

def sesPairNext (pair : SesEndpoint → SesSide) (label : SesEndpoint × SesOutcome × SesCall) :
    SesEndpoint → SesSide :=
  Function.update pair label.1 ((pair label.1).next label.2.1 label.2.2)

/-- A packet that arrives is any one that the other side has sent. -/
def SesPairEnabled (pair : SesEndpoint → SesSide) (label : SesEndpoint × SesOutcome × SesCall) :
    Prop :=
  label.2.2.Enabled label.2.1 (pair label.1).ctrl ∧
    ∀ pkt ∈ label.2.2.packet, pkt ∈ (pair label.1.other).ctrl.sent

instance (pair : SesEndpoint → SesSide) (label : SesEndpoint × SesOutcome × SesCall) :
    Decidable (SesPairEnabled pair label) :=
  inferInstanceAs (Decidable (_ ∧ ∀ pkt ∈ label.2.2.packet, pkt ∈ (pair label.1.other).ctrl.sent))

/-- The runs that begin in `first`. -/
def sesPairFrom (first : SesEndpoint → SesSide) :
    Lib.System (SesEndpoint → SesSide) (SesEndpoint × SesOutcome × SesCall) where
  start pair := pair = first
  step pair label after := SesPairEnabled pair label ∧ after = sesPairNext pair label

def sesPair : Lib.System (SesEndpoint → SesSide) (SesEndpoint × SesOutcome × SesCall) :=
  sesPairFrom fun _ => sesSideStart

/-- Ids are not used again, a session is connected once, and a `SYN` finds a
session only before the handshake is over. -/
def SesOrderly (pair : SesEndpoint → SesSide) (label : SesEndpoint × SesOutcome × SesCall) : Prop :=
  (∀ uiSesID ∈ label.2.1.sesAlloc, (pair label.1).used uiSesID = false) ∧
    match label.2.2 with
    | .connect uiSesID => ∀ session ∈ (pair label.1).ctrl.hNap uiSesID,
        session.uiStatus = .init ∨ session.uiStatus = .synSend
    | .pktInput pkt => pkt.stPktHeader.has sesPktFlagSyn = true →
        pkt.stPktHeader.has sesPktFlagData = false →
          ∀ session ∈ sesFindSesNode (pair label.1).ctrl pkt.stPktHeader,
            session.uiStatus = .synSend
    | _ => True

instance (pair : SesEndpoint → SesSide) (label : SesEndpoint × SesOutcome × SesCall) :
    Decidable (SesOrderly pair label) :=
  @instDecidableAnd _ _
    (Option.decidableForallMem label.2.1.sesAlloc)
    (match label.2.2 with
      | .connect uiSesID => inferInstanceAs (Decidable (∀ session ∈ (pair label.1).ctrl.hNap uiSesID,
          session.uiStatus = .init ∨ session.uiStatus = .synSend))
      | .pktInput pkt => inferInstanceAs (Decidable (pkt.stPktHeader.has sesPktFlagSyn = true →
          pkt.stPktHeader.has sesPktFlagData = false →
            ∀ session ∈ sesFindSesNode (pair label.1).ctrl pkt.stPktHeader,
              session.uiStatus = .synSend))
      | .createClient | .close _ | .sendPkt _ _ | .setOptKeepAliveTime _ _ | .setDftKeepAlive _
      | .resendTimeOut _ | .keepAliveTimeOut _ => isTrue trivial)

variable {near far nearAfter : SesSide} {uiSesID : UINT} {session later : SesNode}
  {pkt mbuf : SesPkt} {head : SesPktHead} {packets : List SesPkt} {outcome : SesOutcome}
  {call : SesCall}

/-- The flags of the packets of an open session. -/
def SesPktHead.Talks (head : SesPktHead) : Prop :=
  head.usPktFlag = sesPktFlagAck ∨ head.usPktFlag = sesPktFlagKeepAlive ∨
    head.usPktFlag = sesPktFlagData

inductive SentOk (near far : SesSide) (head : SesPktHead) : Prop where
  | syn :
      head.usPktFlag = sesPktFlagSyn →
      head.uiDstSesId = 0 →
      near.used head.uiSrcSesId = true →
      SentOk near far head
  | synAck :
      head.usPktFlag = sesPktFlagSyn ||| sesPktFlagAck →
      far.used head.uiDstSesId = true →
      near.used head.uiSrcSesId = true →
      SentOk near far head
  | talk :
      head.Talks →
      far.used head.uiDstSesId = true →
      near.used head.uiSrcSesId = true →
      SentOk near far head
  | rst :
      head.usPktFlag = sesPktFlagRst →
      far.used head.uiDstSesId = true →
      head.uiSrcSesId = 0 ∨ near.used head.uiSrcSesId = true →
      SentOk near far head

def SesNode.Waiting (session : SesNode) : Prop :=
  session.uiStatus = .init ∨ session.uiStatus = .synSend

def SesNode.Connecter (session : SesNode) : Prop :=
  hasFlag session.uiFlag sesNodeFlagIsConnecter = true

instance (session : SesNode) : Decidable session.Connecter :=
  inferInstanceAs (Decidable (_ = true))

structure SessionOk (near far : SesSide) (uiSesID : UINT) (session : SesNode) : Prop where
  isLocal : session.uiLocalSesID = uiSesID
  used : near.used uiSesID = true
  peer : session.uiPeerSesID = 0 ∨ far.used session.uiPeerSesID = true
  timer : session.hResendTimer = true →
    session.uiStatus = .synSend ∨ session.uiStatus = .synRcvd
  attached : session.attached = true →
    (session.uiStatus = .establish ∨ session.uiStatus = .closed) ∧ session.uiPeerSesID ≠ 0
  waiting : session.Waiting → session.uiPeerSesID = 0 ∧ session.uiCookie = 0 ∧
    ∀ mbuf ∈ session.pstSendMbuf, mbuf = sesBuildProtocolPkt session sesPktFlagSyn
  synRcvd : session.uiStatus = .synRcvd → session.uiPeerSesID ≠ 0 ∧ ¬ session.Connecter ∧
    ∀ mbuf ∈ session.pstSendMbuf,
      mbuf = sesBuildProtocolPkt session (sesPktFlagSyn ||| sesPktFlagAck)
  establish : session.uiStatus = .establish → session.uiPeerSesID ≠ 0
  quit : near.quit uiSesID = true → session.uiStatus = .closed

/-- The packets of a session carry its peer and its cookie. -/
def OwnsPackets (near : SesSide) (uiSesID : UINT) (session : SesNode) : Prop :=
  ∀ pkt ∈ near.ctrl.sent, pkt.stPktHeader.uiSrcSesId = uiSesID →
    pkt.stPktHeader.usPktFlag ≠ sesPktFlagRst → pkt.stPktHeader.uiDstSesId ≠ 0 →
      pkt.stPktHeader.uiDstSesId = session.uiPeerSesID ∧
        pkt.stPktHeader.uiCookie = session.uiCookie

/-- The answer to a connect comes from a session that waits for its `ACK`, or that
has quit. -/
def Answers (far : SesSide) (uiSesID : UINT) (head : SesPktHead) : Prop :=
  head.usPktFlag = sesPktFlagSyn ||| sesPktFlagAck ∧
    (far.quit head.uiSrcSesId = true ∨ ∃ peer, far.ctrl.hNap head.uiSrcSesId = some peer ∧
      peer.uiStatus = .synRcvd ∧ peer.uiPeerSesID = uiSesID ∧ peer.uiCookie = head.uiCookie)

/-- What holds while a session waits for the answer to its connect. -/
structure WaitingOk (near far : SesSide) (uiSesID : UINT) : Prop where
  mine : ∀ pkt ∈ near.ctrl.sent, pkt.stPktHeader.uiSrcSesId = uiSesID →
    pkt.stPktHeader.usPktFlag = sesPktFlagSyn ∧ pkt.stPktHeader.uiDstSesId = 0
  theirs : ∀ pkt ∈ far.ctrl.sent, pkt.stPktHeader.uiDstSesId = uiSesID →
    pkt.stPktHeader.usPktFlag = sesPktFlagRst ∧ pkt.stPktHeader.uiSrcSesId = 0 ∨
      Answers far uiSesID pkt.stPktHeader
  peers : ∀ uiPeerSesID peer, far.ctrl.hNap uiPeerSesID = some peer →
    peer.uiPeerSesID = uiSesID →
      (peer.uiStatus = .synRcvd ∨ peer.uiStatus = .closed) ∧ peer.attached = false

structure Unknown (near far : SesSide) (uiSesID : UINT) : Prop where
  mine : ∀ pkt ∈ near.ctrl.sent, pkt.stPktHeader.uiSrcSesId ≠ uiSesID
  theirs : ∀ pkt ∈ far.ctrl.sent, pkt.stPktHeader.uiDstSesId ≠ uiSesID
  peers : ∀ uiPeerSesID peer, far.ctrl.hNap uiPeerSesID = some peer →
    peer.uiPeerSesID ≠ uiSesID

structure Half (near : SesSide) (uiSesID uiPeerSesID uiCookie : UINT) (status : SesStatus) : Prop where
  alive : status = .synRcvd ∨ status = .establish
  session : ∃ session, near.ctrl.hNap uiSesID = some session ∧ session.uiStatus = status ∧
    session.uiPeerSesID = uiPeerSesID ∧ session.uiCookie = uiCookie
  quiet : ∀ pkt ∈ near.ctrl.sent, pkt.stPktHeader.usPktFlag = sesPktFlagRst →
    pkt.stPktHeader.uiSrcSesId = uiSesID → pkt.stPktHeader.uiDstSesId ≠ uiPeerSesID

def Linked (near far : SesSide) (uiSesID uiPeerSesID : UINT) : Prop :=
  ∃ uiCookie status, Half near uiSesID uiPeerSesID uiCookie .establish ∧
    Half far uiPeerSesID uiSesID uiCookie status

structure SideOk (near far : SesSide) : Prop where
  unused : near.used 0 = false
  quitUsed : ∀ uiSesID, near.quit uiSesID = true → near.used uiSesID = true
  sent : ∀ pkt ∈ near.ctrl.sent, SentOk near far pkt.stPktHeader
  sessions : ∀ uiSesID session, near.ctrl.hNap uiSesID = some session →
    SessionOk near far uiSesID session
  owns : ∀ uiSesID session, near.ctrl.hNap uiSesID = some session →
    OwnsPackets near uiSesID session
  waiting : ∀ uiSesID session, near.ctrl.hNap uiSesID = some session → session.Waiting →
    WaitingOk near far uiSesID
  unknown : ∀ uiSesID session, near.ctrl.hNap uiSesID = some session → session.uiStatus = .init →
    Unknown near far uiSesID
  linked : ∀ uiSesID session, near.ctrl.hNap uiSesID = some session → session.Connecter →
    session.uiStatus = .establish →
      far.quit session.uiPeerSesID = true ∨ Linked near far uiSesID session.uiPeerSesID

inductive Says (far : SesSide) (uiSesID : UINT) (session : SesNode) (mbuf : SesPkt) : Prop where
  | talk (usPktFlag : USHORT) :
      mbuf.stPktHeader = sesFillPktHeader session usPktFlag →
      mbuf.stPktHeader.Talks →
      session.uiStatus = .establish ∨ session.attached = true ∨
        (∃ pkt ∈ far.ctrl.sent, pkt.stPktHeader.uiSrcSesId = session.uiPeerSesID ∧
          pkt.stPktHeader.uiDstSesId = uiSesID) →
      session.uiPeerSesID ≠ 0 →
      Says far uiSesID session mbuf
  | again :
      session.hResendTimer = true →
      session.pstSendMbuf = some mbuf →
      Says far uiSesID session mbuf

/-- What an orderly call does to one id, and the packets that it sends. -/
inductive Act (near far : SesSide) (call : SesCall) (uiSesID : UINT) :
    List SesPkt → Option SesNode → Prop where
  | idle : Act near far call uiSesID [] (near.ctrl.hNap uiSesID)
  | same (session later : SesNode) (packets : List SesPkt) (timer : Bool) :
      near.ctrl.hNap uiSesID = some session →
      later.core = ({ session with hResendTimer := timer } : SesNode).core →
      (timer = true → session.hResendTimer = true) →
      (∀ mbuf ∈ packets, Says far uiSesID session mbuf) →
      Act near far call uiSesID packets (some later)
  | connect (session later : SesNode) (packets : List SesPkt) (pstSendMbuf : Option SesPkt)
      (timer : Bool) :
      near.ctrl.hNap uiSesID = some session →
      session.Waiting →
      (∀ mbuf ∈ packets, mbuf = sesBuildProtocolPkt session sesPktFlagSyn) →
      (∀ mbuf ∈ pstSendMbuf, mbuf = sesBuildProtocolPkt session sesPktFlagSyn) →
      later.core = ({ session with
        uiStatus := .synSend, pstSendMbuf := pstSendMbuf, hResendTimer := timer } : SesNode).core →
      Act near far call uiSesID packets (some later)
  | quit (session later : SesNode) :
      near.ctrl.hNap uiSesID = some session →
      call.quits near.ctrl uiSesID = true →
      later.core = session.aborted.core →
      Act near far call uiSesID [] (some later)
  | gone :
      call.quits near.ctrl uiSesID = true →
      (near.ctrl.hNap uiSesID).isSome →
      Act near far call uiSesID [] none
  | create :
      near.used uiSesID = false →
      uiSesID ≠ 0 →
      Act near far call uiSesID [] (some (sesClient near.ctrl uiSesID))
  | accept (pkt : SesPkt) (later : SesNode) (packets : List SesPkt) :
      pkt ∈ far.ctrl.sent →
      pkt.stPktHeader.usPktFlag = sesPktFlagSyn →
      near.used uiSesID = false →
      uiSesID ≠ 0 →
      (∀ mbuf ∈ packets, mbuf = sesAnswer near.ctrl uiSesID pkt.stPktHeader) →
      later.core = (sesAccepted near.ctrl uiSesID pkt.stPktHeader).core →
      Act near far call uiSesID packets (some later)
  | reject (pkt : SesPkt) (packets : List SesPkt) :
      pkt ∈ far.ctrl.sent →
      sesFindSesNode near.ctrl pkt.stPktHeader = none →
      pkt.stPktHeader.usPktFlag ≠ sesPktFlagRst →
      (∀ mbuf ∈ packets, mbuf = sesBuildRstPkt pkt.stPktHeader) →
      Act near far call uiSesID packets (near.ctrl.hNap uiSesID)
  | join (session later : SesNode) (pkt : SesPkt) (packets : List SesPkt) :
      near.ctrl.hNap uiSesID = some session →
      session.uiStatus = .synSend →
      pkt ∈ far.ctrl.sent →
      pkt.stPktHeader.uiDstSesId = uiSesID →
      Answers far uiSesID pkt.stPktHeader →
      (∀ mbuf ∈ packets, mbuf = sesBuildProtocolPkt { session with
        uiPeerSesID := pkt.stPktHeader.uiSrcSesId
        uiCookie := pkt.stPktHeader.uiCookie } sesPktFlagAck) →
      later.core = ({ session with
        uiPeerSesID := pkt.stPktHeader.uiSrcSesId
        uiCookie := pkt.stPktHeader.uiCookie } : SesNode).established.core →
      Act near far call uiSesID packets (some later)
  | confirm (session later : SesNode) (pkt : SesPkt) :
      near.ctrl.hNap uiSesID = some session →
      session.uiStatus = .synRcvd →
      pkt ∈ far.ctrl.sent →
      pkt.stPktHeader.usPktFlag = sesPktFlagAck →
      pkt.stPktHeader.uiDstSesId = uiSesID →
      pkt.stPktHeader.uiSrcSesId = session.uiPeerSesID →
      later.core = session.established.core →
      Act near far call uiSesID [] (some later)
  | reset (session later : SesNode) (pkt : SesPkt) :
      near.ctrl.hNap uiSesID = some session →
      pkt ∈ far.ctrl.sent →
      pkt.stPktHeader.usPktFlag = sesPktFlagRst →
      pkt.stPktHeader.uiDstSesId = uiSesID →
      (session.uiPeerSesID ≠ 0 → session.uiPeerSesID = pkt.stPktHeader.uiSrcSesId) →
      later.core = session.aborted.core →
      Act near far call uiSesID [] (some later)

theorem has_of_flag {usPktFlag flag : USHORT} (isFlag : head.usPktFlag = usPktFlag) :
    head.has flag = (usPktFlag &&& flag != 0) := by
  rw [SesPktHead.has, isFlag]

theorem SentOk.dst_zero (sentOk : SentOk near far head) (unused : far.used 0 = false)
    (dst : head.uiDstSesId = 0) : head.usPktFlag = sesPktFlagSyn := by
  have impossible (used : far.used head.uiDstSesId = true) : False := by
    rw [dst, unused] at used
    cases used
  cases sentOk with
  | syn flag => exact flag
  | synAck _ used | talk _ used | rst _ used => exact (impossible used).elim

theorem SideOk.localsOk (nearOk : SideOk near far) : LocalsOk near.ctrl := by
  intro uiSesID session found
  have sessionOk := nearOk.sessions uiSesID session found
  refine ⟨sessionOk.isLocal, fun zero => ?_⟩
  have used := sessionOk.used
  rw [zero, nearOk.unused] at used
  cases used

theorem SideOk.hears (nearOk : SideOk near far) (found : near.ctrl.hNap uiSesID = some session)
    (sending : session.uiStatus = .synSend) (inside : pkt ∈ far.ctrl.sent)
    (dst : pkt.stPktHeader.uiDstSesId = uiSesID) (noRst : pkt.stPktHeader.usPktFlag ≠ sesPktFlagRst) :
    Answers far uiSesID pkt.stPktHeader := by
  rcases (nearOk.waiting uiSesID session found (.inr sending)).theirs pkt inside dst with
    ⟨rst, -⟩ | answers
  · exact absurd rst noRst
  · exact answers

theorem SideOk.peer_known (nearOk : SideOk near far)
    (found : near.ctrl.hNap uiSesID = some session) (opened : session.uiStatus ≠ .closed)
    (inside : pkt ∈ far.ctrl.sent) (dst : pkt.stPktHeader.uiDstSesId = uiSesID)
    (noRst : pkt.stPktHeader.usPktFlag ≠ sesPktFlagRst) (noAnswer : ¬ Answers far uiSesID pkt.stPktHeader) :
    (session.uiStatus = .synRcvd ∨ session.uiStatus = .establish) ∧ session.uiPeerSesID ≠ 0 := by
  have sessionOk := nearOk.sessions uiSesID session found
  cases status : session.uiStatus with
  | init => exact absurd dst ((nearOk.unknown uiSesID session found status).theirs pkt inside)
  | synSend => exact absurd (nearOk.hears found status inside dst noRst) noAnswer
  | synRcvd => exact ⟨.inl rfl, (sessionOk.synRcvd status).1⟩
  | establish => exact ⟨.inr rfl, sessionOk.establish status⟩
  | closed => exact absurd status opened

theorem taken_synAck (flag : head.usPktFlag = sesPktFlagSyn ||| sesPktFlagAck)
    (waits : session.Waits) : session.taken head =
      ({ session with
        uiPeerSesID := head.uiSrcSesId, uiCookie := head.uiCookie } : SesNode).established := by
  have syn : head.has sesPktFlagSyn = true := has_of_flag flag
  have ack : head.has sesPktFlagAck = true := has_of_flag flag
  have rst : head.has sesPktFlagRst = false := has_of_flag flag
  have learned : session.learned head =
      { session with uiPeerSesID := head.uiSrcSesId, uiCookie := head.uiCookie } := if_pos syn
  simp only [SesNode.taken, learned, ack, rst, Bool.false_eq_true, if_false]
  rw [if_pos ⟨trivial, waits⟩]

theorem learned_of_flag (syn : head.has sesPktFlagSyn = false) :
    session.learned head = session := by
  rw [SesNode.learned, syn]
  rfl

theorem taken_ack (flag : head.usPktFlag = sesPktFlagAck) :
    session.taken head = if session.Waits then session.established else session := by
  have syn : head.has sesPktFlagSyn = false := has_of_flag flag
  have ack : head.has sesPktFlagAck = true := has_of_flag flag
  have rst : head.has sesPktFlagRst = false := has_of_flag flag
  simp [SesNode.taken, learned_of_flag syn, ack, rst]

theorem taken_keepAlive (flag : head.usPktFlag = sesPktFlagKeepAlive) :
    session.taken head = session := by
  have syn : head.has sesPktFlagSyn = false := has_of_flag flag
  have ack : head.has sesPktFlagAck = false := has_of_flag flag
  have rst : head.has sesPktFlagRst = false := has_of_flag flag
  simp [SesNode.taken, learned_of_flag syn, ack, rst]

theorem taken_rst (flag : head.usPktFlag = sesPktFlagRst) :
    session.taken head = session.aborted := by
  have syn : head.has sesPktFlagSyn = false := has_of_flag flag
  have ack : head.has sesPktFlagAck = false := has_of_flag flag
  have rst : head.has sesPktFlagRst = true := has_of_flag flag
  simp [SesNode.taken, learned_of_flag syn, ack, rst]

structure Acts (near far : SesSide) (call : SesCall) (uiSesID : UINT) (packets : List SesPkt)
    (later : Option SesNode) (nearAfter : SesSide) : Prop where
  act : Act near far call uiSesID packets later
  sessions : nearAfter.ctrl.hNap = Function.update near.ctrl.hNap uiSesID later
  sent : nearAfter.ctrl.sent = near.ctrl.sent ++ packets
  used : ∀ other, nearAfter.used other =
    (near.used other || (nearAfter.ctrl.hNap other).isSome)
  quit : ∀ other, nearAfter.quit other = (near.quit other || call.quits near.ctrl other)
  closed : ∀ other session, call.quits near.ctrl other = true →
    nearAfter.ctrl.hNap other = some session → session.uiStatus = .closed

section

variable (nearOk : SideOk near far) (farOk : SideOk far near)

include nearOk farOk

theorem take_act (stored : near.ctrl.hNap uiSesID = some session) (inside : pkt ∈ far.ctrl.sent)
    (dst : pkt.stPktHeader.uiDstSesId = uiSesID)
    (found : sesFindSesNode near.ctrl pkt.stPktHeader = some session)
    (protocol : pkt.stPktHeader.has sesPktFlagData = false)
    (syn : pkt.stPktHeader.has sesPktFlagSyn = true → session.uiStatus = .synSend)
    (all : ∀ mbuf ∈ packets,
      mbuf = sesBuildProtocolPkt (session.learned pkt.stPktHeader) sesPktFlagAck ∧
        (pkt.stPktHeader.has sesPktFlagSyn = true ∨ pkt.stPktHeader.has sesPktFlagKeepAlive = true))
    (core : later.core = (session.taken pkt.stPktHeader).core) :
    Act near far call uiSesID packets (some later) := by
  obtain ⟨-, peer, -, opened⟩ := sesFindSesNode_eq_some.mp found
  have nonzero := (nearOk.localsOk uiSesID session stored).2
  -- Without the flags `SYN` and `KEEPALIVE` nothing is answered.
  have silent (noSyn : pkt.stPktHeader.has sesPktFlagSyn = false)
      (noKeepAlive : pkt.stPktHeader.has sesPktFlagKeepAlive = false) : packets = [] := by
    refine eq_nil_iff_forall_not_mem.mpr fun mbuf answer => ?_
    have flags := (all mbuf answer).2
    rw [noSyn, noKeepAlive] at flags
    rcases flags with flag | flag <;> cases flag
  cases farOk.sent pkt inside with
  | syn flag zero => exact absurd (dst.symm.trans zero) nonzero
  | synAck flag =>
    have isSyn : pkt.stPktHeader.has sesPktFlagSyn = true := has_of_flag flag
    have sending := syn isSyn
    have answers := nearOk.hears stored sending inside dst (by rw [flag]; decide)
    rw [taken_synAck flag (.inl sending)] at core
    have learned : session.learned pkt.stPktHeader = { session with
        uiPeerSesID := pkt.stPktHeader.uiSrcSesId, uiCookie := pkt.stPktHeader.uiCookie } :=
      if_pos isSyn
    rw [learned] at all
    exact .join session later pkt packets stored sending inside dst answers
      (fun mbuf answer => (all mbuf answer).1) core
  | talk talks =>
    have noRst : pkt.stPktHeader.usPktFlag ≠ sesPktFlagRst := by
      rcases talks with flag | flag | flag <;> rw [flag] <;> decide
    have noAnswer : ¬ Answers far uiSesID pkt.stPktHeader := by
      intro answers
      rcases talks with flag | flag | flag <;> nomatch answers.1.symm.trans flag
    obtain ⟨handshaken, known⟩ := nearOk.peer_known stored opened inside dst noRst noAnswer
    rcases talks with flag | flag | flag
    · have empty := silent (has_of_flag flag) (has_of_flag flag)
      subst empty
      rw [taken_ack flag] at core
      rcases handshaken with rcvd | established
      · rw [if_pos (.inr rcvd)] at core
        exact .confirm session later pkt stored rcvd inside flag dst (peer known).symm core
      rw [if_neg] at core
      · exact .same session later [] session.hResendTimer stored core id
          fun _ answer => (not_mem_nil answer).elim
      · rw [SesNode.Waits, established]
        decide
    · rw [taken_keepAlive flag] at core
      refine .same session later packets session.hResendTimer stored core id fun mbuf answer => ?_
      have built := (all mbuf answer).1
      rw [learned_of_flag (has_of_flag flag)] at built
      refine .talk sesPktFlagAck (by rw [built]; rfl) (by rw [built]; exact .inl rfl) ?_ known
      exact .inr (.inr ⟨pkt, inside, (peer known).symm, dst⟩)
    · have data : pkt.stPktHeader.has sesPktFlagData = true := has_of_flag flag
      rw [data] at protocol
      cases protocol
  | rst flag =>
    have empty := silent (has_of_flag flag) (has_of_flag flag)
    subst empty
    rw [taken_rst flag] at core
    exact .reset session later pkt stored inside flag dst peer core

variable (authentic : ∀ pkt ∈ call.packet, pkt ∈ far.ctrl.sent)
  (inTime : ∀ pkt, call = .pktInput pkt → pkt.stPktHeader.has sesPktFlagSyn = true →
    pkt.stPktHeader.has sesPktFlagData = false →
      ∀ session ∈ sesFindSesNode near.ctrl pkt.stPktHeader, session.uiStatus = .synSend)

include authentic inTime in
theorem change_act
    (connects : ∀ session ∈ near.ctrl.hNap uiSesID, call = .connect uiSesID → session.Waiting)
    (stored : near.ctrl.hNap uiSesID = some session) {last : SesNode}
    (change : Change near.ctrl call uiSesID session packets last) (core : later.core = last.core) :
    Act near far call uiSesID packets (some later) := by
  have sessionOk := nearOk.sessions uiSesID session stored
  have none (mbuf : SesPkt) (inside : mbuf ∈ ([] : List SesPkt)) : Says far uiSesID session mbuf :=
    (not_mem_nil inside).elim
  cases change with
  | stay => exact .same session later [] session.hResendTimer stored core id none
  | connect packets isConnect all =>
    refine .connect session later packets _ true stored (connects session stored isConnect) all
      (fun mbuf inside => ?_) core
    exact (Option.mem_some_iff.mp inside).symm
  | connectFailed isConnect =>
    have waiting := connects session stored isConnect
    exact .connect session later [] session.pstSendMbuf session.hResendTimer stored waiting
      nofun (sessionOk.waiting waiting).2.2 core
  | sendData _ established =>
    refine .same session later _ session.hResendTimer stored core id fun mbuf inside => ?_
    rw [mem_singleton.mp inside]
    exact .talk sesPktFlagData rfl (.inr (.inr rfl)) (.inl established)
      (sessionOk.establish established)
  | resend _ packets running pending all =>
    refine .same session later packets session.hResendTimer stored core id fun other inside => ?_
    rw [all other inside]
    exact .again running pending
  | unsent => exact .same session later [] false stored core nofun none
  | quit quits => exact .quit session later stored quits core
  | probe packets attached all =>
    refine .same session later packets session.hResendTimer stored core id fun mbuf inside => ?_
    rw [all mbuf inside]
    exact .talk sesPktFlagKeepAlive rfl (.inr (.inl rfl)) (.inr (.inl attached))
      (sessionOk.attached attached).2
  | refuse pkt _ arrives found protocol syn other =>
    exact absurd (inTime pkt arrives syn protocol session found) other
  | take pkt _ arrives dst found protocol syn all =>
    have inside := authentic pkt (by rw [arrives]; rfl)
    exact take_act nearOk farOk stored inside dst found protocol syn all core

include authentic inTime in
theorem sesPair_acts (enabled : call.Enabled outcome near.ctrl)
    (fresh : ∀ uiSesID ∈ outcome.sesAlloc, near.used uiSesID = false)
    (connects : ∀ uiSesID, ∀ session ∈ near.ctrl.hNap uiSesID, call = .connect uiSesID →
      session.Waiting) :
    ∃ uiSesID packets later, Acts near far call uiSesID packets later (near.next outcome call) := by
  obtain ⟨uiSesID, packets, later, moves⟩ := SesCall.moving nearOk.localsOk enabled
  refine ⟨uiSesID, packets, later, ?_, moves.sessions, moves.sent, fun _ => rfl, fun _ => rfl,
    fun _ _ quits found => quits_closed nearOk.localsOk quits found⟩
  cases moves.turn with
  | rest => exact .idle
  | change _ _ _ _ stored change core =>
    exact change_act nearOk farOk authentic inTime (connects uiSesID) stored change core
  | close isClose =>
    cases stored : near.ctrl.hNap uiSesID with
    | none =>
      rw [← stored]
      exact .idle
    | some =>
      have there : (near.ctrl.hNap uiSesID).isSome := by rw [stored]; rfl
      refine .gone ?_ there
      simp only [isClose, SesCall.quits, beq_self_eq_true, Bool.true_and]
      exact there
  | create alloc _ nonzero => exact .create (fresh uiSesID alloc) nonzero
  | accept pkt later packets arrives _ dst _ alloc _ nonzero all core =>
    have inside := authentic pkt (by rw [arrives]; rfl)
    have flag := (farOk.sent pkt inside).dst_zero nearOk.unused dst
    exact .accept pkt later packets inside flag (fresh uiSesID alloc) nonzero all core
  | unmatched pkt packets arrives unmatched all =>
    have inside := authentic pkt (by rw [arrives]; rfl)
    refine .reject pkt packets inside unmatched.1 (fun isRst => ?_) all
    have directed : pkt.stPktHeader.uiDstSesId ≠ 0 := by
      intro zero
      have flag := (farOk.sent pkt inside).dst_zero nearOk.unused zero
      cases isRst.symm.trans flag
    have noRst := unmatched.2 directed (has_of_flag isRst)
    have rst : pkt.stPktHeader.has sesPktFlagRst = true := has_of_flag isRst
    rw [noRst] at rst
    cases rst

end

end MyCode.Ses
