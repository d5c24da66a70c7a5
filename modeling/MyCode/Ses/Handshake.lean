import MyCode.Ses.Pair

/-!
# The handshake of two instances

In orderly runs a connection lasts until one side quits.  One step keeps what holds
of the side that acts and what the other side relies on.
-/

namespace MyCode.Ses

open KeepAlive Function List

variable {near far nearAfter : SesSide} {uiSesID other uiPeerSesID uiCookie : UINT}
  {session peer : SesNode} {pkt mbuf : SesPkt} {packets : List SesPkt}
  {call : SesCall} {later : Option SesNode} {status : SesStatus} {farStatus : SesStatus}

theorem core_waiting {after : SesNode} (same : after.core = session.core) :
    after.Waiting ↔ session.Waiting := by
  rw [SesNode.Waiting, SesNode.Waiting, core_status same]

theorem core_connecter {after : SesNode} (same : after.core = session.core) :
    after.Connecter ↔ session.Connecter := by
  rw [SesNode.Connecter, SesNode.Connecter, core_flag same]

theorem SessionOk.of_core {after : SesNode} (sessionOk : SessionOk near far uiSesID session)
    (same : after.core = session.core) : SessionOk near far uiSesID after where
  isLocal := (core_local same).trans sessionOk.isLocal
  used := sessionOk.used
  peer := by
    rw [core_peer same]
    exact sessionOk.peer
  timer := by
    rw [core_resendTimer same, core_status same]
    exact sessionOk.timer
  attached := by
    rw [core_attached same, core_status same, core_peer same]
    exact sessionOk.attached
  waiting := by
    rw [core_waiting same, core_peer same, core_cookie same, core_sendMbuf same,
      sesBuildProtocolPkt_core same]
    exact sessionOk.waiting
  synRcvd := by
    rw [core_connecter same, core_status same, core_peer same, core_sendMbuf same,
      sesBuildProtocolPkt_core same]
    exact sessionOk.synRcvd
  establish := by
    rw [core_status same, core_peer same]
    exact sessionOk.establish
  quit := by
    rw [core_status same]
    exact sessionOk.quit

theorem SessionOk.used_local (sessionOk : SessionOk near far uiSesID session) :
    near.used session.uiLocalSesID = true :=
  sessionOk.isLocal ▸ sessionOk.used

theorem SideOk.nonzero (nearOk : SideOk near far) (used : near.used uiSesID = true) :
    uiSesID ≠ 0 := by
  intro zero
  rw [zero, nearOk.unused] at used
  cases used

theorem SideOk.known (nearOk : SideOk near far) (found : near.ctrl.hNap uiSesID = some session) :
    near.used uiSesID = true :=
  (nearOk.sessions uiSesID session found).used

theorem SideOk.unknown_of_unused (nearOk : SideOk near far) (farOk : SideOk far near)
    (nonzero : uiSesID ≠ 0) (unused : near.used uiSesID = false) : Unknown near far uiSesID := by
  have absent {same : UINT} (used : near.used same = true) : same ≠ uiSesID := by
    intro equal
    rw [equal, unused] at used
    cases used
  refine ⟨fun pkt inside => ?_, fun pkt inside => ?_, fun uiPeerSesID peer found => ?_⟩
  · cases nearOk.sent pkt inside with
    | syn _ _ used | synAck _ _ used | talk _ _ used => exact absent used
    | rst _ _ either =>
      rcases either with zero | used
      · rw [zero]
        exact nonzero.symm
      · exact absent used
  · cases farOk.sent pkt inside with
    | syn _ zero =>
      rw [zero]
      exact nonzero.symm
    | synAck _ used | talk _ used | rst _ used => exact absent used
  · rcases (farOk.sessions uiPeerSesID peer found).peer with zero | used
    · rw [zero]
      exact nonzero.symm
    · exact absent used

theorem Unknown.waitingOk (unknown : Unknown near far uiSesID) : WaitingOk near far uiSesID where
  mine pkt inside src := absurd src (unknown.mine pkt inside)
  theirs pkt inside dst := absurd dst (unknown.theirs pkt inside)
  peers uiPeerSesID peer found same := absurd same (unknown.peers uiPeerSesID peer found)

variable (act : Act near far call uiSesID packets later) (nearOk : SideOk near far)
  (farOk : SideOk far near)

section

variable (acts : Acts near far call uiSesID packets later nearAfter)

section

include acts

theorem Acts.found (found : nearAfter.ctrl.hNap other = some session) :
    other = uiSesID ∧ later = some session ∨
      other ≠ uiSesID ∧ near.ctrl.hNap other = some session := by
  rw [acts.sessions, update_apply] at found
  split at found
  · next same => exact .inl ⟨same, found⟩
  · next differs => exact .inr ⟨differs, found⟩

theorem Acts.used_mono (used : near.used other = true) : nearAfter.used other = true := by
  rw [acts.used, used]
  rfl

theorem Acts.quit_mono (quit : near.quit other = true) : nearAfter.quit other = true := by
  rw [acts.quit, quit]
  rfl

theorem Acts.used_found
    (found : nearAfter.ctrl.hNap other = some session) : nearAfter.used other = true := by
  rw [acts.used, found]
  exact Bool.or_true _

theorem Acts.quits (quits : call.quits near.ctrl other = true) : nearAfter.quit other = true := by
  rw [acts.quit, quits]
  exact Bool.or_true _

end

include act nearOk in
theorem Act.nonzero (isLater : later = some session) : uiSesID ≠ 0 := by
  have stored {before : SesNode} (found : near.ctrl.hNap uiSesID = some before) : uiSesID ≠ 0 :=
    (nearOk.localsOk uiSesID before found).2
  cases act with
  | idle | reject => exact stored isLater
  | same _ _ _ _ found | connect _ _ _ _ _ found | quit _ _ found
  | join _ _ _ _ found | confirm _ _ _ found | reset _ _ _ found => exact stored found
  | gone => cases isLater
  | create _ nonzero | accept _ _ _ _ _ _ nonzero => exact nonzero

/-- A packet of an act answers one that found no session, or comes from the session
as it is afterwards. -/
inductive FromAct (near far : SesSide) (uiSesID : UINT) (later : Option SesNode) (mbuf : SesPkt) :
    Prop where
  | rst (pkt : SesPkt) :
      pkt ∈ far.ctrl.sent →
      sesFindSesNode near.ctrl pkt.stPktHeader = none →
      pkt.stPktHeader.usPktFlag ≠ sesPktFlagRst →
      mbuf = sesBuildRstPkt pkt.stPktHeader →
      FromAct near far uiSesID later mbuf
  | syn (session : SesNode) :
      later = some session →
      session.uiLocalSesID = uiSesID →
      mbuf = sesBuildProtocolPkt session sesPktFlagSyn →
      session.uiStatus = .synSend →
      FromAct near far uiSesID later mbuf
  | synAck (session : SesNode) :
      later = some session →
      session.uiLocalSesID = uiSesID →
      mbuf = sesBuildProtocolPkt session (sesPktFlagSyn ||| sesPktFlagAck) →
      session.uiStatus = .synRcvd →
      FromAct near far uiSesID later mbuf
  | talk (session : SesNode) (usPktFlag : USHORT) :
      later = some session →
      session.uiLocalSesID = uiSesID →
      mbuf.stPktHeader = sesFillPktHeader session usPktFlag →
      mbuf.stPktHeader.Talks →
      session.uiPeerSesID ≠ 0 →
      session.uiStatus = .establish ∨ session.attached = true ∨
        (∃ pkt ∈ far.ctrl.sent, pkt.stPktHeader.uiSrcSesId = session.uiPeerSesID ∧
          pkt.stPktHeader.uiDstSesId = uiSesID) →
      FromAct near far uiSesID later mbuf

include farOk in
theorem Answers.src_used (answers : Answers far uiSesID pkt.stPktHeader)
    (inside : pkt ∈ far.ctrl.sent) : far.used pkt.stPktHeader.uiSrcSesId = true := by
  have flag := answers.1
  cases farOk.sent pkt inside with
  | syn _ _ used | synAck _ _ used | talk _ _ used => exact used
  | rst isRst => nomatch flag.symm.trans isRst

include act nearOk farOk in
theorem Act.packet (inside : mbuf ∈ packets) : FromAct near far uiSesID later mbuf := by
  cases act with
  | idle | quit | gone | create | confirm | reset => nomatch inside
  | reject pkt _ sent missing noRst all => exact .rst pkt sent missing noRst (all mbuf inside)
  | same before after _ timer found core _ all =>
    have sessionOk := nearOk.sessions uiSesID before found
    have isLocal := (core_local core).trans sessionOk.isLocal
    have built (usPktFlag : USHORT) : sesBuildProtocolPkt before usPktFlag =
        sesBuildProtocolPkt after usPktFlag := (sesBuildProtocolPkt_core core usPktFlag).symm
    cases all mbuf inside with
    | talk usPktFlag isHead talks opened nonzero =>
      have head := congrArg SesPkt.stPktHeader (built usPktFlag)
      refine .talk after usPktFlag rfl isLocal (isHead.trans head) talks ?_ ?_
      · rw [core_peer core]
        exact nonzero
      · rw [core_status core, core_attached core, core_peer core]
        exact opened
    | again running pending =>
      rcases sessionOk.timer running with sending | rcvd
      · have isSyn := (sessionOk.waiting (.inr sending)).2.2 mbuf pending
        exact .syn after rfl isLocal (isSyn.trans (built _)) ((core_status core).trans sending)
      have isAnswer := (sessionOk.synRcvd rcvd).2.2 mbuf pending
      exact .synAck after rfl isLocal (isAnswer.trans (built _))
        ((core_status core).trans rcvd)
  | connect before after _ _ _ found _ all _ core =>
    have isLocal := (core_local core).trans (nearOk.sessions uiSesID before found).isLocal
    have built := (sesBuildProtocolPkt_core core sesPktFlagSyn).symm
    exact .syn after rfl isLocal ((all mbuf inside).trans built) (core_status core)
  | accept _ after _ _ _ _ _ all core =>
    have built := (sesBuildProtocolPkt_core core (sesPktFlagSyn ||| sesPktFlagAck)).symm
    exact .synAck after rfl (core_local core) ((all mbuf inside).trans built) (core_status core)
  | join before after _ _ found _ sent _ answers all core =>
    have isLocal := (core_local core).trans (nearOk.sessions uiSesID before found).isLocal
    have built := (sesBuildProtocolPkt_core core sesPktFlagAck).symm
    have isHead := congrArg SesPkt.stPktHeader ((all mbuf inside).trans built)
    refine .talk after sesPktFlagAck rfl isLocal isHead (by rw [isHead]; exact .inl rfl) ?_
      (.inl (core_status core))
    rw [core_peer core]
    exact farOk.nonzero (answers.src_used farOk sent)

include act nearOk in
theorem Act.closed {after : SesNode} (isLater : later = some after)
    (quit : near.quit uiSesID = true) : after.uiStatus = .closed := by
  have closed {before : SesNode} (found : near.ctrl.hNap uiSesID = some before) :
      before.uiStatus = .closed := (nearOk.sessions uiSesID before found).quit quit
  have used := nearOk.quitUsed uiSesID quit
  cases act with
  | idle | reject => exact closed isLater
  | same before _ _ timer found core =>
    cases isLater
    have status : after.uiStatus = before.uiStatus :=
      @core_status after { before with hResendTimer := timer } core
    exact status.trans (closed found)
  | connect before _ _ _ _ found waiting =>
    rcases waiting with status | status <;> exact absurd (status.symm.trans (closed found))
      (by decide)
  | quit _ _ _ _ core | reset _ _ _ _ _ _ _ _ core =>
    cases isLater
    exact core_status core
  | gone => cases isLater
  | create unused | accept _ _ _ _ _ unused =>
    rw [unused] at used
    cases used
  | join before _ _ _ found status | confirm before _ _ found status =>
    exact absurd (status.symm.trans (closed found)) (by decide)

include acts nearOk in
theorem Acts.quit_closed (found : nearAfter.ctrl.hNap other = some session)
    (quit : nearAfter.quit other = true) : session.uiStatus = .closed := by
  rw [acts.quit, Bool.or_eq_true] at quit
  rcases quit with quit | quits
  · rcases acts.found found with ⟨rfl, isLater⟩ | ⟨-, stored⟩
    · exact acts.act.closed nearOk isLater quit
    · exact (nearOk.sessions other session stored).quit quit
  · exact acts.closed other session quits found

theorem SessionOk.mono {farAfter : SesSide} (sessionOk : SessionOk near far uiSesID session)
    (used : nearAfter.used uiSesID = true)
    (theirs : ∀ other, far.used other = true → farAfter.used other = true)
    (quit : nearAfter.quit uiSesID = true → session.uiStatus = .closed) :
    SessionOk nearAfter farAfter uiSesID session :=
  { sessionOk with
    used := used
    peer := sessionOk.peer.imp_right (theirs _)
    quit := quit }

include act nearOk farOk in
theorem Act.sessionOk {after : SesNode}
    (isLater : later = some after) (used : nearAfter.used uiSesID = true)
    (quit : nearAfter.quit uiSesID = true → after.uiStatus = .closed) :
    SessionOk nearAfter far uiSesID after := by
  have prior {before : SesNode} (found : near.ctrl.hNap uiSesID = some before) :=
    nearOk.sessions uiSesID before found
  have closes {before : SesNode} (found : near.ctrl.hNap uiSesID = some before)
      (core : after.core = before.aborted.core) : SessionOk nearAfter far uiSesID after := by
    have changed : SessionOk nearAfter far uiSesID before.aborted :=
      { prior found with
        used := used
        timer := nofun
        attached := fun attached => ⟨.inr rfl, ((prior found).attached attached).2⟩
        waiting := fun waiting => by rcases waiting with status | status <;> cases status
        synRcvd := nofun
        establish := nofun
        quit := fun _ => rfl }
    exact changed.of_core core
  have opens {before : SesNode} (isLocal : before.uiLocalSesID = uiSesID)
      (peer : far.used before.uiPeerSesID = true)
      (core : after.core = before.established.core) : SessionOk nearAfter far uiSesID after := by
    have changed : SessionOk nearAfter far uiSesID before.established :=
      { isLocal := isLocal
        used := used
        peer := .inr peer
        timer := nofun
        attached := fun _ => ⟨.inl rfl, farOk.nonzero peer⟩
        waiting := fun waiting => by rcases waiting with status | status <;> cases status
        synRcvd := nofun
        establish := fun _ => farOk.nonzero peer
        quit := fun isQuit => (core_status core).symm.trans (quit isQuit) }
    exact changed.of_core core
  cases act with
  | idle | reject => exact (prior isLater).mono used (fun _ => id) quit
  | same before _ _ timer found core runs =>
    cases isLater
    have changed : SessionOk nearAfter far uiSesID { before with hResendTimer := timer } :=
      { prior found with
        used := used
        timer := fun running => (prior found).timer (runs running)
        quit := fun isQuit => (core_status core).symm.trans (quit isQuit) }
    exact changed.of_core core
  | connect before _ _ pstSendMbuf timer found waiting _ pending core =>
    cases isLater
    have detached : before.attached = true → False := by
      intro attached
      rcases waiting with status | status <;>
        rcases ((prior found).attached attached).1 with other | other <;>
          nomatch status.symm.trans other
    have opened := (prior found).waiting waiting
    have changed : SessionOk nearAfter far uiSesID { before with
        uiStatus := .synSend, pstSendMbuf := pstSendMbuf, hResendTimer := timer } :=
      { prior found with
        used := used
        timer := fun _ => .inl rfl
        attached := fun attached => (detached attached).elim
        waiting := fun _ => ⟨opened.1, opened.2.1, pending⟩
        synRcvd := nofun
        establish := nofun
        quit := fun isQuit => (core_status core).symm.trans (quit isQuit) }
    exact changed.of_core core
  | quit _ _ found _ core => cases isLater; exact closes found core
  | reset _ _ _ found _ _ _ _ core => cases isLater; exact closes found core
  | gone => cases isLater
  | create =>
    cases isLater
    exact
      { isLocal := rfl
        used := used
        peer := .inl rfl
        timer := nofun
        attached := nofun
        waiting := fun _ => ⟨rfl, rfl, nofun⟩
        synRcvd := nofun
        establish := nofun
        quit := quit }
  | accept pkt _ _ inside flag _ nonzero _ core =>
    cases isLater
    have peer : far.used pkt.stPktHeader.uiSrcSesId = true := by
      cases farOk.sent pkt inside with
      | syn _ _ used | synAck _ _ used | talk _ _ used => exact used
      | rst isRst => nomatch flag.symm.trans isRst
    have changed : SessionOk nearAfter far uiSesID
        (sesAccepted near.ctrl uiSesID pkt.stPktHeader) :=
      { isLocal := rfl
        used := used
        peer := .inr peer
        timer := fun _ => .inr rfl
        attached := nofun
        waiting := fun waiting => by rcases waiting with status | status <;> cases status
        synRcvd := fun _ => ⟨farOk.nonzero peer, fun connecter => absurd connecter (by
            change ¬ hasFlag 0 sesNodeFlagIsConnecter = true
            decide),
          fun mbuf isMbuf => (Option.mem_some_iff.mp isMbuf).symm⟩
        establish := nofun
        quit := fun isQuit => (core_status core).symm.trans (quit isQuit) }
    exact changed.of_core core
  | join before _ pkt _ found _ inside _ answers _ core =>
    cases isLater
    exact @opens { before with
        uiPeerSesID := pkt.stPktHeader.uiSrcSesId, uiCookie := pkt.stPktHeader.uiCookie }
      (prior found).isLocal (answers.src_used farOk inside) core
  | confirm _ _ _ found rcvd _ _ _ _ core =>
    cases isLater
    have peer := (prior found).peer.resolve_left ((prior found).synRcvd rcvd).1
    exact opens (prior found).isLocal peer core

include acts in
theorem Acts.after (isLater : later = some session) : nearAfter.ctrl.hNap uiSesID = some session := by
  rw [acts.sessions, update_self, isLater]

include acts in
theorem Acts.is_session (found : nearAfter.ctrl.hNap other = some session) {last : SesNode} (isLater : later = some last)
    (same : uiSesID = other) : last = session := by
  have stored := acts.after isLater
  rw [same, found] at stored
  exact (Option.some.inj stored).symm

theorem SideOk.ids_used (nearOk : SideOk near far) (inside : pkt ∈ near.ctrl.sent)
    (noRst : pkt.stPktHeader.usPktFlag ≠ sesPktFlagRst) :
    near.used pkt.stPktHeader.uiSrcSesId = true ∧
      (pkt.stPktHeader.uiDstSesId = 0 ∨ far.used pkt.stPktHeader.uiDstSesId = true) := by
  cases nearOk.sent pkt inside with
  | syn _ zero used => exact ⟨used, .inl zero⟩
  | synAck _ known used | talk _ known used => exact ⟨used, .inr known⟩
  | rst isRst => exact absurd isRst noRst

theorem FromAct.fields (fromAct : FromAct near far uiSesID later mbuf)
    (noRst : mbuf.stPktHeader.usPktFlag ≠ sesPktFlagRst) :
    mbuf.stPktHeader.uiSrcSesId = uiSesID ∧ ∃ session, later = some session ∧
      mbuf.stPktHeader.uiDstSesId = session.uiPeerSesID ∧
      mbuf.stPktHeader.uiCookie = session.uiCookie := by
  cases fromAct with
  | rst _ _ _ _ isRst => exact absurd (by rw [isRst]; rfl) noRst
  | syn session isLater isLocal isHead | synAck session isLater isLocal isHead =>
    rw [isHead]
    exact ⟨isLocal, session, isLater, rfl, rfl⟩
  | talk session _ isLater isLocal isHead =>
    rw [isHead]
    exact ⟨isLocal, session, isLater, rfl, rfl⟩

include act nearOk farOk in
theorem Act.kept {after : SesNode} (isLater : later = some after) :
    (∃ before, near.ctrl.hNap uiSesID = some before ∧ after.uiPeerSesID = before.uiPeerSesID ∧
      after.uiCookie = before.uiCookie) ∨
    ∀ pkt ∈ near.ctrl.sent, pkt.stPktHeader.uiSrcSesId = uiSesID →
      pkt.stPktHeader.uiDstSesId = 0 := by
  have silent (unused : near.used uiSesID = false) (nonzero : uiSesID ≠ 0) :
      ∀ pkt ∈ near.ctrl.sent, pkt.stPktHeader.uiSrcSesId = uiSesID →
        pkt.stPktHeader.uiDstSesId = 0 := by
    intro pkt inside src
    exact absurd src ((nearOk.unknown_of_unused farOk nonzero unused).mine pkt inside)
  have keeps {before last : SesNode} (found : near.ctrl.hNap uiSesID = some before)
      (core : after.core = last.core) (peer : last.uiPeerSesID = before.uiPeerSesID)
      (cookie : last.uiCookie = before.uiCookie) :
      ∃ before, near.ctrl.hNap uiSesID = some before ∧ after.uiPeerSesID = before.uiPeerSesID ∧
        after.uiCookie = before.uiCookie :=
    ⟨before, found, (core_peer core).trans peer, (core_cookie core).trans cookie⟩
  cases act with
  | idle | reject => exact .inl ⟨after, isLater, rfl, rfl⟩
  | same _ _ _ _ found core | connect _ _ _ _ _ found _ _ _ core
  | quit _ _ found _ core | confirm _ _ _ found _ _ _ _ _ core
  | reset _ _ _ found _ _ _ _ core =>
    cases isLater
    exact .inl (keeps found core rfl rfl)
  | gone => cases isLater
  | create unused nonzero | accept _ _ _ _ _ unused nonzero => exact .inr (silent unused nonzero)
  | join before _ _ _ found sending =>
    exact .inr fun pkt inside src =>
      ((nearOk.waiting uiSesID before found (.inr sending)).mine pkt inside src).2

theorem SideOk.waiting_found (nearOk : SideOk near far)
    (found : near.ctrl.hNap other = some session) (waiting : session.Waiting)
    (inside : pkt ∈ far.ctrl.sent) (dst : pkt.stPktHeader.uiDstSesId = other) :
    sesFindSesNode near.ctrl pkt.stPktHeader = some session := by
  have sending : session.uiStatus = .synSend := by
    rcases waiting with status | status
    · exact absurd dst ((nearOk.unknown other session found status).theirs pkt inside)
    · exact status
  have zero := ((nearOk.sessions other session found).waiting waiting).1
  refine sesFindSesNode_eq_some.mpr ⟨by rw [dst]; exact found, fun known => absurd zero known,
    fun opened => absurd sending opened, ?_⟩
  rw [sending]
  decide

include act in
theorem Act.waited {after : SesNode} (isLater : later = some after) (waiting : after.Waiting) :
    (∃ before, near.ctrl.hNap uiSesID = some before ∧ before.Waiting ∧
      (after.uiStatus = .init → before.uiStatus = .init)) ∨
    near.used uiSesID = false ∧ uiSesID ≠ 0 := by
  cases act with
  | idle | reject => exact .inl ⟨after, isLater, waiting, id⟩
  | same before _ _ timer found core =>
    cases isLater
    exact .inl ⟨before, found, (core_waiting core).mp waiting, (core_status core).symm.trans⟩
  | connect before _ _ _ _ found waited _ _ core =>
    cases isLater
    exact .inl ⟨before, found, waited, fun init => nomatch (core_status core).symm.trans init⟩
  | gone => cases isLater
  | create unused nonzero => exact .inr ⟨unused, nonzero⟩
  | quit _ _ _ _ core | reset _ _ _ _ _ _ _ _ core | accept _ _ _ _ _ _ _ _ core
  | join _ _ _ _ _ _ _ _ _ _ core | confirm _ _ _ _ _ _ _ _ _ core =>
    cases isLater
    rcases (core_waiting core).mp waiting with status | status <;> cases status

section

include acts nearOk farOk

theorem Acts.packet (inside : mbuf ∈ nearAfter.ctrl.sent) :
    mbuf ∈ near.ctrl.sent ∨ FromAct near far uiSesID later mbuf := by
  rw [acts.sent, mem_append] at inside
  exact inside.imp_right (acts.act.packet nearOk farOk)

section

variable (found : nearAfter.ctrl.hNap other = some session)

include found

theorem Acts.sessionOk : SessionOk nearAfter far other session := by
  have quit := acts.quit_closed nearOk found
  have used := acts.used_found found
  rcases acts.found found with ⟨rfl, isLater⟩ | ⟨-, stored⟩
  · exact acts.act.sessionOk nearOk farOk isLater used quit
  · exact (nearOk.sessions other session stored).mono used (fun _ => id) quit

theorem Acts.owns : OwnsPackets nearAfter other session := by
  intro pkt inside src noRst known
  rcases acts.packet nearOk farOk inside with old | new
  · rcases acts.found found with ⟨rfl, isLater⟩ | ⟨-, stored⟩
    · rcases acts.act.kept nearOk farOk isLater with ⟨before, stored, peer, cookie⟩ | silent
      · rw [peer, cookie]
        exact nearOk.owns other before stored pkt old src noRst known
      · exact absurd (silent pkt old src) known
    · exact nearOk.owns other session stored pkt old src noRst known
  · obtain ⟨isSrc, _, isLater, fields⟩ := new.fields noRst
    rw [src] at isSrc
    rw [isSrc, acts.after isLater] at found
    cases found
    exact fields

theorem Acts.waiting_mine (waiting : session.Waiting) (waitingOk : WaitingOk near far other)
    (finds : ∀ pkt ∈ far.ctrl.sent, pkt.stPktHeader.uiDstSesId = other →
      sesFindSesNode near.ctrl pkt.stPktHeader ≠ none) : WaitingOk nearAfter far other where
  mine := by
    intro pkt inside src
    rcases acts.packet nearOk farOk inside with old | new
    · exact waitingOk.mine pkt old src
    have zero := ((acts.sessionOk nearOk farOk found).waiting waiting).1
    cases new with
    | rst answered sent missing noRst isRst =>
      rw [isRst] at src
      exact absurd missing (finds answered sent src)
    | syn last isLater isLocal isSyn =>
      rw [isSyn] at src ⊢
      have same := acts.is_session found isLater (isLocal.symm.trans src)
      rw [same]
      exact ⟨rfl, zero⟩
    | synAck last isLater isLocal isAnswer rcvd =>
      rw [isAnswer] at src
      have same := acts.is_session found isLater (isLocal.symm.trans src)
      rw [same] at rcvd
      rcases waiting with status | status <;> nomatch rcvd.symm.trans status
    | talk last usPktFlag isLater isLocal isHead talks nonzero =>
      rw [isHead] at src
      have same := acts.is_session found isLater (isLocal.symm.trans src)
      rw [same] at nonzero
      exact absurd zero nonzero
  theirs := waitingOk.theirs
  peers := waitingOk.peers

theorem Acts.waiting (waiting : session.Waiting) : WaitingOk nearAfter far other := by
  have from_old {before : SesNode} (stored : near.ctrl.hNap other = some before)
      (waited : before.Waiting) : WaitingOk nearAfter far other := by
    refine acts.waiting_mine nearOk farOk found waiting (nearOk.waiting other before stored waited)
      fun pkt inside dst => ?_
    rw [nearOk.waiting_found stored waited inside dst]
    exact Option.some_ne_none _
  rcases acts.found found with ⟨rfl, isLater⟩ | ⟨-, stored⟩
  · rcases acts.act.waited isLater waiting with ⟨_, stored, waited, -⟩ | ⟨unused, nonzero⟩
    · exact from_old stored waited
    have unknown := nearOk.unknown_of_unused farOk nonzero unused
    exact acts.waiting_mine nearOk farOk found waiting unknown.waitingOk
      fun pkt inside dst => absurd dst (unknown.theirs pkt inside)
  · exact from_old stored waiting

theorem Acts.unknown (init : session.uiStatus = .init) : Unknown nearAfter far other := by
  have before : Unknown near far other := by
    rcases acts.found found with ⟨rfl, isLater⟩ | ⟨-, stored⟩
    · rcases acts.act.waited isLater (.inl init) with ⟨before, stored, -, status⟩ | ⟨unused, nonzero⟩
      · exact nearOk.unknown other before stored (status init)
      · exact nearOk.unknown_of_unused farOk nonzero unused
    · exact nearOk.unknown other session stored init
  refine ⟨fun pkt inside src => ?_, before.theirs, before.peers⟩
  rcases acts.packet nearOk farOk inside with old | new
  · exact before.mine pkt old src
  cases new with
  | rst answered sent _ _ isRst =>
    rw [isRst] at src
    exact before.theirs answered sent src
  | syn _ isLater isLocal isHead status | synAck _ isLater isLocal isHead status =>
    rw [isHead] at src
    rw [acts.is_session found isLater (isLocal.symm.trans src), init] at status
    cases status
  | talk _ _ isLater isLocal isHead _ nonzero =>
    rw [isHead] at src
    rw [acts.is_session found isLater (isLocal.symm.trans src)] at nonzero
    exact nonzero ((acts.sessionOk nearOk farOk found).waiting (.inl init)).1

end

theorem Acts.sentOk (fromAct : FromAct near far uiSesID later mbuf) :
    SentOk nearAfter far mbuf.stPktHeader := by
  have ended {session : SesNode} (isLater : later = some session) :=
    acts.sessionOk nearOk farOk (acts.after isLater)
  cases fromAct with
  | rst _ sent _ noRst isRst =>
    rw [isRst]
    obtain ⟨src, dst⟩ := farOk.ids_used sent noRst
    exact .rst rfl src (dst.imp_right acts.used_mono)
  | syn session isLater _ isSyn sending =>
    have sessionOk := ended isLater
    rw [isSyn]
    exact .syn rfl (sessionOk.waiting (.inr sending)).1 sessionOk.used_local
  | synAck session isLater _ isAnswer rcvd =>
    have sessionOk := ended isLater
    rw [isAnswer]
    exact .synAck rfl (sessionOk.peer.resolve_left (sessionOk.synRcvd rcvd).1) sessionOk.used_local
  | talk session _ isLater _ isHead talks nonzero =>
    have sessionOk := ended isLater
    refine .talk talks ?_ ?_
    · rw [isHead]
      exact sessionOk.peer.resolve_left nonzero
    · rw [isHead]
      exact sessionOk.used_local

end

end

section

variable (half : Half near uiSesID uiPeerSesID uiCookie status)
  (beyond : Half far uiPeerSesID uiSesID uiCookie farStatus)

include half beyond nearOk farOk

theorem Half.finds (inside : pkt ∈ far.ctrl.sent)
    (noRst : pkt.stPktHeader.usPktFlag ≠ sesPktFlagRst)
    (src : pkt.stPktHeader.uiSrcSesId = uiPeerSesID) (dst : pkt.stPktHeader.uiDstSesId = uiSesID) :
    sesFindSesNode near.ctrl pkt.stPktHeader ≠ none := by
  obtain ⟨session, found, isStatus, isPeer, isCookie⟩ := half.session
  obtain ⟨peer, peerFound, -, -, peerCookie⟩ := beyond.session
  have nonzero := (nearOk.localsOk uiSesID session found).2
  have cookie : pkt.stPktHeader.uiCookie = uiCookie := by
    rw [← peerCookie]
    refine (farOk.owns uiPeerSesID peer peerFound pkt inside src noRst ?_).2
    rw [dst]
    exact nonzero
  have finds : sesFindSesNode near.ctrl pkt.stPktHeader = some session := by
    apply sesFindSesNode_eq_some.mpr
    refine ⟨by rw [dst]; exact found, fun _ => isPeer.trans src.symm,
      fun _ => isCookie.trans cookie.symm, ?_⟩
    rw [isStatus]
    rcases half.alive with alive | alive <;> rw [alive] <;> decide
  rw [finds]
  exact Option.some_ne_none _

variable (acts : Acts near far call other packets later nearAfter)

include acts in
theorem Half.quiet_after :
    ∀ pkt ∈ nearAfter.ctrl.sent, pkt.stPktHeader.usPktFlag = sesPktFlagRst →
      pkt.stPktHeader.uiSrcSesId = uiSesID → pkt.stPktHeader.uiDstSesId ≠ uiPeerSesID := by
  intro pkt inside isRst src dst
  rcases acts.packet nearOk farOk inside with old | new
  · exact half.quiet pkt old isRst src dst
  cases new with
  | rst answered sent missing noRst isAnswer =>
    rw [isAnswer] at src dst
    exact half.finds nearOk farOk beyond sent noRst dst src missing
  | syn _ _ _ isHead =>
    rw [isHead] at isRst
    have flag : sesPktFlagSyn = sesPktFlagRst := isRst
    exact absurd flag (by decide)
  | synAck _ _ _ isHead =>
    rw [isHead] at isRst
    have flag : sesPktFlagSyn ||| sesPktFlagAck = sesPktFlagRst := isRst
    exact absurd flag (by decide)
  | talk _ _ _ _ _ talks => rcases talks with flag | flag | flag <;> nomatch isRst.symm.trans flag

include act in
theorem Half.session_after :
    call.quits near.ctrl uiSesID = true ∨ ∃ after, later = some after ∧
      (after.uiStatus = status ∨ after.uiStatus = .establish) ∧
      after.uiPeerSesID = uiPeerSesID ∧ after.uiCookie = uiCookie := by
  obtain ⟨session, stored, isStatus, isPeer, isCookie⟩ := half.session
  have same {before : SesNode} (found : near.ctrl.hNap uiSesID = some before) : before = session :=
    Option.some.inj (found.symm.trans stored)
  have used := nearOk.known stored
  have noWait {before : SesNode} (found : near.ctrl.hNap uiSesID = some before)
      (waits : before.Waiting) : False := by
    rw [same found, SesNode.Waiting, isStatus] at waits
    rcases half.alive with alive | alive <;> rw [alive] at waits <;>
      rcases waits with wait | wait <;> cases wait
  cases act with
  | idle | reject => exact .inr ⟨session, stored, .inl isStatus, isPeer, isCookie⟩
  | same before after packets timer found core =>
    rw [same found] at core
    exact .inr ⟨after, rfl, .inl ((core_status core).trans isStatus),
      (core_peer core).trans isPeer, (core_cookie core).trans isCookie⟩
  | connect before _ _ _ _ found waits => exact (noWait found waits).elim
  | quit _ _ _ quits | gone quits => exact .inl quits
  | create unused | accept _ _ _ _ _ unused =>
    rw [unused] at used
    cases used
  | join before _ _ _ found sending => exact (noWait found (.inr sending)).elim
  | confirm before after pkt found rcvd inside flag dst src core =>
    rw [same found] at core
    exact .inr ⟨after, rfl, .inr (core_status core), (core_peer core).trans isPeer,
      (core_cookie core).trans isCookie⟩
  | reset before after pkt found inside flag dst peer core =>
    rw [same found, isPeer] at peer
    obtain ⟨last, farStored, -⟩ := beyond.session
    have nonzero := (farOk.localsOk uiPeerSesID last farStored).2
    exact absurd dst (beyond.quiet pkt inside flag (peer nonzero).symm)

include acts in
theorem Half.step :
    nearAfter.quit uiSesID = true ∨ ∃ after, (after = status ∨ after = .establish) ∧
      Half nearAfter uiSesID uiPeerSesID uiCookie after := by
  have quiet := half.quiet_after nearOk farOk beyond acts
  by_cases same : uiSesID = other
  · rw [← same] at acts
    rcases half.session_after acts.act nearOk farOk beyond with quits | ⟨after, isLater, kept, fields⟩
    · exact .inl (acts.quits quits)
    refine .inr ⟨after.uiStatus, kept, ?_, ⟨after, acts.after isLater, rfl, fields⟩, quiet⟩
    rcases kept with isStatus | established
    · rw [isStatus]
      exact half.alive
    · exact .inr established
  · obtain ⟨session, stored, fields⟩ := half.session
    refine .inr ⟨status, .inl rfl, half.alive, ⟨session, ?_, fields⟩, quiet⟩
    rw [acts.sessions, update_of_ne same]
    exact stored

end

include act nearOk in
theorem Act.linked {after : SesNode} (isLater : later = some after) (connecter : after.Connecter)
    (established : after.uiStatus = .establish) :
    (∃ before, near.ctrl.hNap uiSesID = some before ∧ before.Connecter ∧
      before.uiStatus = .establish ∧ before.uiPeerSesID = after.uiPeerSesID) ∨
    ∃ pkt ∈ far.ctrl.sent, Answers far uiSesID pkt.stPktHeader ∧
      pkt.stPktHeader.uiDstSesId = uiSesID ∧
      after.uiPeerSesID = pkt.stPktHeader.uiSrcSesId ∧
      after.uiCookie = pkt.stPktHeader.uiCookie ∧ WaitingOk near far uiSesID ∧
      ∀ mbuf ∈ packets, mbuf.stPktHeader.usPktFlag = sesPktFlagAck := by
  have ended {last : SesNode} (core : after.core = last.core) : last.uiStatus = .establish :=
    (core_status core).symm.trans established
  cases act with
  | idle | reject => exact .inl ⟨after, isLater, connecter, established, rfl⟩
  | same before _ _ timer found core =>
    cases isLater
    exact .inl ⟨before, found, (core_connecter core).mp connecter,
      @ended { before with hResendTimer := timer } core, (core_peer core).symm⟩
  | gone => cases isLater
  | create =>
    cases isLater
    cases established
  | connect _ _ _ _ _ _ _ _ _ core | quit _ _ _ _ core | reset _ _ _ _ _ _ _ _ core
  | accept _ _ _ _ _ _ _ _ core =>
    cases isLater
    exact absurd (ended core) (by intro status; cases status)
  | join before _ pkt _ found sending inside dst answers all core =>
    cases isLater
    refine .inr ⟨pkt, inside, answers, dst, core_peer core, core_cookie core,
      nearOk.waiting uiSesID before found (.inr sending), fun mbuf answer => ?_⟩
    rw [all mbuf answer]
    rfl
  | confirm before _ _ found rcvd _ _ _ _ core =>
    cases isLater
    have accepter := ((nearOk.sessions uiSesID before found).synRcvd rcvd).2.1
    exact absurd ((core_connecter core).mp connecter) accepter

section

variable (acts : Acts near far call uiSesID packets later nearAfter)

include acts nearOk farOk

theorem Linked.step (linked : Linked near far other uiPeerSesID) (found : nearAfter.ctrl.hNap other = some session)
    (established : session.uiStatus = .establish) : Linked nearAfter far other uiPeerSesID := by
  obtain ⟨uiCookie, status, half, beyond⟩ := linked
  rcases half.step nearOk farOk beyond acts with quit | ⟨_, kept, half⟩
  · have closed := acts.quit_closed nearOk found quit
    nomatch established.symm.trans closed
  rw [or_self] at kept
  rw [kept] at half
  exact ⟨uiCookie, status, half, beyond⟩

theorem Acts.linked (found : nearAfter.ctrl.hNap other = some session)
    (connecter : session.Connecter) (established : session.uiStatus = .establish) :
    far.quit session.uiPeerSesID = true ∨ Linked nearAfter far other session.uiPeerSesID := by
  have keep (linked : far.quit session.uiPeerSesID = true ∨
      Linked near far other session.uiPeerSesID) :=
    linked.imp_right fun linked => linked.step nearOk farOk acts found established
  rcases acts.found found with ⟨rfl, isLater⟩ | ⟨-, stored⟩
  · rcases acts.act.linked nearOk isLater connecter established with
      ⟨before, stored, wasConnecter, wasEstablished, peer⟩ |
      ⟨pkt, inside, answers, _, isPeer, isCookie, waitingOk, acks⟩
    · apply keep
      rw [← peer]
      exact nearOk.linked other before stored wasConnecter wasEstablished
    rw [isPeer]
    refine answers.2.imp_right fun ⟨peer, peerFound, rcvd, peerPeer, peerCookie⟩ => ?_
    refine ⟨pkt.stPktHeader.uiCookie, .synRcvd, ⟨.inr rfl,
      ⟨session, found, established, isPeer, isCookie⟩, ?_⟩, ⟨.inl rfl,
      ⟨peer, peerFound, rcvd, peerPeer, peerCookie⟩, ?_⟩⟩
    · intro mbuf sent isRst src
      rw [acts.sent, mem_append] at sent
      rcases sent with old | new
      · exact absurd (isRst.symm.trans (waitingOk.mine mbuf old src).1) (by decide)
      · exact absurd (isRst.symm.trans (acks mbuf new)) (by decide)
    intro mbuf sent isRst src dst
    have used := answers.src_used farOk inside
    rcases waitingOk.theirs mbuf sent dst with ⟨-, zero⟩ | other
    · exact farOk.nonzero used (src.symm.trans zero)
    · nomatch isRst.symm.trans other.1
  · exact keep (nearOk.linked other session stored connecter established)

theorem Acts.sideOk : SideOk nearAfter far where
  unused := by
    rw [acts.used, nearOk.unused]
    cases found : nearAfter.ctrl.hNap 0 with
    | none => rfl
    | some session =>
      rcases acts.found found with ⟨rfl, isLater⟩ | ⟨-, stored⟩
      · exact absurd rfl (acts.act.nonzero nearOk isLater)
      · exact absurd rfl (nearOk.localsOk 0 session stored).2
  quitUsed other quit := by
    rw [acts.quit, Bool.or_eq_true] at quit
    rcases quit with quit | quits
    · exact acts.used_mono (nearOk.quitUsed other quit)
    cases found : near.ctrl.hNap other with
    | none =>
      have there := quits_isSome quits
      rw [found] at there
      cases there
    | some => exact acts.used_mono (nearOk.known found)
  sent pkt inside := by
    rcases acts.packet nearOk farOk inside with old | new
    · cases nearOk.sent pkt old with
      | syn flag zero used => exact .syn flag zero (acts.used_mono used)
      | synAck flag known used => exact .synAck flag known (acts.used_mono used)
      | talk talks known used => exact .talk talks known (acts.used_mono used)
      | rst flag known used => exact .rst flag known (used.imp_right acts.used_mono)
    · exact acts.sentOk nearOk farOk new
  sessions _ _ found := acts.sessionOk nearOk farOk found
  owns _ _ found := acts.owns nearOk farOk found
  waiting _ _ found waiting := acts.waiting nearOk farOk found waiting
  unknown _ _ found init := acts.unknown nearOk farOk found init
  linked _ _ found connecter established := acts.linked nearOk farOk found connecter established

omit farOk in
theorem Acts.waiting_peers (nonzero : other ≠ 0) (waitingOk : WaitingOk far near other)
    (found : nearAfter.ctrl.hNap uiPeerSesID = some session)
    (isPeer : session.uiPeerSesID = other) :
    (session.uiStatus = .synRcvd ∨ session.uiStatus = .closed) ∧ session.attached = false := by
  rcases acts.found found with ⟨rfl, isLater⟩ | ⟨-, stored⟩
  · have ended {last : SesNode} (core : session.core = last.core)
        (ok : (last.uiStatus = .synRcvd ∨ last.uiStatus = .closed) ∧ last.attached = false) :
        (session.uiStatus = .synRcvd ∨ session.uiStatus = .closed) ∧ session.attached = false := by
      rw [core_status core, core_attached core]
      exact ok
    have peers {before : SesNode} (stored : near.ctrl.hNap uiPeerSesID = some before)
        (same : before.uiPeerSesID = other) := waitingOk.peers uiPeerSesID before stored same
    cases acts.act with
    | idle | reject => exact peers isLater isPeer
    | same before _ _ timer stored core =>
      cases isLater
      rw [core_peer core] at isPeer
      exact @ended { before with hResendTimer := timer } core (@peers before stored isPeer)
    | connect before _ _ _ _ stored waiting _ _ core =>
      cases isLater
      rw [core_peer core] at isPeer
      have zero := ((nearOk.sessions uiPeerSesID before stored).waiting waiting).1
      exact absurd (isPeer.symm.trans zero) nonzero
    | quit _ _ stored _ core | reset _ _ _ stored _ _ _ _ core =>
      cases isLater
      rw [core_peer core] at isPeer
      exact ended core ⟨.inr rfl, (peers stored isPeer).2⟩
    | gone => cases isLater
    | create =>
      cases isLater
      exact absurd isPeer.symm nonzero
    | accept _ _ _ _ _ _ _ _ core =>
      cases isLater
      exact ended core ⟨.inl rfl, rfl⟩
    | join _ _ pkt _ _ _ inside _ answers _ core =>
      cases isLater
      rw [core_peer core] at isPeer
      have isSyn := (waitingOk.mine pkt inside isPeer).1
      nomatch answers.1.symm.trans isSyn
    | confirm _ _ pkt _ _ inside flag _ src core =>
      cases isLater
      rw [core_peer core] at isPeer
      have isSyn := (waitingOk.mine pkt inside (src.trans isPeer)).1
      nomatch flag.symm.trans isSyn
  · exact waitingOk.peers uiPeerSesID session stored isPeer

omit farOk in
theorem Acts.answers (waitingOk : WaitingOk far near other)
    (answers : Answers near other pkt.stPktHeader) : Answers nearAfter other pkt.stPktHeader := by
  refine ⟨answers.1, ?_⟩
  rcases answers.2 with quit | ⟨peer, found, rcvd, isPeer, isCookie⟩
  · exact .inl (acts.quit_mono quit)
  have stays (same : nearAfter.ctrl.hNap pkt.stPktHeader.uiSrcSesId = some peer) :
      nearAfter.quit pkt.stPktHeader.uiSrcSesId = true ∨
        ∃ peer, nearAfter.ctrl.hNap pkt.stPktHeader.uiSrcSesId = some peer ∧
          peer.uiStatus = .synRcvd ∧ peer.uiPeerSesID = other ∧
          peer.uiCookie = pkt.stPktHeader.uiCookie :=
    .inr ⟨peer, same, rcvd, isPeer, isCookie⟩
  by_cases same : pkt.stPktHeader.uiSrcSesId = uiSesID
  · rw [same] at found ⊢
    have isBefore {before : SesNode} (stored : near.ctrl.hNap uiSesID = some before) :
        before = peer := Option.some.inj (stored.symm.trans found)
    have used := nearOk.known found
    have known := ((nearOk.sessions uiSesID peer found).synRcvd rcvd).1
    rw [same] at stays
    have after := acts.sessions
    cases acts.act with
    | idle | reject => exact stays (by rw [after, update_self]; exact found)
    | same _ last _ _ stored core =>
      cases isBefore stored
      refine .inr ⟨last, acts.after rfl, ?_, ?_, ?_⟩
      · exact (core_status core).trans rcvd
      · exact (core_peer core).trans isPeer
      · exact (core_cookie core).trans isCookie
    | connect _ _ _ _ _ stored waiting =>
      cases isBefore stored
      rcases waiting with status | status <;>
        nomatch rcvd.symm.trans status
    | quit _ _ _ quits | gone quits => exact .inl (acts.quits quits)
    | create unused | accept _ _ _ _ _ unused =>
      rw [unused] at used
      cases used
    | join _ _ _ _ stored sending =>
      cases isBefore stored
      nomatch rcvd.symm.trans sending
    | confirm _ _ answered stored _ inside flag _ src =>
      cases isBefore stored
      have isSyn := (waitingOk.mine answered inside (src.trans isPeer)).1
      nomatch flag.symm.trans isSyn
    | reset _ _ answered stored inside flag _ isSrc =>
      cases isBefore stored
      have isSyn := (waitingOk.mine answered inside ((isSrc known).symm.trans isPeer)).1
      nomatch flag.symm.trans isSyn
  · apply stays
    rw [acts.sessions, update_of_ne same]
    exact found

theorem Acts.waiting_beyond (used : far.used other = true)
    (waitingOk : WaitingOk far near other) : WaitingOk far nearAfter other where
  mine := waitingOk.mine
  theirs mbuf inside dst := by
    have nonzero := farOk.nonzero used
    rcases acts.packet nearOk farOk inside with old | new
    · exact (waitingOk.theirs mbuf old dst).imp_right (acts.answers nearOk waitingOk)
    cases new with
    | rst answered sent missing noRst isRst =>
      rw [isRst] at dst ⊢
      exact .inl ⟨rfl, (waitingOk.mine answered sent dst).2⟩
    | syn session isLater isLocal isSyn sending =>
      rw [isSyn] at dst
      have zero := ((acts.sessionOk nearOk farOk (acts.after isLater)).waiting (.inr sending)).1
      exact absurd (dst.symm.trans zero) nonzero
    | synAck session isLater isLocal isAnswer rcvd =>
      rw [isAnswer] at dst ⊢
      refine .inr ⟨rfl, .inr ⟨session, ?_, rcvd, dst, rfl⟩⟩
      change nearAfter.ctrl.hNap session.uiLocalSesID = some session
      rw [isLocal]
      exact acts.after isLater
    | talk session usPktFlag isLater isLocal isHead talks known opened =>
      rw [isHead] at dst
      have ⟨status, detached⟩ :=
        acts.waiting_peers nearOk nonzero waitingOk (acts.after isLater) dst
      rcases opened with established | attached | ⟨answered, sent, src, isDst⟩
      · rw [established] at status
        rcases status with status | status <;> cases status
      · nomatch attached.symm.trans detached
      · have zero := (waitingOk.mine answered sent (src.trans dst)).2
        exact absurd (isDst.symm.trans zero) (acts.act.nonzero nearOk isLater)
  peers _ _ found isPeer := acts.waiting_peers nearOk (farOk.nonzero used) waitingOk found isPeer

theorem Acts.unknown_beyond (used : far.used other = true)
    (unknown : Unknown far near other) : Unknown far nearAfter other := by
  have nonzero := farOk.nonzero used
  have peers (uiPeerSesID : UINT) (session : SesNode)
      (found : nearAfter.ctrl.hNap uiPeerSesID = some session) : session.uiPeerSesID ≠ other := by
    rcases acts.found found with ⟨rfl, isLater⟩ | ⟨-, stored⟩
    · have ended {before last : SesNode} (stored : near.ctrl.hNap uiPeerSesID = some before)
          (core : session.core = last.core) (same : last.uiPeerSesID = before.uiPeerSesID) :
          session.uiPeerSesID ≠ other := by
        rw [core_peer core, same]
        exact unknown.peers uiPeerSesID before stored
      cases acts.act with
      | idle | reject => exact unknown.peers uiPeerSesID session isLater
      | same _ _ _ _ stored core | connect _ _ _ _ _ stored _ _ _ core
      | quit _ _ stored _ core | reset _ _ _ stored _ _ _ _ core
      | confirm _ _ _ stored _ _ _ _ _ core =>
        cases isLater
        exact ended stored core rfl
      | gone => cases isLater
      | create =>
        cases isLater
        exact nonzero.symm
      | accept pkt _ _ inside _ _ _ _ core | join _ _ pkt _ _ _ inside _ _ _ core =>
        cases isLater
        rw [core_peer core]
        exact unknown.mine pkt inside
    · exact unknown.peers uiPeerSesID session stored
  refine ⟨unknown.mine, fun mbuf inside dst => ?_, peers⟩
  rcases acts.packet nearOk farOk inside with old | new
  · exact unknown.theirs mbuf old dst
  cases new with
  | rst answered sent _ _ isRst =>
    rw [isRst] at dst
    exact unknown.mine answered sent dst
  | syn session isLater _ isHead | synAck session isLater _ isHead
  | talk session _ isLater _ isHead =>
    rw [isHead] at dst
    exact peers uiSesID session (acts.after isLater) dst

theorem Acts.linked_beyond (linked : Linked far near other uiPeerSesID) :
    nearAfter.quit uiPeerSesID = true ∨ Linked far nearAfter other uiPeerSesID := by
  obtain ⟨uiCookie, _, half, beyond⟩ := linked
  refine (beyond.step nearOk farOk half acts).imp_right ?_
  rintro ⟨after, -, later⟩
  exact ⟨uiCookie, after, half, later⟩

theorem Acts.beyond : SideOk far nearAfter where
  unused := farOk.unused
  quitUsed := farOk.quitUsed
  sent pkt inside := by
    cases farOk.sent pkt inside with
    | syn flag zero used => exact .syn flag zero used
    | synAck flag known used => exact .synAck flag (acts.used_mono known) used
    | talk talks known used => exact .talk talks (acts.used_mono known) used
    | rst flag known used => exact .rst flag (acts.used_mono known) used
  sessions other session found :=
    have sessionOk := farOk.sessions other session found
    sessionOk.mono sessionOk.used (fun _ => acts.used_mono) sessionOk.quit
  owns := farOk.owns
  waiting other session found waiting :=
    acts.waiting_beyond nearOk farOk (farOk.known found)
      (farOk.waiting other session found waiting)
  unknown other session found init :=
    acts.unknown_beyond nearOk farOk (farOk.known found)
      (farOk.unknown other session found init)
  linked other session found connecter established := by
    rcases farOk.linked other session found connecter established with quit | linked
    · exact .inl (acts.quit_mono quit)
    · exact acts.linked_beyond nearOk farOk linked

end

variable {pair : SesEndpoint → SesSide} {endpoint : SesEndpoint}
  {label : SesEndpoint × SesOutcome × SesCall}

theorem SesEndpoint.other_other : endpoint.other.other = endpoint := by
  cases endpoint <;> rfl

theorem SesEndpoint.eq_or_other (first : SesEndpoint) :
    endpoint = first ∨ endpoint = first.other := by
  cases endpoint <;> cases first <;> decide

def PairOk (pair : SesEndpoint → SesSide) : Prop :=
  ∀ endpoint, SideOk (pair endpoint) (pair endpoint.other)

theorem PairOk.acts (pairOk : PairOk pair) (orderly : SesOrderly pair label)
    (enabled : SesPairEnabled pair label) :
    ∃ uiSesID packets later, Acts (pair label.1) (pair label.1.other) label.2.2 uiSesID packets
      later (sesPairNext pair label label.1) := by
  have farOk := pairOk label.1.other
  rw [SesEndpoint.other_other] at farOk
  rw [sesPairNext, update_self]
  refine sesPair_acts (pairOk label.1) farOk enabled.2 ?_ enabled.1 orderly.1 ?_
  · intro pkt arrives
    have inTime := orderly.2
    rw [arrives] at inTime
    exact inTime
  intro uiSesID session found isConnect
  have connects := orderly.2
  rw [isConnect] at connects
  exact connects session found

theorem sesPairNext_other : sesPairNext pair label label.1.other = pair label.1.other := by
  refine update_of_ne ?_ _ _
  cases label.1 <;> decide

theorem PairOk.next (pairOk : PairOk pair) (orderly : SesOrderly pair label)
    (enabled : SesPairEnabled pair label) : PairOk (sesPairNext pair label) := by
  obtain ⟨_, _, _, acts⟩ := pairOk.acts orderly enabled
  have nearOk := pairOk label.1
  have farOk := pairOk label.1.other
  rw [SesEndpoint.other_other] at farOk
  intro endpoint
  rcases endpoint.eq_or_other label.1 with same | differs
  · rw [same, sesPairNext_other]
    exact acts.sideOk nearOk farOk
  · rw [differs, SesEndpoint.other_other, sesPairNext_other]
    exact acts.beyond nearOk farOk

theorem sideOk_start : SideOk sesSideStart sesSideStart where
  unused := rfl
  quitUsed _ quit := (nomatch quit)
  sent _ inside := (nomatch inside)
  sessions _ _ found := (nomatch found)
  owns _ _ found := (nomatch found)
  waiting _ _ found := (nomatch found)
  unknown _ _ found := (nomatch found)
  linked _ _ found := (nomatch found)

theorem sesPair_ok (reached : sesPair.ReachableWhen SesOrderly pair) : PairOk pair := by
  apply reached.invariant
  · intro first isFirst
    cases isFirst
    exact fun _ => sideOk_start
  · intro state label next pairOk orderly stepped
    rw [stepped.2]
    exact pairOk.next orderly stepped.1

/-- A session `uiSesID` of `near` and a session `uiPeerSesID` of `far` that are
connected: the first is in `ESTABLISH`, the second in `status`, and no `RST` of
`near` reaches the second. -/
structure Joined (near far : SesSide) (uiSesID uiPeerSesID : UINT) (status : SesStatus) : Prop where
  session : ∃ session, near.ctrl.hNap uiSesID = some session ∧ session.uiStatus = .establish ∧
    session.uiPeerSesID = uiPeerSesID
  peer : ∃ peer, far.ctrl.hNap uiPeerSesID = some peer ∧ peer.uiStatus = status ∧
    peer.uiPeerSesID = uiSesID
  spared : ∀ pkt ∈ near.ctrl.sent, pkt.stPktHeader.has sesPktFlagRst = true →
    ∀ peer ∈ sesFindSesNode far.ctrl pkt.stPktHeader, peer.uiLocalSesID ≠ uiPeerSesID

theorem SentOk.rst_of_has {head : SesPktHead} (sentOk : SentOk near far head)
    (isRst : head.has sesPktFlagRst = true) : head.usPktFlag = sesPktFlagRst := by
  have other {usPktFlag : USHORT} (flag : head.usPktFlag = usPktFlag)
      (without : usPktFlag &&& sesPktFlagRst = 0) : head.usPktFlag = sesPktFlagRst := by
    rw [SesPktHead.has, flag, without] at isRst
    cases isRst
  cases sentOk with
  | syn flag | synAck flag => exact other flag (by decide)
  | talk talks => rcases talks with flag | flag | flag <;> exact other flag (by decide)
  | rst flag => exact flag

theorem Half.joined (half : Half near uiSesID uiPeerSesID uiCookie .establish)
    (beyond : Half far uiPeerSesID uiSesID uiCookie status) (nearOk : SideOk near far)
    (farOk : SideOk far near) : Joined near far uiSesID uiPeerSesID status := by
  obtain ⟨session, found, established, isPeer, -⟩ := half.session
  obtain ⟨peer, peerFound, isStatus, peerPeer, -⟩ := beyond.session
  refine ⟨⟨session, found, established, isPeer⟩, ⟨peer, peerFound, isStatus, peerPeer⟩,
    fun pkt inside isRst taker finds isLocal => ?_⟩
  obtain ⟨stored, src, -⟩ := sesFindSesNode_eq_some.mp finds
  have dst : pkt.stPktHeader.uiDstSesId = uiPeerSesID := by
    rw [← isLocal]
    exact (farOk.localsOk _ taker stored).1.symm
  rw [dst, peerFound] at stored
  cases stored
  have nonzero := (nearOk.localsOk uiSesID session found).2
  rw [peerPeer] at src
  exact half.quiet pkt inside ((nearOk.sent pkt inside).rst_of_has isRst) (src nonzero).symm dst

theorem Linked.lasts {first : SesEndpoint → SesSide} (firstOk : PairOk first)
    (reached : (sesPairFrom first).ReachableWhen SesOrderly pair)
    (half : Half (first endpoint) uiSesID uiPeerSesID uiCookie .establish)
    (beyond : Half (first endpoint.other) uiPeerSesID uiSesID uiCookie status) :
    PairOk pair ∧ ((pair endpoint).quit uiSesID = true ∨
      (pair endpoint.other).quit uiPeerSesID = true ∨
      Half (pair endpoint) uiSesID uiPeerSesID uiCookie .establish ∧
        ∃ after, (after = status ∨ after = .establish) ∧
          Half (pair endpoint.other) uiPeerSesID uiSesID uiCookie after) := by
  apply reached.invariant
  · intro state isFirst
    cases isFirst
    exact ⟨firstOk, .inr (.inr ⟨half, status, .inl rfl, beyond⟩)⟩
  intro state label next ⟨pairOk, lasts⟩ orderly ⟨enabled, isNext⟩
  rw [isNext]
  refine ⟨pairOk.next orderly enabled, ?_⟩
  obtain ⟨_, _, _, acts⟩ := pairOk.acts orderly enabled
  have nearOk := pairOk label.1
  have farOk := pairOk label.1.other
  rw [SesEndpoint.other_other] at farOk
  rcases endpoint.eq_or_other label.1 with same | differs
  · rw [same] at lasts ⊢
    rw [sesPairNext_other]
    rcases lasts with quit | quit | ⟨half, after, kept, beyond⟩
    · exact .inl (acts.quit_mono quit)
    · exact .inr (.inl quit)
    rcases half.step nearOk farOk beyond acts with quit | ⟨_, isOther, half⟩
    · exact .inl quit
    rw [or_self] at isOther
    rw [isOther] at half
    exact .inr (.inr ⟨half, after, kept, beyond⟩)
  rw [differs, SesEndpoint.other_other] at lasts ⊢
  rw [sesPairNext_other]
  rcases lasts with quit | quit | ⟨half, _, kept, beyond⟩
  · exact .inl quit
  · exact .inr (.inl (acts.quit_mono quit))
  rcases beyond.step nearOk farOk half acts with quit | ⟨other, isOther, beyond⟩
  · exact .inr (.inl quit)
  refine .inr (.inr ⟨half, other, ?_, beyond⟩)
  rcases isOther with same | established
  · rw [same]
    exact kept
  · exact .inr established

/-- In orderly runs a connecter in `ESTABLISH` is connected to a session that waits
for its `ACK` or is in `ESTABLISH` too, and this lasts until one side quits. -/
theorem sesPair_joined {first : SesEndpoint → SesSide}
    (firstReached : sesPair.ReachableWhen SesOrderly first)
    (found : (first endpoint).ctrl.hNap uiSesID = some session) (connecter : session.Connecter)
    (established : session.uiStatus = .establish)
    (reached : (sesPairFrom first).ReachableWhen SesOrderly pair) :
    (pair endpoint).quit uiSesID = true ∨
      (pair endpoint.other).quit session.uiPeerSesID = true ∨
      ∃ peer status,
        (first endpoint.other).ctrl.hNap session.uiPeerSesID = some peer ∧
        (peer.uiStatus = .synRcvd ∨ peer.uiStatus = .establish) ∧
        (status = peer.uiStatus ∨ status = .establish) ∧
        Joined (pair endpoint) (pair endpoint.other) uiSesID session.uiPeerSesID status := by
  have firstOk := sesPair_ok firstReached
  rcases (firstOk endpoint).linked uiSesID session found connecter established with
    quit | ⟨_, _, half, beyond⟩
  · refine .inr (.inl ?_)
    apply reached.invariant
    · intro state isFirst
      cases isFirst
      exact quit
    intro state label next quit _ stepped
    rw [stepped.2, sesPairNext, update_apply]
    split
    · next same =>
      change ((state label.1).quit _ || _) = true
      rw [← same, quit]
      rfl
    · exact quit
  · obtain ⟨pairOk, lasts⟩ := Linked.lasts firstOk reached half beyond
    refine lasts.imp_right fun lasts => lasts.imp_right ?_
    rintro ⟨half, after, kept, later⟩
    obtain ⟨peer, stored, isStatus, -⟩ := beyond.session
    have nearOk := pairOk endpoint
    have farOk := pairOk endpoint.other
    rw [SesEndpoint.other_other] at farOk
    rw [← isStatus] at kept
    refine ⟨peer, after, stored, ?_, kept, half.joined later nearOk farOk⟩
    rw [isStatus]
    exact beyond.alive

def sesConnectTogether : List (SesEndpoint × SesOutcome × SesCall) :=
  [(.one, sesOutcomeOk (some 1), .createClient), (.one, sesOutcomeOk none, .connect 1),
    (.two, sesOutcomeOk (some 2), .pktInput ⟨⟨sesPktFlagSyn, 0, 1, 0⟩, []⟩),
    (.one, sesOutcomeOk none, .pktInput ⟨⟨sesPktFlagSyn ||| sesPktFlagAck, 1, 2, 0⟩, []⟩)]

/-- The `SYN|ACK` that is sent again, when the `ACK` was lost. -/
def sesAckLost : List (SesEndpoint × SesOutcome × SesCall) :=
  [(.two, sesOutcomeOk none, .resendTimeOut 2)]

/-- The second `SYN|ACK` is answered. -/
def sesRefused : List (SesEndpoint × SesOutcome × SesCall) :=
  [(.two, sesOutcomeOk none, .resendTimeOut 2),
    (.one, sesOutcomeOk none, .pktInput ⟨⟨sesPktFlagSyn ||| sesPktFlagAck, 1, 2, 0⟩, []⟩),
    (.two, sesOutcomeOk none, .pktInput ⟨⟨sesPktFlagRst, 2, 1, 0⟩, []⟩)]

theorem sesPair_joined_connect :
    ∃ first pair session, sesPair.ReachableWhen SesOrderly first ∧
      (first SesEndpoint.one).ctrl.hNap 1 = some session ∧
      (sesPairFrom first).ReachableWhen SesOrderly pair ∧
      ∃ status, Joined (pair .one) (pair .two) 1 session.uiPeerSesID status := by
  have steps {begin : SesEndpoint → SesSide} (state : SesEndpoint → SesSide)
      (label : SesEndpoint × SesOutcome × SesCall)
      (met : SesOrderly state label ∧ SesPairEnabled state label) :
      SesOrderly state label ∧ (sesPairFrom begin).step state label (sesPairNext state label) :=
    ⟨met.1, met.2, rfl⟩
  let first := sesConnectTogether.foldl sesPairNext fun _ => sesSideStart
  have reached : sesPair.ReachableWhen SesOrderly first := .foldl steps (.start rfl) (by decide +kernel)
  have lost : (sesPairFrom first).ReachableWhen SesOrderly (sesAckLost.foldl sesPairNext first) :=
    .foldl steps (.start rfl) (by decide +kernel)
  obtain ⟨session, found, connecter, established, isPeer⟩ : ∃ session ∈ (first .one).ctrl.hNap 1,
      session.Connecter ∧ session.uiStatus = .establish ∧ session.uiPeerSesID = 2 := by
    decide +kernel
  refine ⟨first, _, session, reached, found, lost, ?_⟩
  rcases sesPair_joined reached found connecter established lost with
    quit | quit | ⟨-, status, -, -, -, joined⟩
  · exact absurd quit (by decide +kernel)
  · rw [isPeer] at quit
    exact absurd quit (by decide +kernel)
  · exact ⟨status, joined⟩

/-- The `RST` for a second `SYN|ACK` closes the other side. -/
theorem sesPair_parted :
    ∃ first pair, sesPair.Reachable first ∧
      (∃ session ∈ (first SesEndpoint.one).ctrl.hNap 1, session.Connecter ∧
        session.uiStatus = .establish ∧ session.uiPeerSesID = 2) ∧
      (∃ peer ∈ (first SesEndpoint.two).ctrl.hNap 2, peer.uiStatus = .synRcvd ∧
        peer.uiPeerSesID = 1) ∧
      (sesPairFrom first).Reachable pair ∧
      (pair .one).quit 1 = false ∧
      (pair .two).quit 2 = false ∧
      ∃ peer ∈ (pair .two).ctrl.hNap 2, peer.uiStatus = .closed := by
  have steps {begin : SesEndpoint → SesSide} (state : SesEndpoint → SesSide)
      (label : SesEndpoint × SesOutcome × SesCall) (met : SesPairEnabled state label) :
      True ∧ (sesPairFrom begin).step state label (sesPairNext state label) :=
    ⟨trivial, met, rfl⟩
  let first := sesConnectTogether.foldl sesPairNext fun _ => sesSideStart
  have reached : sesPair.Reachable first := .foldl steps (.start rfl) (by decide +kernel)
  have refused : (sesPairFrom first).Reachable (sesRefused.foldl sesPairNext first) :=
    .foldl steps (.start rfl) (by decide +kernel)
  refine ⟨first, _, reached, by decide +kernel, by decide +kernel, refused,
    by decide +kernel, by decide +kernel, by decide +kernel⟩

end MyCode.Ses
