import MyCode.Ses.Moves

/-!
# Agreed sessions

Runs of one instance with packets from anywhere.  For every id the heads that
have arrived since its session is there are kept, with the one that made it.
-/

namespace MyCode.Ses

open KeepAlive List Option Bool

structure SesRun where
  ctrl : SesCtrl
  heard : UINT → List SesPktHead

def sesRunStart : SesRun :=
  ⟨sesCreateInstance, fun _ => []⟩

def sesRunNext (run : SesRun) (label : SesOutcome × SesCall) : SesRun where
  ctrl := label.2.run label.1 run.ctrl
  heard uiSesID :=
    (if (run.ctrl.hNap uiSesID).isSome then run.heard uiSesID else []) ++
      (label.2.packet.map SesPkt.stPktHeader).toList

def ses : Lib.System SesRun (SesOutcome × SesCall) where
  start run := run = sesRunStart
  step run label after := label.2.Enabled label.1 run.ctrl ∧ after = sesRunNext run label

theorem ses_reachable (labels : List (SesOutcome × SesCall))
    (admitted : Lib.System.Admitted (fun run label => label.2.Enabled label.1 run.ctrl) sesRunNext
      sesRunStart labels) : ses.Reachable (labels.foldl sesRunNext sesRunStart) := by
  have steps (run : SesRun) (label : SesOutcome × SesCall)
      (enabled : label.2.Enabled label.1 run.ctrl) :
      True ∧ ses.step run label (sesRunNext run label) :=
    ⟨trivial, enabled, rfl⟩
  exact .foldl steps (.start rfl) admitted

variable {run after : SesRun} {label : SesOutcome × SesCall} {uiSesID : UINT} {session : SesNode}

/-- The peer id comes from a `SYN` or `SYN|ACK` for the session. -/
def Learned (heard : List SesPktHead) (uiSesID uiPeerSesID : UINT) : Prop :=
  ∃ head ∈ heard, head.has sesPktFlagSyn = true ∧ head.has sesPktFlagData = false ∧
    (head.uiDstSesId = 0 ∨ head.uiDstSesId = uiSesID) ∧ head.uiSrcSesId = uiPeerSesID

/-- A data packet is handed over for an established session with its peer. -/
structure SesRecv.Agreed (recv : SesRecv) : Prop where
  dst : recv.pkt.stPktHeader.uiDstSesId = recv.pstSesNode.uiLocalSesID
  status : recv.pstSesNode.uiStatus = .establish
  src : recv.pkt.stPktHeader.uiSrcSesId = recv.pstSesNode.uiPeerSesID
  cookie : recv.pkt.stPktHeader.uiCookie = recv.pstSesNode.uiCookie

structure SesRun.Agrees (run : SesRun) : Prop where
  recved : ∀ recv ∈ run.ctrl.recved, recv.Agreed
  established : ∀ uiSesID session, run.ctrl.hNap uiSesID = some session →
    session.uiStatus = .establish →
      session.uiPeerSesID ≠ 0 ∧ Learned (run.heard uiSesID) uiSesID session.uiPeerSesID

/-- A data packet finds an established session, and an `ACK` that ends a
handshake leaves the session with the id of a peer. -/
def ArrivesAgreed (run : SesRun) (label : SesOutcome × SesCall) : Prop :=
  ∀ pkt ∈ label.2.packet, ∀ session ∈ sesFindSesNode run.ctrl pkt.stPktHeader,
    label.1.makeContinue = true →
      (pkt.stPktHeader.has sesPktFlagData = true → session.uiStatus = .establish) ∧
      (pkt.stPktHeader.has sesPktFlagData = false → pkt.stPktHeader.has sesPktFlagAck = true →
        session.uiStatus = .synSend ∨
          session.uiStatus = .synRcvd ∧ pkt.stPktHeader.has sesPktFlagSyn = false →
        (session.learned pkt.stPktHeader).uiPeerSesID ≠ 0)

instance (run : SesRun) (label : SesOutcome × SesCall) : Decidable (ArrivesAgreed run label) :=
  inferInstanceAs (Decidable (∀ pkt ∈ label.2.packet,
    ∀ session ∈ sesFindSesNode run.ctrl pkt.stPktHeader, _ → _ ∧ _))

theorem learned_mono {heard : List SesPktHead} {uiPeerSesID : UINT} (rest : List SesPktHead)
    (learned : Learned heard uiSesID uiPeerSesID) : Learned (heard ++ rest) uiSesID uiPeerSesID := by
  obtain ⟨head, inside, known⟩ := learned
  exact ⟨head, mem_append_left rest inside, known⟩

theorem taken_peer (session : SesNode) (head : SesPktHead) :
    (session.taken head).uiPeerSesID = (session.learned head).uiPeerSesID := by
  unfold SesNode.taken
  simp only
  split <;> split <;> rfl

theorem taken_established {head : SesPktHead}
    (established : (session.taken head).uiStatus = .establish) :
    session.uiStatus = .establish ∨ head.has sesPktFlagAck = true ∧ session.Waits := by
  have waits : (session.learned head).Waits ↔ session.Waits := by
    rw [SesNode.Waits, SesNode.Waits, learned_status]
  unfold SesNode.taken at established
  simp only [waits] at established
  split at established
  · cases established
  split at established
  · next both => exact .inr both
  · rw [learned_status] at established
    exact .inl established

structure RunOk (run : SesRun) : Prop where
  localsOk : LocalsOk run.ctrl
  learned : ∀ uiSesID session, run.ctrl.hNap uiSesID = some session →
    session.uiPeerSesID ≠ 0 → Learned (run.heard uiSesID) uiSesID session.uiPeerSesID

theorem heard_kept (found : run.ctrl.hNap uiSesID = some session) {uiPeerSesID : UINT}
    (learned : Learned (run.heard uiSesID) uiSesID uiPeerSesID) :
    Learned ((sesRunNext run label).heard uiSesID) uiSesID uiPeerSesID := by
  simp only [sesRunNext, found, isSome_some, if_true]
  exact learned_mono _ learned

theorem heard_arrived {pkt : SesPkt} (arrives : label.2 = .pktInput pkt) :
    pkt.stPktHeader ∈ (sesRunNext run label).heard uiSesID := by
  simp only [sesRunNext, arrives, SesCall.packet]
  exact mem_append_right _ (mem_singleton_self _)

theorem change_learned {packets : List SesPkt} {last : SesNode} (runOk : RunOk run)
    (found : run.ctrl.hNap uiSesID = some session)
    (change : Change run.ctrl label.2 uiSesID session packets last)
    (nonzero : last.uiPeerSesID ≠ 0) :
    Learned ((sesRunNext run label).heard uiSesID) uiSesID last.uiPeerSesID := by
  cases change with
  | take pkt _ arrives dst _ protocol =>
    rw [taken_peer] at nonzero ⊢
    unfold SesNode.learned at nonzero ⊢
    split at nonzero
    · next flag =>
      rw [if_pos flag]
      exact ⟨pkt.stPktHeader, heard_arrived arrives, flag, protocol, .inr dst, rfl⟩
    · next flag =>
      rw [if_neg flag]
      exact heard_kept found (runOk.learned uiSesID session found nonzero)
  | stay | connect | connectFailed | sendData | resend | unsent | quit | probe | refuse =>
    exact heard_kept found (runOk.learned uiSesID session found nonzero)

theorem RunOk.step (runOk : RunOk run) (stepped : ses.step run label after) : RunOk after := by
  obtain ⟨enabled, rfl⟩ := stepped
  obtain ⟨_, packets, later, moves⟩ := SesCall.moving runOk.localsOk enabled
  refine ⟨moves.localsOk runOk.localsOk, fun uiSesID session found nonzero => ?_⟩
  have sessions : (sesRunNext run label).ctrl.hNap = _ := moves.sessions
  rw [sessions, Function.update_apply] at found
  split at found
  · next same =>
    subst same
    cases moves.turn with
    | rest | unmatched => exact heard_kept found (runOk.learned uiSesID session found nonzero)
    | change _ _ _ _ stored change core =>
      cases found
      rw [core_peer core] at nonzero ⊢
      exact change_learned runOk stored change nonzero
    | close => cases found
    | create =>
      cases found
      exact absurd rfl nonzero
    | accept pkt _ _ arrives protocol dst syn _ _ _ _ core =>
      cases found
      rw [core_peer core]
      exact ⟨pkt.stPktHeader, heard_arrived arrives, syn, protocol, .inl dst, rfl⟩
  · exact heard_kept found (runOk.learned uiSesID session found nonzero)

def PeersKnown (ctrl : SesCtrl) : Prop :=
  ∀ uiSesID session, ctrl.hNap uiSesID = some session → session.uiStatus = .establish →
    session.uiPeerSesID ≠ 0

theorem change_known {packets : List SesPkt} {last : SesNode} (known : PeersKnown run.ctrl)
    (agreed : ArrivesAgreed run label)
    (continuous : ∀ pkt, label.2 = .pktInput pkt → label.1.makeContinue = true)
    (found : run.ctrl.hNap uiSesID = some session)
    (change : Change run.ctrl label.2 uiSesID session packets last)
    (established : last.uiStatus = .establish) : last.uiPeerSesID ≠ 0 := by
  cases change with
  | take pkt _ arrives _ isFound protocol syn =>
    rw [taken_peer]
    rcases taken_established established with before | ⟨ack, waits⟩
    · have noSyn : pkt.stPktHeader.has sesPktFlagSyn = false := by
        rw [eq_false_iff]
        intro flag
        rw [before] at syn
        cases syn flag
      rw [SesNode.learned, noSyn]
      exact known uiSesID session found before
    have admitted := agreed pkt (by rw [arrives]; rfl) session isFound (continuous pkt arrives)
    refine admitted.2 protocol ack ?_
    rcases waits with sending | rcvd
    · exact .inl sending
    refine .inr ⟨rcvd, ?_⟩
    rw [eq_false_iff]
    intro flag
    rw [rcvd] at syn
    cases syn flag
  | connect | connectFailed | quit => cases established
  | stay | sendData | resend | unsent | probe | refuse =>
    exact known uiSesID session found established

theorem PeersKnown.step (known : PeersKnown run.ctrl) (runOk : RunOk run)
    (agreed : ArrivesAgreed run label) (stepped : ses.step run label after) :
    PeersKnown after.ctrl := by
  obtain ⟨enabled, rfl⟩ := stepped
  by_cases broken : ∃ pkt, label.2 = .pktInput pkt ∧ label.1.makeContinue = false
  · obtain ⟨_, arrives, discontinuous⟩ := broken
    have same : (sesRunNext run label).ctrl = run.ctrl := by
      simp only [sesRunNext, arrives, SesCall.run, sesPktInput, discontinuous]
      rfl
    rw [same]
    exact known
  have continuous (pkt : SesPkt) (arrives : label.2 = .pktInput pkt) :
      label.1.makeContinue = true := by
    rw [← not_eq_false]
    exact fun discontinuous => broken ⟨pkt, arrives, discontinuous⟩
  obtain ⟨_, packets, later, moves⟩ := SesCall.moving runOk.localsOk enabled
  intro uiSesID session found established
  have sessions : (sesRunNext run label).ctrl.hNap = _ := moves.sessions
  rw [sessions, Function.update_apply] at found
  split at found
  · next same =>
    subst same
    cases moves.turn with
    | rest | unmatched => exact known uiSesID session found established
    | change _ _ _ _ stored change core =>
      cases found
      rw [core_status core] at established
      rw [core_peer core]
      exact change_known known agreed continuous stored change established
    | close => cases found
    | create => cases found; cases established
    | accept _ _ _ _ _ _ _ _ _ _ _ core =>
      cases found
      rw [core_status core] at established
      cases established
  · exact known uiSesID session found established

theorem handsOver_agreed (runOk : RunOk run) (known : PeersKnown run.ctrl)
    (agreed : ArrivesAgreed run label) :
    ∀ recv ∈ label.2.handsOver label.1 run.ctrl, recv.Agreed := by
  intro recv inside
  unfold SesCall.handsOver at inside
  split at inside
  · next pkt arrives =>
    split at inside
    · next both =>
      obtain ⟨continuous, data⟩ := and_eq_true_iff.mp both
      rw [mem_toList, map_eq_some_iff] at inside
      obtain ⟨session, found, rfl⟩ := inside
      obtain ⟨stored, peer, cookie, -⟩ := sesFindSesNode_eq_some.mp found
      have admitted := agreed pkt (by rw [arrives]; rfl) session found continuous
      have established := admitted.1 data
      constructor
      · exact (runOk.localsOk _ session stored).1.symm
      · exact established
      · exact (peer (known _ session stored established)).symm
      · exact (cookie (by rw [established]; decide)).symm
    · nomatch inside
  · nomatch inside

theorem ses_runOk (reached : ses.Reachable run) : RunOk run := by
  refine Lib.System.Reachable.invariant ?_ ?_ reached
  · rintro - rfl
    exact ⟨nofun, nofun⟩
  · exact fun _ _ _ runOk stepped => runOk.step stepped

theorem ses_known (reached : ses.ReachableWhen ArrivesAgreed run) :
    PeersKnown run.ctrl ∧ ∀ recv ∈ run.ctrl.recved, recv.Agreed := by
  induction reached with
  | start started =>
    cases started
    exact ⟨nofun, nofun⟩
  | @step run label _ before agreed stepped ih =>
    obtain ⟨known, all⟩ := ih
    have runOk := ses_runOk before.reachable
    refine ⟨known.step runOk agreed stepped, fun recv inside => ?_⟩
    obtain ⟨enabled, rfl⟩ := stepped
    obtain ⟨_, _, _, moves⟩ := SesCall.moving runOk.localsOk enabled
    have recved : (sesRunNext run label).ctrl.recved = _ := moves.recved
    rw [recved] at inside
    rcases mem_append.mp inside with old | new
    · exact all recv old
    · exact handsOver_agreed runOk known agreed recv new

/-- In runs whose packets arrive agreed, data is handed over for agreed sessions
only. -/
theorem ses_agrees (reached : ses.ReachableWhen ArrivesAgreed run) : run.Agrees := by
  have runOk := ses_runOk reached.reachable
  obtain ⟨known, all⟩ := ses_known reached
  refine ⟨all, fun uiSesID session found established => ?_⟩
  have nonzero := known uiSesID session found established
  exact ⟨nonzero, runOk.learned uiSesID session found nonzero⟩

def sesSynAckPkt : SesPkt :=
  ⟨⟨sesPktFlagSyn ||| sesPktFlagAck, 0x80000001, 0x80000002, 7⟩, []⟩

def sesDataPkt (uiSrcSesId uiCookie : UINT) : SesPkt :=
  ⟨⟨sesPktFlagData, 0x80000001, uiSrcSesId, uiCookie⟩, [1]⟩

def sesRunConnect : List (SesOutcome × SesCall) :=
  [(sesOutcomeOk (some 0x80000001), .createClient), (sesOutcomeOk none, .connect 0x80000001),
    (sesOutcomeOk none, .pktInput sesSynAckPkt),
    (sesOutcomeOk none, .pktInput (sesDataPkt 0x80000002 7))]

theorem ses_agrees_connect :
    ∃ run recv, ses.ReachableWhen ArrivesAgreed run ∧ run.ctrl.recved = [recv] ∧ run.Agrees := by
  have steps (run : SesRun) (label : SesOutcome × SesCall)
      (met : ArrivesAgreed run label ∧ label.2.Enabled label.1 run.ctrl) :
      ArrivesAgreed run label ∧ ses.step run label (sesRunNext run label) :=
    ⟨met.1, met.2, rfl⟩
  have reached : ses.ReachableWhen ArrivesAgreed (sesRunConnect.foldl sesRunNext sesRunStart) :=
    .foldl steps (.start rfl) (by decide +kernel)
  obtain ⟨recv, same⟩ : ∃ recv, (sesRunConnect.foldl sesRunNext sesRunStart).ctrl.recved = [recv] :=
    length_eq_one_iff.mp (by decide +kernel)
  exact ⟨_, recv, reached, same, ses_agrees reached⟩

/-- A data packet for a client that has not connected. -/
def sesRunEarly : List (SesOutcome × SesCall) :=
  [(sesOutcomeOk (some 0x80000001), .createClient), (sesOutcomeOk none, .pktInput (sesDataPkt 5 0))]

/-- A lone `ACK` for a client that connects. -/
def sesRunLone : List (SesOutcome × SesCall) :=
  [(sesOutcomeOk (some 0x80000001), .createClient), (sesOutcomeOk none, .connect 0x80000001),
    (sesOutcomeOk none, .pktInput ⟨⟨sesPktFlagAck, 0x80000001, 5, 0⟩, []⟩)]

theorem ses_disagrees :
    (∃ run, ses.Reachable run ∧ ∃ recv ∈ run.ctrl.recved, recv.pstSesNode.uiStatus = .init) ∧
    (∃ run, ses.Reachable run ∧ ∃ session ∈ run.ctrl.hNap 0x80000001,
      session.uiStatus = .establish ∧ session.uiPeerSesID = 0) ∧
    ¬ ∀ run, ses.Reachable run → run.Agrees := by
  have early := ses_reachable sesRunEarly (by decide +kernel)
  have lone := ses_reachable sesRunLone (by decide +kernel)
  have handed : ∃ recv ∈ (sesRunEarly.foldl sesRunNext sesRunStart).ctrl.recved,
      recv.pstSesNode.uiStatus = .init := by decide +kernel
  refine ⟨⟨_, early, handed⟩, ⟨_, lone, by decide +kernel⟩, fun holds => ?_⟩
  obtain ⟨recv, inside, status⟩ := handed
  rw [((holds _ early).recved recv inside).status] at status
  cases status

end MyCode.Ses
