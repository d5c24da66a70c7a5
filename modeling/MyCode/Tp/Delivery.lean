import MyCode.Tp.Moves

/-!
# Delivery in order

A socket pushes a prefix of the payloads that its peer accepted, as long as no
copy of the answer to a connect arrives after data and no sequence number wraps
around.
-/

namespace MyCode.Tp

open Lib List BitVec

variable {near far farAfter : TpCtrl} {uiTpId : UINT} {socket after : TpSocket} {mbuf : Mbuf}
  {arrived : Option Mbuf} {pair : Endpoint → TpCtrl}

/-- What was pushed is a prefix of what the peer accepted. -/
def PushesPrefix (far : TpCtrl) (uiTpId : UINT) (socket : TpSocket) : Prop :=
  socket.pushed = [] ∨ ∃ peer, far.hSocketNap socket.uiPeerTpId = some peer ∧
    peer.uiPeerTpId = uiTpId ∧ socket.pushed <+: peer.accepted

/-- A packet that a socket may take: one with `SYN` does not change the expected
number, and data is less than 2^32 packets away from what is expected. -/
def ArrivesInOrder (socket : TpSocket) (mbuf : Mbuf) : Prop :=
  if hasFlag mbuf.stHead.uiPktFlag tpPktFlagData then
    mbuf.serial < socket.pushed.length + 2 ^ 32 ∧ socket.pushed.length < mbuf.serial + 2 ^ 32
  else
    hasFlag mbuf.stHead.uiPktFlag tpPktFlagSyn = true → socket.iAckSn = mbuf.stHead.iSn + 1

instance (socket : TpSocket) (mbuf : Mbuf) : Decidable (ArrivesInOrder socket mbuf) := by
  unfold ArrivesInOrder
  infer_instance

def InOrder (pair : Endpoint → TpCtrl) (label : Endpoint × TpOutcome × TpCall) : Prop :=
  ∀ mbuf ∈ label.2.2.packet, ∀ socket ∈ tpPktFindSocket (pair label.1) mbuf.stHead,
    socket.uiStatus = .establish → ArrivesInOrder socket mbuf

instance (pair : Endpoint → TpCtrl) (label : Endpoint × TpOutcome × TpCall) :
    Decidable (InOrder pair label) :=
  inferInstanceAs (Decidable (∀ mbuf ∈ label.2.2.packet,
    ∀ socket ∈ tpPktFindSocket (pair label.1) mbuf.stHead, _))

/-- The number that a socket expects counts what it pushed. -/
structure Tracks (far : TpCtrl) (uiTpId : UINT) (socket : TpSocket) : Prop where
  expects : socket.uiStatus = .establish →
    socket.iAckSn = 1 + BitVec.ofNat 32 socket.pushed.length
  pushes : PushesPrefix far uiTpId socket

theorem PushesPrefix.grows (pushes : PushesPrefix far uiTpId socket) (nonzero : uiTpId ≠ 0)
    (grows : Grows far farAfter) : PushesPrefix farAfter uiTpId socket := by
  rcases pushes with unread | ⟨peer, found, same, isPrefix⟩
  · exact .inl unread
  obtain ⟨later, foundLater, evolves⟩ := grows _ peer found
  exact .inr ⟨later, foundLater, (evolves.peer (.inl (same ▸ nonzero))).trans same,
    isPrefix.trans evolves.accepted⟩

theorem serial_eq {serial count : Nat}
    (same : 1 + BitVec.ofNat 32 serial = 1 + BitVec.ofNat 32 count)
    (below : serial < count + 2 ^ 32) (above : count < serial + 2 ^ 32) : serial = count := by
  have mods := congrArg BitVec.toNat ((BitVec.add_right_inj _).mp same)
  simp only [toNat_ofNat] at mods
  omega

theorem prefix_append_getElem {α : Type} {pushed accepted : List α} {data : α}
    (isPrefix : pushed <+: accepted) (stored : accepted[pushed.length]? = some data) :
    pushed ++ [data] <+: accepted := by
  obtain ⟨rest, rfl⟩ := isPrefix
  rw [getElem?_append_right (Nat.le_refl _), Nat.sub_self] at stored
  cases rest with
  | nil => cases stored
  | cons _ rest =>
    cases stored
    exact ⟨rest, by simp⟩

theorem Tracks.change (tracks : Tracks far uiTpId socket) (socketOk : SocketOk far uiTpId socket)
    (change : Change near far arrived uiTpId socket after)
    (inOrder : ∀ mbuf, arrived = some mbuf → socket.uiStatus = .establish →
      (socket.uiPeerTpId ≠ 0 → socket.uiPeerTpId = mbuf.stHead.uiSrcTpId) →
      mbuf.stHead.uiDstTpId = uiTpId → ArrivesInOrder socket mbuf) :
    Tracks far uiTpId after := by
  cases change with
  | stay => exact tracks
  | bind => exact ⟨tracks.expects, tracks.pushes⟩
  | connect _ isInit => exact ⟨nofun, .inl (socketOk.init isInit).2.2.2.2.1⟩
  | send => exact ⟨tracks.expects, tracks.pushes⟩
  | acked => exact ⟨tracks.expects, tracks.pushes⟩
  | connected _ _ arrives flag sending =>
    have unread := (socketOk.synSend sending).2.2.2.2
    refine ⟨fun _ => ?_, .inl unread⟩
    simp only [unread, (arrives.fromSocket.of_synAck flag).2.2.1]
    rfl
  | refused _ _ _ _ sending => exact ⟨nofun, .inl (socketOk.synSend sending).2.2.2.2⟩
  | confirmed _ _ _ _ rcvd =>
    obtain ⟨-, iAckSn, -, unread, -⟩ := socketOk.synRcvd rcvd
    refine ⟨fun _ => ?_, .inl unread⟩
    simp only [unread, iAckSn]
    rfl
  | again mbuf _ arrives flag _ peer =>
    refine ⟨fun established => ?_, tracks.pushes⟩
    have taken := inOrder mbuf arrives.arrives established peer arrives.dst
    simp only [ArrivesInOrder, flag] at taken
    exact (taken rfl).symm.trans (tracks.expects established)
  | push mbuf origin arrives flag established peer same =>
    obtain ⟨dst, -, iSn, stored, -⟩ := arrives.fromSocket.of_data flag
    have taken := inOrder mbuf arrives.arrives established (fun _ => peer) arrives.dst
    simp only [ArrivesInOrder, flag] at taken
    have expected := tracks.expects established
    have serial := serial_eq (iSn.symm.trans (same.trans expected)) taken.1 taken.2
    rw [serial] at stored
    refine ⟨fun _ => ?_, .inr ⟨origin, ?_, dst.symm.trans arrives.dst, ?_⟩⟩
    · simp only [expected, length_append, length_singleton, ofNat_add, BitVec.add_assoc]
      rfl
    · simp only [peer]
      exact arrives.found
    refine prefix_append_getElem ?_ stored
    rcases tracks.pushes with unread | ⟨_, isKnown, -, isPrefix⟩
    · rw [unread]
      exact nil_prefix
    rw [peer, arrives.found] at isKnown
    cases isKnown
    exact isPrefix

theorem Tracks.mayClose (tracks : Tracks far uiTpId socket) (closes : MayClose socket after) :
    Tracks far uiTpId after := by
  rcases closes with rfl | rfl
  · exact tracks
  · exact ⟨nofun, tracks.pushes⟩

theorem Tracks.of_core (tracks : Tracks far uiTpId after) (same : socket.core = after.core) :
    Tracks far uiTpId socket := by
  have core : Tracks far uiTpId after.core := ⟨tracks.expects, tracks.pushes⟩
  rw [← same] at core
  exact ⟨core.expects, core.pushes⟩

def PairTracks (pair : Endpoint → TpCtrl) : Prop :=
  ∀ endpoint uiTpId socket, (pair endpoint).hSocketNap uiTpId = some socket →
    Tracks (pair endpoint.other) uiTpId socket

theorem PairTracks.step {after : Endpoint → TpCtrl} {label : Endpoint × TpOutcome × TpCall}
    (pairTracks : PairTracks pair) (pairOk : PairOk pair) (inOrder : InOrder pair label)
    (stepped : tpPair.step pair label after) : PairTracks after := by
  obtain ⟨endpoint, _, _⟩ := label
  obtain ⟨moves, stays⟩ := pairOk.moves stepped
  have grows := moves.grows (pairOk endpoint)
  intro other uiTpId socket found
  rcases Endpoint.eq_or_eq_other endpoint other with rfl | rfl
  · rw [stays]
    rcases moves.sockets uiTpId socket found with
      ⟨old, _, _, isOld, change, closes, same⟩ | opened
    · have oldOk := (pairOk other).sockets uiTpId old isOld
      have tracked := (pairTracks other uiTpId old isOld).change oldOk change
        fun mbuf arrives established peer dst =>
          inOrder mbuf arrives old (by
            rw [Option.mem_def, tpPktFindSocket, tpSocketFindSocket, dst]
            simp only [isOld]
            rw [if_neg]
            exact fun ⟨nonzero, differs⟩ => differs (peer nonzero)) established
      exact (tracked.mayClose closes).of_core same
    · exact ⟨fun established => absurd established opened.unsettled, .inl opened.unread⟩
  · rw [stays] at found
    rw [Endpoint.other_other]
    have tracks := pairTracks endpoint.other uiTpId socket found
    rw [Endpoint.other_other] at tracks
    have nonzero := ((pairOk endpoint.other).sockets uiTpId socket found).nonzero
    exact ⟨tracks.expects, tracks.pushes.grows nonzero grows⟩

theorem tpPair_tracks (reached : tpPair.ReachableWhen InOrder pair) :
    PairOk pair ∧ PairTracks pair := by
  refine @Lib.System.ReachableWhen.invariant _ _ _ _ (fun pair => PairOk pair ∧ PairTracks pair)
    ?_ ?_ pair reached
  · intro pair started
    refine ⟨pairOk_start started, fun endpoint uiTpId socket found => ?_⟩
    rw [started endpoint] at found
    cases found
  · intro pair label after ⟨pairOk, pairTracks⟩ inOrder stepped
    exact ⟨pairOk.step stepped, pairTracks.step pairOk inOrder stepped⟩

/-- In runs without late answers to a connect, nothing is lost, pushed twice or
out of order. -/
theorem tpPair_pushed_prefix (reached : tpPair.ReachableWhen InOrder pair) (endpoint : Endpoint)
    (found : (pair endpoint).hSocketNap uiTpId = some socket) :
    PushesPrefix (pair endpoint.other) uiTpId socket :=
  ((tpPair_tracks reached).2 endpoint uiTpId socket found).pushes

def tpPairTransfer : List (Endpoint × TpOutcome × TpCall) :=
  tpPairConnect ++
    [(.acceptor, tpOutcomeOk none, .pktInput tpAckPkt),
      (.acceptor, tpOutcomeOk none, .sendMbuf 0x80000001 [7]),
      (.connector, tpOutcomeOk none, .pktInput (tpDataPkt [7]))]

theorem tpPair_pushed_prefix_transfer :
    ∃ pair socket, tpPair.ReachableWhen InOrder pair ∧
      (pair .connector).hSocketNap 0x80000000 = some socket ∧ socket.pushed = [[7]] ∧
      PushesPrefix (pair .acceptor) 0x80000000 socket := by
  have admits (pair : Endpoint → TpCtrl) (label : Endpoint × TpOutcome × TpCall)
      (met : InOrder pair label ∧ TpPairAdmits pair label) :
      InOrder pair label ∧ tpPair.step pair label (tpPairNext pair label) :=
    ⟨met.1, met.2.step⟩
  have reached : tpPair.ReachableWhen InOrder (tpPairTransfer.foldl tpPairNext fun _ => tpCreate) :=
    .foldl admits (.start fun _ => rfl) (by decide +kernel)
  obtain ⟨socket, found, pushed⟩ : ∃ socket ∈ ((tpPairTransfer.foldl tpPairNext
      fun _ => tpCreate) .connector).hSocketNap 0x80000000, socket.pushed = [[7]] := by
    decide +kernel
  exact ⟨_, socket, reached, found, pushed, tpPair_pushed_prefix reached .connector found⟩

/-- The answer to the connect arrives once more after the data, and the data is
sent again. -/
def tpPairStale : List (Endpoint × TpOutcome × TpCall) :=
  tpPairTransfer ++
    [(.connector, tpOutcomeOk none, .pktInput tpSynAckPkt),
      (.connector, tpOutcomeOk none, .pktInput (tpDataPkt [7]))]

theorem tpPair_pushed_twice :
    ¬ ∀ pair, tpPair.Reachable pair → ∀ endpoint uiTpId socket,
      (pair endpoint).hSocketNap uiTpId = some socket →
        PushesPrefix (pair endpoint.other) uiTpId socket := by
  intro holds
  have reached : tpPair.Reachable (tpPairStale.foldl tpPairNext fun _ => tpCreate) :=
    tpPair_reachable (by decide +kernel)
  obtain ⟨socket, found, pushed⟩ : ∃ socket ∈ ((tpPairStale.foldl tpPairNext
      fun _ => tpCreate) .connector).hSocketNap 0x80000000,
      socket.pushed = [[7], [7]] ∧ socket.uiPeerTpId = 0x80000001 := by
    decide +kernel
  obtain ⟨twice, peerId⟩ := pushed
  obtain ⟨peer, isPeer, accepted⟩ : ∃ peer ∈ ((tpPairStale.foldl tpPairNext
      fun _ => tpCreate) .acceptor).hSocketNap 0x80000001, peer.accepted = [[7]] := by
    decide +kernel
  rcases holds _ reached .connector 0x80000000 socket found with
    unread | ⟨_, isOther, -, isPrefix⟩
  · rw [twice] at unread
    cases unread
  rw [peerId] at isOther
  cases isPeer.symm.trans isOther
  rw [twice, accepted] at isPrefix
  exact absurd isPrefix (by decide)

end MyCode.Tp
