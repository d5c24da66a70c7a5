import MyCode.Tp.AcceptTable

/-!
# The tables in every run

Every call keeps the tables and the sockets in them together, but the close of
a socket that nobody has accepted leaves its slot behind.
-/

namespace MyCode.Tp

open Lib KeepAlive Function List Option Bool

variable {ctrl ctrlAfter : TpCtrl} {uiTpId uiProtocolId : UINT} {socket after : TpSocket}
  {work : TpWork} {outcome : TpOutcome} {pkt : TpPktHead} {protocol : TpProtocol}

section

variable (ok : AcceptOk ctrl)

include ok

theorem AcceptOk.treats (found : ctrl.hSocketNap uiTpId = some socket)
    (treats : Treats ⟨ctrl, socket⟩ work) : AcceptOk work.store := by
  apply treats.acceptOk
  rw [store_self (ok.local_eq uiTpId socket found).1 found]
  exact ok

theorem AcceptOk.setSocket (found : ctrl.hSocketNap uiTpId = some socket)
    (role : SameRole socket after) : AcceptOk (ctrl.setSocket after) :=
  ok.treats found (.of_role role)

theorem AcceptOk.same (sockets : ctrlAfter.hSocketNap = ctrl.hSocketNap)
    (protocols : ctrlAfter.hProtocolNap = ctrl.hProtocolNap) : AcceptOk ctrlAfter := by
  refine ok.of_same protocols ?_ ?_
  · intro uiTpId socket found
    rw [sockets] at found
    exact ⟨socket, found, .refl socket⟩
  · intro uiTpId socket found
    rw [sockets]
    exact ⟨socket, found, .refl socket⟩

theorem AcceptOk.withSocket {call : TpSocket → TpCtrl × BsStatus}
    (keeps : ∀ socket, ctrl.hSocketNap uiTpId = some socket → AcceptOk (call socket).1) :
    AcceptOk (tpWithSocket ctrl uiTpId call).1 := by
  unfold tpWithSocket
  split
  · exact ok
  split
  · exact ok
  · next socket found => exact keeps socket found

theorem AcceptOk.timer {timeOut : TpWork → TpWork}
    (treats : ∀ work, Treats work (timeOut work)) : AcceptOk (tpTimer ctrl uiTpId timeOut) := by
  unfold tpTimer
  split
  · exact ok
  · next socket found => exact ok.treats found (treats _)

end

theorem TableOk.frame (table : TableOk ctrl uiProtocolId protocol)
    (listener : ∀ socket, ctrl.hSocketNap protocol.uiLocalTpId = some socket →
      socket.eType = .protocol → socket.uiProtocolId = uiProtocolId →
      ctrlAfter.hSocketNap protocol.uiLocalTpId = some socket)
    (live : ∀ uiTpId socket, some uiTpId ∈ protocol.astAcceptting →
      ctrl.hSocketNap uiTpId = some socket → socket.accepting = true →
      socket.uiProtocolId = uiProtocolId → ctrlAfter.hSocketNap uiTpId = some socket) :
    TableOk ctrlAfter uiProtocolId protocol := by
  refine { table with listener := ?_, live := fun uiTpId placed => ?_ }
  · obtain ⟨socket, isListener, eType, bound⟩ := table.listener
    exact ⟨socket, listener socket isListener eType bound, eType, bound⟩
  · obtain ⟨socket, found, accepting, parent, bound⟩ := table.live uiTpId placed
    exact ⟨socket, live uiTpId socket placed found accepting bound, accepting, parent, bound⟩

section

variable (ok : AcceptOk ctrl)

include ok

theorem AcceptOk.open (absent : ctrl.hSocketNap uiTpId = none) (nonzero : uiTpId ≠ 0)
    (localId : socket.uiLocalTpId = uiTpId) (free : socket.accepting = false)
    (settled : socket.uiStatus ≠ .synRcvd) : AcceptOk (ctrl.setSocket socket) := by
  have kept (other : UINT) (stored : TpSocket) (isStored : ctrl.hSocketNap other = some stored) :
      (ctrl.setSocket socket).hSocketNap other = some stored := by
    simp only [TpCtrl.setSocket, localId]
    rw [update_of_ne, isStored]
    rintro rfl
    rw [absent] at isStored
    cases isStored
  have before (other : UINT) (stored : TpSocket)
      (isStored : (ctrl.setSocket socket).hSocketNap other = some stored) :
      other = uiTpId ∧ stored = socket ∨ ctrl.hSocketNap other = some stored := by
    simp only [TpCtrl.setSocket, localId, update_apply] at isStored
    split at isStored
    · next same =>
      cases isStored
      exact .inl ⟨same, rfl⟩
    · exact .inr isStored
  constructor
  · intro other stored isStored
    exact (ok.tables other stored isStored).frame (fun listener found _ _ => kept _ listener found)
      fun other stored _ found _ _ => kept other stored found
  · intro other stored isStored
    rcases before other stored isStored with ⟨rfl, rfl⟩ | isStored
    · exact ⟨localId, nonzero⟩
    · exact ok.local_eq other stored isStored
  · intro other stored isStored accepting
    rcases before other stored isStored with ⟨rfl, rfl⟩ | isStored
    · cases free.symm.trans accepting
    · exact ok.accepting other stored isStored accepting
  intro other stored isStored rcvd
  rcases before other stored isStored with ⟨rfl, rfl⟩ | isStored
  · exact absurd rcvd settled
  · exact ok.synRcvd other stored isStored rcvd

theorem AcceptOk.newSocket (fresh : ∀ uiTpId,
      outcome.socketAlloc = some uiTpId → uiTpId ≠ 0 ∧ ctrl.hSocketNap uiTpId = none)
    (eType : TpType) : AcceptOk (tpSocket outcome ctrl eType).1 := by
  unfold tpSocket
  split
  · exact ok
  next uiTpId alloc =>
  obtain ⟨nonzero, absent⟩ := fresh uiTpId alloc
  have free : (tpSocketNewSocket ctrl uiTpId eType).accepting = false := by
    change hasFlag 0 tpSocketFlagAccepting = false
    decide
  exact ok.open absent nonzero rfl free nofun

theorem AcceptOk.connect (uiTpId uiProtocolId : UINT) :
    AcceptOk (tpConnect outcome ctrl uiTpId uiProtocolId).1 := by
  unfold tpConnect
  split
  · exact ok
  split
  · exact ok
  split
  · exact ok
  split
  · exact ok
  split
  · exact ok
  next socket found eType isInit =>
  have notProtocol : socket.eType ≠ .protocol := by
    rw [not_not.mp eType]
    exact nofun
  have unbound : ¬ socket.accepting = true := fun accepting => by
    rcases (ok.accepting uiTpId socket found accepting).2.1 with status | status
    · exact isInit fun other => (nomatch status.symm.trans other)
    · exact isInit fun other => (nomatch status.symm.trans other)
  have role : SameRole socket { socket with uiProtocolId := uiProtocolId, uiStatus := .synSend } :=
    { SameRole.refl socket with
      protocol := fun placed => (placed.elim notProtocol unbound).elim
      synRcvd := nofun
      pending := fun accepting => (unbound accepting).elim }
  exact ok.treats found ((Treats.of_role role).trans (tpPktRecordAndSendPkt_treats outcome _ _))

theorem AcceptOk.sendMbuf (uiTpId : UINT) (data : List UCHAR) :
    AcceptOk (tpSendMbuf outcome ctrl uiTpId data).1 :=
  ok.withSocket fun _ found => ok.treats found (tpPktSendData_treats outcome data _)

theorem AcceptOk.recvMbuf (uiTpId : UINT) : AcceptOk (tpRecvMbuf ctrl uiTpId).1 := by
  unfold tpRecvMbuf
  split
  · exact ok
  split
  · exact ok
  · next socket found => exact ok.setSocket found { SameRole.refl socket with }

theorem AcceptOk.setOptNbio (uiTpId : UINT) (nbio : Bool) :
    AcceptOk (tpSetOptNbio ctrl uiTpId nbio).1 := by
  refine ok.withSocket fun socket found => ok.setSocket found ?_
  unfold tpSocketSetOptNbio
  split
  · refine { SameRole.refl socket with accepting := ?_ }
    simp only [TpSocket.accepting, hasFlag_or]
    exact or_false _
  · refine { SameRole.refl socket with accepting := ?_ }
    exact hasFlag_and _ _ _ (by decide)

theorem AcceptOk.setTable (table : TableOk ctrl uiProtocolId protocol)
    (kept : ∀ old, ctrl.hProtocolNap uiProtocolId = some old → ∀ uiTpId,
      some uiTpId ∈ old.astAcceptting → some uiTpId ∈ protocol.astAcceptting) :
    AcceptOk (ctrl.setProtocol uiProtocolId (some protocol)) where
  tables other stored isStored := by
    simp only [TpCtrl.setProtocol, update_apply] at isStored
    split at isStored
    · next same =>
      cases isStored
      rw [same]
      exact { table with }
    · exact { ok.tables other stored isStored with }
  local_eq := ok.local_eq
  accepting uiTpId socket found accepting := by
    obtain ⟨eType, pending, old, isOld, placed⟩ := ok.accepting uiTpId socket found accepting
    refine ⟨eType, pending, ?_⟩
    simp only [TpCtrl.setProtocol, update_apply]
    split
    · next same => exact ⟨protocol, rfl, kept old (same ▸ isOld) uiTpId placed⟩
    · exact ⟨old, isOld, placed⟩
  synRcvd := ok.synRcvd

theorem AcceptOk.rebind (found : ctrl.hSocketNap uiTpId = some socket)
    (eType : socket.eType = .protocol) (unbound : socket.uiProtocolId = 0) (uiProtocolId : UINT) :
    AcceptOk (ctrl.setSocket { socket with uiProtocolId := uiProtocolId }) := by
  have localId := (ok.local_eq uiTpId socket found).1
  have sockets (other : UINT) :
      (ctrl.setSocket { socket with uiProtocolId := uiProtocolId }).hSocketNap other =
        if other = uiTpId then some { socket with uiProtocolId := uiProtocolId }
        else ctrl.hSocketNap other := by
    simp [TpCtrl.setSocket, localId, update_apply]
  have free : ¬ socket.accepting = true := fun accepting => by
    have conn := (ok.accepting uiTpId socket found accepting).1
    rw [eType] at conn
    cases conn
  constructor
  · intro other stored isStored
    have table := ok.tables other stored isStored
    refine table.frame (fun listener isListener _ bound => ?_)
      fun placedId placedSocket _ isPlaced accepting _ => ?_
    · rw [sockets, if_neg, isListener]
      intro same
      rw [same, found] at isListener
      cases isListener
      exact table.nonzero (bound.symm.trans unbound)
    · rw [sockets, if_neg, isPlaced]
      rintro rfl
      cases found.symm.trans isPlaced
      exact free accepting
  · intro other stored isStored
    rw [sockets] at isStored
    split at isStored
    · next same =>
      cases isStored
      exact ⟨localId.trans same.symm, same ▸ (ok.local_eq uiTpId socket found).2⟩
    · exact ok.local_eq other stored isStored
  · intro other stored isStored accepting
    rw [sockets] at isStored
    split at isStored
    · cases isStored
      exact absurd accepting free
    · exact ok.accepting other stored isStored accepting
  intro other stored isStored rcvd
  rw [sockets] at isStored
  split at isStored
  · next same =>
    cases isStored
    exact ok.synRcvd other socket (same ▸ found) rcvd
  · exact ok.synRcvd other stored isStored rcvd

theorem AcceptOk.bind (uiTpId uiProtocolId : UINT) :
    AcceptOk (tpBind outcome ctrl uiTpId uiProtocolId).1 := by
  unfold tpBind
  split
  · exact ok
  split
  · exact ok
  next bounds =>
  split
  · exact ok
  next socket found =>
  have stays := ok.treats found (.refl _)
  simp only [tpProtocolBindProtocol]
  split
  · exact stays
  next eType =>
  split
  · exact stays
  next unbound =>
  split
  · exact stays
  next conflict =>
  split
  · exact stays
  have isProtocolType := not_not.mp eType
  have rebound := ok.rebind found isProtocolType (not_not.mp unbound) uiProtocolId
  have table : TableOk (ctrl.setSocket { socket with uiProtocolId := uiProtocolId }) uiProtocolId
      { uiLocalTpId := socket.uiLocalTpId
        uiProtocolId := uiProtocolId
        uiFlag := 0
        uiAccepttingNum := 0
        astAcceptting := replicate tpProtocolMaxAcceptNum none } :=
    { nonzero := (not_or.mp bounds).2
      listener := ⟨_, update_self .., isProtocolType, rfl⟩
      size := length_replicate
      count := by rw [usedSlots_replicate]; rfl
      listens := fun _ placed => (not_mem_replicate_none _ placed).elim
      live := fun _ placed => (not_mem_replicate_none _ placed).elim
      unique := distinctSlots_replicate _ }
  refine rebound.setTable table fun old isOld => ?_
  exact absurd (isSome_iff_exists.mpr ⟨old, isOld⟩) conflict

theorem AcceptOk.listen (uiTpId : UINT) : AcceptOk (tpListen ctrl uiTpId).1 := by
  refine ok.withSocket fun socket _ => ?_
  unfold tpProtocolListen
  split
  · exact ok
  split
  · exact ok
  split
  · exact ok
  next protocol isProtocol =>
  have table := ok.tables _ protocol isProtocol
  refine ok.setTable { table with listens := fun _ _ => ?_ } fun old isOld uiTpId placed => ?_
  · rw [hasFlag_or]
    exact or_true _
  · cases isProtocol.symm.trans isOld
    exact placed

end

variable (ok : AcceptOk ctrl)

include ok in
theorem AcceptOk.accept (uiTpId : UINT) : AcceptOk (tpAccept ctrl uiTpId).1 := by
  unfold tpAccept
  split
  · exact ok
  split
  · exact ok
  unfold tpProtocolAccept
  split
  · exact ok
  split
  · exact ok
  split
  · exact ok
  next protocol isProtocol =>
  split
  · exact ok
  next i accepted isAccepted =>
  obtain ⟨acceptedId, slot, found, established⟩ := tpProtocolFindAccepted_eq_some isAccepted
  have localId := (ok.local_eq acceptedId accepted found).1
  refine ok.dropSlot isProtocol slot found localId (hasFlag_clear ..) ?_
  rw [established]
  exact nofun

include ok in
theorem AcceptOk.restrict
    (sockets : ∀ uiTpId socket, ctrlAfter.hSocketNap uiTpId = some socket →
      ctrl.hSocketNap uiTpId = some socket)
    (protocols : ∀ uiProtocolId protocol, ctrlAfter.hProtocolNap uiProtocolId = some protocol →
      ctrl.hProtocolNap uiProtocolId = some protocol)
    (listener : ∀ uiProtocolId protocol, ctrlAfter.hProtocolNap uiProtocolId = some protocol →
      ∀ uiTpId socket, ctrl.hSocketNap uiTpId = some socket → socket.eType = .protocol →
        socket.uiProtocolId = uiProtocolId → ctrlAfter.hSocketNap uiTpId = some socket)
    (live : ∀ uiProtocolId protocol, ctrlAfter.hProtocolNap uiProtocolId = some protocol →
      ∀ uiTpId socket, ctrl.hSocketNap uiTpId = some socket → socket.accepting = true →
        socket.uiProtocolId = uiProtocolId → ctrlAfter.hSocketNap uiTpId = some socket)
    (placed : ∀ uiTpId socket, ctrlAfter.hSocketNap uiTpId = some socket →
      socket.accepting = true → ∀ protocol,
        ctrl.hProtocolNap socket.uiProtocolId = some protocol →
        some uiTpId ∈ protocol.astAcceptting →
          ctrlAfter.hProtocolNap socket.uiProtocolId = some protocol) : AcceptOk ctrlAfter where
  tables uiProtocolId protocol isProtocol :=
    (ok.tables uiProtocolId protocol (protocols uiProtocolId protocol isProtocol)).frame
      (fun socket found eType bound =>
        listener uiProtocolId protocol isProtocol _ socket found eType bound)
      fun uiTpId socket _ found accepting bound =>
        live uiProtocolId protocol isProtocol uiTpId socket found accepting bound
  local_eq uiTpId socket found := ok.local_eq uiTpId socket (sockets uiTpId socket found)
  accepting uiTpId socket found accepting := by
    obtain ⟨eType, pending, protocol, isProtocol, inside⟩ :=
      ok.accepting uiTpId socket (sockets uiTpId socket found) accepting
    exact ⟨eType, pending, protocol, placed uiTpId socket found accepting protocol isProtocol inside,
      inside⟩
  synRcvd uiTpId socket found := ok.synRcvd uiTpId socket (sockets uiTpId socket found)

theorem foldl_tpSocketFreeSocket (freed : List UINT) (ctrl : TpCtrl) :
    (freed.foldl tpSocketFreeSocket ctrl).hProtocolNap = ctrl.hProtocolNap ∧
      ∀ uiTpId, (freed.foldl tpSocketFreeSocket ctrl).hSocketNap uiTpId =
        if uiTpId ∈ freed then none else ctrl.hSocketNap uiTpId := by
  induction freed generalizing ctrl with
  | nil => exact ⟨rfl, fun uiTpId => rfl⟩
  | cons first rest ih =>
    obtain ⟨protocols, sockets⟩ := ih (tpSocketFreeSocket ctrl first)
    refine ⟨protocols, fun uiTpId => ?_⟩
    rw [foldl_cons, sockets]
    simp only [tpSocketFreeSocket, update_apply, mem_cons]
    by_cases inside : uiTpId ∈ rest
    · simp [inside]
    · simp [inside]

inductive Closes (ctrl : TpCtrl) (uiTpId : UINT) (socket : TpSocket) (after : TpCtrl) : Prop where
  | socket :
      (socket.eType = .protocol → socket.uiProtocolId ≠ 0 →
        ctrl.hProtocolNap socket.uiProtocolId = none) →
      after = tpSocketFreeSocket ctrl uiTpId →
      Closes ctrl uiTpId socket after
  | listener (protocol : TpProtocol) :
      socket.eType = .protocol →
      ctrl.hProtocolNap socket.uiProtocolId = some protocol →
      after.hProtocolNap = update ctrl.hProtocolNap socket.uiProtocolId none →
      (∀ other, after.hSocketNap other =
        if other = uiTpId ∨ some other ∈ protocol.astAcceptting then none
        else ctrl.hSocketNap other) →
      Closes ctrl uiTpId socket after

theorem tpClose_closes (localId : socket.uiLocalTpId = uiTpId)
    (found : ctrl.hSocketNap uiTpId = some socket) :
    Closes ctrl uiTpId socket
      (tpSocketFreeSocket (tpProtocolUnBindProtocol ctrl socket) uiTpId) := by
  unfold tpProtocolUnBindProtocol
  split
  · next eType => exact .socket (fun isProtocolType => absurd isProtocolType eType) rfl
  next eType =>
  split
  · next unbound => exact .socket (fun _ bound => absurd unbound bound) rfl
  split
  · next absent => exact .socket (fun _ _ => absent) rfl
  next protocol isProtocol =>
  obtain ⟨protocols, sockets⟩ := foldl_tpSocketFreeSocket (protocol.astAcceptting.filterMap id) ctrl
  have inside (other : UINT) :
      other ∈ protocol.astAcceptting.filterMap id ↔ some other ∈ protocol.astAcceptting := by
    simp [mem_filterMap]
  simp only [TpCtrl.setProtocol]
  split
  · refine .listener protocol (not_not.mp eType) isProtocol ?_ fun other => ?_
    · simp only [tpSocketFreeSocket, protocols]
    simp only [tpSocketFreeSocket, update_apply, sockets, inside]
    by_cases same : other = uiTpId
    · simp [same]
    · simp [same]
  next stored isStored =>
  refine .listener protocol (not_not.mp eType) isProtocol ?_ fun other => ?_
  · simp only [tpSocketFreeSocket, TpCtrl.setSocket, protocols]
  have same : stored = socket := by
    simp only [sockets, localId, found] at isStored
    split at isStored
    · cases isStored
    · exact (some.inj isStored).symm
  simp only [tpSocketFreeSocket, TpCtrl.setSocket, same, localId, update_idem,
    update_apply, sockets, inside]
  by_cases equal : other = uiTpId
  · simp [equal]
  · simp [equal]

include ok in
theorem AcceptOk.close (found : ctrl.hSocketNap uiTpId = some socket)
    (free : socket.accepting = false) (closes : Closes ctrl uiTpId socket ctrlAfter) :
    AcceptOk ctrlAfter := by
  cases closes with
  | socket unlistened same =>
    have sockets (other : UINT) : ctrlAfter.hSocketNap other =
        if other = uiTpId then none else ctrl.hSocketNap other := by
      simp [same, tpSocketFreeSocket, update_apply]
    have protocols : ctrlAfter.hProtocolNap = ctrl.hProtocolNap := by rw [same]; rfl
    refine ok.restrict ?_ ?_ ?_ ?_ ?_
    · intro other stored isStored
      rw [sockets] at isStored
      split at isStored
      · cases isStored
      · exact isStored
    · intro other stored isStored
      exact protocols ▸ isStored
    · intro bound protocol isProtocol other listener isListener eType equal
      rw [protocols] at isProtocol
      rw [sockets, if_neg, isListener]
      rintro rfl
      cases found.symm.trans isListener
      have nonzero := (ok.tables bound protocol isProtocol).nonzero
      rw [← equal, unlistened eType (equal ▸ nonzero)] at isProtocol
      cases isProtocol
    · intro bound protocol _ other placed isPlaced accepting _
      rw [sockets, if_neg, isPlaced]
      rintro rfl
      cases found.symm.trans isPlaced
      nomatch free.symm.trans accepting
    · intro _ _ _ _ protocol isProtocol _
      rw [protocols]
      exact isProtocol
  | listener protocol _ isProtocol protocols sockets =>
    refine ok.restrict ?_ ?_ ?_ ?_ ?_
    · intro other stored isStored
      rw [sockets] at isStored
      split at isStored
      · cases isStored
      · exact isStored
    · intro other stored isStored
      rw [protocols, update_apply] at isStored
      split at isStored
      · cases isStored
      · exact isStored
    · intro bound stored isStored other listener isListener isProtocolType equal
      rw [protocols, update_apply] at isStored
      split at isStored
      · cases isStored
      next differs =>
      rw [sockets, if_neg, isListener]
      rintro (rfl | placed)
      · cases found.symm.trans isListener
        exact differs equal.symm
      obtain ⟨_, isKnown, accepting, -⟩ := (ok.tables _ protocol isProtocol).live other placed
      cases isListener.symm.trans isKnown
      have conn := (ok.accepting other listener isListener accepting).1
      rw [isProtocolType] at conn
      cases conn
    · intro bound stored isStored other placed isPlaced accepting equal
      rw [protocols, update_apply] at isStored
      split at isStored
      · cases isStored
      next differs =>
      rw [sockets, if_neg, isPlaced]
      rintro (rfl | inside)
      · cases found.symm.trans isPlaced
        nomatch free.symm.trans accepting
      obtain ⟨_, isKnown, -, -, same⟩ := (ok.tables _ protocol isProtocol).live other inside
      cases isPlaced.symm.trans isKnown
      exact differs (equal.symm.trans same)
    intro other stored isStored accepting table isTable inside
    rw [protocols, update_apply, if_neg, isTable]
    intro same
    rw [same, isProtocol] at isTable
    cases isTable
    rw [sockets, if_pos (.inr inside)] at isStored
    cases isStored

include ok in
theorem AcceptOk.add (isProtocol : ctrl.hProtocolNap uiProtocolId = some protocol)
    (listening : hasFlag protocol.uiFlag tpProtocolFlagListen = true) {i : Nat}
    (empty : protocol.astAcceptting[i]? = some none) (absent : ctrl.hSocketNap uiTpId = none)
    (nonzero : uiTpId ≠ 0) (localId : socket.uiLocalTpId = uiTpId)
    (accepting : socket.accepting = true) (eType : socket.eType = .conn)
    (rcvd : socket.uiStatus = .synRcvd) (bound : socket.uiProtocolId = uiProtocolId)
    (parent : socket.uiListenTpId = protocol.uiLocalTpId) :
    AcceptOk ((ctrl.setProtocol uiProtocolId (some { protocol with
      astAcceptting := protocol.astAcceptting.set i (some uiTpId)
      uiAccepttingNum := protocol.uiAccepttingNum + 1 })).setSocket socket) := by
  have sockets (other : UINT) : ((ctrl.setProtocol uiProtocolId (some { protocol with
      astAcceptting := protocol.astAcceptting.set i (some uiTpId)
      uiAccepttingNum := protocol.uiAccepttingNum + 1 })).setSocket socket).hSocketNap other =
        if other = uiTpId then some socket else ctrl.hSocketNap other := by
    simp [TpCtrl.setSocket, TpCtrl.setProtocol, localId, update_apply]
  have kept (other : UINT) (stored : TpSocket) (isStored : ctrl.hSocketNap other = some stored) :
      (if other = uiTpId then some socket else ctrl.hSocketNap other) = some stored := by
    rw [if_neg, isStored]
    rintro rfl
    rw [absent] at isStored
    cases isStored
  have table := ok.tables uiProtocolId protocol isProtocol
  have fresh : some uiTpId ∉ protocol.astAcceptting := fun placed => by
    obtain ⟨_, isKnown, -⟩ := table.live uiTpId placed
    rw [absent] at isKnown
    cases isKnown
  constructor
  · intro other stored isStored
    simp only [TpCtrl.setSocket, TpCtrl.setProtocol, update_apply] at isStored
    split at isStored
    · next same =>
      cases isStored
      subst same
      constructor
      · exact table.nonzero
      · obtain ⟨listener, isListener, rest⟩ := table.listener
        exact ⟨listener, (sockets _).trans (kept _ listener isListener), rest⟩
      · simp only [length_set]
        exact table.size
      · simp only [usedSlots_set_some empty, table.count, BitVec.ofNat_add]
        rfl
      · exact fun _ _ => listening
      · intro placedId placed
        rw [sockets]
        rcases (mem_set_some empty).mp placed with rfl | before
        · exact ⟨socket, if_pos rfl, accepting, parent, bound⟩
        · obtain ⟨known, isKnown, rest⟩ := table.live placedId before
          exact ⟨known, kept placedId known isKnown, rest⟩
      · exact table.unique.set_some empty fresh
    · exact (ok.tables other stored isStored).frame
        (fun listener found _ _ => (sockets _).trans (kept _ listener found))
        fun placedId known _ found _ _ => (sockets _).trans (kept placedId known found)
  · intro other stored isStored
    rw [sockets] at isStored
    split at isStored
    · next same =>
      cases isStored
      exact ⟨localId.trans same.symm, same ▸ nonzero⟩
    · exact ok.local_eq other stored isStored
  · intro other stored isStored isAccepting
    rw [sockets] at isStored
    simp only [TpCtrl.setSocket, TpCtrl.setProtocol, update_apply]
    split at isStored
    · next same =>
      cases isStored
      refine ⟨eType, .inl rcvd, _, if_pos bound, ?_⟩
      exact (mem_set_some empty).mpr (.inl same.symm)
    obtain ⟨isConn, pending, old, isOld, placed⟩ := ok.accepting other stored isStored isAccepting
    refine ⟨isConn, pending, ?_⟩
    split
    · next same =>
      rw [same, isProtocol] at isOld
      cases isOld
      exact ⟨_, rfl, (mem_set_some empty).mpr (.inr placed)⟩
    · exact ⟨old, isOld, placed⟩
  · intro other stored isStored isRcvd
    rw [sockets] at isStored
    split at isStored
    · cases isStored
      exact accepting
    · exact ok.synRcvd other stored isStored isRcvd

include ok in
theorem AcceptOk.sendRst (pkt : TpPktHead) : AcceptOk (tpPktSendRst ctrl pkt) :=
  ok.same rfl rfl

variable
  (fresh : ∀ uiTpId, outcome.socketAlloc = some uiTpId → uiTpId ≠ 0 ∧ ctrl.hSocketNap uiTpId = none)

include ok fresh in
theorem AcceptOk.synInput (pkt : TpPktHead) : AcceptOk (tpPktSynInput outcome ctrl pkt).1 := by
  unfold tpPktSynInput
  split
  · exact ok.sendRst pkt
  split
  · exact ok.sendRst pkt
  next protocol isProtocol =>
  split
  · exact ok.sendRst pkt
  next accepts =>
  split
  · exact ok.sendRst pkt
  next uiTpId alloc =>
  simp only
  split
  · exact ok.sendRst pkt
  next protocolAfter accepting isAdded =>
  obtain ⟨nonzero, absent⟩ := fresh uiTpId alloc
  have listening : hasFlag protocol.uiFlag tpProtocolFlagListen = true := by
    rw [not_eq_true', not_eq_false, tpProtocolCanAccepting, and_eq_true] at accepts
    exact accepts.1
  unfold tpProtocolAddAccepting at isAdded
  split at isAdded
  · cases isAdded
  next i first =>
  obtain ⟨inside, isEmpty, -⟩ := findIdx?_eq_some_iff_getElem.mp first
  have empty : protocol.astAcceptting[i]? = some none := by
    rw [getElem?_eq_getElem inside, beq_iff_eq.mp isEmpty]
  cases isAdded
  have flagged : hasFlag (0 ||| tpSocketFlagAccepting) tpSocketFlagAccepting = true := by decide
  have added := @AcceptOk.add ctrl uiTpId pkt.uiProtocolId
    { tpSocketNewSocket ctrl uiTpId .conn with
      uiProtocolId := pkt.uiProtocolId
      uiPeerTpId := pkt.uiSrcTpId
      iAckSn := pkt.iSn + 1
      uiStatus := .synRcvd
      uiListenTpId := protocol.uiLocalTpId
      uiFlag := 0 ||| tpSocketFlagAccepting }
    protocol ok isProtocol listening i empty absent nonzero rfl flagged rfl rfl rfl rfl
  exact (tpPktRecordAndSendPkt_treats outcome _ _).acceptOk added

include ok fresh in
theorem AcceptOk.pktInput (mbuf : Mbuf) : AcceptOk (tpPktInput outcome ctrl mbuf).1 := by
  have reset (socket : TpSocket) : SameRole socket (tpPktResetKeepAlive socket) :=
    { SameRole.refl socket with }
  unfold tpPktInput
  split
  · unfold tpPktProtocolPktIn
    split
    · exact ok
    split
    · exact ok.synInput fresh mbuf.stHead
    split
    · split
      · exact ok.sendRst _
      · exact ok
    next socket isFound =>
    have found := (tpPktFindSocket_eq_some isFound).1
    simp only
    split
    · split
      · exact ok.setSocket found (reset socket)
      have known : SameRole socket
          { tpPktResetKeepAlive socket with uiPeerTpId := mbuf.stHead.uiSrcTpId } :=
        { reset socket with }
      exact ok.treats found ((Treats.of_role known).trans (tpPktFlagsIn_treats outcome _ _))
    · exact ok.treats found
        ((Treats.of_role (reset socket)).trans (tpPktFlagsIn_treats outcome _ _))
  unfold tpPktDataInput
  split
  · exact ok
  split
  · exact ok.sendRst _
  next socket isFound =>
  have found := (tpPktFindSocket_eq_some isFound).1
  split
  · exact ok.sendRst _
  simp only
  split
  · exact ok.setSocket found (reset socket)
  split
  · refine ok.treats found (.keep ⟨?_, rfl, rfl⟩)
    exact { reset socket with }
  · exact ok.treats found ((Treats.of_role (reset socket)).trans (tpPktSendAck_treats _))

structure AcceptTables (ctrl : TpCtrl) : Prop where
  count : ∀ uiProtocolId protocol, ctrl.hProtocolNap uiProtocolId = some protocol →
    protocol.uiAccepttingNum.toNat = usedSlots protocol.astAcceptting
  live : ∀ uiProtocolId protocol uiTpId, ctrl.hProtocolNap uiProtocolId = some protocol →
    some uiTpId ∈ protocol.astAcceptting → ∃ socket, ctrl.hSocketNap uiTpId = some socket ∧
      hasFlag socket.uiFlag tpSocketFlagAccepting = true ∧
      socket.uiListenTpId = protocol.uiLocalTpId
  unique : ∀ (uiProtocolId other : UINT) (protocol stored : TpProtocol) (i j : Nat) (uiTpId : UINT),
    ctrl.hProtocolNap uiProtocolId = some protocol → ctrl.hProtocolNap other = some stored →
    protocol.astAcceptting[i]? = some (some uiTpId) →
    stored.astAcceptting[j]? = some (some uiTpId) → uiProtocolId = other ∧ i = j
  synRcvd : ∀ uiTpId socket, ctrl.hSocketNap uiTpId = some socket → socket.uiStatus = .synRcvd →
    ∃ listener protocol, ctrl.hSocketNap socket.uiListenTpId = some listener ∧
      listener.eType = .protocol ∧ ctrl.hProtocolNap listener.uiProtocolId = some protocol ∧
      protocol.uiLocalTpId = socket.uiListenTpId ∧
      hasFlag protocol.uiFlag tpProtocolFlagListen = true

include ok in
theorem AcceptOk.acceptTables : AcceptTables ctrl where
  count uiProtocolId protocol isProtocol := by
    have table := ok.tables uiProtocolId protocol isProtocol
    have bounded := usedSlots_le_length protocol.astAcceptting
    rw [table.size, tpProtocolMaxAcceptNum] at bounded
    rw [table.count, BitVec.toNat_ofNat]
    omega
  live uiProtocolId protocol uiTpId isProtocol placed := by
    obtain ⟨socket, found, accepting, parent, -⟩ :=
      (ok.tables uiProtocolId protocol isProtocol).live uiTpId placed
    exact ⟨socket, found, accepting, parent⟩
  unique uiProtocolId other protocol stored i j uiTpId isProtocol isStored atI atJ := by
    have table := ok.tables uiProtocolId protocol isProtocol
    obtain ⟨_, found, -, -, bound⟩ := table.live uiTpId (mem_slots_iff.mpr ⟨i, atI⟩)
    obtain ⟨_, isKnown, -, -, same⟩ :=
      (ok.tables other stored isStored).live uiTpId (mem_slots_iff.mpr ⟨j, atJ⟩)
    cases found.symm.trans isKnown
    have equal := bound.symm.trans same
    subst equal
    cases isProtocol.symm.trans isStored
    exact ⟨rfl, table.unique i j uiTpId atI atJ⟩
  synRcvd uiTpId socket found rcvd := by
    obtain ⟨-, -, protocol, isProtocol, placed⟩ :=
      ok.accepting uiTpId socket found (ok.synRcvd uiTpId socket found rcvd)
    have table := ok.tables _ protocol isProtocol
    obtain ⟨_, isKnown, -, parent, -⟩ := table.live uiTpId placed
    cases found.symm.trans isKnown
    obtain ⟨listener, isListener, eType, bound⟩ := table.listener
    refine ⟨listener, protocol, parent ▸ isListener, eType, ?_, parent.symm,
      table.listens uiTpId placed⟩
    rw [bound]
    exact isProtocol

/-- The condition on a step: what is closed has been accepted. -/
def ClosesAccepted (ctrl : TpCtrl) (label : TpOutcome × TpCall) : Prop :=
  ∀ uiTpId socket, label.2 = .close uiTpId → ctrl.hSocketNap uiTpId = some socket →
    hasFlag socket.uiFlag tpSocketFlagAccepting = false

include ok in
theorem AcceptOk.step {label : TpOutcome × TpCall} (closes : ClosesAccepted ctrl label)
    (enabled : label.2.Enabled label.1 ctrl) : AcceptOk (label.2.run label.1 ctrl) := by
  obtain ⟨_, call⟩ := label
  cases call with
  | socket eType => exact ok.newSocket enabled.1 eType
  | bind uiTpId uiProtocolId => exact ok.bind uiTpId uiProtocolId
  | listen uiTpId => exact ok.listen uiTpId
  | connect uiTpId uiProtocolId => exact ok.connect uiTpId uiProtocolId
  | accept uiTpId => exact ok.accept uiTpId
  | setOptNbio uiTpId nbio => exact ok.setOptNbio uiTpId nbio
  | setOptKeepAliveTime =>
    exact ok.withSocket fun socket found => ok.setSocket found { SameRole.refl socket with }
  | setDftKeepAlive => exact ok.same rfl rfl
  | sendMbuf uiTpId data => exact ok.sendMbuf uiTpId data
  | recvMbuf uiTpId => exact ok.recvMbuf uiTpId
  | close uiTpId =>
    exact ok.withSocket fun socket found => ok.close found (closes uiTpId socket rfl found)
      (tpClose_closes (ok.local_eq uiTpId socket found).1 found)
  | tiggerKeepAlive =>
    simp only [TpCall.run, tpTiggerKeepAlive]
    split
    · exact ok
    · exact ok.timer tpPktKeepAlive_treats
  | resendTimeOut => exact ok.timer tpPktResendTimeOut_treats
  | keepAliveTimeOut => exact ok.timer tpPktKeepAlive_treats
  | pktInput mbuf => exact ok.pktInput enabled.1 mbuf

theorem tpCreate_acceptOk : AcceptOk tpCreate where
  tables := nofun
  local_eq := nofun
  accepting := nofun
  synRcvd := nofun

/-- In runs that only close accepted sockets, tables and sockets fit. -/
theorem tp_acceptTables (reached : tp.ReachableWhen ClosesAccepted ctrl) : AcceptTables ctrl := by
  refine (@System.ReachableWhen.invariant _ _ tp ClosesAccepted AcceptOk ?_ ?_ ctrl
    reached).acceptTables
  · rintro _ rfl
    exact tpCreate_acceptOk
  · rintro _ _ _ ok closes ⟨enabled, rfl⟩
    exact ok.step closes enabled

/-- A connect arrives at a listener of the protocol 5. -/
def tpListening : List (TpOutcome × TpCall) :=
  [(tpOutcomeOk (some 0x80000000), .socket .protocol), (tpOutcomeOk none, .bind 0x80000000 5),
    (tpOutcomeOk none, .listen 0x80000000),
    (tpOutcomeOk (some 0x80000001), .pktInput tpSynPkt)]

def tpNext (ctrl : TpCtrl) (label : TpOutcome × TpCall) : TpCtrl :=
  label.2.run label.1 ctrl

theorem tp_acceptTables_listening :
    ∃ ctrl protocol, tp.ReachableWhen ClosesAccepted ctrl ∧
      ctrl.hProtocolNap 5 = some protocol ∧ protocol.uiAccepttingNum = 1 ∧ AcceptTables ctrl := by
  have admits (ctrl : TpCtrl) (label : TpOutcome × TpCall)
      (met : label.2.isClose = false ∧ label.2.Enabled label.1 ctrl) :
      ClosesAccepted ctrl label ∧ tp.step ctrl label (tpNext ctrl label) := by
    refine ⟨fun uiTpId socket isClose _ => ?_, met.2, rfl⟩
    rw [isClose] at met
    exact absurd met.1 nofun
  have reached : tp.ReachableWhen ClosesAccepted (tpListening.foldl tpNext tpCreate) :=
    .foldl admits (.start rfl) (by decide +kernel)
  obtain ⟨protocol, isProtocol, one⟩ : ∃ protocol ∈ (tpListening.foldl tpNext
      tpCreate).hProtocolNap 5, protocol.uiAccepttingNum = 1 := by
    decide +kernel
  exact ⟨_, protocol, reached, isProtocol, one, tp_acceptTables reached⟩

/-- The connect is established and closed before it is accepted. -/
def tpClosing : List (TpOutcome × TpCall) :=
  tpListening ++
    [(tpOutcomeOk none, .pktInput tpAckPkt), (tpOutcomeOk none, .close 0x80000001)]

theorem tp_acceptTables_closed : ¬ ∀ ctrl, tp.Reachable ctrl → AcceptTables ctrl := by
  intro holds
  have admits (ctrl : TpCtrl) (label : TpOutcome × TpCall)
      (enabled : label.2.Enabled label.1 ctrl) :
      True ∧ tp.step ctrl label (tpNext ctrl label) :=
    ⟨trivial, enabled, rfl⟩
  have reached : tp.Reachable (tpClosing.foldl tpNext tpCreate) :=
    .foldl admits (.start rfl) (by decide +kernel)
  obtain ⟨protocol, isProtocol, placed⟩ : ∃ protocol ∈ (tpClosing.foldl tpNext
      tpCreate).hProtocolNap 5, some (0x80000001 : UINT) ∈ protocol.astAcceptting := by
    decide +kernel
  obtain ⟨_, found, -⟩ := (holds _ reached).live 5 protocol 0x80000001 isProtocol placed
  cases found

end MyCode.Tp
