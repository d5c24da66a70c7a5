import MyCode.Arp.Invariant

/-!
# Every queued packet is sent or freed once

Runs of the calls, with a log of the packets that were queued, sent and freed.
-/

namespace MyCode.Arp

open Hash Vclock MacTable Lib Function List

variable {Packet : Type}

/-- A call with the answers of the callbacks and of the memory. -/
inductive ArpCall (Packet : Type) where
  | getMacByIp (uiIfIndex ulIpToResolve : UINT) (pstMbuf : Packet) (uiHostIP : UINT)
      (ifMac : MacAddr) (memory : Option NodeId)
  | addStaticARP (uiIP : UINT) (pstMac : MacAddr) (memory : Option NodeId)
  | packetInput (uiIfIndex : UINT) (pstArpHeader : Option ArpHeader) (bIsHost : Bool)
      (ifMac : MacAddr) (memory : Option NodeId)
  | timerStep

namespace ArpCall

def apply (arp : ArpInstance Packet) :
    ArpCall Packet → ArpInstance Packet × List (ArpEffect Packet)
  | getMacByIp uiIfIndex ulIpToResolve pstMbuf uiHostIP ifMac memory =>
    let (arp, effects, _) := arpGetMacByIp arp uiIfIndex ulIpToResolve pstMbuf uiHostIP ifMac memory
    (arp, effects)
  | addStaticARP uiIP pstMac memory => ((arpAddStaticARP arp uiIP pstMac memory).1, [])
  | packetInput uiIfIndex pstArpHeader bIsHost ifMac memory =>
    arpPacketInput arp uiIfIndex pstArpHeader bIsHost ifMac memory
  | timerStep => arpTimerStep arp

def memory : ArpCall Packet → Option NodeId
  | getMacByIp _ _ _ _ _ memory => memory
  | addStaticARP _ _ memory => memory
  | packetInput _ _ _ _ memory => memory
  | timerStep => none

def ticks : ArpCall Packet → Nat
  | timerStep => 1
  | _ => 0

/-- The packet that the call takes over, and its address. -/
def queues (arp : ArpInstance Packet) : ArpCall Packet → List (UINT × Packet)
  | getMacByIp uiIfIndex ulIpToResolve pstMbuf uiHostIP ifMac memory =>
    if (arpGetMacByIp arp uiIfIndex ulIpToResolve pstMbuf uiHostIP ifMac memory).2.2.1 =
      .processed then [(ulIpToResolve, pstMbuf)] else []
  | _ => []

def Replies (header : ArpHeader) : ArpCall Packet → Prop
  | packetInput _ pstArpHeader _ _ _ =>
    pstArpHeader = some header ∧ ntohs header.usOperation = arpReply
  | _ => False

end ArpCall

def ArpEffect.sends : ArpEffect Packet → Option (MacAddr × Packet)
  | sendPacket pstMbuf dstMac => some (dstMac, pstMbuf)
  | _ => none

def ArpEffect.frees : ArpEffect Packet → Option Packet
  | freePacket pstMbuf => some pstMbuf
  | _ => none

structure Queued (Packet : Type) where
  address : UINT × Packet
  since : Nat

def Queued.packet (queued : Queued Packet) : Packet :=
  queued.address.2

@[ext]
structure ArpRun (Packet : Type) where
  arp : ArpInstance Packet
  now : Nat
  queued : List (Queued Packet)
  sent : List (MacAddr × Packet)
  freed : List Packet

namespace ArpRun

variable (run : ArpRun Packet)

def start (uiTimeOutTick : UINT) : ArpRun Packet :=
  ⟨arpCreateInstance uiTimeOutTick, 0, [], [], []⟩

def next (call : ArpCall Packet) : ArpRun Packet :=
  let (arp, effects) := call.apply run.arp
  { arp := arp
    now := run.now + call.ticks
    queued := run.queued ++ (call.queues run.arp).map fun address => ⟨address, run.now⟩
    sent := run.sent ++ effects.filterMap ArpEffect.sends
    freed := run.freed ++ effects.filterMap ArpEffect.frees }

/-- A packet is handed over once, and memory that is in use is not allocated again. -/
structure Enabled (call : ArpCall Packet) : Prop where
  fresh : ∀ address ∈ call.queues run.arp, ∀ queued ∈ run.queued, queued.packet ≠ address.2
  unused : ∀ hTimer, call.memory = some hTimer → ¬Uses run.arp hTimer

structure Settled : Prop where
  once : (run.queued.map Queued.packet).Nodup
  accounted : (run.arp.waiting ++ run.sent.map Prod.snd ++ run.freed).Perm
    (run.queued.map Queued.packet)
  inTime : ∀ queued ∈ run.queued, queued.packet ∈ run.arp.waiting → run.now < queued.since + 2
  oneEntry : DistinctKeys ArpResolvingNode.ulIpToResolve run.arp.stResolvingList

structure Handles (call : ArpCall Packet) : Prop where
  replies : ∀ header, call.Replies header → ∃ packets : List Packet,
    (run.next call).sent = run.sent ++ packets.map (fun packet => (header.aucSenderHA, packet)) ∧
      (packets.reverse.map fun packet => (header.ulSenderIp, packet)).Sublist
        (run.queued.map Queued.address) ∧
      ∀ queued ∈ run.queued, queued.address.1 = header.ulSenderIp →
        queued.packet ∉ (run.next call).arp.waiting
  quiet : (∀ header, ¬call.Replies header) → (run.next call).sent = run.sent
  frees : call ≠ .timerStep → (run.next call).freed = run.freed
  static : ∀ ip entry, arpFind run.arp ip = some entry → entry.eType = .static →
    (∀ pstMac memory, call ≠ .addStaticARP ip pstMac memory) →
      arpFind (run.next call).arp ip = some entry

end ArpRun

def arpSystem (uiTimeOutTick : UINT) : System (ArpRun Packet) (ArpCall Packet) where
  start run := run = ArpRun.start uiTimeOutTick
  step run call after := run.Enabled call ∧ after = run.next call

variable {run : ArpRun Packet} {arp after : ArpInstance Packet} {now later : Nat} {ip : UINT}
  {node : ArpResolvingNode Packet} {deadline : NodeId → Nat} {packet : Packet}

/-- `deadline` is when the timer of a resolving node fires. -/
structure RunOk (run : ArpRun Packet) (deadline : NodeId → Nat) : Prop where
  ok : ArpOk run.arp run.now
  timely : Timely run.arp run.now deadline
  soon : ∀ node ∈ run.arp.stResolvingList, deadline node.vclock_node ≤ run.now + 2
  order : ∀ node ∈ run.arp.stResolvingList,
    (node.pstPacketList.reverse.map fun packet => (node.ulIpToResolve, packet)).Sublist
      (run.queued.map Queued.address)
  since : ∀ node ∈ run.arp.stResolvingList, ∀ queued ∈ run.queued,
    queued.packet ∈ node.pstPacketList → deadline node.vclock_node ≤ queued.since + 2
  once : (run.queued.map Queued.packet).Nodup
  accounted : (run.arp.waiting ++ run.sent.map Prod.snd ++ run.freed).Perm
    (run.queued.map Queued.packet)

theorem RunOk.start (uiTimeOutTick : UINT) :
    RunOk (ArpRun.start uiTimeOutTick : ArpRun Packet) fun _ => 0 := by
  obtain ⟨linked, atTick⟩ := vclockInitInstance_invariant
  have none (ip : UINT) : arpFind (arpCreateInstance uiTimeOutTick : ArpInstance Packet) ip = none :=
    rfl
  refine ⟨⟨hashInit_ok _, linked, atTick, .nil, .nil, ?_, ?_, ?_, ?_⟩, ?_, ?_, ?_, ?_, .nil, .refl _⟩
  · intro node inside
    nomatch inside
  · intro ip other entry second found
    cases (none ip).symm.trans found
  · intro node inside
    nomatch inside
  · intro hTimer running
    exact absurd rfl running
  all_goals
    intro node inside
    nomatch inside

theorem RunOk.settled (runOk : RunOk run deadline) : run.Settled := by
  refine ⟨runOk.once, runOk.accounted, ?_, runOk.ok.oneEntry⟩
  intro queued member waits
  obtain ⟨node, inside, packet⟩ := mem_flatMap.mp waits
  have armed := (runOk.timely node inside).now_lt
  have bound := runOk.since node inside queued member packet
  omega

theorem RunOk.shrink (runOk : RunOk run deadline) {sent : List (MacAddr × Packet)}
    {freed : List Packet} (ok : ArpOk after later)
    (sublist : after.stResolvingList.Sublist run.arp.stResolvingList)
    (timely : Timely after later deadline) (passes : run.now ≤ later)
    (accounted : (after.waiting ++ sent.map Prod.snd ++ freed).Perm
      (run.arp.waiting ++ run.sent.map Prod.snd ++ run.freed)) :
    RunOk ⟨after, later, run.queued, sent, freed⟩ deadline := by
  refine ⟨ok, timely, ?_, ?_, ?_, runOk.once, accounted.trans runOk.accounted⟩
  · intro node inside
    exact (runOk.soon node (sublist.subset inside)).trans (Nat.add_le_add_right passes 2)
  · intro node inside
    exact runOk.order node (sublist.subset inside)
  · intro node inside
    exact runOk.since node (sublist.subset inside)

theorem ArpOk.mem_push (ok : ArpOk arp now) (inside : node ∈ arp.stResolvingList)
    {other : ArpResolvingNode Packet}
    (member : other ∈ (arpAddPacketToResolvingNode arp node packet).stResolvingList) :
    other = { node with pstPacketList := packet :: node.pstPacketList } ∨
      other ∈ arp.stResolvingList := by
  rcases (mem_updateFirst (fun _ _ => decide_eq_true_iff) ok.apart).mp member with
    ⟨_, was, same, rfl⟩ | ⟨was, -⟩
  · rw [ok.apart.eq_of_key was inside same]
    exact .inl rfl
  · exact .inr was

theorem ArpOk.waiting_push (ok : ArpOk arp now) (inside : node ∈ arp.stResolvingList)
    (packet : Packet) :
    (arpAddPacketToResolvingNode arp node packet).waiting.Perm (packet :: arp.waiting) := by
  obtain ⟨_, split, changed⟩ := updateFirst_perm (fun _ _ => decide_eq_true_iff) ok.apart inside rfl
  have before := split.flatMap_right ArpResolvingNode.pstPacketList
  have behind := changed.flatMap_right ArpResolvingNode.pstPacketList
  exact behind.trans (before.symm.cons packet)

section

variable (runOk : RunOk run deadline)

include runOk

theorem RunOk.push (inside : node ∈ run.arp.stResolvingList)
    (fresh : ∀ queued ∈ run.queued, queued.packet ≠ packet) :
    RunOk { run with
      arp := arpAddPacketToResolvingNode run.arp node packet
      queued := run.queued ++ [⟨(node.ulIpToResolve, packet), run.now⟩] } deadline := by
  have keys : run.arp.stResolvingList.map ArpResolvingNode.keys =
      (arpAddPacketToResolvingNode run.arp node packet).stResolvingList.map
        ArpResolvingNode.keys := by
    symm
    apply map_key_updateFirst
    exact fun _ => rfl
  refine ⟨runOk.ok.packets keys, ?_, ?_, ?_, ?_, ?_, ?_⟩
  · intro other member
    obtain ⟨old, was, place⟩ := exists_same_keys keys member
    rw [← place]
    exact runOk.timely old was
  · intro other member
    obtain ⟨old, was, place⟩ := exists_same_keys keys member
    rw [← place]
    exact runOk.soon old was
  · intro other member
    rw [map_append]
    rcases runOk.ok.mem_push inside member with rfl | was
    · simp only [reverse_cons, map_append]
      exact (runOk.order node inside).append (Sublist.refl _)
    · exact (runOk.order other was).trans (sublist_append_left _ _)
  · intro other member queued isQueued waits
    rcases mem_append.mp isQueued with before | new
    · rcases runOk.ok.mem_push inside member with rfl | was
      · have waited := mem_of_ne_of_mem (fresh queued before) waits
        exact runOk.since node inside queued before waited
      · exact runOk.since other was queued before waits
    rw [mem_singleton.mp new]
    obtain ⟨old, was, place⟩ := exists_same_keys keys member
    rw [← place]
    exact runOk.soon old was
  · rw [map_append]
    refine nodup_append.mpr ⟨runOk.once, nodup_singleton _, ?_⟩
    intro first member second isSecond
    obtain ⟨queued, before, rfl⟩ := mem_map.mp member
    rw [mem_singleton.mp isSecond]
    exact fresh queued before
  · rw [map_append]
    have moved := ((runOk.ok.waiting_push inside packet).append_right
      (run.sent.map Prod.snd)).append_right run.freed
    exact (moved.trans (runOk.accounted.cons packet)).trans (perm_append_singleton _ _).symm

theorem RunOk.addResolving {hTimer : NodeId} (unused : ¬Uses run.arp hTimer)
    (absent : ∀ node ∈ run.arp.stResolvingList, node.ulIpToResolve ≠ ip) :
    RunOk { run with
      arp := { arpAddTimer run.arp hTimer arpRetryTimeInterval .resolvingTimeOut with
        stResolvingList := run.arp.stResolvingList ++ [⟨ip, hTimer, []⟩] } }
      (update deadline hTimer (run.now + 2)) := by
  obtain ⟨ok, armed, others⟩ := runOk.ok.addResolving unused absent
  have elsewhere : ∀ node ∈ run.arp.stResolvingList, node.vclock_node ≠ hTimer := by
    intro node inside same
    exact unused ⟨.resolvingTimeOut, node, inside, same⟩
  refine ⟨ok, ?_, ?_, ?_, ?_, runOk.once, ?_⟩
  · intro node inside
    rcases mem_append.mp inside with old | new
    · simp only [update_of_ne (elsewhere node old)]
      have same := others node old
      exact same ▸ runOk.timely node old
    · rw [mem_singleton.mp new]
      simp only [update_self]
      exact armed
  · intro node inside
    rcases mem_append.mp inside with old | new
    · rw [update_of_ne (elsewhere node old)]
      exact runOk.soon node old
    · rw [mem_singleton.mp new, update_self]
  · intro node inside
    rcases mem_append.mp inside with old | new
    · exact runOk.order node old
    · rw [mem_singleton.mp new]
      exact nil_sublist _
  · intro node inside
    rcases mem_append.mp inside with old | new
    · rw [update_of_ne (elsewhere node old)]
      exact runOk.since node old
    rw [mem_singleton.mp new]
    intro _ _ impossible
    nomatch impossible
  have same : ({ run.arp with
      stResolvingList := run.arp.stResolvingList ++ [⟨ip, hTimer, []⟩] } :
        ArpInstance Packet).waiting = run.arp.waiting := by
    rw [ArpInstance.waiting, flatMap_append]
    exact append_nil _
  have accounted := runOk.accounted
  rw [← same] at accounted
  exact accounted

theorem RunOk.not_waiting (absent : ∀ node ∈ run.arp.stResolvingList, node.ulIpToResolve ≠ ip) :
    ∀ queued ∈ run.queued, queued.address.1 = ip → queued.packet ∉ run.arp.waiting := by
  intro queued member isIp waits
  obtain ⟨node, inside, packet⟩ := mem_flatMap.mp waits
  have logged := (runOk.order node inside).subset (mem_map_of_mem (mem_reverse.mpr packet))
  obtain ⟨other, isOther, address⟩ := mem_map.mp logged
  have samePacket : other.packet = queued.packet := by
    rw [Queued.packet, address]
  have same := inj_on_of_nodup_map runOk.once isOther member samePacket
  rw [same] at address
  exact absent node inside ((congrArg Prod.fst address).symm.trans isIp)

theorem RunOk.added {eType : ArpType} (added : Added run.arp after run.now ip eType) :
    RunOk { run with arp := after } deadline := by
  have waiting : after.waiting = run.arp.waiting := by
    rw [ArpInstance.waiting, added.list]
    rfl
  apply runOk.shrink added.ok
  · rw [added.list]
  · intro node inside
    rw [added.list] at inside
    rw [added.timer node inside]
    exact runOk.timely node inside
  · exact le_rfl
  · rw [waiting]

theorem RunOk.resolved (inside : node ∈ run.arp.stResolvingList) (mac : MacAddr) :
    RunOk { run with
      arp := (arpFreeResolvingNode
        { run.arp with hVclock := vclockDelTimer run.arp.hVclock node.vclock_node }
        { node with pstPacketList := [] }).1
      sent := run.sent ++ node.pstPacketList.map fun packet => (mac, packet) } deadline := by
  obtain ⟨linked, atTick, stopped, others⟩ :=
    @vclockDelTimer_invariant _ node.vclock_node _ runOk.ok.linked runOk.ok.atTick
  have wheel : ArpOk { run.arp with hVclock := vclockDelTimer run.arp.hVclock node.vclock_node }
      run.now := by
    refine runOk.ok.wheel linked atTick fun hTimer running => ?_
    have differs : hTimer ≠ node.vclock_node := by
      rintro rfl
      exact running stopped
    rw [others hTimer differs] at running ⊢
    exact ⟨running, rfl⟩
  apply runOk.shrink (wheel.erase stopped) eraseP_sublist
  · intro other kept
    obtain ⟨member, differs⟩ := wheel.mem_erased.mp kept
    have same := others other.vclock_node differs
    exact same ▸ runOk.timely other member
  · exact le_rfl
  have moved := wheel.waiting_erase inside
  have packets : (node.pstPacketList.map fun packet => (mac, packet)).map Prod.snd =
      node.pstPacketList := by
    rw [map_map]
    exact map_id _
  rw [map_append, packets]
  apply Perm.append_right
  refine perm_append_comm.trans ?_
  rw [append_assoc]
  exact (moved.symm.append_left _).trans perm_append_comm

end

structure Resolves (run : ArpRun Packet) (header : ArpHeader) (after : ArpInstance Packet)
    (packets : List Packet) (deadline : NodeId → Nat) : Prop where
  runOk : RunOk { run with
    arp := after
    sent := run.sent ++ packets.map fun packet => (header.aucSenderHA, packet) } deadline
  order : (packets.reverse.map fun packet => (header.ulSenderIp, packet)).Sublist
    (run.queued.map Queued.address)
  absent : ∀ node ∈ after.stResolvingList, node.ulIpToResolve ≠ header.ulSenderIp
  static : ∀ ip entry, arpFind run.arp ip = some entry → entry.eType = .static →
    arpFind after ip = some entry

theorem Added.static_kept (added : Added arp after now ip .dynamic) :
    ∀ ip entry, arpFind arp ip = some entry → entry.eType = .static →
      arpFind after ip = some entry := by
  intro other entry found isStatic
  by_cases same : other = ip
  · subst same
    exact added.static entry found isStatic rfl
  · rwa [added.find other same]

theorem arpGetResolvingNode_some (found : arpGetResolvingNode arp ip = some node) :
    node ∈ arp.stResolvingList ∧ node.ulIpToResolve = ip := by
  refine ⟨mem_of_find?_eq_some found, ?_⟩
  have passes := find?_some found
  simpa only [decide_eq_true_iff] using passes

theorem arpGetResolvingNode_none (missing : arpGetResolvingNode arp ip = none) :
    ∀ node ∈ arp.stResolvingList, node.ulIpToResolve ≠ ip := by
  intro node inside same
  exact find?_eq_none.mp missing node inside (decide_eq_true same)

theorem RunOk.reply (runOk : RunOk run deadline) (header : ArpHeader) {memory : Option NodeId}
    (unused : ∀ hTimer, memory = some hTimer → ¬Uses run.arp hTimer) :
    Resolves run header (arpInnerDealArpReplay run.arp header memory).1
      (arpInnerDealArpReplay run.arp header memory).2 deadline := by
  rw [arpInnerDealArpReplay]
  cases found : arpGetResolvingNode run.arp header.ulSenderIp with
  | none =>
    refine ⟨?_, nil_sublist _, arpGetResolvingNode_none found, fun _ _ found _ => found⟩
    rw [map_nil, append_nil]
    exact runOk
  | some node =>
    obtain ⟨inside, isIp⟩ := arpGetResolvingNode_some found
    have resolved := runOk.resolved inside header.aucSenderHA
    have still : ∀ hTimer, memory = some hTimer → ¬Uses (arpFreeResolvingNode
        { run.arp with hVclock := vclockDelTimer run.arp.hVclock node.vclock_node }
        { node with pstPacketList := [] }).1 hTimer := by
      rintro hTimer isMemory ⟨pfFunc, owns⟩
      refine unused hTimer isMemory ⟨pfFunc, owns.later ?_ ?_⟩
      · intro other kept place
        exact ⟨other, eraseP_subset kept, place⟩
      · intro ip entry found place
        exact ⟨ip, entry, found, place⟩
    have added := resolved.ok.add header.ulSenderIp header.aucSenderHA .dynamic still
    refine ⟨resolved.added added, ?_, ?_, added.static_kept⟩
    · rw [← isIp]
      exact runOk.order node inside
    intro other kept same
    rw [added.list] at kept
    obtain ⟨member, differs⟩ := runOk.ok.mem_erased.mp kept
    have isNode := runOk.ok.oneEntry.eq_of_key member inside (same.trans isIp.symm)
    exact differs (by rw [isNode])

structure Quiet (run : ArpRun Packet) (call : ArpCall Packet) : Prop where
  sent : (run.next call).sent = run.sent
  freed : (run.next call).freed = run.freed
  static : ∀ ip entry, arpFind run.arp ip = some entry → entry.eType = .static →
    (∀ pstMac memory, call ≠ .addStaticARP ip pstMac memory) →
      arpFind (run.next call).arp ip = some entry

theorem Quiet.handles {call : ArpCall Packet} (quiet : Quiet run call)
    (silent : ∀ header, ¬call.Replies header) : run.Handles call where
  replies header isReply := absurd isReply (silent header)
  quiet _ := quiet.sent
  frees _ := quiet.freed
  static := quiet.static

structure Asked (run : ArpRun Packet) (address : UINT × Packet)
    (result : ArpInstance Packet × List (ArpEffect Packet) × BsStatus × Option MacAddr)
    (deadline : NodeId → Nat) : Prop where
  sends : result.2.1.filterMap ArpEffect.sends = []
  frees : result.2.1.filterMap ArpEffect.frees = []
  entries : result.1.hHashId = run.arp.hHashId
  runOk : RunOk { run with
    arp := result.1
    queued := run.queued ++ (if result.2.2.1 = .processed then [address] else []).map
      fun address => ⟨address, run.now⟩ } deadline

section

variable (runOk : RunOk run deadline)

include runOk

theorem Asked.idle (address : UINT × Packet) {status : BsStatus} (differs : status ≠ .processed)
    (mac : Option MacAddr) : Asked run address (run.arp, [], status, mac) deadline := by
  refine ⟨rfl, rfl, rfl, ?_⟩
  simp only [if_neg differs, map_nil, append_nil]
  exact runOk

theorem RunOk.asked (uiIfIndex ulIpToResolve : UINT) (pstMbuf : Packet)
    (uiHostIP : UINT) (ifMac : MacAddr) {memory : Option NodeId}
    (fresh : (arpGetMacByIp run.arp uiIfIndex ulIpToResolve pstMbuf uiHostIP ifMac memory).2.2.1 =
      .processed → ∀ queued ∈ run.queued, queued.packet ≠ pstMbuf)
    (unused : ∀ hTimer, memory = some hTimer → ¬Uses run.arp hTimer) :
    ∃ deadline, Asked run (ulIpToResolve, pstMbuf)
      (arpGetMacByIp run.arp uiIfIndex ulIpToResolve pstMbuf uiHostIP ifMac memory) deadline := by
  rw [arpGetMacByIp] at fresh ⊢
  cases entry : arpFind run.arp ulIpToResolve with
  | some => exact ⟨deadline, .idle runOk _ (by decide) _⟩
  | none =>
    simp only [entry, arpResolveIp] at fresh ⊢
    cases found : arpGetResolvingNode run.arp ulIpToResolve with
    | some =>
      obtain ⟨inside, rfl⟩ := arpGetResolvingNode_some found
      simp only [found] at fresh ⊢
      exact ⟨deadline, rfl, rfl, rfl, runOk.push inside (fresh trivial)⟩
    | none =>
      simp only [found] at fresh ⊢
      by_cases without : uiHostIP = 0
      · simp only [if_pos without]
        exact ⟨deadline, .idle runOk _ (by decide) _⟩
      simp only [if_neg without] at fresh ⊢
      cases memory with
      | none => exact ⟨deadline, .idle runOk _ (by decide) _⟩
      | some hTimer =>
        have added := runOk.addResolving (unused hTimer rfl) (arpGetResolvingNode_none found)
        have inside : (⟨ulIpToResolve, hTimer, []⟩ : ArpResolvingNode Packet) ∈
            run.arp.stResolvingList ++ [⟨ulIpToResolve, hTimer, []⟩] :=
          mem_append_right _ (mem_singleton_self _)
        exact ⟨_, rfl, rfl, rfl, added.push inside (fresh rfl)⟩

theorem RunOk.getMacByIp {uiIfIndex ulIpToResolve uiHostIP : UINT}
    {pstMbuf : Packet} {ifMac : MacAddr} {memory : Option NodeId} {call : ArpCall Packet}
    (isCall : call = .getMacByIp uiIfIndex ulIpToResolve pstMbuf uiHostIP ifMac memory)
    (enabled : run.Enabled call) :
    (∃ deadline, RunOk (run.next call) deadline) ∧ Quiet run call := by
  subst isCall
  have fresh := enabled.fresh
  have unused : ∀ hTimer, memory = some hTimer → ¬Uses run.arp hTimer := enabled.unused
  simp only [ArpCall.queues] at fresh
  obtain ⟨deadline, asked⟩ := runOk.asked uiIfIndex ulIpToResolve pstMbuf uiHostIP ifMac
    (fun processed => by
      rw [if_pos processed] at fresh
      exact fresh _ (mem_singleton_self _)) unused
  have sends := (congrArg (run.sent ++ ·) asked.sends).trans (append_nil _)
  have frees := (congrArg (run.freed ++ ·) asked.frees).trans (append_nil _)
  refine ⟨⟨deadline, ?_⟩, sends, frees, ?_⟩
  · have isNext : run.next (.getMacByIp uiIfIndex ulIpToResolve pstMbuf uiHostIP ifMac memory) =
        { run with arp := _, queued := _ } :=
      ArpRun.ext rfl rfl rfl sends frees
    rw [isNext]
    exact asked.runOk
  · intro ip entry found _ _
    exact (congrArg (fun hash => hashFind arpHashFuncs hash ip) asked.entries).trans found

theorem RunOk.writes {call : ArpCall Packet} {eType : ArpType}
    (added : Added run.arp (call.apply run.arp).1 run.now ip eType)
    (sends : (call.apply run.arp).2.filterMap ArpEffect.sends = [])
    (frees : (call.apply run.arp).2.filterMap ArpEffect.frees = [])
    (ticks : call.ticks = 0) (queues : call.queues run.arp = [])
    (kept : ∀ other entry, arpFind run.arp other = some entry → entry.eType = .static →
      (∀ pstMac memory, call ≠ .addStaticARP other pstMac memory) →
        arpFind (call.apply run.arp).1 other = some entry) :
    (∃ deadline, RunOk (run.next call) deadline) ∧ Quiet run call := by
  have sent := (congrArg (run.sent ++ ·) sends).trans (append_nil _)
  have freed := (congrArg (run.freed ++ ·) frees).trans (append_nil _)
  have queued : run.queued ++ (call.queues run.arp).map (fun address =>
      (⟨address, run.now⟩ : Queued Packet)) = run.queued := by
    rw [queues]
    exact append_nil _
  have isNext : run.next call = { run with arp := (call.apply run.arp).1 } :=
    ArpRun.ext rfl (congrArg (run.now + ·) ticks) queued sent freed
  refine ⟨⟨deadline, ?_⟩, sent, freed, kept⟩
  rw [isNext]
  exact runOk.added added

theorem RunOk.addStaticARP {uiIP : UINT} {pstMac : MacAddr}
    {memory : Option NodeId} (unused : ∀ hTimer, memory = some hTimer → ¬Uses run.arp hTimer) :
    (∃ deadline, RunOk (run.next (.addStaticARP uiIP pstMac memory)) deadline) ∧
      Quiet run (.addStaticARP uiIP pstMac memory) := by
  have added := runOk.ok.add uiIP pstMac .static unused
  refine runOk.writes added rfl rfl rfl rfl ?_
  intro other entry found _ differs
  have elsewhere : other ≠ uiIP := by
    rintro rfl
    exact differs pstMac memory rfl
  exact (added.find other elsewhere).trans found

theorem RunOk.packetInput {uiIfIndex : UINT} {pstArpHeader : Option ArpHeader} {bIsHost : Bool}
    {ifMac : MacAddr} {memory : Option NodeId} {call : ArpCall Packet}
    (isCall : call = .packetInput uiIfIndex pstArpHeader bIsHost ifMac memory)
    (unused : ∀ hTimer, memory = some hTimer → ¬Uses run.arp hTimer)
    (silent : ∀ header, ¬call.Replies header) :
    (∃ deadline, RunOk (run.next call) deadline) ∧ Quiet run call := by
  have isResult : call.apply run.arp =
      arpPacketInput run.arp uiIfIndex pstArpHeader bIsHost ifMac memory := by
    rw [isCall]
    rfl
  have write {ip : UINT} (added : Added run.arp (call.apply run.arp).1 run.now ip .dynamic)
      (sends : (call.apply run.arp).2.filterMap ArpEffect.sends = [])
      (frees : (call.apply run.arp).2.filterMap ArpEffect.frees = []) :
      (∃ deadline, RunOk (run.next call) deadline) ∧ Quiet run call := by
    refine runOk.writes added sends frees ?_ ?_ fun other entry found isStatic _ =>
      added.static_kept other entry found isStatic
    · rw [isCall]
      rfl
    · rw [isCall]
      rfl
  have idle (nothing : call.apply run.arp = (run.arp, [])) :
      (∃ deadline, RunOk (run.next call) deadline) ∧ Quiet run call := by
    have same : Added run.arp run.arp run.now 0 .dynamic := .refl runOk.ok _
    rw [nothing] at write
    exact write same rfl rfl
  cases pstArpHeader with
  | none => exact idle isResult
  | some header =>
    rw [arpPacketInput] at isResult
    split at isResult
    · rw [arpDealArpRequest] at isResult
      split at isResult
      · exact idle isResult
      · rw [isResult] at write
        exact write (runOk.ok.add header.ulSenderIp header.aucSenderHA .dynamic unused) rfl rfl
    split at isResult
    · next isReply =>
      refine absurd ?_ (silent header)
      rw [isCall]
      exact ⟨rfl, isReply⟩
    · exact idle isResult

end

theorem sends_arpReSendMbufList (packets : List Packet) (mac : MacAddr) :
    (arpReSendMbufList packets mac).filterMap ArpEffect.sends =
      packets.map fun packet => (mac, packet) := by
  rw [arpReSendMbufList, filterMap_map]
  exact congrFun filterMap_eq_map packets

theorem frees_arpReSendMbufList (packets : List Packet) (mac : MacAddr) :
    (arpReSendMbufList packets mac).filterMap ArpEffect.frees = [] := by
  rw [arpReSendMbufList, filterMap_map]
  exact filterMap_eq_nil_iff.mpr fun _ _ => rfl

theorem RunOk.handles_reply (runOk : RunOk run deadline) {header : ArpHeader}
    {call : ArpCall Packet} (isReply : call.Replies header)
    (unused : ∀ hTimer, call.memory = some hTimer → ¬Uses run.arp hTimer) :
    RunOk (run.next call) deadline ∧ run.Handles call := by
  cases call with
  | getMacByIp => exact isReply.elim
  | addStaticARP => exact isReply.elim
  | timerStep => exact isReply.elim
  | packetInput uiIfIndex _ bIsHost ifMac memory =>
    obtain ⟨rfl, operation⟩ := isReply
    have resolves := runOk.reply header unused
    have isResult : arpPacketInput run.arp uiIfIndex (some header) bIsHost ifMac memory =
        arpDealArpReply run.arp header memory := by
      rw [arpPacketInput, if_neg (by rw [operation]; decide), if_pos operation]
    have sends : (arpPacketInput run.arp uiIfIndex (some header) bIsHost ifMac
        memory).2.filterMap ArpEffect.sends =
          (arpInnerDealArpReplay run.arp header memory).2.map fun packet =>
            (header.aucSenderHA, packet) := by
      rw [isResult]
      exact sends_arpReSendMbufList _ _
    have frees : (arpPacketInput run.arp uiIfIndex (some header) bIsHost ifMac
        memory).2.filterMap ArpEffect.frees = [] := by
      rw [isResult]
      exact frees_arpReSendMbufList _ _
    have freed := (congrArg (run.freed ++ ·) frees).trans (append_nil _)
    have isNext : run.next (.packetInput uiIfIndex (some header) bIsHost ifMac memory) =
        { run with arp := (arpInnerDealArpReplay run.arp header memory).1, sent := _ } :=
      ArpRun.ext (congrArg Prod.fst isResult) rfl (append_nil _)
        (congrArg (run.sent ++ ·) sends) freed
    refine ⟨?_, ?_, ?_, fun _ => freed, ?_⟩
    · rw [isNext]
      exact resolves.runOk
    · rintro _ ⟨same, -⟩
      obtain rfl := Option.some.inj same
      refine ⟨_, congrArg (run.sent ++ ·) sends, resolves.order, ?_⟩
      rw [isNext]
      exact resolves.runOk.not_waiting resolves.absent
    · intro silent
      exact absurd ⟨rfl, operation⟩ (silent header)
    · rw [isNext]
      exact fun ip entry found isStatic _ => resolves.static ip entry found isStatic

theorem RunOk.timerStep (runOk : RunOk run deadline) :
    RunOk (run.next .timerStep) deadline ∧ run.Handles .timerStep := by
  obtain ⟨stepped, timely⟩ := runOk.ok.timerStep runOk.timely
  obtain ⟨freed, isFreed, perm⟩ := stepped.freed
  have sends : (arpTimerStep run.arp).2.filterMap ArpEffect.sends = [] := by
    rw [isFreed, filterMap_map]
    exact filterMap_eq_nil_iff.mpr fun _ _ => rfl
  have frees : (arpTimerStep run.arp).2.filterMap ArpEffect.frees = freed := by
    rw [isFreed, filterMap_map]
    exact filterMap_some
  have sent := (congrArg (run.sent ++ ·) sends).trans (append_nil _)
  have isNext : run.next .timerStep =
      ⟨(arpTimerStep run.arp).1, run.now + 1, run.queued, run.sent, run.freed ++ freed⟩ :=
    ArpRun.ext rfl rfl (append_nil _) sent (congrArg (run.freed ++ ·) frees)
  refine ⟨?_, fun header isReply => isReply.elim, fun _ => sent, fun differs => absurd rfl differs,
    fun ip entry found isStatic _ => stepped.static ip entry found isStatic⟩
  rw [isNext]
  apply runOk.shrink stepped.ok stepped.sublist timely (Nat.le_succ _)
  have moved := (perm.append_right (run.sent.map Prod.snd)).append_right run.freed
  rw [← append_assoc]
  refine perm_append_comm.trans (Perm.trans ?_ moved.symm)
  rw [append_assoc, append_assoc, append_assoc]

theorem RunOk.next (runOk : RunOk run deadline) {call : ArpCall Packet}
    (enabled : run.Enabled call) :
    (∃ deadline, RunOk (run.next call) deadline) ∧ run.Handles call := by
  by_cases isReply : ∃ header, call.Replies header
  · obtain ⟨_, replies⟩ := isReply
    obtain ⟨nextOk, handles⟩ := runOk.handles_reply replies enabled.unused
    exact ⟨⟨deadline, nextOk⟩, handles⟩
  have silent : ∀ header, ¬call.Replies header := fun header replies =>
    isReply ⟨header, replies⟩
  cases isCall : call with
  | getMacByIp =>
    rw [← isCall]
    exact (runOk.getMacByIp isCall enabled).imp_right fun quiet => quiet.handles silent
  | addStaticARP =>
    rw [isCall] at enabled silent
    exact (runOk.addStaticARP enabled.unused).imp_right fun quiet => quiet.handles silent
  | packetInput _ _ _ _ memory =>
    have unused : ∀ hTimer, memory = some hTimer → ¬Uses run.arp hTimer := by
      rw [isCall] at enabled
      exact enabled.unused
    rw [← isCall]
    exact (runOk.packetInput isCall unused silent).imp_right fun quiet => quiet.handles silent
  | timerStep =>
    obtain ⟨nextOk, handles⟩ := runOk.timerStep
    exact ⟨⟨deadline, nextOk⟩, handles⟩

theorem RunOk.reachable {uiTimeOutTick : UINT} (reached : (arpSystem uiTimeOutTick).Reachable run) :
    ∃ deadline, RunOk run deadline := by
  refine @System.Reachable.invariant _ _ _ (fun run => ∃ deadline, RunOk run deadline) ?_ ?_ _ reached
  · rintro _ rfl
    exact ⟨_, .start uiTimeOutTick⟩
  · rintro _ _ next ⟨_, runOk⟩ ⟨enabled, rfl⟩
    exact (runOk.next enabled).1

/-- Every packet that was taken over waits, was sent or was freed, once, and none waits long. -/
theorem arp_keeps_packets {uiTimeOutTick : UINT}
    (reached : (arpSystem uiTimeOutTick).Reachable run) :
    run.Settled ∧ ∀ call, run.Enabled call → run.Handles call := by
  obtain ⟨_, runOk⟩ := RunOk.reachable reached
  exact ⟨runOk.settled, fun call enabled => (runOk.next enabled).2⟩

def firstPacket : ArpCall Nat :=
  .getMacByIp 1 0x0a000001 7 0x0a000002 zeroMac (some 0)

def secondPacket : ArpCall Nat :=
  .getMacByIp 1 0x0a000001 8 0x0a000002 zeroMac none

def replyToBoth : ArpCall Nat :=
  .packetInput 1 (some ⟨htons arpReply, broadcastMac, 0x0a000001, zeroMac, 0x0a000002⟩) true
    zeroMac none

def exampleRun : ArpRun Nat :=
  (((ArpRun.start 5).next firstPacket).next secondPacket).next replyToBoth

theorem exampleRun_reachable : (arpSystem 5).Reachable exampleRun := by
  have enabled (run : ArpRun Nat) (call : ArpCall Nat)
      (fresh : ∀ address ∈ call.queues run.arp, ∀ queued ∈ run.queued, queued.packet ≠ address.2)
      (without : call.memory = none) : run.Enabled call := by
    refine ⟨fresh, fun hTimer isMemory => ?_⟩
    cases without.symm.trans isMemory
  have first : (arpSystem 5).Reachable ((ArpRun.start 5).next firstPacket) := by
    refine .step (.start rfl) trivial ⟨⟨by decide, ?_⟩, rfl⟩
    rintro _ - ⟨pfFunc, owns⟩
    cases pfFunc with
    | resolvingTimeOut =>
      obtain ⟨_, inside, -⟩ := owns
      nomatch inside
    | nodeTimeOut =>
      obtain ⟨_, _, found, -⟩ := owns
      cases found
  have second := first.next ⟨enabled _ secondPacket (by decide) rfl, rfl⟩
  exact second.next ⟨enabled _ replyToBoth (by decide) rfl, rfl⟩

theorem arp_keeps_packets_example : exampleRun.Settled ∧
    ∀ call, exampleRun.Enabled call → exampleRun.Handles call :=
  arp_keeps_packets exampleRun_reachable

/-- One reply sends the packet that was queued last first. -/
theorem arp_sends_latest_first : (arpSystem 5).Reachable exampleRun ∧
    exampleRun.queued.map Queued.address = [(0x0a000001, 7), (0x0a000001, 8)] ∧
      exampleRun.sent = [(broadcastMac, 8), (broadcastMac, 7)] ∧
        ¬(exampleRun.sent.map Prod.snd).Sublist (exampleRun.queued.map Queued.packet) :=
  ⟨exampleRun_reachable, by decide, by decide, by decide⟩

end MyCode.Arp
