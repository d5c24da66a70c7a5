import MyCode.TcpReassemble

/-!
# Segments that overlap

The expected number is taken from every held segment that is handed out, also
from one that begins before it.  Packets are arbitrary here, and places in the
stream are counted from the first expected byte on.
-/

namespace MyCode.TcpReassemble

open BitVec Option List

/-- The amounts by which `tryReassemble` moves the expected number, one for each packet. -/
def tryMoves (sn : UINT) : List TcpReassemblePkt → List UINT
  | [] => []
  | pktnode :: rest =>
    if (sn - pktnode.pkt_sn).toInt < 0 then
      []
    else
      let next := pktnode.pkt_sn + pktnode.len.setWidth 32
      (next - sn) :: tryMoves next rest

def TcpReassemblePktinfo.behind (pktinfo : TcpReassemblePktinfo) : UINT :=
  if isSynFin pktinfo.flag then pktinfo.sn + pktinfo.tcp_payload_len + 1
  else pktinfo.sn + pktinfo.tcp_payload_len

/-- The amounts by which a call moves the expected number. -/
def snMoves (flow : TcpReassembleFlow) (pktinfo : TcpReassemblePktinfo) : List UINT :=
  if pktinfo.sn = flow.sn ∧ isHaveThisPkt pktinfo.sn flow.pkts_list = false then
    (pktinfo.behind - flow.sn) :: tryMoves pktinfo.behind flow.pkts_list
  else []

/-- Where a packet lies in the stream, with the number of its bytes. -/
structure Placed where
  place : Int
  size : Nat

def Placed.Has (placed : Placed) (byte : Int) : Prop :=
  placed.place ≤ byte ∧ byte < placed.place + placed.size

/-- A flow, the place of its expected number, all packets that arrived and the ones handed out. -/
structure SerialRun where
  flow : TcpReassembleFlow
  expected : Int
  arrived : List Placed
  handed : List Nat

structure PktArrival where
  pktinfo : TcpReassemblePktinfo
  memory : Bool

section Runs

variable (init_sn : UINT) (max_segs_per_flow : USHORT)

def SerialRun.begin : SerialRun :=
  ⟨tcpRInitFlow init_sn, 0, [], []⟩

/-- The packets are numbered as they arrive.  Each lies where its number puts it from the expected
one on. -/
def SerialRun.next (run : SerialRun) (arrival : PktArrival) : SerialRun :=
  let pktinfo := { arrival.pktinfo with pkt := run.arrived.length }
  let (flow, _, out) := tcpRInput max_segs_per_flow arrival.memory run.flow pktinfo
  { flow := flow
    expected := (snMoves run.flow pktinfo).foldl (fun place move => place + move.toInt) run.expected
    arrived := run.arrived ++
      [⟨run.expected + (pktinfo.sn - run.flow.sn).toInt, pktinfo.tcp_payload_len.toNat⟩]
    handed := run.handed ++ out }

def serialSystem : Lib.System SerialRun PktArrival where
  start run := run = .begin init_sn
  step run arrival after := after = run.next max_segs_per_flow arrival

end Runs

/-- No byte of the stream is in two packets that were handed out. -/
def BytesOnce (run : SerialRun) : Prop :=
  run.handed.Pairwise fun first second => ∀ earlier later, run.arrived[first]? = some earlier →
    run.arrived[second]? = some later → ∀ byte, ¬ (earlier.Has byte ∧ later.Has byte)

/-- The call moves the expected number forward only. -/
def MovesForward (flow : TcpReassembleFlow) (pktinfo : TcpReassemblePktinfo) : Prop :=
  ∀ move ∈ snMoves flow pktinfo, 0 ≤ move.toInt

/-- The held packets whose turn comes begin at the number that is expected then. -/
def Meets (sn : UINT) : List TcpReassemblePkt → Prop
  | [] => True
  | pktnode :: rest =>
    (sn - pktnode.pkt_sn).toInt < 0 ∨
      sn = pktnode.pkt_sn ∧ Meets (pktnode.pkt_sn + pktnode.len.setWidth 32) rest

/-- A payload of a segment, and no held packet that begins before the end of what is handed out. -/
structure Orderly (run : SerialRun) (arrival : PktArrival) : Prop where
  fits : arrival.pktinfo.tcp_payload_len.toNat < 2 ^ 16
  meets : arrival.pktinfo.sn = run.flow.sn → Meets arrival.pktinfo.behind run.flow.pkts_list

variable {init_sn : UINT} {a b : Int}

def numberAt (init_sn : UINT) (place : Int) : UINT :=
  init_sn + BitVec.ofInt 32 place

theorem numberAt_add (a b : Int) : numberAt init_sn
    (a + b) = numberAt init_sn a + BitVec.ofInt 32 b := by
  rw [numberAt, ofInt_add, numberAt, BitVec.add_assoc]

theorem numberAt_add_nat (place : Int) (size : Nat) :
    numberAt init_sn (place + size) = numberAt init_sn place + BitVec.ofNat 32 size := by
  rw [numberAt_add, ofInt_natCast]

theorem numberAt_sub_toInt (ahead : a < b + 2 ^ 31) (behind : b ≤ a + 2 ^ 31) :
    (numberAt init_sn a - numberAt init_sn b).toInt = a - b := by
  have difference : numberAt init_sn a - numberAt init_sn b = BitVec.ofInt 32 (a - b) := by
    have sum : numberAt init_sn a = numberAt init_sn b + BitVec.ofInt 32 (a - b) := by
      rw [← numberAt_add]
      congr 1
      omega
    rw [sum, BitVec.add_comm, add_sub_cancel]
  rw [difference]
  apply toInt_ofInt_eq_self (by decide)
  · omega
  · omega

structure Held where
  pkt : Nat
  place : Int
  len : USHORT

def Held.node (init_sn : UINT) (held : Held) : TcpReassemblePkt :=
  ⟨held.pkt, numberAt init_sn held.place, held.len⟩

def Held.stop (held : Held) : Int :=
  held.place + held.len.toNat

theorem numberAt_stop (held : Held) :
    numberAt init_sn held.stop = numberAt init_sn held.place + held.len.setWidth 32 := by
  rw [Held.stop, numberAt_add_nat, ofNat_toNat]

variable {first : Held} {held : List Held} {place : Int}

theorem isHaveThisPkt_absent
    (near : ∀ other ∈ held, place < other.place + 2 ^ 31 ∧ other.place ≤ place + 2 ^ 31)
    (ascending : held.Pairwise fun before after => before.place < after.place)
    (absent : isHaveThisPkt (numberAt init_sn place) (held.map (Held.node init_sn)) = false) :
    ∀ other ∈ held, other.place ≠ place := by
  induction held with
  | nil => exact nofun
  | cons first _ ih =>
    obtain ⟨later, ascendingRest⟩ := pairwise_cons.mp ascending
    have offset := @numberAt_sub_toInt init_sn _ _ (near first mem_cons_self).1
      (near first mem_cons_self).2
    simp only [map_cons, isHaveThisPkt, Held.node, offset] at absent
    intro other inside same
    by_cases negative : place - first.place < 0
    · rcases mem_cons.mp inside with rfl | inRest
      · omega
      · have := later other inRest
        omega
    rw [if_neg negative] at absent
    by_cases zero : numberAt init_sn place - numberAt init_sn first.place = 0
    · rw [if_pos zero] at absent
      cases absent
    rw [if_neg zero] at absent
    rcases mem_cons.mp inside with rfl | inRest
    · rw [same, BitVec.sub_self] at zero
      exact zero rfl
    · exact ih (fun other inRest => near other (mem_cons_of_mem _ inRest))
        ascendingRest absent other inRest same

theorem sortAddPkt_node
    (near : ∀ other ∈ held, first.place < other.place + 2 ^ 31 ∧ other.place ≤ first.place + 2 ^ 31) :
    sortAddPkt (first.node init_sn) (held.map (Held.node init_sn)) =
      (Lib.insertWhen (fun other => decide (first.place ≤ other.place)) first held).map
        (Held.node init_sn) := by
  induction held with
  | nil => rfl
  | cons other _ ih =>
    have below := ih fun other inRest => near other (mem_cons_of_mem _ inRest)
    have offset := @numberAt_sub_toInt init_sn _ _ (near other mem_cons_self).1
      (near other mem_cons_self).2
    have order : ((first.node init_sn).pkt_sn - (other.node init_sn).pkt_sn).toInt ≤ 0 ↔
        first.place ≤ other.place := by
      rw [Held.node, Held.node, offset]
      omega
    simp only [sortAddPkt, map_cons, Lib.insertWhen, order, decide_eq_true_eq] at below ⊢
    by_cases before : first.place ≤ other.place
    · rw [if_pos before, if_pos before]
      rfl
    · rw [if_neg before, if_neg before, below]
      rfl

/-- What is handed out behind the place `expected`, which `final` is the end of. -/
structure Drained (expected : Int) (drained rest : List Held) (final : Int) : Prop where
  reaches : expected ≤ final
  within : ∀ packet ∈ drained, expected ≤ packet.place ∧ packet.stop ≤ final
  apart : drained.Pairwise fun before after => before.stop ≤ after.place
  gap : ∀ packet ∈ rest, final < packet.place

theorem tryReassemble_meets
    (near : ∀ packet ∈ held, packet.place < place + 2 ^ 31 ∧ place < packet.place + 2 ^ 31)
    (ascending : held.Pairwise fun before after => before.place < after.place)
    (meets : Meets (numberAt init_sn place) (held.map (Held.node init_sn))) :
    ∃ drained rest final, held = drained ++ rest ∧ Drained place drained rest final ∧
      tryReassemble (numberAt init_sn place) (held.map (Held.node init_sn)) =
        (⟨numberAt init_sn final, rest.map (Held.node init_sn)⟩, drained.map Held.pkt) ∧
      (∀ move ∈ tryMoves (numberAt init_sn place) (held.map (Held.node init_sn)), 0 ≤ move.toInt) ∧
      (tryMoves (numberAt init_sn place) (held.map (Held.node init_sn))).foldl
        (fun place move => place + move.toInt) place = final := by
  induction held generalizing place with
  | nil => exact ⟨[], [], place, rfl, ⟨le_refl _, by simp, .nil, by simp⟩, rfl, by rintro _ ⟨⟩, rfl⟩
  | cons first rest ih =>
    obtain ⟨later, ascendingRest⟩ := pairwise_cons.mp ascending
    obtain ⟨ahead, behind⟩ := near first mem_cons_self
    have offset := @numberAt_sub_toInt init_sn place first.place behind ahead.le
    simp only [map_cons, tryReassemble, tryMoves, Meets, Held.node, offset] at meets ⊢
    by_cases gap : place - first.place < 0
    · refine ⟨[], first :: rest, place, rfl, ⟨le_refl _, by simp, .nil, ?_⟩, ?_, ?_, ?_⟩
      · intro packet inside
        rcases mem_cons.mp inside with rfl | inRest
        · omega
        · have := later packet inRest
          omega
      · rw [if_pos gap]
        rfl
      · rw [if_pos gap]
        rintro _ ⟨⟩
      · rw [if_pos gap]
        rfl
    obtain ⟨same, meetsRest⟩ := meets.resolve_left gap
    have samePlace : place = first.place := by
      rw [same, BitVec.sub_self] at offset
      have zero : (0 : UINT).toInt = 0 := rfl
      have := zero.symm.trans offset
      omega
    have long : first.stop = first.place + first.len.toNat := rfl
    have move : (numberAt init_sn first.stop - numberAt init_sn place).toInt =
        first.len.toNat := by
      rw [numberAt_sub_toInt (by omega) (by omega)]
      omega
    rw [← numberAt_stop] at meetsRest ⊢
    have nearRest : ∀ packet ∈ rest, packet.place < first.stop + 2 ^ 31 ∧
        first.stop < packet.place + 2 ^ 31 := by
      intro packet inRest
      have upper := (near packet (mem_cons_of_mem _ inRest)).1
      have lower := later packet inRest
      omega
    obtain ⟨drained, left, final, split, done, run, forward, moved⟩ :=
      ih nearRest ascendingRest meetsRest
    have reaches := done.reaches
    rw [if_neg gap, if_neg gap]
    refine ⟨first :: drained, left, final, by rw [split]; rfl, ⟨?_, ?_, ?_, done.gap⟩, ?_, ?_, ?_⟩
    · omega
    · intro packet inside
      rcases mem_cons.mp inside with rfl | inRest
      · exact ⟨samePlace.le, reaches⟩
      · obtain ⟨_, upper⟩ := done.within packet inRest
        exact ⟨by omega, upper⟩
    · exact pairwise_cons.mpr ⟨fun packet inside => (done.within packet inside).1, done.apart⟩
    · rw [run]
      rfl
    · intro other inside
      rcases mem_cons.mp inside with rfl | inRest
      · omega
      · exact forward other inRest
    · rw [foldl_cons, move, samePlace]
      exact moved

section

variable {flow : TcpReassembleFlow} {pktinfo : TcpReassemblePktinfo} {max_segs_per_flow : USHORT}
  {memory : Bool}

theorem snMoves_eq_nil
    (moved : pktinfo.sn = flow.sn → isHaveThisPkt pktinfo.sn flow.pkts_list = true) :
    snMoves flow pktinfo = [] := by
  rw [snMoves, if_neg]
  rintro ⟨same, absent⟩
  rw [moved same] at absent
  cases absent

theorem tcpRInput_cases (max_segs_per_flow : USHORT) (memory : Bool) (flow : TcpReassembleFlow)
    (pktinfo : TcpReassemblePktinfo) :
    ((∃ ret, tcpRInput max_segs_per_flow memory flow pktinfo = (flow, ret, [])) ∧
        snMoves flow pktinfo = []) ∨
      (0 < (pktinfo.sn - flow.sn).toInt ∧ isHaveThisPkt pktinfo.sn flow.pkts_list = false ∧
        tcpRInput max_segs_per_flow memory flow pktinfo =
          ({ flow with
            pkts_list := sortAddPkt
              ⟨pktinfo.pkt, pktinfo.sn, pktinfo.tcp_payload_len.setWidth 16⟩ flow.pkts_list },
            .ok, []) ∧
        snMoves flow pktinfo = []) ∨
      (pktinfo.sn = flow.sn ∧ tcpRInput max_segs_per_flow memory flow pktinfo =
          ((tryReassemble pktinfo.behind flow.pkts_list).1, .ok,
            pktinfo.pkt :: (tryReassemble pktinfo.behind flow.pkts_list).2) ∧
        snMoves flow pktinfo =
          (pktinfo.behind - flow.sn) :: tryMoves pktinfo.behind flow.pkts_list) := by
  have moved : ∀ {offset : Int}, (pktinfo.sn - flow.sn).toInt = offset → offset ≠ 0 →
      pktinfo.sn ≠ flow.sn := by
    intro offset is other same
    rw [same, BitVec.sub_self] at is
    exact other is.symm
  by_cases old : (pktinfo.sn - flow.sn).toInt < 0
  · refine .inl ⟨⟨.ok, ?_⟩, snMoves_eq_nil fun same => absurd same (moved rfl old.ne)⟩
    simp only [tcpRInput, if_pos old]
  cases present : isHaveThisPkt pktinfo.sn flow.pkts_list with
  | true =>
    refine .inl ⟨⟨.ok, ?_⟩, snMoves_eq_nil fun _ => present⟩
    simp only [tcpRInput, if_neg old, present, if_true]
  | false =>
    by_cases early : 0 < (pktinfo.sn - flow.sn).toInt
    · have still := snMoves_eq_nil fun same => absurd same (moved rfl early.ne')
      have called : tcpRInput max_segs_per_flow memory flow pktinfo =
          ((insertPkt max_segs_per_flow memory flow pktinfo).1,
            (insertPkt max_segs_per_flow memory flow pktinfo).2, []) := by
        simp only [tcpRInput, if_neg old, present, if_pos early, Bool.false_eq_true, if_false]
      by_cases many : max_segs_per_flow.toNat < flow.pkts_list.length
      · refine .inl ⟨⟨.outOfRange, ?_⟩, still⟩
        rw [called, insertPkt, if_pos many]
      cases memory with
      | false =>
        refine .inl ⟨⟨.noMemory, ?_⟩, still⟩
        rw [called, insertPkt, if_neg many]
        rfl
      | true =>
        refine .inr (.inl ⟨early, rfl, ?_, still⟩)
        rw [called, insertPkt, if_neg many]
        rfl
    have zero : (pktinfo.sn - flow.sn).toInt = (0 : UINT).toInt := by
      have word : (0 : UINT).toInt = 0 := rfl
      omega
    have same : pktinfo.sn = flow.sn := by
      have none_between := toInt_inj.mp zero
      bv_omega
    refine .inr (.inr ⟨same, ?_, ?_⟩)
    · have behind : (if pktinfo.flag &&& (TCP_FLAG_SYN ||| TCP_FLAG_FIN) ≠ 0 then
          flow.sn + pktinfo.tcp_payload_len + 1 else flow.sn + pktinfo.tcp_payload_len) =
            pktinfo.behind := by
        simp only [TcpReassemblePktinfo.behind, isSynFin, same, decide_eq_true_eq]
      simp only [tcpRInput, if_neg old, present, if_neg early, Bool.false_eq_true, if_false,
        behind]
    · rw [snMoves, if_pos ⟨same, present⟩]

end

/-- The held packets lie ahead of the expected number, and what was handed out before it. -/
structure SerialOk (init_sn : UINT) (run : SerialRun) (held : List Held) : Prop where
  pkts : run.flow.pkts_list = held.map (Held.node init_sn)
  sn : run.flow.sn = numberAt init_sn run.expected
  ascending : held.Pairwise fun before after => before.place < after.place
  ahead : ∀ packet ∈ held, run.expected < packet.place ∧ packet.place < run.expected + 2 ^ 31
  known : ∀ packet ∈ held, run.arrived[packet.pkt]? = some ⟨packet.place, packet.len.toNat⟩
  behind : ∀ pkt ∈ run.handed, ∃ placed, run.arrived[pkt]? = some placed ∧
    placed.place + placed.size ≤ run.expected
  once : BytesOnce run

variable {run : SerialRun} {arrival : PktArrival} {max_segs_per_flow : USHORT}

theorem SerialOk.begin : SerialOk init_sn (.begin init_sn) [] := by
  refine ⟨rfl, ?_, .nil, nofun, nofun, nofun, .nil⟩
  change init_sn = init_sn + BitVec.ofInt 32 0
  simp

theorem getElem?_concat {placed last : Placed} {arrived : List Placed} {k : Nat}
    (known : arrived[k]? = some placed) : (arrived ++ [last])[k]? = some placed := by
  obtain ⟨bounded, _⟩ := List.getElem?_eq_some_iff.mp known
  rw [getElem?_append_left bounded, known]

variable (ok : SerialOk init_sn run held)

section

include ok

theorem SerialOk.arrive (last : Placed) :
    SerialOk init_sn { run with arrived := run.arrived ++ [last] } held where
  pkts := ok.pkts
  sn := ok.sn
  ascending := ok.ascending
  ahead := ok.ahead
  known packet inside := getElem?_concat (ok.known packet inside)
  behind pkt inside := by
    obtain ⟨placed, known, before⟩ := ok.behind pkt inside
    exact ⟨placed, getElem?_concat known, before⟩
  once := by
    apply Pairwise.imp_of_mem _ ok.once
    intro first second firstHanded secondHanded apart earlier later foundEarlier foundLater
    obtain ⟨_, known, _⟩ := ok.behind first firstHanded
    obtain ⟨_, knownOther, _⟩ := ok.behind second secondHanded
    have sameEarlier := (getElem?_concat known).symm.trans foundEarlier
    have sameLater := (getElem?_concat knownOther).symm.trans foundLater
    exact apart earlier later (known.trans sameEarlier) (knownOther.trans sameLater)

theorem numberAt_offset (sn : UINT) :
    numberAt init_sn (run.expected + (sn - run.flow.sn).toInt) = sn := by
  rw [numberAt_add, ofInt_toInt, ← ok.sn, BitVec.add_comm, sub_add_cancel]

theorem SerialOk.hold {pktinfo : TcpReassemblePktinfo}
    (fits : pktinfo.tcp_payload_len.toNat < 2 ^ 16) (early : 0 < (pktinfo.sn - run.flow.sn).toInt)
    (absent : isHaveThisPkt pktinfo.sn run.flow.pkts_list = false) :
    ∃ after, SerialOk init_sn
      { run with
        flow := { run.flow with
          pkts_list := sortAddPkt
            ⟨run.arrived.length, pktinfo.sn, pktinfo.tcp_payload_len.setWidth 16⟩
            run.flow.pkts_list }
        arrived := run.arrived ++
          [⟨run.expected + (pktinfo.sn - run.flow.sn).toInt, pktinfo.tcp_payload_len.toNat⟩] }
      after := by
  have upper := (pktinfo.sn - run.flow.sn).toInt_lt
  have number := numberAt_offset ok pktinfo.sn
  have arrived := ok.arrive
    ⟨run.expected + (pktinfo.sn - run.flow.sn).toInt, pktinfo.tcp_payload_len.toNat⟩
  generalize (pktinfo.sn - run.flow.sn).toInt = offset at *
  let packet : Held :=
    ⟨run.arrived.length, run.expected + offset, pktinfo.tcp_payload_len.setWidth 16⟩
  have near : ∀ other ∈ held, packet.place < other.place + 2 ^ 31 ∧
      other.place ≤ packet.place + 2 ^ 31 := by
    intro other inside
    obtain ⟨_, _⟩ := ok.ahead other inside
    change run.expected + offset < _ ∧ _ ≤ run.expected + offset + 2 ^ 31
    omega
  have fresh : ∀ other ∈ held, other.place ≠ packet.place := by
    rw [← number, ok.pkts] at absent
    exact isHaveThisPkt_absent near ok.ascending absent
  have node : packet.node init_sn =
      ⟨run.arrived.length, pktinfo.sn, pktinfo.tcp_payload_len.setWidth 16⟩ := by
    simp [Held.node, packet, number]
  refine ⟨Lib.insertWhen (fun other => decide (packet.place ≤ other.place)) packet held, ?_, ok.sn,
    ?_, ?_, ?_, arrived.behind, arrived.once⟩
  · simp only [← node, ok.pkts]
    exact sortAddPkt_node near
  · refine Lib.pairwise_insertWhen ?_ ok.ascending ?_ ?_
    · exact fun _ _ _ before after => lt_trans before after
    · intro other inside stops
      exact lt_of_le_of_ne (of_decide_eq_true stops) (fresh other inside).symm
    · intro other _ passes
      exact not_le.mp (of_decide_eq_false passes)
  · intro other inside
    rcases Lib.mem_insertWhen.mp inside with rfl | old
    · change _ < run.expected + offset ∧ run.expected + offset < _
      simp only
      omega
    · exact ok.ahead other old
  intro other inside
  rcases Lib.mem_insertWhen.mp inside with rfl | old
  · have size : (pktinfo.tcp_payload_len.setWidth 16).toNat = pktinfo.tcp_payload_len.toNat := by
      rw [toNat_setWidth, Nat.mod_eq_of_lt fits]
    simp only [packet, size]
    exact getElem?_concat_length
  · exact arrived.known other old

end

theorem behind_place {pktinfo : TcpReassemblePktinfo} (sn : pktinfo.sn = numberAt init_sn place) :
    ∃ stop, pktinfo.behind = numberAt init_sn stop ∧
      place + pktinfo.tcp_payload_len.toNat ≤ stop ∧
      stop ≤ place + pktinfo.tcp_payload_len.toNat + 1 := by
  have payload : numberAt init_sn (place + pktinfo.tcp_payload_len.toNat) =
      pktinfo.sn + pktinfo.tcp_payload_len := by
    rw [numberAt_add_nat, sn, ofNat_toNat, setWidth_eq]
  by_cases isFlag : isSynFin pktinfo.flag = true
  · refine ⟨place + pktinfo.tcp_payload_len.toNat + 1, ?_, by omega, le_refl _⟩
    rw [TcpReassemblePktinfo.behind, if_pos isFlag, numberAt_add, payload]
    rfl
  · refine ⟨place + pktinfo.tcp_payload_len.toNat, ?_, le_refl _, by omega⟩
    rw [TcpReassemblePktinfo.behind, if_neg isFlag, payload]

theorem Placed.apart {earlier later : Placed} (ends : earlier.place + earlier.size ≤ later.place)
    (byte : Int) : ¬ (earlier.Has byte ∧ later.Has byte) := by
  rintro ⟨⟨_, _⟩, _, _⟩
  omega

include ok in
theorem SerialOk.handOut {pktinfo : TcpReassemblePktinfo}
    (fits : pktinfo.tcp_payload_len.toNat < 2 ^ 16) (same : pktinfo.sn = run.flow.sn)
    (meets : Meets pktinfo.behind run.flow.pkts_list) :
    (∀ move ∈ (pktinfo.behind - run.flow.sn) :: tryMoves pktinfo.behind run.flow.pkts_list,
        0 ≤ move.toInt) ∧
      ∃ after, SerialOk init_sn
        { flow := (tryReassemble pktinfo.behind run.flow.pkts_list).1
          expected := ((pktinfo.behind - run.flow.sn) ::
            tryMoves pktinfo.behind run.flow.pkts_list).foldl
              (fun place move => place + move.toInt) run.expected
          arrived := run.arrived ++ [⟨run.expected, pktinfo.tcp_payload_len.toNat⟩]
          handed := run.handed ++
            run.arrived.length :: (tryReassemble pktinfo.behind run.flow.pkts_list).2 }
        after := by
  have arrived := ok.arrive ⟨run.expected, pktinfo.tcp_payload_len.toNat⟩
  obtain ⟨stop, behind, payload, _⟩ := behind_place (same.trans ok.sn)
  have near : ∀ packet ∈ held, packet.place < stop + 2 ^ 31 ∧ stop < packet.place + 2 ^ 31 := by
    intro packet inside
    obtain ⟨_, _⟩ := ok.ahead packet inside
    omega
  have move : (pktinfo.behind - run.flow.sn).toInt = stop - run.expected := by
    rw [behind, ok.sn]
    exact numberAt_sub_toInt (by omega) (by omega)
  rw [behind, ok.pkts] at meets
  obtain ⟨drained, rest, _, split, done, outcome, forward, moved⟩ :=
    tryReassemble_meets near ok.ascending meets
  rw [← behind, ← ok.pkts] at outcome forward moved
  have reaches := done.reaches
  have restHeld : ∀ packet ∈ rest, packet ∈ held :=
    fun packet inside => split ▸ mem_append_right _ inside
  have drainedKnown :=  fun packet inside => arrived.known packet (split ▸ mem_append_left _ inside)
  have lastKnown : (run.arrived ++ [⟨run.expected, pktinfo.tcp_payload_len.toNat⟩])[run.arrived.length]? =
      some ⟨run.expected, pktinfo.tcp_payload_len.toNat⟩ := getElem?_concat_length
  constructor
  · intro other inside
    rcases mem_cons.mp inside with rfl | later
    · omega
    · exact forward other later
  refine ⟨rest, ?_⟩
  rw [outcome, foldl_cons, move, Int.add_comm, Int.sub_add_cancel, moved]
  refine ⟨rfl, rfl, ?_, ?_, ?_, ?_, ?_⟩
  · exact ok.ascending.sublist (split ▸ sublist_append_right _ _)
  · intro packet inside
    have upper := (ok.ahead packet (restHeld packet inside)).2
    exact ⟨done.gap packet inside, lt_of_lt_of_le upper (by simp only; omega)⟩
  · exact fun packet inside => arrived.known packet (restHeld packet inside)
  · intro pkt inside
    rcases mem_append.mp inside with old | new
    · obtain ⟨placed, known, before⟩ := arrived.behind pkt old
      exact ⟨placed, known, le_trans before (by simp only; omega)⟩
    rcases mem_cons.mp new with rfl | later
    · exact ⟨_, lastKnown, le_trans payload reaches⟩
    · obtain ⟨packet, inDrained, rfl⟩ := mem_map.mp later
      exact ⟨_, drainedKnown packet inDrained, (done.within packet inDrained).2⟩
  -- What was handed out before ends at the expected place, and the rest begins there.
  apply pairwise_append.mpr ⟨arrived.once, ?_, ?_⟩
  · apply pairwise_cons.mpr ⟨?_, ?_⟩
    · intro pkt inside earlier later foundEarlier foundLater
      obtain ⟨packet, inDrained, rfl⟩ := mem_map.mp inside
      obtain rfl := some.inj (lastKnown.symm.trans foundEarlier)
      obtain rfl := some.inj ((drainedKnown packet inDrained).symm.trans foundLater)
      exact Placed.apart (le_trans payload (done.within packet inDrained).1)
    rw [pairwise_map]
    apply Pairwise.imp_of_mem _ done.apart
    intro first second firstIn secondIn apart earlier later foundEarlier foundLater
    obtain rfl := some.inj ((drainedKnown first firstIn).symm.trans foundEarlier)
    obtain rfl := some.inj ((drainedKnown second secondIn).symm.trans foundLater)
    exact Placed.apart apart
  intro first firstHanded second secondHanded earlier later foundEarlier foundLater
  obtain ⟨_, known, before⟩ := arrived.behind first firstHanded
  obtain rfl := some.inj (known.symm.trans foundEarlier)
  rcases mem_cons.mp secondHanded with rfl | inDrained
  · obtain rfl := some.inj (lastKnown.symm.trans foundLater)
    exact Placed.apart before
  obtain ⟨packet, inside, rfl⟩ := mem_map.mp inDrained
  obtain rfl := some.inj ((drainedKnown packet inside).symm.trans foundLater)
  have lower := (done.within packet inside).1
  exact Placed.apart (le_trans before (by simp only; omega))

include ok in
theorem SerialOk.step (orderly : Orderly run arrival) :
    MovesForward run.flow arrival.pktinfo ∧
      ∃ after, SerialOk init_sn (run.next max_segs_per_flow arrival) after := by
  obtain ⟨pktinfo, memory⟩ := arrival
  obtain ⟨fits, meets⟩ := orderly
  rcases tcpRInput_cases max_segs_per_flow memory run.flow
      { pktinfo with pkt := run.arrived.length } with
    ⟨⟨ret, called⟩, still⟩ | ⟨early, absent, called, still⟩ | ⟨same, called, moved⟩
  · refine ⟨fun move inside => ?_, held, ?_⟩
    · exact absurd (still ▸ inside) not_mem_nil
    · simp only [SerialRun.next, called, still, foldl_nil, append_nil]
      exact ok.arrive _
  · refine ⟨fun move inside => ?_, ?_⟩
    · exact absurd (still ▸ inside) not_mem_nil
    · simp only [SerialRun.next, called, still, foldl_nil, append_nil]
      exact ok.hold fits early absent
  obtain ⟨forward, after, afterOk⟩ := ok.handOut fits same (meets same)
  refine ⟨fun move inside => forward move (moved ▸ inside), after, ?_⟩
  have zero : (pktinfo.sn - run.flow.sn).toInt = 0 := by
    rw [same, BitVec.sub_self]
    rfl
  simp only [SerialRun.next, called, moved, zero, Int.add_zero]
  exact afterOk

theorem serialSystem_ok (reached : (serialSystem init_sn max_segs_per_flow).ReachableWhen
    Orderly run) : ∃ held, SerialOk init_sn run held := by
  apply reached.invariant
  · rintro _ rfl
    exact ⟨[], .begin⟩
  · rintro _ _ _ ⟨_, ok⟩ orderly rfl
    exact (ok.step orderly).2

/-- Where no held packet begins before the end of what is handed out, the expected number only moves
forward, and no byte is handed out twice. -/
theorem tcpR_forward (reached : (serialSystem init_sn max_segs_per_flow).ReachableWhen
    Orderly run) :
    BytesOnce run ∧ ∀ arrival, Orderly run arrival → MovesForward run.flow arrival.pktinfo := by
  obtain ⟨_, ok⟩ := serialSystem_ok reached
  exact ⟨ok.once, fun arrival orderly => (@SerialOk.step _ _ _ _ max_segs_per_flow ok orderly).1⟩

instance decidableMeets : (sn : UINT) → (pkts_list : List TcpReassemblePkt) →
    Decidable (Meets sn pkts_list)
  | _, [] => .isTrue trivial
  | _, pktnode :: rest =>
    have := decidableMeets (pktnode.pkt_sn + pktnode.len.setWidth 32) rest
    inferInstanceAs (Decidable (_ ∨ _ ∧ _))

instance (run : SerialRun) (arrival : PktArrival) : Decidable (Orderly run arrival) :=
  decidable_of_iff (_ ∧ _) ⟨fun ⟨fits, meets⟩ => ⟨fits, meets⟩, fun orderly => ⟨orderly.1, orderly.2⟩⟩

def packets (segments : List (UINT × UINT)) : List PktArrival :=
  segments.map fun (sn, len) => ⟨⟨0, len, sn, 0⟩, true⟩

def serialRun (segments : List (UINT × UINT)) : SerialRun :=
  (packets segments).foldl (SerialRun.next TCP_REASSEMBLE_DFT_MAX_SEGS) (.begin 0)

/-- The second packet closes the gap before the first one. -/
theorem tcpR_forward_gap :
    BytesOnce (serialRun [(5, 5), (0, 5), (3, 4)]) ∧
      ∀ arrival, Orderly (serialRun [(5, 5), (0, 5), (3, 4)]) arrival →
        MovesForward (serialRun [(5, 5), (0, 5), (3, 4)]).flow arrival.pktinfo := by
  have reached : (serialSystem 0 TCP_REASSEMBLE_DFT_MAX_SEGS).ReachableWhen Orderly
      (serialRun [(5, 5), (0, 5), (3, 4)]) :=
    .foldl (fun _ _ orderly => ⟨orderly, rfl⟩) (.start rfl) (by decide +kernel)
  exact tcpR_forward reached

/-- A held packet that ends before the one that closes the gap takes the number back, and the bytes
behind it are handed out again when they are sent again. -/
theorem tcpR_rewinds :
    (∃ run arrival, (serialSystem 0 TCP_REASSEMBLE_DFT_MAX_SEGS).Reachable run ∧
      run.flow.sn = 0 ∧ ¬ MovesForward run.flow arrival.pktinfo ∧
      (run.next TCP_REASSEMBLE_DFT_MAX_SEGS arrival).flow.sn = 7) ∧
    ¬ ∀ init_sn run, (serialSystem init_sn TCP_REASSEMBLE_DFT_MAX_SEGS).Reachable run →
      BytesOnce run := by
  have reachable : ∀ segments,
      (serialSystem 0 TCP_REASSEMBLE_DFT_MAX_SEGS).Reachable (serialRun segments) :=
    fun segments => Lib.System.Reachable.runs (fun _ _ => rfl) _ (.start rfl)
  constructor
  · refine ⟨serialRun [(5, 2)], ⟨⟨0, 10, 0, 0⟩, true⟩, reachable _, by decide, fun forward => ?_,
      by decide⟩
    have back := forward (-3) (by decide)
    exact absurd back (by decide)
  · intro once
    have again := once 0 _ (reachable [(5, 2), (0, 10), (7, 3)])
    have apart := rel_of_pairwise_cons again (mem_cons_of_mem _ mem_cons_self)
    exact apart ⟨0, 10⟩ ⟨7, 3⟩ rfl rfl 8 (by simp [Placed.Has])

end MyCode.TcpReassemble
