import MyCode.Types
import MyCode.Lib.SortedList
import MyCode.Lib.Transition
import Mathlib.Data.Finset.Insert
import Mathlib.Data.List.Range

/-!
# Reassembly of TCP segments

`tcp_reassemble.c`: segments ahead of the expected number are held in a list and
handed out when the gap before them closes.  A packet is its place in the stream.
-/

namespace MyCode.TcpReassemble

open List Nat

def TCP_FLAG_FIN : UCHAR := 0x01

def TCP_FLAG_SYN : UCHAR := 0x02

structure TcpReassemblePkt where
  pkt : Nat
  pkt_sn : UINT
  len : USHORT

structure TcpReassembleFlow where
  sn : UINT
  pkts_list : List TcpReassemblePkt

structure TcpReassemblePktinfo where
  pkt : Nat
  tcp_payload_len : UINT
  sn : UINT
  flag : UCHAR

def TCP_REASSEMBLE_DFT_MAX_SEGS : USHORT := 128

def tcpRInitFlow (init_sn : UINT) : TcpReassembleFlow :=
  ⟨init_sn, []⟩

/-- The scan of the held packets, which ends at one with a later number. -/
def isHaveThisPkt (sn : UINT) : List TcpReassemblePkt → Bool
  | [] => false
  | pktnode :: rest =>
    let offset := sn - pktnode.pkt_sn
    if offset.toInt < 0 then
      false
    else if offset = 0 then
      true
    else
      isHaveThisPkt sn rest

/-- `DLL_SortAdd` with the comparison of numbers. -/
def sortAddPkt (pktnode : TcpReassemblePkt) (pkts_list : List TcpReassemblePkt) :
    List TcpReassemblePkt :=
  Lib.insertWhen (fun other => (pktnode.pkt_sn - other.pkt_sn).toInt ≤ 0) pktnode pkts_list

def insertPkt (max_segs_per_flow : USHORT) (memory : Bool) (flow : TcpReassembleFlow)
    (pktinfo : TcpReassemblePktinfo) : TcpReassembleFlow × BsStatus :=
  if max_segs_per_flow.toNat < flow.pkts_list.length then
    (flow, .outOfRange)
  else if !memory then
    (flow, .noMemory)
  else
    ({ flow with
      pkts_list := sortAddPkt ⟨pktinfo.pkt, pktinfo.sn, pktinfo.tcp_payload_len.setWidth 16⟩
        flow.pkts_list }, .ok)

/-- The flow without the packets that are handed out, and these packets. -/
def tryReassemble (sn : UINT) : List TcpReassemblePkt → TcpReassembleFlow × List Nat
  | [] => (⟨sn, []⟩, [])
  | pktnode :: rest =>
    if (sn - pktnode.pkt_sn).toInt < 0 then
      (⟨sn, pktnode :: rest⟩, [])
    else
      let (flow, out) := tryReassemble (pktnode.pkt_sn + pktnode.len.setWidth 32) rest
      (flow, pktnode.pkt :: out)

/-- The flow, the result and the packets for `pkt_out`. -/
def tcpRInput (max_segs_per_flow : USHORT) (memory : Bool) (flow : TcpReassembleFlow)
    (pktinfo : TcpReassemblePktinfo) : TcpReassembleFlow × BsStatus × List Nat :=
  let offset := pktinfo.sn - flow.sn
  if offset.toInt < 0 then
    (flow, .ok, [])
  else if isHaveThisPkt pktinfo.sn flow.pkts_list then
    (flow, .ok, [])
  else if 0 < offset.toInt then
    let (flow, ret) := insertPkt max_segs_per_flow memory flow pktinfo
    (flow, ret, [])
  else
    let sn := flow.sn + pktinfo.tcp_payload_len
    let sn := if pktinfo.flag &&& (TCP_FLAG_SYN ||| TCP_FLAG_FIN) ≠ 0 then sn + 1 else sn
    let (flow, out) := tryReassemble sn flow.pkts_list
    (flow, .ok, pktinfo.pkt :: out)

/-- Whether a segment takes a number beside those of its bytes. -/
def isSynFin (flag : UCHAR) : Bool :=
  flag &&& (TCP_FLAG_SYN ||| TCP_FLAG_FIN) ≠ 0

structure Segment where
  len : USHORT
  flag : UCHAR
  consumes : len ≠ 0 ∨ isSynFin flag = true

def Segment.size (segment : Segment) : Nat :=
  segment.len.toNat + if isSynFin segment.flag then 1 else 0

/-- A stream in segments, with the number of the first one. -/
structure Stream where
  init_sn : UINT
  cut : Nat → Segment

namespace Stream

variable (stream : Stream)

def start : Nat → Nat
  | 0 => 0
  | k + 1 => start k + (stream.cut k).size

def number (k : Nat) : UINT :=
  stream.init_sn + BitVec.ofNat 32 (stream.start k)

def pktinfo (k : Nat) : TcpReassemblePktinfo :=
  ⟨k, (stream.cut k).len.setWidth 32, stream.number k, (stream.cut k).flag⟩

end Stream

/-- A flow, beside the segments that arrived and those that were handed out. -/
structure FlowRun where
  flow : TcpReassembleFlow
  arrived : Finset Nat
  handed : List Nat

structure Arrival where
  segment : Nat
  memory : Bool

section Runs

variable (stream : Stream) (max_segs_per_flow : USHORT)

def FlowRun.begin : FlowRun :=
  ⟨tcpRInitFlow stream.init_sn, ∅, []⟩

def FlowRun.next (run : FlowRun) (arrival : Arrival) : FlowRun :=
  let (flow, _, out) := tcpRInput max_segs_per_flow arrival.memory run.flow
    (stream.pktinfo arrival.segment)
  ⟨flow, insert arrival.segment run.arrived, run.handed ++ out⟩

def flowSystem : Lib.System FlowRun Arrival where
  start run := run = .begin stream
  step run arrival after := after = run.next stream max_segs_per_flow arrival

/-- What the code is made for: an arrival within half of the number space of the expected
segment, and room to hold a segment without SYN and FIN that comes early. -/
structure Fits (run : FlowRun) (arrival : Arrival) : Prop where
  ahead : stream.start arrival.segment < stream.start run.handed.length + 2 ^ 31
  behind : stream.start run.handed.length ≤ stream.start arrival.segment + 2 ^ 31
  plain : run.handed.length < arrival.segment → isSynFin (stream.cut arrival.segment).flag = false
  room : run.handed.length < arrival.segment → arrival.segment ∉ run.arrived →
    run.flow.pkts_list.length ≤ max_segs_per_flow.toNat ∧ arrival.memory = true

/-- The segments before the first one that is missing were handed out, in their order. -/
def HandsOut (run : FlowRun) : Prop :=
  ∃ missing, (∀ k, k < missing → k ∈ run.arrived) ∧ missing ∉ run.arrived ∧
    run.handed = List.range missing

end Runs

variable {stream : Stream} {a b k next : Nat} {held : List Nat}

theorem Segment.size_pos (segment : Segment) : 0 < segment.size := by
  rw [Segment.size]
  rcases segment.consumes with some | isFlag
  · have positive : segment.len.toNat ≠ 0 := fun zero => some (BitVec.eq_of_toNat_eq zero)
    omega
  · rw [if_pos isFlag]
    omega

theorem Stream.start_strictMono (stream : Stream) : StrictMono stream.start :=
  strictMono_nat_of_lt_succ fun k => Nat.lt_add_of_pos_right (stream.cut k).size_pos

def Near (stream : Stream) (a b : Nat) : Prop :=
  stream.start a < stream.start b + 2 ^ 31 ∧ stream.start b ≤ stream.start a + 2 ^ 31

theorem offset_toInt (near : Near stream a b) :
    (stream.number a - stream.number b).toInt = (stream.start a : Int) - stream.start b := by
  obtain ⟨_, _⟩ := near
  simp only [Stream.number, BitVec.toInt_eq_toNat_cond, BitVec.toNat_sub, BitVec.toNat_add,
    BitVec.toNat_ofNat]
  omega

theorem offset_neg_iff (near : Near stream a b) :
    (stream.number a - stream.number b).toInt < 0 ↔ a < b := by
  rw [offset_toInt near, ← stream.start_strictMono.lt_iff_lt (a := a) (b := b)]
  omega

theorem offset_pos_iff (near : Near stream a b) :
    0 < (stream.number a - stream.number b).toInt ↔ b < a := by
  rw [offset_toInt near, ← stream.start_strictMono.lt_iff_lt (a := b) (b := a)]
  omega

theorem offset_eq_zero_iff (near : Near stream a b) :
    stream.number a - stream.number b = 0 ↔ a = b := by
  have zero : (0 : UINT).toInt = 0 := rfl
  rw [← BitVec.toInt_inj, offset_toInt near, ← stream.start_strictMono.injective.eq_iff, zero]
  omega

theorem number_succ (stream : Stream) (k : Nat) :
    stream.number (k + 1) = stream.number k + (stream.cut k).len.setWidth 32 +
      if isSynFin (stream.cut k).flag then 1 else 0 := by
  have one : (1 : UINT).toNat = 1 := rfl
  have zero : (0 : UINT).toNat = 0 := rfl
  apply BitVec.eq_of_toNat_eq
  simp only [Stream.number, Stream.start, Segment.size]
  split
  · simp only [BitVec.toNat_add, BitVec.toNat_ofNat, BitVec.toNat_setWidth, one]
    omega
  · simp only [BitVec.toNat_add, BitVec.toNat_ofNat, BitVec.toNat_setWidth, zero]
    omega

theorem number_succ_plain (plain : isSynFin (stream.cut k).flag = false) :
    stream.number (k + 1) = stream.number k + (stream.cut k).len.setWidth 32 := by
  rw [number_succ, plain]
  simp

theorem number_after (stream : Stream) (k : Nat) :
    (if (stream.cut k).flag &&& (TCP_FLAG_SYN ||| TCP_FLAG_FIN) ≠ 0 then
      stream.number k + (stream.cut k).len.setWidth 32 + 1
      else stream.number k + (stream.cut k).len.setWidth 32) = stream.number (k + 1) := by
  rw [number_succ]
  by_cases isFlag : (stream.cut k).flag &&& (TCP_FLAG_SYN ||| TCP_FLAG_FIN) ≠ 0
  · have isSet : isSynFin (stream.cut k).flag = true := decide_eq_true isFlag
    rw [if_pos isFlag, if_pos isSet]
  have isPlain : ¬ isSynFin (stream.cut k).flag = true := fun set => isFlag (of_decide_eq_true set)
  rw [if_neg isFlag, if_neg isPlain]
  exact (BitVec.add_zero _).symm

def Stream.node (stream : Stream) (k : Nat) : TcpReassemblePkt :=
  ⟨k, stream.number k, (stream.cut k).len⟩

theorem isHaveThisPkt_iff (ascending : held.Pairwise (· < ·))
    (near : ∀ other ∈ held, Near stream k other) :
    isHaveThisPkt (stream.number k) (held.map stream.node) = true ↔ k ∈ held := by
  induction held with
  | nil => simp [isHaveThisPkt]
  | cons first _ ih =>
    obtain ⟨later, ascendingRest⟩ := pairwise_cons.mp ascending
    have nearFirst := near first mem_cons_self
    simp only [map_cons, isHaveThisPkt, Stream.node]
    rw [mem_cons]
    split
    · next negative =>
      have less := (offset_neg_iff nearFirst).mp negative
      constructor
      · intro found
        exact absurd found Bool.false_ne_true
      rintro (rfl | inRest)
      · exact absurd less (lt_irrefl _)
      · exact absurd (later k inRest) (lt_asymm less)
    split
    · next _ zero =>
      have same := (offset_eq_zero_iff nearFirst).mp zero
      simp [same]
    next _ other =>
    have differs : k ≠ first := fun same => other ((offset_eq_zero_iff nearFirst).mpr same)
    have below := ih ascendingRest fun other inRest => near other (mem_cons_of_mem _ inRest)
    simp only [differs, false_or]
    exact below

theorem sortAddPkt_eq (near : ∀ other ∈ held, Near stream k other) :
    sortAddPkt (stream.node k) (held.map stream.node) =
      (Lib.insertWhen (fun other => decide (k ≤ other)) k held).map stream.node := by
  induction held with
  | nil => rfl
  | cons first _ ih =>
    have below := ih fun other inRest => near other (mem_cons_of_mem _ inRest)
    have order : (stream.number k - stream.number first).toInt ≤ 0 ↔ k ≤ first := by
      rw [← not_lt, offset_pos_iff (near first mem_cons_self), not_lt]
    simp only [sortAddPkt, map_cons, Lib.insertWhen, Stream.node, order,
      decide_eq_true_eq] at below ⊢
    split
    · rfl
    · rw [below]
      rfl

theorem tryReassemble_drains (ascending : held.Pairwise (· < ·))
    (beyond : ∀ k ∈ held, next ≤ k ∧ stream.start k < stream.start next + 2 ^ 31 ∧
      isSynFin (stream.cut k).flag = false) :
    ∃ (missing : Nat) (rest : List Nat), next ≤ missing ∧
      (∀ k, k ∈ held ↔ next ≤ k ∧ k < missing ∨ k ∈ rest) ∧
      rest.Sublist held ∧ (∀ k ∈ rest, missing < k) ∧
      tryReassemble (stream.number next) (held.map stream.node) =
        (⟨stream.number missing, rest.map stream.node⟩, range' next (missing - next)) := by
  induction held generalizing next with
  | nil =>
    refine ⟨next, [], le_refl _, ?_, .slnil, ?_, ?_⟩
    · intro k
      simp
    · intro k inside
      nomatch inside
    · simp [tryReassemble]
  | cons first rest ih =>
    obtain ⟨later, ascendingRest⟩ := pairwise_cons.mp ascending
    obtain ⟨atLeast, _, plain⟩ := beyond first mem_cons_self
    have grows := stream.start_strictMono.monotone atLeast
    have near : Near stream next first := ⟨by omega, by omega⟩
    rcases eq_or_lt_of_le atLeast with rfl | gap
    · have notBefore : ¬ (stream.number next - stream.number next).toInt < 0 := by
        rw [offset_neg_iff near]
        exact lt_irrefl _
      have stepSize := stream.start_strictMono (show next < next + 1 from lt_succ_self next)
      have beyondRest : ∀ k ∈ rest, next + 1 ≤ k ∧
          stream.start k < stream.start (next + 1) + 2 ^ 31 ∧
          isSynFin (stream.cut k).flag = false := by
        intro k inRest
        obtain ⟨-, _, plainRest⟩ := beyond k (mem_cons_of_mem _ inRest)
        exact ⟨later k inRest, by omega, plainRest⟩
      obtain ⟨missing, left, most, members, sublist, above, drained⟩ := ih ascendingRest beyondRest
      refine ⟨missing, left, by omega, ?_, sublist.cons _, above, ?_⟩
      · intro k
        rw [mem_cons, members k]
        constructor
        · rintro (rfl | ⟨_, upper⟩ | isLeft)
          · exact .inl ⟨le_refl _, most⟩
          · exact .inl ⟨by omega, upper⟩
          · exact .inr isLeft
        rintro (⟨lower, upper⟩ | isLeft)
        · rcases eq_or_lt_of_le lower with rfl | greater
          · exact .inl rfl
          · exact .inr (.inl ⟨greater, upper⟩)
        · exact .inr (.inr isLeft)
      · have inRow : missing - next = missing - (next + 1) + 1 := by omega
        simp only [map_cons, tryReassemble, Stream.node]
        rw [if_neg notBefore, ← number_succ_plain plain, drained, inRow, range'_succ]
    have before := (offset_neg_iff near).mpr gap
    refine ⟨next, first :: rest, le_refl _, ?_, .refl _, ?_, ?_⟩
    · intro k
      constructor
      · exact .inr
      rintro (⟨_, _⟩ | inside)
      · omega
      · exact inside
    · intro k inside
      rcases mem_cons.mp inside with rfl | inRest
      · exact gap
      · exact lt_trans gap (later k inRest)
    · simp only [map_cons, tryReassemble, Stream.node]
      rw [if_pos before, Nat.sub_self, range'_zero]

/-- The flow expects the first missing segment and holds the arrived ones behind it. -/
structure FlowOk (stream : Stream) (run : FlowRun) (held : List Nat) : Prop where
  pkts : run.flow.pkts_list = held.map stream.node
  sn : run.flow.sn = stream.number run.handed.length
  handed : run.handed = List.range run.handed.length
  ascending : held.Pairwise (· < ·)
  beyond : ∀ k ∈ held, run.handed.length < k ∧
    stream.start k < stream.start run.handed.length + 2 ^ 31 ∧
    isSynFin (stream.cut k).flag = false
  arrived : ∀ k, k ∈ run.arrived ↔ k < run.handed.length ∨ k ∈ held

variable {run : FlowRun} {max_segs_per_flow : USHORT} {memory : Bool}

theorem FlowOk.begin (stream : Stream) : FlowOk stream (.begin stream) [] := by
  refine ⟨rfl, ?_, rfl, .nil, ?_, ?_⟩
  · change stream.init_sn = stream.init_sn + BitVec.ofNat 32 0
    simp
  · intro k inside
    nomatch inside
  · intro k
    simp [FlowRun.begin]

section

variable (ok : FlowOk stream run held)

include ok

theorem FlowOk.near (atLeast : run.handed.length ≤ k)
    (ahead : stream.start k < stream.start run.handed.length + 2 ^ 31) :
    ∀ other ∈ held, Near stream k other := by
  intro other inside
  obtain ⟨greater, _, -⟩ := ok.beyond other inside
  have first := stream.start_strictMono.monotone atLeast
  have second := stream.start_strictMono greater
  exact ⟨by omega, by omega⟩

theorem FlowOk.again (inside : k ∈ run.arrived)
    (same : tcpRInput max_segs_per_flow memory run.flow (stream.pktinfo k) = (run.flow, .ok, [])) :
    FlowOk stream (run.next stream max_segs_per_flow ⟨k, memory⟩) held := by
  have unchanged : run.next stream max_segs_per_flow ⟨k, memory⟩ = run := by
    simp [FlowRun.next, same, Finset.insert_eq_of_mem inside]
  rw [unchanged]
  exact ok

theorem FlowOk.behind (less : k < run.handed.length) (near : Near stream k run.handed.length) :
    FlowOk stream (run.next stream max_segs_per_flow ⟨k, memory⟩) held := by
  apply ok.again ((ok.arrived k).mpr (.inl less))
  have negative : ((stream.pktinfo k).sn - run.flow.sn).toInt < 0 := by
    rw [ok.sn]
    exact (offset_neg_iff near).mpr less
  simp only [tcpRInput, if_pos negative]

theorem FlowOk.alreadyHeld (inside : k ∈ held) :
    FlowOk stream (run.next stream max_segs_per_flow ⟨k, memory⟩) held := by
  apply ok.again ((ok.arrived k).mpr (.inr inside))
  obtain ⟨greater, ahead, -⟩ := ok.beyond k inside
  have grows := stream.start_strictMono greater
  have near : Near stream k run.handed.length := ⟨ahead, by omega⟩
  have notBehind : ¬ ((stream.pktinfo k).sn - run.flow.sn).toInt < 0 := by
    rw [ok.sn]
    exact fun negative => lt_asymm greater ((offset_neg_iff near).mp negative)
  have isHeld : isHaveThisPkt (stream.pktinfo k).sn run.flow.pkts_list = true := by
    rw [ok.pkts]
    exact (isHaveThisPkt_iff ok.ascending (ok.near (le_of_lt greater) ahead)).mpr inside
  simp only [tcpRInput, if_neg notBehind, if_pos isHeld]

end

theorem node_pktinfo (stream : Stream) (k : Nat) :
    ⟨(stream.pktinfo k).pkt, (stream.pktinfo k).sn, (stream.pktinfo k).tcp_payload_len.setWidth 16⟩ =
      stream.node k := by
  have width : ((stream.cut k).len.setWidth 32).setWidth 16 = (stream.cut k).len := by
    rw [BitVec.setWidth_setWidth_of_le _ (by decide), BitVec.setWidth_eq]
  simp [Stream.pktinfo, Stream.node, width]

theorem FlowOk.ahead (ok : FlowOk stream run held) (greater : run.handed.length < k)
    (fresh : k ∉ held) (fits : Fits stream max_segs_per_flow run ⟨k, memory⟩) :
    FlowOk stream (run.next stream max_segs_per_flow ⟨k, memory⟩)
      (Lib.insertWhen (fun other => decide (k ≤ other)) k held) := by
  have near : Near stream k run.handed.length := ⟨fits.ahead, fits.behind⟩
  have nearHeld := ok.near (le_of_lt greater) fits.ahead
  have absent : k ∉ run.arrived := by
    rw [ok.arrived]
    rintro (less | inside)
    · exact lt_asymm less greater
    · exact fresh inside
  obtain ⟨room, allocated⟩ := fits.room greater absent
  have positive : 0 < ((stream.pktinfo k).sn - run.flow.sn).toInt := by
    rw [ok.sn]
    exact (offset_pos_iff near).mpr greater
  have notHeld : ¬ isHaveThisPkt (stream.pktinfo k).sn run.flow.pkts_list = true := by
    rw [ok.pkts]
    exact fun found => fresh ((isHaveThisPkt_iff ok.ascending nearHeld).mp found)
  have inserted : tcpRInput max_segs_per_flow memory run.flow (stream.pktinfo k) =
      ({ run.flow with pkts_list := sortAddPkt (stream.node k) run.flow.pkts_list }, .ok, []) := by
    simp only [tcpRInput, if_neg (Int.not_lt.mpr (Int.le_of_lt positive)), if_neg notHeld,
      if_pos positive, insertPkt, if_neg (not_lt.mpr room), node_pktinfo]
    have isMemory : memory = true := allocated
    simp [isMemory]
  have after : run.next stream max_segs_per_flow ⟨k, memory⟩ =
      ⟨{ run.flow with pkts_list := sortAddPkt (stream.node k) run.flow.pkts_list },
        insert k run.arrived, run.handed⟩ := by
    simp [FlowRun.next, inserted]
  rw [after]
  refine ⟨?_, ok.sn, ok.handed, ?_, ?_, ?_⟩
  · simp only [ok.pkts]
    exact sortAddPkt_eq nearHeld
  · refine @Lib.pairwise_insertWhen _ _ _ _ (· < ·) (fun _ _ _ => lt_trans) ok.ascending ?_ ?_
    · intro other inside stops
      have atMost := of_decide_eq_true stops
      exact lt_of_le_of_ne atMost fun same => fresh (same ▸ inside)
    · intro other _ passes
      exact Nat.lt_of_not_le (of_decide_eq_false passes)
  · intro other inside
    rcases Lib.mem_insertWhen.mp inside with rfl | old
    · exact ⟨greater, fits.ahead, fits.plain greater⟩
    · exact ok.beyond other old
  intro other
  rw [Finset.mem_insert, ok.arrived, Lib.mem_insertWhen]
  constructor
  · rintro (isNew | less | old)
    · exact .inr (.inl isNew)
    · exact .inl less
    · exact .inr (.inr old)
  rintro (less | isNew | old)
  · exact .inr (.inl less)
  · exact .inl isNew
  · exact .inr (.inr old)

theorem FlowOk.expected (ok : FlowOk stream run held) :
    ∃ left, FlowOk stream
      (run.next stream max_segs_per_flow ⟨run.handed.length, memory⟩) left := by
  generalize expectedIs : run.handed.length = expected at *
  have near : Near stream expected expected := ⟨by omega, by omega⟩
  have sn := expectedIs ▸ ok.sn
  have zero : ((stream.pktinfo expected).sn - run.flow.sn).toInt = 0 := by
    rw [sn]
    exact (offset_toInt near).trans (Int.sub_self _)
  have notHeld : ¬ isHaveThisPkt (stream.pktinfo expected).sn run.flow.pkts_list = true := by
    rw [ok.pkts]
    intro found
    have inside := (isHaveThisPkt_iff ok.ascending
      (ok.near (le_of_eq expectedIs) (by rw [expectedIs]; omega))).mp found
    have greater := (ok.beyond expected inside).1
    omega
  have stepSize := stream.start_strictMono (show expected < expected + 1 from lt_succ_self _)
  have beyond : ∀ k ∈ held, expected + 1 ≤ k ∧
      stream.start k < stream.start (expected + 1) + 2 ^ 31 ∧
      isSynFin (stream.cut k).flag = false := by
    intro k inside
    obtain ⟨greater, ahead, plain⟩ := ok.beyond k inside
    rw [expectedIs] at greater ahead
    exact ⟨greater, by omega, plain⟩
  obtain ⟨missing, left, most, members, sublist, above, drained⟩ :=
    tryReassemble_drains ok.ascending beyond
  have handedOut : tcpRInput max_segs_per_flow memory run.flow (stream.pktinfo expected) =
      (⟨stream.number missing, left.map stream.node⟩, .ok,
        expected :: range' (expected + 1) (missing - (expected + 1))) := by
    have number : (if (stream.pktinfo expected).flag &&& (TCP_FLAG_SYN ||| TCP_FLAG_FIN) ≠ 0 then
        run.flow.sn + (stream.pktinfo expected).tcp_payload_len + 1
        else run.flow.sn + (stream.pktinfo expected).tcp_payload_len) =
          stream.number (expected + 1) := by
      rw [sn]
      exact number_after stream expected
    rw [ok.pkts] at notHeld
    simp only [tcpRInput, zero, ok.pkts, if_neg notHeld, number, drained, lt_irrefl, if_false]
    rfl
  have row : run.handed ++ expected :: range' (expected + 1) (missing - (expected + 1)) =
      range missing := by
    have inRow : missing - expected = missing - (expected + 1) + 1 := by omega
    have joined : range' 0 expected ++ range' (0 + expected) (missing - expected) =
        range' 0 (expected + (missing - expected)) := range'_append_1
    have total : expected + (missing - expected) = missing := by omega
    rw [Nat.zero_add, total] at joined
    rw [← range'_succ, ← inRow, ok.handed, expectedIs, range_eq_range', range_eq_range', joined]
  refine ⟨left, ?_⟩
  have after : run.next stream max_segs_per_flow ⟨expected, memory⟩ =
      ⟨⟨stream.number missing, left.map stream.node⟩, insert expected run.arrived,
        range missing⟩ := by
    simp [FlowRun.next, handedOut, row]
  rw [after]
  have grows := stream.start_strictMono.monotone (show expected ≤ missing by omega)
  refine ⟨rfl, ?_, ?_, ok.ascending.sublist sublist, ?_, ?_⟩
  · simp [length_range]
  · simp [length_range]
  · intro k inside
    obtain ⟨-, ahead, plain⟩ := ok.beyond k (sublist.subset inside)
    rw [expectedIs] at ahead
    simp only [length_range]
    exact ⟨above k inside, by omega, plain⟩
  intro k
  simp only [Finset.mem_insert, ok.arrived, members, length_range, expectedIs]
  constructor
  · rintro (rfl | less | ⟨-, less⟩ | inside)
    · exact .inl most
    · exact .inl (by omega)
    · exact .inl less
    · exact .inr inside
  rintro (less | inside)
  · rcases lt_trichotomy k expected with smaller | rfl | greater
    · exact .inr (.inl smaller)
    · exact .inl rfl
    · exact .inr (.inr (.inl ⟨greater, less⟩))
  · exact .inr (.inr (.inr inside))

theorem FlowOk.step (ok : FlowOk stream run held) {arrival : Arrival}
    (fits : Fits stream max_segs_per_flow run arrival) :
    ∃ left, FlowOk stream (run.next stream max_segs_per_flow arrival) left := by
  obtain ⟨k, _⟩ := arrival
  rcases lt_trichotomy k run.handed.length with less | same | greater
  · exact ⟨held, ok.behind less ⟨fits.ahead, fits.behind⟩⟩
  · rw [same]
    exact ok.expected
  by_cases inside : k ∈ held
  · exact ⟨held, ok.alreadyHeld inside⟩
  · exact ⟨_, ok.ahead greater inside fits⟩

theorem flowSystem_ok (reached : (flowSystem stream max_segs_per_flow).ReachableWhen
    (Fits stream max_segs_per_flow) run) : ∃ held, FlowOk stream run held := by
  apply reached.invariant
  · rintro _ rfl
    exact ⟨[], .begin stream⟩
  · rintro _ _ _ ⟨_, ok⟩ fits rfl
    exact ok.step fits

/-- Segments are handed out in order, each once, and as soon as all before them arrived. -/
theorem tcpR_handsOut (reached : (flowSystem stream max_segs_per_flow).ReachableWhen
    (Fits stream max_segs_per_flow) run) : HandsOut run := by
  obtain ⟨_, ok⟩ := flowSystem_ok reached
  refine ⟨run.handed.length, fun k less => (ok.arrived k).mpr (.inl less), ?_, ok.handed⟩
  rw [ok.arrived]
  rintro (less | inside)
  · exact lt_irrefl _ less
  · exact lt_irrefl _ (ok.beyond _ inside).1

instance (stream : Stream) (max_segs_per_flow : USHORT) (run : FlowRun) (arrival : Arrival) :
    Decidable (Fits stream max_segs_per_flow run arrival) :=
  decidable_of_iff (_ ∧ _ ∧ _ ∧ _)
    ⟨fun ⟨ahead, behind, plain, room⟩ => ⟨ahead, behind, plain, room⟩,
      fun fits => ⟨fits.ahead, fits.behind, fits.plain, fits.room⟩⟩

def singleBytes : Stream :=
  ⟨0xffffffff, fun _ => ⟨1, 0, .inl (by decide)⟩⟩

def arrivals (segments : List Nat) : FlowRun :=
  (segments.map fun k => ⟨k, true⟩).foldl (FlowRun.next singleBytes TCP_REASSEMBLE_DFT_MAX_SEGS)
    (.begin singleBytes)

theorem mem_arrived {segments : List Nat} {max_segs_per_flow : USHORT} (run : FlowRun)
    (arrives : k ∈ run.arrived ∨ k ∈ segments) :
    k ∈ ((segments.map fun k => ⟨k, true⟩).foldl (FlowRun.next stream max_segs_per_flow) run).arrived := by
  induction segments generalizing run with
  | nil => exact arrives.resolve_right not_mem_nil
  | cons _ _ ih =>
    apply ih
    rcases arrives with before | inside
    · exact .inl (Finset.mem_insert_of_mem before)
    rcases mem_cons.mp inside with rfl | inRest
    · exact .inl (Finset.mem_insert_self _ _)
    · exact .inr inRest

theorem mem_arrivals {segments : List Nat} (inside : k ∈ segments) :
    k ∈ (arrivals segments).arrived :=
  mem_arrived _ (.inr inside)

theorem tcpR_handsOut_wrapping :
    ∃ run, (flowSystem singleBytes TCP_REASSEMBLE_DFT_MAX_SEGS).ReachableWhen
        (Fits singleBytes TCP_REASSEMBLE_DFT_MAX_SEGS) run ∧
      run.handed = [0, 1, 2] ∧ run.flow.sn = 2 ∧ HandsOut run := by
  have reached : (flowSystem singleBytes TCP_REASSEMBLE_DFT_MAX_SEGS).ReachableWhen
      (Fits singleBytes TCP_REASSEMBLE_DFT_MAX_SEGS) (arrivals [0, 2, 4, 2, 1, 0]) :=
    .foldl (fun _ _ fits => ⟨fits, rfl⟩) (.start rfl) (by decide +kernel)
  exact ⟨_, reached, by decide +kernel, by decide +kernel, tcpR_handsOut reached⟩

/-- Segments 130 to 1, and then the expected one. -/
@[irreducible] def backwards : List Nat :=
  (List.range 131).reverse

/-- Behind 129 held segments the next one is refused, and then missing. -/
theorem tcpR_refuses :
    (∃ run, (flowSystem singleBytes TCP_REASSEMBLE_DFT_MAX_SEGS).Reachable run ∧
      run.handed = [0] ∧ 1 ∈ run.arrived) ∧
    ¬ ∀ stream run, (flowSystem stream TCP_REASSEMBLE_DFT_MAX_SEGS).Reachable run →
      HandsOut run := by
  have reached : (flowSystem singleBytes TCP_REASSEMBLE_DFT_MAX_SEGS).Reachable
      (arrivals backwards) :=
    Lib.System.Reachable.runs (fun _ _ => rfl) _ (.start rfl)
  have handed : (arrivals backwards).handed = [0] := by decide +kernel
  have arrived : 1 ∈ (arrivals backwards).arrived := by
    generalize same : backwards = segments
    apply mem_arrivals
    rw [← same, backwards, mem_reverse, mem_range]
    decide
  refine ⟨⟨arrivals backwards, reached, handed, arrived⟩, fun handsOut => ?_⟩
  obtain ⟨_, -, absent, row⟩ := handsOut _ _ reached
  have same := congrArg length (handed.symm.trans row)
  rw [length_range, length_singleton] at same
  rw [← same] at absent
  exact absent arrived

end MyCode.TcpReassemble
