import MyCode.Stream2Ip
import MyCode.Lib.OnesComplement

/-!
# Packets of a stream

Whatever the order of the calls, the packets of each side carry its stream in contiguous
sequence numbers and acknowledge the stream of the other side.
-/

namespace MyCode.Stream2Ip

open Lib Function BitVec List Bool

def ofSide (client : Bool) (packets : List S2ipPacket) : List S2ipPacket :=
  packets.filter fun packet => packet.client == client

def S2ipPacket.numbers (packet : S2ipPacket) : UINT :=
  (if packet.tcp.tcp_flags &&& TCP_FLAG_SYN ≠ 0 then 1 else 0) +
    (if packet.tcp.tcp_flags &&& TCP_FLAG_FIN ≠ 0 then 1 else 0) +
    BitVec.ofNat 32 packet.payload.length

/-- The sequence numbers that the packets of one side take. -/
def numbersOf (client : Bool) (packets : List S2ipPacket) : UINT :=
  ((ofSide client packets).map S2ipPacket.numbers).foldr (· + ·) 0

/-- The bytes that the packets of one side carry. -/
def payloadOf (client : Bool) (packets : List S2ipPacket) : List UCHAR :=
  (ofSide client packets).flatMap S2ipPacket.payload

def firstOf (start : S2ipS) (client : Bool) : UINT :=
  if client then start.seq else start.ack

def endOf (start : S2ipS) (client : Bool) : UINT × USHORT :=
  if client then (start.sip, start.sport) else (start.dip, start.dport)

/-- The check of a receiver: the words of the header, taken in network order, add up to
all ones. -/
def Verifies (ip : S2ipIpv4Hdr) : Prop :=
  onesSum 0xffff (bigWords (ip.bytes.map BitVec.toNat)) = 0xffff

/-- A packet continues what its side sent before and acknowledges what the other side
sent before. -/
structure PacketOk (start : S2ipS) (before : List S2ipPacket) (packet : S2ipPacket) : Prop where
  seq : ntohl packet.tcp.sent_seq = firstOf start packet.client + numbersOf packet.client before
  ack : ntohl packet.tcp.recv_ack =
    firstOf start (!packet.client) + numbersOf (!packet.client) before
  source : (packet.ip.src_addr, packet.tcp.src_port) = endOf start packet.client
  target : (packet.ip.dst_addr, packet.tcp.dst_port) = endOf start (!packet.client)
  segment : packet.payload.length ≤ STREAM2IP_MAX_TCP_PAYLOAD_LEN
  length : packet.pkt_len ≤ STREAM2IP_MAX_IP_LEN
  total : (ntohs packet.ip.total_length).toNat = 20 + 20 + packet.payload.length
  checksum : Verifies packet.ip

/-- Every packet continues the ones before it, and the payloads are the data given. -/
structure S2ipStreams (start : S2ipS) (run : S2ipRun) : Prop where
  packets : ∀ i packet, run.output[i]? = some packet → PacketOk start (run.output.take i) packet
  data : ∀ client, payloadOf client run.output = run.given client

variable {bytes : List UCHAR} {sum : UINT}

theorem s2ipAddWords_eq (even : bytes.length % 2 = 0) (few : sum.toNat ≤ 0xffff) :
    (s2ipAddWords bytes sum).toNat =
      (littleWords (bytes.map BitVec.toNat)).foldl (onesAdd 0xffff) sum.toNat := by
  induction bytes, sum using s2ipAddWords.induct with
  | case1 first second _ sum added ih =>
    have whole : added.toNat = sum.toNat + (first.toNat + 256 * second.toNat) := by
      simp [added]
      omega
    have carried : (if added > 0xffff then added - 0xffff else added).toNat =
        onesAdd 0xffff sum.toNat (first.toNat + 256 * second.toNat) := by
      have above : added > 0xffff ↔ 0xffff < sum.toNat + (first.toNat + 256 * second.toNat) := by
        rw [← whole]
        exact lt_def
      rw [onesAdd, ← whole] at *
      by_cases carries : 0xffff < added.toNat
      · rw [if_pos (above.mpr carries), if_pos carries]
        exact toNat_sub_of_le (BitVec.le_of_lt (above.mpr carries))
      · rw [if_neg (fun more => carries (above.mp more)), if_neg carries]
    simp only [map_cons, littleWords, foldl_cons]
    rw [← carried]
    apply ih
    · simp only [length_cons] at even
      omega
    · rw [carried]
      exact onesAdd_le few (by omega)
  | case2 => simp at even
  | case3 => rfl

theorem bytes_lt (bytes : List UCHAR) : ∀ byte ∈ bytes.map BitVec.toNat, byte < 256 := by
  intro byte inside
  obtain ⟨word, _, rfl⟩ := mem_map.mp inside
  exact word.isLt

theorem s2ipGet16bSum_eq (even : bytes.length % 2 = 0) :
    (s2ipGet16bSum bytes).toNat = onesSum 0xffff (littleWords (bytes.map BitVec.toNat)) := by
  have added := s2ipAddWords_eq even (show (0 : UINT).toNat ≤ 0xffff by decide)
  have few := onesSum_le (words_le (bytes_lt bytes)).2
  have sums : (s2ipAddWords bytes 0).toNat = onesSum 0xffff (littleWords (bytes.map BitVec.toNat)) :=
    added
  rw [← sums] at few
  rw [← sums, s2ipGet16bSum]
  generalize s2ipAddWords bytes 0 = sum at few
  have low : sum &&& 0xffff = sum := by
    apply eq_of_toNat_eq
    exact (Nat.and_two_pow_sub_one_eq_mod sum.toNat 16).trans (Nat.mod_eq_of_lt (by omega))
  have high : (sum &&& 0xffff0000) >>> 16 = 0 := by
    rw [← low, BitVec.and_assoc]
    apply eq_of_toNat_eq
    rw [show (0xffff &&& 0xffff0000 : UINT) = 0#32 by decide, and_zero]
    rfl
  have folded : (0 : UINT) + sum = sum := BitVec.zero_add sum
  simp only [high, low, folded]
  have bound : 0xffff < 2 ^ 16 := by decide
  exact Nat.mod_eq_of_lt (Nat.lt_of_le_of_lt few bound)

theorem sum_checksum (ip : S2ipIpv4Hdr) :
    (littleWords (ip.bytes.map BitVec.toNat)).sum =
      (littleWords (({ ip with hdr_checksum := 0 } : S2ipIpv4Hdr).bytes.map BitVec.toNat)).sum +
        ip.hdr_checksum.toNat := by
  have zero : (0 : USHORT).toNat = 0 := rfl
  simp only [S2ipIpv4Hdr.bytes, ushortBytes, map_cons, map_nil, List.cons_append,
    nil_append, range_succ, range_zero, littleWords, sum_cons, sum_nil,
    toNat_ofNat, zero]
  omega

theorem s2ipChecksum_modEq (cksum : USHORT) :
    cksum.toNat + (if cksum = 0xffff then cksum else ~~~cksum).toNat ≡ 0 [MOD 0xffff] := by
  split
  · next ones =>
    subst ones
    rfl
  have whole : cksum.toNat + (~~~cksum).toNat = 0xffff := by
    rw [toNat_not]
    omega
  rw [whole]
  rfl

theorem verifies_fill (ctrl : S2ipS) (packet_id total_len : USHORT) :
    Verifies (s2ipFillIpHdr ctrl packet_id total_len) := by
  apply onesSum_eq_top (words_le (bytes_lt _)).1
  · apply sum_bigWords_pos
    exact ⟨69, mem_cons_self, by decide⟩
  refine sum_bigWords.trans ?_
  rw [sum_checksum]
  refine (Nat.ModEq.mul_left 256 ?_ : 256 * _ ≡ 256 * 0 [MOD 0xffff])
  rw [s2ipFillIpHdr]
  generalize header : (S2ipIpv4Hdr.mk 0x45 0 (htons total_len) packet_id (htons 0x4000) 0xff
    ctrl.protocol 0 ctrl.sip ctrl.dip) = ip
  have even : ip.bytes.length % 2 = 0 := by simp [S2ipIpv4Hdr.bytes, ushortBytes]
  have congruent := onesSum_modEq (words_le (bytes_lt ip.bytes)).2
  rw [← s2ipGet16bSum_eq even] at congruent
  exact (Nat.ModEq.add_right _ congruent.symm).trans (s2ipChecksum_modEq _)

/-- The packets sent so far are in order, and the control block knows both next sequence
numbers. -/
structure RunOk (start : S2ipS) (run : S2ipRun) : Prop where
  packets : ∀ i packet, run.output[i]? = some packet → PacketOk start (run.output.take i) packet
  seq : run.ctrl.seq = firstOf start run.client + numbersOf run.client run.output
  ack : run.ctrl.ack = firstOf start (!run.client) + numbersOf (!run.client) run.output
  source : (run.ctrl.sip, run.ctrl.sport) = endOf start run.client
  target : (run.ctrl.dip, run.ctrl.dport) = endOf start (!run.client)

variable {start : S2ipS} {run : S2ipRun} {flags : UCHAR} {payload : List UCHAR}
  {before : List S2ipPacket} {packet : S2ipPacket} {client : Bool} {eth : Option EthHeader}

theorem numbersOf_append_self : numbersOf packet.client (before ++ [packet]) =
    numbersOf packet.client before + packet.numbers := by
  have sums : ∀ numbers : List UINT, ∀ last,
      (numbers ++ [last]).foldr (· + ·) 0 = numbers.foldr (· + ·) 0 + last := by
    intro numbers last
    induction numbers with
    | nil => simp
    | cons _ _ ih => simp only [List.cons_append, foldr_cons, ih, BitVec.add_assoc]
  simp only [numbersOf]
  rw [show ofSide packet.client (before ++ [packet]) = ofSide packet.client before ++ [packet] by
    simp [ofSide], map_append]
  exact sums _ _

theorem numbersOf_append_other (other : packet.client ≠ client) :
    numbersOf client (before ++ [packet]) = numbersOf client before := by
  simp [numbersOf, ofSide, other]

theorem payloadOf_append : payloadOf client (before ++ [packet]) =
    payloadOf client before ++ if packet.client = client then packet.payload else [] := by
  by_cases same : packet.client = client <;> simp [payloadOf, ofSide, same]

variable (used : flags ∈ [0x2, 0x12, 0x10, 0x11])

include used in
/-- What `s2ip_fill_tcp_hdr` adds to `seq`, for the flags that are in use. -/
theorem s2ipFillTcpHdr_seq (ctrl : S2ipS) :
    (s2ipFillTcpHdr ctrl flags).1 =
      { ctrl with
        seq := ctrl.seq + ((if flags &&& TCP_FLAG_SYN ≠ 0 then 1 else 0) +
          if flags &&& TCP_FLAG_FIN ≠ 0 then 1 else 0) } := by
  have flagged : ∀ flags ∈ [(0x2 : UCHAR), 0x12, 0x10, 0x11],
      (if flags &&& (TCP_FLAG_SYN ||| TCP_FLAG_FIN) ≠ 0 then (1 : UINT) else 0) =
        (if flags &&& TCP_FLAG_SYN ≠ 0 then 1 else 0) +
          if flags &&& TCP_FLAG_FIN ≠ 0 then 1 else 0 := by
    decide
  rw [← flagged flags used, s2ipFillTcpHdr]
  split
  · rfl
  · simp

/-- A packet and the sequence numbers of its payload. -/
def s2ipSend (run : S2ipRun) (eth : Option EthHeader) (flags : UCHAR) (payload : List UCHAR) :
    S2ipRun :=
  let run := s2ipOutput run eth flags payload
  { run with ctrl := { run.ctrl with seq := run.ctrl.seq + BitVec.ofNat 32 payload.length } }

theorem s2ipOutput_nil : s2ipOutput run eth flags [] = s2ipSend run eth flags [] := by
  simp [s2ipSend]

def sentPacket (run : S2ipRun) (eth : Option EthHeader) (flags : UCHAR) (payload : List UCHAR) :
    S2ipPacket :=
  { eth := eth
    ip := s2ipFillIpHdr run.ctrl (run.packet_id + 1)
      (BitVec.ofNat 16 (20 + 20 + payload.length))
    tcp := (s2ipFillTcpHdr run.ctrl flags).2
    payload := payload
    pkt_len := 20 + 20 + payload.length + 14
    client := run.client }

theorem s2ipSend_output :
    (s2ipSend run eth flags payload).output = run.output ++ [sentPacket run eth flags payload] :=
  rfl

variable (short : payload.length ≤ STREAM2IP_MAX_TCP_PAYLOAD_LEN)

include short in
theorem RunOk.sent (ok : RunOk start run) :
    PacketOk start run.output (sentPacket run eth flags payload) := by
  have max : STREAM2IP_MAX_TCP_PAYLOAD_LEN = 1446 := rfl
  refine ⟨?_, ?_, ok.source, ok.target, short, ?_, ?_, verifies_fill _ _ _⟩
  · exact (htonl_htonl _).trans ok.seq
  · exact (htonl_htonl _).trans ok.ack
  · have limit : STREAM2IP_MAX_IP_LEN = 1500 := rfl
    simp only [sentPacket]
    omega
  · simp only [sentPacket, s2ipFillIpHdr, ntohs_htons, toNat_ofNat]
    omega

include used in
theorem s2ipSend_ctrl :
    (s2ipSend run eth flags payload).ctrl =
      { run.ctrl with seq := run.ctrl.seq + (sentPacket run eth flags payload).numbers } := by
  have sent : (s2ipSend run eth flags payload).ctrl = { (s2ipFillTcpHdr run.ctrl flags).1 with
        seq := (s2ipFillTcpHdr run.ctrl flags).1.seq + BitVec.ofNat 32 payload.length } := rfl
  rw [sent, s2ipFillTcpHdr_seq used run.ctrl]
  have numbers : (sentPacket run eth flags payload).numbers =
      (if flags &&& TCP_FLAG_SYN ≠ 0 then 1 else 0) +
        (if flags &&& TCP_FLAG_FIN ≠ 0 then 1 else 0) + BitVec.ofNat 32 payload.length := rfl
  rw [numbers]
  simp [BitVec.add_assoc]

include used short in
theorem RunOk.send (ok : RunOk start run) :
    RunOk start (s2ipSend run eth flags payload) := by
  have ctrl := @s2ipSend_ctrl run flags payload eth used
  refine ⟨?_, ?_, ?_, ?_, ?_⟩
  · intro i packet there
    rw [s2ipSend_output] at there ⊢
    by_cases last : i < run.output.length
    · rw [getElem?_append_left last] at there
      rw [take_append_of_le_length (by omega)]
      exact ok.packets i packet there
    rw [getElem?_append_right (by omega)] at there
    obtain ⟨inside, found⟩ := List.getElem?_eq_some_iff.mp there
    simp only [length_singleton] at inside
    have index : i = run.output.length := by omega
    subst index
    rw [take_left, ← found]
    simpa using ok.sent short
  · rw [ctrl, s2ipSend_output]
    have numbers := @numbersOf_append_self run.output (sentPacket run eth flags payload)
    rw [show (s2ipSend run eth flags payload).client =
      (sentPacket run eth flags payload).client from rfl, numbers, ← BitVec.add_assoc]
    exact congrArg (· + _) ok.seq
  · rw [ctrl, s2ipSend_output]
    have other : (sentPacket run eth flags payload).client ≠
        !(s2ipSend run eth flags payload).client := by
      simp [sentPacket, s2ipSend, s2ipOutput]
    rw [numbersOf_append_other other]
    exact ok.ack
  · rw [ctrl]
    exact ok.source
  · rw [ctrl]
    exact ok.target

theorem RunOk.switch (ok : RunOk start run) : RunOk start (s2ipSwitch run) := by
  refine ⟨ok.packets, ok.ack, ?_, ok.target, ?_⟩
  · simpa [s2ipSwitch] using ok.seq
  · simpa [s2ipSwitch] using ok.source

/-- What a run of sends and switches keeps: the order of the packets, and that the side
`run` stands for has sent the given bytes more, the other side none. -/
structure Sends (start : S2ipS) (run after : S2ipRun) (bytes : List UCHAR) : Prop where
  ok : RunOk start run → RunOk start after
  client : after.client = run.client
  given : after.given = run.given
  own : payloadOf run.client after.output = payloadOf run.client run.output ++ bytes
  other : payloadOf (!run.client) after.output = payloadOf (!run.client) run.output

variable {after last : S2ipRun} {bytes more : List UCHAR}

theorem Sends.none (run : S2ipRun) : Sends start run run [] :=
  ⟨id, rfl, rfl, (append_nil _).symm, rfl⟩

theorem Sends.trans (first : Sends start run after bytes) (second : Sends start after last more) :
    Sends start run last (bytes ++ more) := by
  refine ⟨second.ok ∘ first.ok, second.client.trans first.client,
    second.given.trans first.given, ?_, ?_⟩
  · rw [← List.append_assoc, ← first.own, ← first.client]
    exact second.own
  · rw [← first.other, ← first.client]
    exact second.other

include used short in
theorem Sends.send (run : S2ipRun) (eth : Option EthHeader) :
    Sends start run (s2ipSend run eth flags payload) payload := by
  refine ⟨fun ok => ok.send used short, rfl, rfl, ?_, ?_⟩
  · rw [s2ipSend_output, payloadOf_append]
    simp [sentPacket]
  · rw [s2ipSend_output, payloadOf_append]
    simp [sentPacket]

include used in
theorem Sends.empty (run : S2ipRun) (eth : Option EthHeader) :
    Sends start run (s2ipOutput run eth flags []) [] := by
  rw [s2ipOutput_nil]
  exact Sends.send used (Nat.zero_le _) run eth

include used in
theorem Sends.reply (run : S2ipRun) (eth : Option EthHeader) :
    Sends start run (s2ipSwitch (s2ipOutput (s2ipSwitch run) eth flags [])) [] := by
  rw [s2ipOutput_nil]
  have sent := @Sends.send start flags [] used (Nat.zero_le _) (s2ipSwitch run) eth
  refine ⟨fun ok => (sent.ok ok.switch).switch, ?_, rfl, ?_, ?_⟩
  · exact not_not run.client
  · have other := sent.other
    simpa [s2ipSwitch] using other
  · have own := sent.own
    simpa [s2ipSwitch] using own

theorem Sends.hsk (run : S2ipRun) : Sends start run (s2ipHsk run) [] := by
  apply (@Sends.empty start 0x2 (by decide) run (s2ipEth run.ctrl)).trans
  apply (@Sends.reply start 0x12 (by decide) _ (s2ipEth run.ctrl)).trans
  exact Sends.empty (by decide) _ _

theorem Sends.bye (run : S2ipRun) : Sends start run (s2ipBye run) [] := by
  apply (@Sends.empty start 0x11 (by decide) run .none).trans
  exact Sends.reply (by decide) _ .none

theorem Sends.segments (eth : EthHeader) (rounds : Nat) (run : S2ipRun) (left : List UCHAR)
    (enough : left.length ≤ rounds) : Sends start run (s2ipSegments eth rounds run left) left := by
  induction rounds generalizing run left with
  | zero =>
    have empty : left = [] := eq_nil_of_length_eq_zero (by omega)
    subst empty
    exact Sends.none run
  | succ _ ih =>
    rw [s2ipSegments]
    split
    · next some =>
      have max : STREAM2IP_MAX_TCP_PAYLOAD_LEN = 1446 := rfl
      have whole := take_append_drop (min STREAM2IP_MAX_TCP_PAYLOAD_LEN left.length) left
      conv =>
        rhs
        rw [← whole]
      apply Sends.trans
      · have short : (left.take (min STREAM2IP_MAX_TCP_PAYLOAD_LEN left.length)).length ≤
            STREAM2IP_MAX_TCP_PAYLOAD_LEN := by
          rw [length_take]
          omega
        exact @Sends.send start 0x10 _ (by decide) short run eth
      · apply ih
        rw [length_drop]
        omega
    · next none =>
      have empty : left = [] := eq_nil_of_length_eq_zero (by omega)
      subst empty
      exact Sends.none run

theorem Sends.data (run : S2ipRun) (data : List UCHAR) (ack : Bool) :
    Sends start run (s2ipData run data ack) data := by
  have segments := @Sends.segments start (s2ipEth run.ctrl) data.length run data (Nat.le_refl _)
  cases ack with
  | false => exact segments
  | true =>
    have acked := segments.trans (@Sends.reply start 0x10 (by decide) _ (s2ipEth run.ctrl))
    simpa [s2ipData] using acked

structure BetweenCalls (start : S2ipS) (run : S2ipRun) : Prop where
  ok : RunOk start run
  data : ∀ client, payloadOf client run.output = run.given client

section

variable (between : BetweenCalls start run)

include between

theorem BetweenCalls.sends (sends : Sends start run after []) : BetweenCalls start after := by
  refine ⟨sends.ok between.ok, ?_⟩
  intro client
  rw [sends.given, ← between.data]
  by_cases own : client = run.client
  · subst own
    simpa using sends.own
  · rw [eq_not_of_ne own]
    exact sends.other

theorem BetweenCalls.given (sends : Sends start run after bytes) :
    BetweenCalls start
      { after with
        given := update run.given run.client (run.given run.client ++ bytes) } := by
  refine ⟨?_, ?_⟩
  · obtain ⟨packets, seq, ack, source, target⟩ := sends.ok between.ok
    exact ⟨packets, seq, ack, source, target⟩
  intro client
  dsimp only
  by_cases own : client = run.client
  · subst own
    rw [update_self, ← between.data]
    exact sends.own
  · rw [update_of_ne own, ← between.data, eq_not_of_ne own]
    exact sends.other

theorem BetweenCalls.call (call : S2ipCall) : BetweenCalls start (call.run run) := by
  cases call with
  | hsk => exact between.sends (Sends.hsk run)
  | data bytes ack => exact between.given (Sends.data run bytes ack)
  | bye => exact between.sends (Sends.bye run)
  | switch => exact ⟨between.ok.switch, between.data⟩

end

theorem BetweenCalls.first (ctrl : S2ipS) (packet_id : USHORT) :
    BetweenCalls ctrl ⟨ctrl, packet_id, true, [], fun _ => []⟩ := by
  refine ⟨⟨?_, ?_, ?_, rfl, rfl⟩, fun _ => rfl⟩
  · intro i packet there
    simp at there
  · simp [firstOf, numbersOf, ofSide]
  · simp [firstOf, numbersOf, ofSide]

theorem betweenCalls_runs (calls : List S2ipCall) (between : BetweenCalls start run) :
    BetweenCalls start (calls.foldl S2ipCall.run run) := by
  induction calls generalizing run with
  | nil => exact between
  | cons call _ ih => exact ih (between.call call)

/-- From any control block on, in any order of calls and with data of any length, each
packet goes on where its side stopped and acknowledges where the other side stopped; the
payloads of a side are the data given for it. -/
theorem s2ip_streams (ctrl : S2ipS) (packet_id : USHORT) (calls : List S2ipCall) :
    S2ipStreams ctrl (s2ipRuns ctrl packet_id calls) := by
  have between := betweenCalls_runs calls (BetweenCalls.first ctrl packet_id)
  exact ⟨between.ok.packets, between.data⟩

end MyCode.Stream2Ip
