import Mathlib.Data.List.Basic
import MyCode.Types

/-!
# DNS packets

A packet is its bytes.  The walk over its records keeps the offset of the next
record with the bytes from there on, and gives back what it hands over.
-/

namespace MyCode.Dns

def dnsMaxDnsNameSize : Nat := 253 + 2

/-- The `DNS_RRTYPE_*` numbers. -/
inductive DnsRrtype where
  | query
  | answer
  | authority
  | additional
  deriving DecidableEq, Repr

/-- What a callback is given; the pointers are offsets into the packet. -/
structure DnsWalkQr where
  rrtype : DnsRrtype
  rr_data : Nat
  rr_struct : Nat
  rr_size : USHORT
  dns_pkt_len : USHORT
  domain_size : USHORT

def dnsHeaderSize : Nat := 12

def dnsQstSize : Nat := 4

def dnsRrSize : Nat := 10

/-- A `USHORT` in network order. -/
def ntohsAt (bytes : List UCHAR) (offset : Nat) : Nat :=
  256 * (bytes.getD offset 0).toNat + (bytes.getD (offset + 1) 0).toNat

/-- The loop of `DNS_GetDnsNameSize`; every turn adds at least two bytes. -/
def dnsNameLoop (pucData : List UCHAR) (uiDnsNameMaxSize : Nat) :
    (turns : Nat) → (uiDnsNameSize : Nat) → Nat
  | 0, _ => 0
  | turns + 1, uiDnsNameSize =>
    let uiLableLen := pucData.getD uiDnsNameSize 0
    if uiLableLen = 0 then uiDnsNameSize + 1
    else if uiLableLen &&& 0xc0 = 0xc0 then uiDnsNameSize + 1 + 1
    else
      let uiDnsNameSize := uiDnsNameSize + (uiLableLen.toNat + 1)
      if uiDnsNameMaxSize ≤ uiDnsNameSize then 0
      else dnsNameLoop pucData uiDnsNameMaxSize turns uiDnsNameSize

def dnsGetDnsNameSize (pucData : List UCHAR) : Nat :=
  let uiDnsNameMaxSize := min pucData.length dnsMaxDnsNameSize
  if uiDnsNameMaxSize < 2 then 0 else dnsNameLoop pucData uiDnsNameMaxSize uiDnsNameMaxSize 0

/-- The callback with the size of the question, or `BS_ERR`. -/
def dnsEachQuery (pkt_len offset : Nat) (rrhead : List UCHAR) : Option (DnsWalkQr × Nat) :=
  let name_size := dnsGetDnsNameSize rrhead
  let rrsize := dnsQstSize + name_size
  if rrhead.length < rrsize then none
  else some (⟨.query, offset, offset + name_size, BitVec.ofNat 16 rrsize, BitVec.ofNat 16 pkt_len,
    BitVec.ofNat 16 name_size⟩, rrsize)

/-- The callback with the size of the record, or `BS_ERR`.  `usRDLen` is the last field of the
fixed part. -/
def dnsEachRR (pkt_len : Nat) (rrtype : DnsRrtype) (offset : Nat) (rrhead : List UCHAR) :
    Option (DnsWalkQr × Nat) :=
  let name_size := dnsGetDnsNameSize rrhead
  let rrsize := dnsRrSize + name_size
  if rrhead.length < rrsize then none
  else
    let rrsize := rrsize + ntohsAt rrhead (name_size + 8)
    if rrhead.length < rrsize then none
    else some (⟨rrtype, offset, offset + name_size, BitVec.ofNat 16 rrsize,
      BitVec.ofNat 16 pkt_len, BitVec.ofNat 16 name_size⟩, rrsize)

def dnsEach (pkt_len : Nat) : DnsRrtype → Nat → List UCHAR → Option (DnsWalkQr × Nat)
  | .query => dnsEachQuery pkt_len
  | rrtype => dnsEachRR pkt_len rrtype

/-- One of the loops of `DNS_WalkQR`, with where it ends unless it returns. -/
def dnsWalkLoop (each : Nat → List UCHAR → Option (DnsWalkQr × Nat)) :
    (count : Nat) → (offset : Nat) → List UCHAR → List DnsWalkQr × Option (Nat × List UCHAR)
  | 0, offset, rrhead => ([], some (offset, rrhead))
  | count + 1, offset, rrhead =>
    match each offset rrhead with
    | none => ([], none)
    | some (qr, rrsize) =>
      let walked := dnsWalkLoop each count (offset + rrsize) (rrhead.drop rrsize)
      (qr :: walked.1, walked.2)

def dnsWalkLoops (pkt_len : Nat) :
    List (DnsRrtype × Nat) → (offset : Nat) → List UCHAR → List DnsWalkQr
  | [], _, _ => []
  | (rrtype, count) :: loops, offset, rrhead =>
    let walked := dnsWalkLoop (dnsEach pkt_len rrtype) count offset rrhead
    match walked.2 with
    | none => walked.1
    | some (offset, rrhead) => walked.1 ++ dnsWalkLoops pkt_len loops offset rrhead

/-- The four sections with the counts of the header. -/
def dnsCounts (pkt : List UCHAR) : List (DnsRrtype × Nat) :=
  [(.query, ntohsAt pkt 4), (.answer, ntohsAt pkt 6), (.authority, ntohsAt pkt 8),
    (.additional, ntohsAt pkt 10)]

/-- The callbacks of `DNS_WalkQR`. -/
def dnsWalkQR (pkt : List UCHAR) : List DnsWalkQr :=
  if pkt.length ≤ dnsHeaderSize then []
  else dnsWalkLoops pkt.length (dnsCounts pkt) dnsHeaderSize (pkt.drop dnsHeaderSize)

end MyCode.Dns

/-!
## A reference parse of DNS packets

The reference reads one well-formed record after the other and stops at the
first one that is malformed; the walk reads a name that does not end as one of
size zero.
-/

namespace MyCode.Dns

/-- Bytes that start with a name, with the size of its labels and its own size. -/
inductive DnsName : List UCHAR → (labels size : Nat) → Prop where
  | root (rest : List UCHAR) : DnsName (0 :: rest) 0 1
  | pointer (first second : UCHAR) (rest : List UCHAR) :
      first &&& 0xc0 = 0xc0 → DnsName (first :: second :: rest) 0 2
  | label (length : UCHAR) (text rest : List UCHAR) (labels size : Nat) :
      0 < length.toNat → length.toNat ≤ 63 → text.length = length.toNat →
      DnsName rest labels size →
      DnsName (length :: (text ++ rest)) (length.toNat + 1 + labels) (length.toNat + 1 + size)

def DnsRrtype.fixed : DnsRrtype → Nat
  | query => dnsQstSize
  | _ => dnsRrSize

/-- The size of the data behind the fixed part. -/
def DnsRrtype.data (bytes : List UCHAR) (name : Nat) : DnsRrtype → Nat
  | query => 0
  | _ => ntohsAt bytes (name + 8)

structure DnsRecord (rrtype : DnsRrtype) (bytes : List UCHAR) (name size : Nat) : Prop where
  named : ∃ labels, DnsName bytes labels name ∧ labels + 1 ≤ dnsMaxDnsNameSize
  room : name + rrtype.fixed ≤ bytes.length
  whole : size = name + rrtype.fixed + rrtype.data bytes name
  inside : size ≤ bytes.length

/-- A record of a section at an offset, with the size of its name and its own. -/
structure DnsItem where
  rrtype : DnsRrtype
  offset : Nat
  name : Nat
  size : Nat
  deriving DecidableEq

/-- The records up to the first malformed one, with that one and the bytes from it on. -/
inductive DnsParse : List DnsRrtype → (offset : Nat) → List UCHAR → List DnsItem →
    Option (DnsRrtype × List UCHAR) → Prop where
  | done (offset : Nat) (bytes : List UCHAR) : DnsParse [] offset bytes [] none
  | malformed (rrtype : DnsRrtype) (rrtypes : List DnsRrtype) (offset : Nat)
      (bytes : List UCHAR) : (∀ name size, ¬DnsRecord rrtype bytes name size) →
      DnsParse (rrtype :: rrtypes) offset bytes [] (some (rrtype, bytes))
  | item (rrtype : DnsRrtype) (rrtypes : List DnsRrtype) (offset : Nat) (bytes : List UCHAR)
      (name size : Nat) (items : List DnsItem) (stop : Option (DnsRrtype × List UCHAR)) :
      DnsRecord rrtype bytes name size →
      DnsParse rrtypes (offset + size) (bytes.drop size) items stop →
      DnsParse (rrtype :: rrtypes) offset bytes (⟨rrtype, offset, name, size⟩ :: items) stop

/-- The sections of the records that the header counts. -/
def dnsSections (pkt : List UCHAR) : List DnsRrtype :=
  (dnsCounts pkt).flatMap fun loop => List.replicate loop.2 loop.1

def DnsWalkQr.item (qr : DnsWalkQr) : DnsItem :=
  ⟨qr.rrtype, qr.rr_data, qr.domain_size.toNat, qr.rr_size.toNat⟩

/-- Too few bytes for a fixed part and its data behind a name of the size that is found. -/
def TooShort (rrtype : DnsRrtype) (bytes : List UCHAR) : Prop :=
  bytes.length < dnsGetDnsNameSize bytes + rrtype.fixed ∨
    bytes.length < dnsGetDnsNameSize bytes + rrtype.fixed +
      rrtype.data bytes (dnsGetDnsNameSize bytes)

variable {bytes : List UCHAR} {labels size name offset pkt_len : Nat} {rrtype : DnsRrtype}

theorem DnsName.inside (named : DnsName bytes labels size) :
    labels < size ∧ size ≤ bytes.length ∧ size ≤ labels + 2 := by
  induction named with
  | root => simp
  | pointer => simp
  | label =>
    simp only [List.length_cons, List.length_append]
    omega

theorem getD_of_drop {data : List UCHAR} {position : Nat} {first : UCHAR} {rest : List UCHAR}
    (there : data.drop position = first :: rest) : data.getD position 0 = first := by
  have read := congrArg List.head? there
  rw [List.head?_drop, List.head?_cons] at read
  rw [List.getD_eq_getElem?_getD, read]
  rfl

theorem label_top {length : UCHAR} (short : length.toNat ≤ 63) : length &&& 0xc0 ≠ 0xc0 := by
  have all : ∀ length : UCHAR, length.toNat ≤ 63 → length &&& 0xc0 ≠ 0xc0 := by decide
  exact all length short

theorem dnsNameLoop_name (data : List UCHAR) {most : Nat} (named : DnsName bytes labels size)
    (turns position : Nat) (there : data.drop position = bytes) (fits : position + labels < most)
    (enough : labels < turns) : dnsNameLoop data most turns position = position + size := by
  induction named generalizing turns position with
  | root =>
    obtain ⟨_, rfl⟩ := Nat.exists_eq_add_of_lt enough
    rw [dnsNameLoop, getD_of_drop there]
    rfl
  | pointer first _ _ top =>
    obtain ⟨_, rfl⟩ := Nat.exists_eq_add_of_lt enough
    have used : first ≠ 0 := by
      rintro rfl
      exact absurd top (by decide)
    rw [dnsNameLoop, getD_of_drop there]
    simp only [if_neg used, if_pos top]
  | label length _ rest _ _ positive short text_length _ ih =>
    obtain ⟨_, rfl⟩ := Nat.exists_eq_add_of_lt (Nat.zero_lt_of_lt enough)
    have used : length ≠ 0 := by
      rintro rfl
      exact absurd positive (by decide)
    have later : data.drop (position + (length.toNat + 1)) = rest := by
      rw [← List.drop_drop, there, List.drop_succ_cons, ← text_length, List.drop_left]
    rw [dnsNameLoop, getD_of_drop there]
    simp only [if_neg used, if_neg (label_top short)]
    rw [if_neg (by omega), ih _ _ later (by omega) (by omega)]
    omega

theorem dnsGetDnsNameSize_name (named : DnsName bytes labels name)
    (limit : labels + 1 ≤ dnsMaxDnsNameSize) (long : 2 ≤ bytes.length) :
    dnsGetDnsNameSize bytes = name := by
  have inside := named.inside
  have most : labels < min bytes.length dnsMaxDnsNameSize := by omega
  have enough : ¬min bytes.length dnsMaxDnsNameSize < 2 := by
    rw [dnsMaxDnsNameSize]
    omega
  rw [dnsGetDnsNameSize]
  simp only [if_neg enough]
  rw [dnsNameLoop_name bytes named _ 0 rfl (by omega) most, Nat.zero_add]

theorem DnsRecord.nameSize (record : DnsRecord rrtype bytes name size) :
    dnsGetDnsNameSize bytes = name := by
  obtain ⟨_, named, limit⟩ := record.named
  have room := record.room
  have fixed : 4 ≤ rrtype.fixed := by cases rrtype <;> decide
  exact dnsGetDnsNameSize_name named limit (by omega)

theorem dnsParse_exists (rrtypes : List DnsRrtype) (offset : Nat) (bytes : List UCHAR) :
    ∃ items stop, DnsParse rrtypes offset bytes items stop := by
  induction rrtypes generalizing offset bytes with
  | nil => exact ⟨_, _, .done offset bytes⟩
  | cons rrtype rrtypes ih =>
    by_cases formed : ∃ name size, DnsRecord rrtype bytes name size
    · obtain ⟨name, size, record⟩ := formed
      obtain ⟨items, stop, parse⟩ := ih (offset + size) (bytes.drop size)
      exact ⟨_, _, .item rrtype rrtypes offset bytes name size items stop record parse⟩
    · push Not at formed
      exact ⟨_, _, .malformed rrtype rrtypes offset bytes formed⟩

theorem dnsEach_short (pkt_len offset : Nat) (short : TooShort rrtype bytes) :
    dnsEach pkt_len rrtype offset bytes = none := by
  have total : bytes.length < rrtype.fixed + dnsGetDnsNameSize bytes ∨
      bytes.length < rrtype.fixed + dnsGetDnsNameSize bytes +
        rrtype.data bytes (dnsGetDnsNameSize bytes) := by
    rw [Nat.add_comm rrtype.fixed]
    exact short
  cases rrtype with
  | query =>
    have fixed := total.elim id id
    exact if_pos fixed
  | answer | authority | additional =>
    rw [dnsEach, dnsEachRR]
    · split
      · rfl
      · next fixed => exact if_pos (total.resolve_left fixed)
    · exact nofun

theorem dnsEach_long (pkt_len offset : Nat) (long : ¬TooShort rrtype bytes) :
    dnsEach pkt_len rrtype offset bytes =
      some (⟨rrtype, offset, offset + dnsGetDnsNameSize bytes,
        BitVec.ofNat 16 (dnsGetDnsNameSize bytes + rrtype.fixed +
          rrtype.data bytes (dnsGetDnsNameSize bytes)),
        BitVec.ofNat 16 pkt_len, BitVec.ofNat 16 (dnsGetDnsNameSize bytes)⟩,
        dnsGetDnsNameSize bytes + rrtype.fixed +
          rrtype.data bytes (dnsGetDnsNameSize bytes)) := by
  have total : ¬(bytes.length < rrtype.fixed + dnsGetDnsNameSize bytes ∨
      bytes.length < rrtype.fixed + dnsGetDnsNameSize bytes +
        rrtype.data bytes (dnsGetDnsNameSize bytes)) := by
    rw [Nat.add_comm rrtype.fixed]
    exact long
  rw [not_or] at total
  rw [Nat.add_comm _ rrtype.fixed]
  cases rrtype with
  | query => exact if_neg total.1
  | answer | authority | additional =>
    rw [dnsEach, dnsEachRR]
    · exact (if_neg total.1).trans (if_neg total.2)
    · exact nofun

/-- The walk over all the records, one after the other. -/
def dnsWalkAll (pkt_len : Nat) : List DnsRrtype → (offset : Nat) → List UCHAR → List DnsWalkQr
  | [], _, _ => []
  | rrtype :: rrtypes, offset, bytes =>
    match dnsEach pkt_len rrtype offset bytes with
    | none => []
    | some (qr, size) => qr :: dnsWalkAll pkt_len rrtypes (offset + size) (bytes.drop size)

theorem dnsWalkLoop_all (rrtype : DnsRrtype) (rrtypes : List DnsRrtype) (count offset : Nat)
    (bytes : List UCHAR) :
    dnsWalkAll pkt_len (List.replicate count rrtype ++ rrtypes) offset bytes =
      match (dnsWalkLoop (dnsEach pkt_len rrtype) count offset bytes).2 with
      | none => (dnsWalkLoop (dnsEach pkt_len rrtype) count offset bytes).1
      | some (offset', bytes') => (dnsWalkLoop (dnsEach pkt_len rrtype) count offset bytes).1 ++
          dnsWalkAll pkt_len rrtypes offset' bytes' := by
  induction count generalizing offset bytes with
  | zero => rfl
  | succ count ih =>
    rw [List.replicate_succ, List.cons_append, dnsWalkAll, dnsWalkLoop]
    cases dnsEach pkt_len rrtype offset bytes with
    | none => rfl
    | some record =>
      simp only [ih]
      cases (dnsWalkLoop (dnsEach pkt_len rrtype) count (offset + record.2)
        (bytes.drop record.2)).2 <;> rfl

theorem dnsWalkLoops_all (loops : List (DnsRrtype × Nat)) (offset : Nat) (bytes : List UCHAR) :
    dnsWalkLoops pkt_len loops offset bytes =
      dnsWalkAll pkt_len (loops.flatMap fun loop => List.replicate loop.2 loop.1) offset bytes := by
  induction loops generalizing offset bytes with
  | nil => rfl
  | cons _ _ ih =>
    rw [List.flatMap_cons, dnsWalkLoop_all, dnsWalkLoops]
    simp [ih]

theorem dnsWalkAll_nil (rrtypes : List DnsRrtype) : dnsWalkAll pkt_len rrtypes offset [] = [] := by
  cases rrtypes with
  | nil => rfl
  | cons rrtype =>
    have positive : 0 < rrtype.fixed := by cases rrtype <;> decide
    rw [dnsWalkAll, dnsEach_short]
    exact .inl (Nat.lt_add_left _ positive)

def DnsItem.cut (item : DnsItem) : DnsItem :=
  { item with size := item.size % 2 ^ 16 }

theorem DnsRecord.long (record : DnsRecord rrtype bytes name size) : ¬TooShort rrtype bytes := by
  have inside := record.inside
  rw [record.whole] at inside
  rw [TooShort, record.nameSize]
  omega

/-- The walk hands over the items of the parse, and goes on behind them unless too few bytes are
left. -/
theorem dnsWalkAll_parse {rrtypes : List DnsRrtype} {items : List DnsItem}
    {stop : Option (DnsRrtype × List UCHAR)} (parse : DnsParse rrtypes offset bytes items stop) :
    ∃ calls more, dnsWalkAll pkt_len rrtypes offset bytes = calls ++ more ∧
      calls.map DnsWalkQr.item = items.map DnsItem.cut ∧
      (more = [] ↔ ∀ rrtype rest, stop = some (rrtype, rest) → TooShort rrtype rest) := by
  induction parse with
  | done => exact ⟨[], [], rfl, rfl, iff_of_true rfl nofun⟩
  | malformed rrtype _ offset bytes =>
    rw [dnsWalkAll]
    by_cases short : TooShort rrtype bytes
    · rw [dnsEach_short pkt_len offset short]
      refine ⟨[], [], rfl, rfl, iff_of_true rfl fun other rest same => ?_⟩
      obtain ⟨rfl, rfl⟩ := Prod.mk.inj (Option.some.inj same)
      exact short
    · rw [dnsEach_long pkt_len offset short]
      exact ⟨[], _, rfl, rfl, iff_of_false (List.cons_ne_nil _ _) fun all => short (all _ _ rfl)⟩
  | item _ _ offset _ name _ _ _ record _ ih =>
    obtain ⟨calls, more, walked, same, ends⟩ := ih
    have small : name < 2 ^ 16 := by
      obtain ⟨_, named, limit⟩ := record.named
      have inside := named.inside
      rw [dnsMaxDnsNameSize] at limit
      omega
    rw [dnsWalkAll, dnsEach_long pkt_len offset record.long, record.nameSize, ← record.whole]
    simp only [walked]
    refine ⟨_ :: calls, more, rfl, ?_, ends⟩
    rw [List.map_cons, List.map_cons, same, DnsWalkQr.item, DnsItem.cut]
    simp only [BitVec.toNat_ofNat, Nat.mod_eq_of_lt small]

/-- A header that counts one question, and a label of five bytes with three behind it. -/
def shortLabelPkt : List UCHAR :=
  [0, 0, 0, 0, 0, 1, 0, 0, 0, 0, 0, 0, 5, 1, 2, 3]

end MyCode.Dns
