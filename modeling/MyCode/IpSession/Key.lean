import MyCode.IpSession.Table
import Mathlib.Data.Sym.Sym2

/-!
# The key of a session

Which address is put first in a key is decided from the addresses alone, so the two
directions of a connection between two ports of one address have two keys.
-/

namespace MyCode.IpSession

open BitVec

def AF_INET : UCHAR := 2

def AF_INET6 : UCHAR := 10

def ip6AddrCmp (addr1 addr2 : Vector UINT 4) : List (Fin 4) → Int
  | [] => 0
  | i :: rest =>
    if addr1[i] < addr2[i] then -1
    else if addr2[i] < addr1[i] then 1
    else ip6AddrCmp addr1 addr2 rest

def ipsessionCacalClientIndex (family : UCHAR) (client_ip server_ip : Vector UINT 4) : Fin 2 :=
  if family = AF_INET then
    if (if client_ip[0] < server_ip[0] then client_ip[0] else server_ip[0]) = client_ip[0] then 0
    else 1
  else if family = AF_INET6 then
    -- IP6_ADDR_MIN returns its first pointer unless the second address is less
    if 0 < ip6AddrCmp client_ip server_ip (List.finRange 4) then 1 else 0
  else 0

def IpTupKey.setIp4 (key : IpTupKey) (index : Fin 2) (ip4 : UINT) : IpTupKey :=
  { key with ip := key.ip.set index (key.ip[index].set 0 ip4) }

def IpTupKey.setIp6 (key : IpTupKey) (index : Fin 2) (ip6 : Vector UINT 4) : IpTupKey :=
  { key with ip := key.ip.set index ip6 }

def IpTupKey.setPort (key : IpTupKey) (index : Fin 2) (port : USHORT) : IpTupKey :=
  { key with port := key.port.set index port }

section KeyInit

variable (family protocol : UCHAR) (client_ip server_ip : Vector UINT 4)
  (client_port server_port : USHORT) (tun_id : UINT)

def ipsessionKeyInit (key : IpTupKey) : IpTupKey × Fin 2 :=
  let client_index := ipsessionCacalClientIndex family client_ip server_ip
  let server_index : Fin 2 := if client_index = 0 then 1 else 0
  let key := { key with family := family, protocol := protocol }
  let key :=
    if family = AF_INET then
      (key.setIp4 client_index client_ip[0]).setIp4 server_index server_ip[0]
    else (key.setIp6 client_index client_ip).setIp6 server_index server_ip
  let key := (key.setPort client_index client_port).setPort server_index server_port
  ({ key with tun_id := tun_id }, client_index)

def ipSessionKeyInit : IpTupKey × Fin 2 :=
  ipsessionKeyInit family protocol client_ip server_ip client_port server_port tun_id
    ⟨0, 0, 0, 0, .replicate 2 (.replicate 4 0), .replicate 2 0, 0⟩

end KeyInit

/-- The address behind a pointer, of which a key of IPv4 has one word. -/
def endpoint (family : UCHAR) (ip : Vector UINT 4) (port : USHORT) : Vector UINT 4 × USHORT :=
  (if family = AF_INET then #v[ip[0], 0, 0, 0] else ip, port)

def tupKey (family protocol : UCHAR) (tun_id : UINT) (first second : Vector UINT 4 × USHORT) :
    IpTupKey :=
  ⟨family, protocol, 0, 0, #v[first.1, second.1], #v[first.2, second.2], tun_id⟩

variable {family protocol : UCHAR} {a b : Vector UINT 4} {p q : USHORT} {tun_id : UINT}

theorem ipSessionKeyInit_eq :
    ipSessionKeyInit family protocol a b p q tun_id =
      (if ipsessionCacalClientIndex family a b = 0 then
        tupKey family protocol tun_id (endpoint family a p) (endpoint family b q)
      else tupKey family protocol tun_id (endpoint family b q) (endpoint family a p),
      ipsessionCacalClientIndex family a b) := by
  rw [ipSessionKeyInit, ipsessionKeyInit]
  generalize ipsessionCacalClientIndex family a b = index
  simp only [endpoint]
  obtain rfl | rfl : index = 0 ∨ index = 1 := by omega
  · split <;> rfl
  · split <;> rfl

theorem ip6AddrCmp_swap (words : List (Fin 4)) : ip6AddrCmp b a words = -ip6AddrCmp a b words := by
  induction words with
  | nil => rfl
  | cons _ _ ih =>
    simp only [ip6AddrCmp, ih, lt_def]
    split_ifs <;> omega

theorem ip6AddrCmp_eq_zero (words : List (Fin 4)) :
    ip6AddrCmp a b words = 0 ↔ ∀ i ∈ words, a[i] = b[i] := by
  induction words with
  | nil => simp [ip6AddrCmp]
  | cons _ _ ih =>
    rw [ip6AddrCmp, List.forall_mem_cons, ← ih, ← toNat_inj]
    simp only [lt_def]
    split_ifs with less more
    · exact iff_of_false (by decide) fun both => less.ne both.1
    · exact iff_of_false (by decide) fun both => more.ne' both.1
    · exact (and_iff_right (by omega)).symm

theorem clientIndex_of_eq (same : (endpoint family a p).1 = (endpoint family b q).1) :
    ipsessionCacalClientIndex family a b = 0 := by
  rw [ipsessionCacalClientIndex]
  split
  · next ip4 =>
    simp only [endpoint, if_pos ip4] at same
    have words := congrArg (fun ip : Vector UINT 4 => ip[0]) same
    have word : a[0] = b[0] := words
    simp [word]
  next ip6 =>
  simp only [endpoint, if_neg ip6] at same
  have level : ip6AddrCmp a b (List.finRange 4) = 0 := by
    rw [ip6AddrCmp_eq_zero, same]
    exact fun _ _ => rfl
  simp [level]

theorem clientIndex_swap (isFamily : family = AF_INET ∨ family = AF_INET6)
    (differ : (endpoint family a p).1 ≠ (endpoint family b q).1) :
    ipsessionCacalClientIndex family b a = 1 - ipsessionCacalClientIndex family a b := by
  rw [ipsessionCacalClientIndex, ipsessionCacalClientIndex]
  rcases isFamily with rfl | rfl
  · have word : a[0] ≠ b[0] := by
      intro word
      exact differ (by simp [endpoint, word])
    rw [← toNat_inj.ne] at word
    simp only [if_pos, lt_def, ← toNat_inj]
    split_ifs <;> first | rfl | omega
  have unlike : ip6AddrCmp a b (List.finRange 4) ≠ 0 := by
    rw [Ne, ip6AddrCmp_eq_zero]
    intro words
    refine differ (Vector.ext fun i inside => ?_)
    exact words ⟨i, inside⟩ (List.mem_finRange _)
  have notIp4 : AF_INET6 ≠ AF_INET := by decide
  have swap : ip6AddrCmp b a (List.finRange 4) = -ip6AddrCmp a b (List.finRange 4) :=
    ip6AddrCmp_swap _
  simp only [if_neg notIp4, if_pos, swap]
  split_ifs <;> first | rfl | omega

/-- What a key has to give: one entry for both directions of a connection, and no entry that
two connections share. -/
structure Canonical (family protocol : UCHAR) (a b : Vector UINT 4) (p q : USHORT)
    (tun_id : UINT) : Prop where
  swapped : endpoint family a p ≠ endpoint family b q →
    (ipSessionKeyInit family protocol b a q p tun_id).1 =
      (ipSessionKeyInit family protocol a b p q tun_id).1 ∧
    (ipSessionKeyInit family protocol b a q p tun_id).2 =
      1 - (ipSessionKeyInit family protocol a b p q tun_id).2
  injective : ∀ family' protocol' a' b' p' q' tun_id',
    (ipSessionKeyInit family' protocol' a' b' p' q' tun_id').1 =
      (ipSessionKeyInit family protocol a b p q tun_id).1 →
    family' = family ∧ protocol' = protocol ∧ tun_id' = tun_id ∧
      s(endpoint family' a' p', endpoint family' b' q') =
        s(endpoint family a p, endpoint family b q)

theorem tupKey_pair {family' protocol' : UCHAR} {tun_id' : UINT}
    {first second first' second' : Vector UINT 4 × USHORT}
    (same : tupKey family' protocol' tun_id' first' second' =
      tupKey family protocol tun_id first second) :
    family' = family ∧ protocol' = protocol ∧ tun_id' = tun_id ∧
      first' = first ∧ second' = second := by
  simp only [tupKey, IpTupKey.mk.injEq] at same
  obtain ⟨sameFamily, sameProtocol, -, -, ips, ports, sameTun⟩ := same
  refine ⟨sameFamily, sameProtocol, sameTun, ?_, ?_⟩
  · exact Prod.ext (congrArg (·[0]) ips) (congrArg (·[0]) ports)
  · exact Prod.ext (congrArg (·[1]) ips) (congrArg (·[1]) ports)

theorem ipSessionKeyInit_pair (family protocol : UCHAR) (a b : Vector UINT 4) (p q : USHORT)
    (tun_id : UINT) : ∃ first second,
      (ipSessionKeyInit family protocol a b p q tun_id).1 =
        tupKey family protocol tun_id first second ∧
      s(first, second) = s(endpoint family a p, endpoint family b q) := by
  rw [ipSessionKeyInit_eq]
  split
  · exact ⟨_, _, rfl, rfl⟩
  · exact ⟨_, _, rfl, Sym2.eq_swap⟩

theorem ipSessionKeyInit_canonical_iff (isFamily : family = AF_INET ∨ family = AF_INET6)
    (protocol : UCHAR) (a b : Vector UINT 4) (p q : USHORT) (tun_id : UINT) :
    Canonical family protocol a b p q tun_id ↔
      (endpoint family a p).1 ≠ (endpoint family b q).1 ∨ p = q := by
  constructor
  · intro canonical
    by_contra! tie
    obtain ⟨same, ports⟩ := tie
    have differ : endpoint family a p ≠ endpoint family b q :=
      fun equal => ports (congrArg Prod.snd equal)
    have indexes := (canonical.swapped differ).2
    rw [ipSessionKeyInit_eq, ipSessionKeyInit_eq] at indexes
    dsimp only at indexes
    rw [clientIndex_of_eq same, clientIndex_of_eq same.symm] at indexes
    exact absurd indexes (by decide)
  · intro apart
    refine ⟨fun differ => ?_, fun family' protocol' a' b' p' q' tun_id' same => ?_⟩
    · have addresses := apart.elim id fun ports equal => differ (Prod.ext equal ports)
      rw [ipSessionKeyInit_eq, ipSessionKeyInit_eq, clientIndex_swap isFamily addresses]
      generalize ipsessionCacalClientIndex family a b = index
      obtain rfl | rfl : index = 0 ∨ index = 1 := by omega
      · exact ⟨rfl, rfl⟩
      · exact ⟨rfl, rfl⟩
    · obtain ⟨_, _, isKey', pair'⟩ :=
        ipSessionKeyInit_pair family' protocol' a' b' p' q' tun_id'
      obtain ⟨_, _, isKey, pair⟩ := ipSessionKeyInit_pair family protocol a b p q tun_id
      rw [isKey, isKey'] at same
      obtain ⟨sameFamily, sameProtocol, sameTun, rfl, rfl⟩ := tupKey_pair same
      exact ⟨sameFamily, sameProtocol, sameTun, pair'.symm.trans pair⟩

theorem ipSessionKeyInit_canonical_apart :
    Canonical AF_INET 6 (.replicate 4 1) (.replicate 4 2) 80 81 0 ↔
      (endpoint AF_INET (.replicate 4 1) 80).1 ≠ (endpoint AF_INET (.replicate 4 2) 81).1 ∨
        (80 : USHORT) = 81 :=
  ipSessionKeyInit_canonical_iff (.inl rfl) 6 _ _ 80 81 0

/-- The two ends of a connection of a host with itself are both called its first end. -/
theorem ipSessionKeyInit_loopback :
    ¬ Canonical AF_INET 6 (.replicate 4 0x7f000001) (.replicate 4 0x7f000001) 80 81 0 :=
  fun canonical => absurd (canonical.swapped (by decide)).2 (by decide)

end MyCode.IpSession
