import MyCode.Types
import MyCode.Lib.LongestPrefix
import Mathlib.Data.Nat.Bitwise

/-!
# Prefixes of IPv4 addresses

Addresses are in host order here.  A mask selects the leading bits, so two
addresses agree under the mask of a depth exactly when their leading parts of
that depth are the same number.
-/

namespace MyCode

open BitVec Nat

def prefix2Mask (ucPrefixLen : Nat) : UINT :=
  if ucPrefixLen = 32 then
    0xffffffff
  else
    ~~~((0xffffffff : UINT) >>> ucPrefixLen)

def htonl (value : UINT) : UINT :=
  value.extractLsb' 0 8 ++ value.extractLsb' 8 8 ++ value.extractLsb' 16 8 ++ value.extractLsb' 24 8

def ntohl (value : UINT) : UINT := htonl value

def htons (value : USHORT) : USHORT :=
  value.extractLsb' 0 8 ++ value.extractLsb' 8 8

def ntohs (value : USHORT) : USHORT := htons value

/-- The leading `depth` bits of an address as a number. -/
def leading (depth : Nat) (ip : UINT) : Nat :=
  ip.toNat / 2 ^ (32 - depth)

variable {ip target : UINT} {depth shallow : Nat}

theorem ntohs_htons (value : USHORT) : ntohs (htons value) = value := by
  apply eq_of_getLsbD_eq
  intro bit low
  simp only [ntohs, htons, getLsbD_append, getLsbD_extractLsb']
  by_cases inLow : bit < 8
  · have other : 8 + bit - 8 = bit := by omega
    simp [inLow, other]
  have high : bit - 8 < 8 := by omega
  have back : 8 + (bit - 8) = bit := by omega
  simp [inLow, high, back]

theorem toNat_append {v w : Nat} (high : BitVec v) (low : BitVec w) :
    (high ++ low).toNat = high.toNat * 2 ^ w + low.toNat := by
  rw [BitVec.toNat_append, ← shiftLeft_add_eq_or_of_lt low.isLt, Nat.shiftLeft_eq]

theorem toNat_htonl (value : UINT) : (htonl value).toNat =
    value.toNat % 2 ^ 8 * 2 ^ 24 + value.toNat / 2 ^ 8 % 2 ^ 8 * 2 ^ 16 +
      value.toNat / 2 ^ 16 % 2 ^ 8 * 2 ^ 8 + value.toNat / 2 ^ 24 % 2 ^ 8 := by
  simp only [htonl, toNat_append, extractLsb'_toNat, shiftRight_eq_div_pow]
  omega

theorem bytes_of_sum {a b c d n : Nat} (sum : n = a * 2 ^ 24 + b * 2 ^ 16 + c * 2 ^ 8 + d)
    (bounds : b < 2 ^ 8 ∧ c < 2 ^ 8 ∧ d < 2 ^ 8) (top : a < 2 ^ 8) :
    n % 2 ^ 8 = d ∧ n / 2 ^ 8 % 2 ^ 8 = c ∧ n / 2 ^ 16 % 2 ^ 8 = b ∧ n / 2 ^ 24 % 2 ^ 8 = a := by
  omega

theorem sum_of_bytes {n : Nat} (bounded : n < 2 ^ 32) :
    n / 2 ^ 24 % 2 ^ 8 * 2 ^ 24 + n / 2 ^ 16 % 2 ^ 8 * 2 ^ 16 + n / 2 ^ 8 % 2 ^ 8 * 2 ^ 8 +
      n % 2 ^ 8 = n := by
  omega

theorem htonl_htonl (value : UINT) : htonl (htonl value) = value := by
  apply eq_of_toNat_eq
  have byte : ∀ n, n % 2 ^ 8 < 2 ^ 8 := fun n => mod_lt n (by decide)
  obtain ⟨last, third, second, first⟩ :=
    bytes_of_sum (toNat_htonl value) ⟨byte _, byte _, byte _⟩ (byte _)
  rw [toNat_htonl (htonl value), last, third, second, first]
  exact sum_of_bytes value.isLt

theorem ntohl_inj {a b : UINT} : ntohl a = ntohl b ↔ a = b := by
  constructor
  · intro same
    rw [← htonl_htonl a, ← htonl_htonl b]
    exact congrArg htonl same
  · exact fun same => by rw [same]

theorem htonl_and (first second : UINT) :
    htonl (first &&& second) = htonl first &&& htonl second := by
  simp only [htonl, extractLsb'_and, ← and_append]

section

variable (inside : depth ≤ 32)

include inside

theorem getLsbD_prefix2Mask (bit : Nat) :
    (prefix2Mask depth).getLsbD bit = (decide (32 - depth ≤ bit) && decide (bit < 32)) := by
  have ones : (0xffffffff : UINT) = allOnes 32 := rfl
  rw [prefix2Mask, ones]
  split
  · next whole => rw [getLsbD_allOnes, whole]; simp
  simp only [getLsbD_not, getLsbD_ushiftRight, getLsbD_allOnes]
  by_cases low : bit < 32
  · by_cases masked : 32 - depth ≤ bit
    · have beyond : ¬ depth + bit < 32 := by omega
      simp [low, masked, beyond]
    · have within : depth + bit < 32 := by omega
      simp [masked, within]
  · simp [low]

theorem and_prefix2Mask (ip : UINT) :
    ip &&& prefix2Mask depth = (ip >>> (32 - depth)) <<< (32 - depth) := by
  apply eq_of_getLsbD_eq
  intro bit low
  simp only [getLsbD_and, getLsbD_prefix2Mask inside, getLsbD_shiftLeft, getLsbD_ushiftRight]
  by_cases masked : 32 - depth ≤ bit
  · have above : ¬ bit < 32 - depth := by omega
    simp [low, masked, above]
  · have below : bit < 32 - depth := by omega
    simp [masked, below]

theorem toNat_and_not_prefix2Mask (ip : UINT) :
    (ip &&& ~~~prefix2Mask depth).toNat = ip.toNat % 2 ^ (32 - depth) := by
  have low : ip &&& ~~~prefix2Mask depth = ip &&& BitVec.ofNat 32 (2 ^ (32 - depth) - 1) := by
    apply eq_of_getLsbD_eq
    intro bit bounded
    simp only [getLsbD_and, getLsbD_not, getLsbD_prefix2Mask inside, bounded,
      getLsbD_ofNat, testBit_two_pow_sub_one]
    by_cases masked : 32 - depth ≤ bit
    · have above : ¬ bit < 32 - depth := by omega
      simp [masked, above]
    · have below : bit < 32 - depth := by omega
      simp [masked, below]
  have small : 2 ^ (32 - depth) - 1 < 2 ^ 32 := by
    have : 2 ^ (32 - depth) ≤ 2 ^ 32 := Nat.pow_le_pow_right (by decide) (by omega)
    omega
  rw [low, toNat_and, toNat_ofNat, mod_eq_of_lt small, and_two_pow_sub_one_eq_mod]

theorem toNat_and_prefix2Mask (ip : UINT) :
    (ip &&& prefix2Mask depth).toNat = leading depth ip * 2 ^ (32 - depth) := by
  have bounded : ip.toNat / 2 ^ (32 - depth) * 2 ^ (32 - depth) < 2 ^ 32 :=
    lt_of_le_of_lt (div_mul_le_self _ _) ip.isLt
  rw [and_prefix2Mask inside, toNat_shiftLeft, toNat_ushiftRight,
    shiftRight_eq_div_pow, Nat.shiftLeft_eq, mod_eq_of_lt bounded, leading]

theorem and_prefix2Mask_eq_iff :
    ip &&& prefix2Mask depth = target &&& prefix2Mask depth ↔
      leading depth ip = leading depth target := by
  rw [← toNat_inj, toNat_and_prefix2Mask inside, toNat_and_prefix2Mask inside,
    Nat.mul_left_inj (Nat.pow_pos (by decide)).ne']

theorem leading_and_prefix2Mask (ip : UINT) :
    leading depth (ip &&& prefix2Mask depth) = leading depth ip := by
  rw [leading, toNat_and_prefix2Mask inside, Nat.mul_div_cancel _ (Nat.pow_pos (by decide))]

theorem and_prefix2Mask_idem (ip : UINT) :
    ip &&& prefix2Mask depth &&& prefix2Mask depth = ip &&& prefix2Mask depth := by
  rw [and_prefix2Mask_eq_iff inside, leading_and_prefix2Mask inside]

end

theorem leading_of_le (nested : shallow ≤ depth) (inside : depth ≤ 32) (ip : UINT) :
    leading shallow ip = leading depth ip / 2 ^ (depth - shallow) := by
  have split : 32 - shallow = 32 - depth + (depth - shallow) := by omega
  rw [leading, leading, split, pow_add, Nat.div_div_eq_div_mul]

theorem leading_eq_of_le (nested : shallow ≤ depth) (inside : depth ≤ 32)
    (same : leading depth ip = leading depth target) :
    leading shallow ip = leading shallow target := by
  rw [leading_of_le nested inside, same, ← leading_of_le nested inside]

theorem leading_lt (inside : depth ≤ 32) (ip : UINT) : leading depth ip < 2 ^ depth := by
  have whole : 2 ^ depth * 2 ^ (32 - depth) = 2 ^ 32 := by
    rw [← pow_add, Nat.add_sub_cancel' inside]
  rw [leading, div_lt_iff_lt_mul (Nat.pow_pos (by decide)), whole]
  exact ip.isLt

theorem exists_leading_eq {index : Nat} (inside : depth ≤ 32) (bounded : index < 2 ^ depth) :
    ∃ y, leading depth y = index := by
  have whole : 2 ^ depth * 2 ^ (32 - depth) = 2 ^ 32 := by
    rw [← pow_add, Nat.add_sub_cancel' inside]
  have small : index * 2 ^ (32 - depth) < 2 ^ 32 := by
    rw [← whole]
    exact Nat.mul_lt_mul_of_pos_right bounded (Nat.pow_pos (by decide))
  refine ⟨BitVec.ofNat 32 (index * 2 ^ (32 - depth)), ?_⟩
  rw [leading, toNat_ofNat, mod_eq_of_lt small, Nat.mul_div_cancel _ (Nat.pow_pos (by decide))]

@[simp]
theorem leading_zero (ip : UINT) : leading 0 ip = 0 := by
  exact div_eq_of_lt ip.isLt

end MyCode
