import Mathlib.Algebra.BigOperators.Group.List.Basic
import MyCode.Types

/-!
# Token buckets

The refill is rounded down at every call while the time stamp always moves on,
and a gap of a second fills the bucket whatever the speed.
-/

namespace MyCode.TokenBucket

open List Nat

structure TokenBucketS where
  burst_limit : UINT64
  speed : UINT64
  token_count : UINT64
  ts : UINT64

def tokenBucketInit (burst_limit speed : UINT64) : TokenBucketS :=
  ⟨burst_limit, speed, 0, 0⟩

/-- A call of `TokenBucket_Acquire` with what `RDTSC_Get` gives it. -/
structure TokenCall where
  now : UINT64
  n : UINT64

/-- The tokens that a call at `now` finds. -/
def tokenBucketRefill (rdtscHz : UINT64) (bucket : TokenBucketS) (now : UINT64) : UINT64 :=
  if rdtscHz ≤ now - bucket.ts then bucket.burst_limit
  else
    let token_count := bucket.token_count + (now - bucket.ts) * bucket.speed / rdtscHz
    if bucket.burst_limit < token_count then bucket.burst_limit else token_count

def tokenBucketAcquire (rdtscHz : UINT64) (bucket : TokenBucketS) (call : TokenCall) :
    UINT64 × TokenBucketS :=
  let token_count := tokenBucketRefill rdtscHz bucket call.now
  let count := if call.n < token_count then call.n else token_count
  (count, { bucket with token_count := token_count - count, ts := call.now })

/-- The times of some calls with the tokens granted to them. -/
def tokenGrants (rdtscHz : UINT64) : TokenBucketS → List TokenCall → List (UINT64 × UINT64)
  | _, [] => []
  | bucket, call :: rest =>
    (call.now, (tokenBucketAcquire rdtscHz bucket call).1) ::
      tokenGrants rdtscHz (tokenBucketAcquire rdtscHz bucket call).2 rest

def tokenAfter (rdtscHz : UINT64) (bucket : TokenBucketS) (calls : List TokenCall) : TokenBucketS :=
  calls.foldl (fun bucket call => (tokenBucketAcquire rdtscHz bucket call).2) bucket

def grantsBetween (t1 t2 : UINT64) (grants : List (UINT64 × UINT64)) : Nat :=
  ((grants.filter fun grant => t1 ≤ grant.1 ∧ grant.1 ≤ t2).map fun grant => grant.2.toNat).sum

/-- The bound on what is granted from `t1` to `t2`. -/
def AtMostEarned (rdtscHz burst_limit speed : UINT64) (calls : List TokenCall) : Prop :=
  ∀ t1 t2 : UINT64, t1 ≤ t2 →
    grantsBetween t1 t2 (tokenGrants rdtscHz (tokenBucketInit burst_limit speed) calls) ≤
      burst_limit.toNat +
        ((t2.toNat - t1.toNat) * speed.toNat + rdtscHz.toNat - 1) / rdtscHz.toNat

def Greedy (rdtscHz : UINT64) : TokenBucketS → List TokenCall → Prop
  | _, [] => True
  | bucket, call :: rest =>
    tokenBucketRefill rdtscHz bucket call.now ≤ call.n ∧
      Greedy rdtscHz (tokenBucketAcquire rdtscHz bucket call).2 rest

def NeverFull (rdtscHz : UINT64) : TokenBucketS → List TokenCall → Prop
  | _, [] => True
  | bucket, call :: rest =>
    tokenBucketRefill rdtscHz bucket call.now < bucket.burst_limit ∧
      NeverFull rdtscHz (tokenBucketAcquire rdtscHz bucket call).2 rest

/-- The bound on what the calls of `window` are granted from the call before them on. -/
def AtLeastEarned (rdtscHz : UINT64) (bucket : TokenBucketS) (window : List TokenCall) : Prop :=
  ((tokenAfter rdtscHz bucket window).ts.toNat - bucket.ts.toNat) * bucket.speed.toNat /
      rdtscHz.toNat ≤
    ((tokenGrants rdtscHz bucket window).map fun grant => grant.2.toNat).sum

/-- Both bounds; the second one for a greedy caller while the bucket is not full. -/
structure TokenBounds (rdtscHz burst_limit speed : UINT64) (calls : List TokenCall) : Prop where
  upper : AtMostEarned rdtscHz burst_limit speed calls
  lower : Greedy rdtscHz (tokenBucketInit burst_limit speed) calls →
    ∀ before window after, calls = before ++ window ++ after →
      NeverFull rdtscHz (tokenAfter rdtscHz (tokenBucketInit burst_limit speed) before) window →
        AtLeastEarned rdtscHz (tokenAfter rdtscHz (tokenBucketInit burst_limit speed) before) window

/-- A call after a second or more finds the bucket short of no more than the gap earns. -/
def FillsEarned (rdtscHz : UINT64) (bucket : TokenBucketS) (call : TokenCall) : Prop :=
  rdtscHz ≤ call.now - bucket.ts →
    (bucket.burst_limit.toNat - bucket.token_count.toNat) * rdtscHz.toNat ≤
      (call.now.toNat - bucket.ts.toNat) * bucket.speed.toNat

def AllFillsEarned (rdtscHz : UINT64) : TokenBucketS → List TokenCall → Prop
  | _, [] => True
  | bucket, call :: rest =>
    FillsEarned rdtscHz bucket call ∧
      AllFillsEarned rdtscHz (tokenBucketAcquire rdtscHz bucket call).2 rest

/-- What the calls earn in the time since the call before each, in units of `1 / RDTSC_HZ`. -/
def tokenEarnings (speed ts : UINT64) : List TokenCall → List Nat
  | [] => []
  | call :: rest => (call.now.toNat - ts.toNat) * speed.toNat :: tokenEarnings speed call.now rest

/-- The fractions that are rounded off add up to less than a token, and no earning wraps. -/
def FractionsFit (rdtscHz : UINT64) (bucket : TokenBucketS) (window : List TokenCall) : Prop :=
  (∀ earned ∈ tokenEarnings bucket.speed bucket.ts window, earned < 2 ^ 64) ∧
    ((tokenEarnings bucket.speed bucket.ts window).map (· % rdtscHz.toNat)).sum < rdtscHz.toNat

theorem sum_eq_div_add_mod (divisor : Nat) (terms : List Nat) :
    terms.sum = divisor * (terms.map (· / divisor)).sum + (terms.map (· % divisor)).sum := by
  induction terms with
  | nil => rfl
  | cons term =>
    have split := div_add_mod term divisor
    simp only [sum_cons, map_cons, Nat.mul_add]
    omega

/-- A sum of quotients reaches the quotient of the sum when the remainders stay below the
divisor. -/
theorem sum_div_le_iff {divisor : Nat} (positive : 0 < divisor) (terms : List Nat) :
    terms.sum / divisor ≤ (terms.map (· / divisor)).sum ↔
      (terms.map (· % divisor)).sum < divisor := by
  have split := sum_eq_div_add_mod divisor terms
  rw [← Nat.lt_succ_iff, div_lt_iff_lt_mul positive, succ_mul, mul_comm]
  omega

theorem sum_div_le_cut {divisor limit : Nat} (positive : 0 < divisor) (below : divisor ≤ limit)
    (terms : List Nat) :
    terms.sum / divisor ≤ (terms.map fun term => term % limit / divisor).sum ↔
      (∀ term ∈ terms, term < limit) ∧ (terms.map (· % divisor)).sum < divisor := by
  by_cases fits : ∀ term ∈ terms, term < limit
  · have same : (terms.map fun term => term % limit / divisor) = terms.map (· / divisor) := by
      apply map_congr_left
      intro term inside
      rw [mod_eq_of_lt (fits term inside)]
    rw [same, sum_div_le_iff positive]
    exact (and_iff_right fits).symm
  refine iff_of_false ?_ fun met => fits met.1
  have cut := sum_eq_div_add_mod divisor (terms.map (· % limit))
  rw [map_map] at cut
  have lost : (terms.map (· % limit)).sum + limit ≤ terms.sum := by
    obtain ⟨large, isLarge⟩ := not_forall.mp fits
    obtain ⟨inside, excess⟩ := Classical.not_imp.mp isLarge
    obtain ⟨front, back, rfl⟩ := append_of_mem inside
    have lower (part : List Nat) : (part.map (· % limit)).sum ≤ part.sum := by
      have apart := sum_eq_div_add_mod limit part
      omega
    have largeSplit := div_add_mod large limit
    have whole := div_pos (Nat.not_lt.mp excess) (by omega)
    have quotient := Nat.le_mul_of_pos_right limit whole
    have before := lower front
    have behind := lower back
    simp only [map_append, map_cons, sum_append, sum_cons]
    omega
  intro reached
  have more := (div_lt_iff_lt_mul positive).mp (lt_succ_of_le reached)
  rw [succ_mul, mul_comm] at more
  have sums : (terms.map fun term => term % limit / divisor) =
      terms.map ((fun term => term / divisor) ∘ fun term => term % limit) := rfl
  rw [sums] at more
  omega

variable {rdtscHz burst_limit speed now : UINT64} {bucket : TokenBucketS} {call : TokenCall}
  {calls : List TokenCall}

theorem tokenBucketRefill_le (bucket : TokenBucketS) (now : UINT64) :
    tokenBucketRefill rdtscHz bucket now ≤ bucket.burst_limit := by
  rw [tokenBucketRefill]
  split
  · exact BitVec.le_refl _
  simp only
  split
  · exact BitVec.le_refl _
  · next within => exact BitVec.not_lt.mp within

theorem tokenBucketRefill_earned (later : bucket.ts ≤ call.now)
    (earned : FillsEarned rdtscHz bucket call) :
    rdtscHz.toNat * (tokenBucketRefill rdtscHz bucket call.now).toNat ≤
      rdtscHz.toNat * bucket.token_count.toNat +
        (call.now.toNat - bucket.ts.toNat) * bucket.speed.toNat := by
  by_cases long : rdtscHz ≤ call.now - bucket.ts
  · have short := earned long
    rw [tokenBucketRefill, if_pos long, mul_comm rdtscHz.toNat, mul_comm rdtscHz.toNat]
    rw [Nat.sub_mul] at short
    omega
  have gap := BitVec.toNat_sub_of_le later
  have share : ((call.now - bucket.ts) * bucket.speed / rdtscHz).toNat ≤
      (call.now.toNat - bucket.ts.toNat) * bucket.speed.toNat / rdtscHz.toNat := by
    rw [BitVec.toNat_udiv, BitVec.toNat_mul, gap]
    exact Nat.div_le_div_right (mod_le _ _)
  have added : (bucket.token_count + (call.now - bucket.ts) * bucket.speed / rdtscHz).toNat ≤
      bucket.token_count.toNat +
        (call.now.toNat - bucket.ts.toNat) * bucket.speed.toNat / rdtscHz.toNat := by
    exact Nat.le_trans (mod_le _ _) (Nat.add_le_add_left share _)
  have refill : (tokenBucketRefill rdtscHz bucket call.now).toNat ≤ bucket.token_count.toNat +
        (call.now.toNat - bucket.ts.toNat) * bucket.speed.toNat / rdtscHz.toNat := by
    rw [tokenBucketRefill, if_neg long]
    simp only
    split
    · next above => exact Nat.le_trans (Nat.le_of_lt above) added
    · exact added
  have whole := mul_div_le ((call.now.toNat - bucket.ts.toNat) * bucket.speed.toNat)
    rdtscHz.toNat
  have scaled := mul_le_mul_left rdtscHz.toNat refill
  rw [Nat.mul_add] at scaled
  exact Nat.le_trans scaled (Nat.add_le_add_left whole _)

theorem tokenBucketAcquire_count (bucket : TokenBucketS) (call : TokenCall) :
    (tokenBucketAcquire rdtscHz bucket call).1.toNat +
        (tokenBucketAcquire rdtscHz bucket call).2.token_count.toNat =
      (tokenBucketRefill rdtscHz bucket call.now).toNat := by
  simp only [tokenBucketAcquire]
  split
  · next less =>
      rw [BitVec.toNat_sub_of_le (BitVec.le_of_lt less)]
      have order : call.n.toNat < (tokenBucketRefill rdtscHz bucket call.now).toNat := less
      omega
  · simp

@[simp]
theorem tokenBucketAcquire_speed (bucket : TokenBucketS) (call : TokenCall) :
    (tokenBucketAcquire rdtscHz bucket call).2.speed = bucket.speed := rfl

@[simp]
theorem tokenBucketAcquire_ts (bucket : TokenBucketS) (call : TokenCall) :
    (tokenBucketAcquire rdtscHz bucket call).2.ts = call.now := rfl

def InOrder (ts : UINT64) (calls : List TokenCall) : Prop :=
  (ts :: calls.map TokenCall.now).Pairwise (· ≤ ·)

theorem InOrder.later (inOrder : InOrder bucket.ts (call :: calls)) : bucket.ts ≤ call.now :=
  rel_of_pairwise_cons inOrder mem_cons_self

theorem InOrder.rest (inOrder : InOrder bucket.ts (call :: calls)) : InOrder call.now calls :=
  inOrder.of_cons

theorem grantsBetween_within {t1 t2 count : UINT64} (within : t1 ≤ now ∧ now ≤ t2)
    (grants : List (UINT64 × UINT64)) :
    grantsBetween t1 t2 ((now, count) :: grants) = count.toNat + grantsBetween t1 t2 grants := by
  rw [grantsBetween, filter_cons, if_pos (by simpa using within), map_cons,
    sum_cons]
  rfl

theorem grantsBetween_outside {t1 t2 count : UINT64} (outside : ¬(t1 ≤ now ∧ now ≤ t2))
    (grants : List (UINT64 × UINT64)) :
    grantsBetween t1 t2 ((now, count) :: grants) = grantsBetween t1 t2 grants := by
  rw [grantsBetween, filter_cons, if_neg (by simpa using outside)]
  rfl

theorem grantsBetween_early {t1 t2 : UINT64} (early : t2 < bucket.ts)
    (inOrder : InOrder bucket.ts calls) :
    grantsBetween t1 t2 (tokenGrants rdtscHz bucket calls) = 0 := by
  induction calls generalizing bucket with
  | nil => rfl
  | cons call rest ih =>
    have later := inOrder.later
    have beyond := Nat.lt_of_lt_of_le early later
    rw [tokenGrants, grantsBetween_outside fun within =>
      absurd beyond (BitVec.not_lt.mpr within.2)]
    exact @ih (tokenBucketAcquire rdtscHz bucket call).2 beyond inOrder.rest

theorem grantsBetween_earned {t1 t2 : UINT64} (from_ : t1 ≤ bucket.ts) (upTo : bucket.ts ≤ t2)
    (inOrder : InOrder bucket.ts calls) (earned : AllFillsEarned rdtscHz bucket calls) :
    rdtscHz.toNat * grantsBetween t1 t2 (tokenGrants rdtscHz bucket calls) ≤
      rdtscHz.toNat * bucket.token_count.toNat +
        (t2.toNat - bucket.ts.toNat) * bucket.speed.toNat := by
  induction calls generalizing bucket with
  | nil => simp [tokenGrants, grantsBetween]
  | cons call rest ih =>
    have later := inOrder.later
    have started := BitVec.le_trans from_ later
    by_cases within : call.now ≤ t2
    · have step := tokenBucketRefill_earned later earned.1
      have count := @tokenBucketAcquire_count rdtscHz bucket call
      have behind := @ih (tokenBucketAcquire rdtscHz bucket call).2 started
        within inOrder.rest earned.2
      have times : (call.now.toNat - bucket.ts.toNat) * bucket.speed.toNat +
          (t2.toNat - call.now.toNat) * bucket.speed.toNat =
            (t2.toNat - bucket.ts.toNat) * bucket.speed.toNat := by
        rw [← Nat.add_mul]
        congr 1
        rw [BitVec.le_def] at later within
        omega
      rw [tokenGrants, grantsBetween_within ⟨started, within⟩, Nat.mul_add]
      rw [← count, Nat.mul_add] at step
      rw [tokenBucketAcquire_speed, tokenBucketAcquire_ts] at behind
      omega
    · have none := @grantsBetween_early rdtscHz (tokenBucketAcquire rdtscHz bucket call).2 rest
        t1 t2 (BitVec.not_le.mp within) inOrder.rest
      rw [tokenGrants, grantsBetween_outside fun both => within both.2, none]
      omega

theorem grantsBetween_le {t1 t2 : UINT64}
    (inOrder : InOrder bucket.ts calls) (earned : AllFillsEarned rdtscHz bucket calls) :
    rdtscHz.toNat * grantsBetween t1 t2 (tokenGrants rdtscHz bucket calls) ≤
      rdtscHz.toNat * bucket.burst_limit.toNat + (t2.toNat - t1.toNat) * bucket.speed.toNat := by
  induction calls generalizing bucket with
  | nil => simp [tokenGrants, grantsBetween]
  | cons call rest ih =>
    by_cases within : t1 ≤ call.now ∧ call.now ≤ t2
    · -- the first call between the two times finds at most the limit
      have behind := @grantsBetween_earned rdtscHz (tokenBucketAcquire rdtscHz bucket call).2
        rest t1 t2 within.1 within.2 inOrder.rest earned.2
      have count := @tokenBucketAcquire_count rdtscHz bucket call
      have most : (tokenBucketRefill rdtscHz bucket call.now).toNat ≤ bucket.burst_limit.toNat :=
        tokenBucketRefill_le bucket call.now
      have shorter : (t2.toNat - call.now.toNat) * bucket.speed.toNat ≤
          (t2.toNat - t1.toNat) * bucket.speed.toNat :=
        mul_le_mul_right _ (Nat.sub_le_sub_left within.1 _)
      have scaled := mul_le_mul_left rdtscHz.toNat most
      rw [tokenGrants, grantsBetween_within within, Nat.mul_add]
      rw [← count, Nat.mul_add] at scaled
      rw [tokenBucketAcquire_speed, tokenBucketAcquire_ts] at behind
      omega
    · rw [tokenGrants, grantsBetween_outside within]
      exact @ih (tokenBucketAcquire rdtscHz bucket call).2 inOrder.rest earned.2

theorem Greedy.taken (greedy : Greedy rdtscHz bucket (call :: calls)) :
    (tokenBucketAcquire rdtscHz bucket call).1 = tokenBucketRefill rdtscHz bucket call.now ∧
      (tokenBucketAcquire rdtscHz bucket call).2.token_count = 0 := by
  have all := BitVec.not_lt.mpr greedy.1
  simp [tokenBucketAcquire, if_neg all]

/-- The calls of a greedy caller after some of them find the bucket empty and keep to the order. -/
theorem Greedy.after {window : List TokenCall} (greedy : Greedy rdtscHz bucket (calls ++ window))
    (inOrder : InOrder bucket.ts (calls ++ window)) (empty : bucket.token_count = 0) :
    Greedy rdtscHz (tokenAfter rdtscHz bucket calls) window ∧
      InOrder (tokenAfter rdtscHz bucket calls).ts window ∧
        (tokenAfter rdtscHz bucket calls).token_count = 0 := by
  induction calls generalizing bucket with
  | nil => exact ⟨greedy, inOrder, empty⟩
  | cons call rest ih =>
    exact @ih (tokenBucketAcquire rdtscHz bucket call).2 greedy.2 inOrder.rest greedy.taken.2

theorem Greedy.front {window : List TokenCall} (greedy : Greedy rdtscHz bucket (window ++ calls)) :
    Greedy rdtscHz bucket window := by
  induction window generalizing bucket with
  | nil => trivial
  | cons _ _ ih => exact ⟨greedy.1, ih greedy.2⟩

theorem tokenBucketRefill_empty (empty : bucket.token_count = 0) (later : bucket.ts ≤ now)
    (space : tokenBucketRefill rdtscHz bucket now < bucket.burst_limit) :
    (tokenBucketRefill rdtscHz bucket now).toNat =
      (now.toNat - bucket.ts.toNat) * bucket.speed.toNat % 2 ^ 64 / rdtscHz.toNat := by
  rw [tokenBucketRefill] at space ⊢
  split at space
  · exact absurd space (BitVec.lt_irrefl _)
  next short =>
  simp only at space
  rw [if_neg short]
  split at space
  · exact absurd space (BitVec.lt_irrefl _)
  next within =>
  have none : bucket.token_count = 0#64 := empty
  rw [if_neg within, none, BitVec.zero_add, BitVec.toNat_udiv, BitVec.toNat_mul,
    BitVec.toNat_sub_of_le later]

theorem tokenEarnings_sum (inOrder : InOrder bucket.ts calls) :
    (tokenEarnings bucket.speed bucket.ts calls).sum =
      ((tokenAfter rdtscHz bucket calls).ts.toNat - bucket.ts.toNat) * bucket.speed.toNat ∧
        bucket.ts ≤ (tokenAfter rdtscHz bucket calls).ts := by
  induction calls generalizing bucket with
  | nil => exact ⟨by simp [tokenEarnings, tokenAfter], BitVec.le_refl _⟩
  | cons call rest ih =>
    obtain ⟨sum, order⟩ := @ih (tokenBucketAcquire rdtscHz bucket call).2 inOrder.rest
    have later := inOrder.later
    refine ⟨?_, BitVec.le_trans later order⟩
    rw [tokenBucketAcquire_speed, tokenBucketAcquire_ts] at sum
    rw [tokenEarnings, sum_cons, sum, ← Nat.add_mul]
    congr 1
    exact (add_comm _ _).trans (Nat.sub_add_sub_cancel order later)

theorem tokenGrants_sum (greedy : Greedy rdtscHz bucket calls) (inOrder : InOrder bucket.ts calls)
    (empty : bucket.token_count = 0) (space : NeverFull rdtscHz bucket calls) :
    (tokenGrants rdtscHz bucket calls).map (fun grant => grant.2.toNat) =
      (tokenEarnings bucket.speed bucket.ts calls).map
        fun earned => earned % 2 ^ 64 / rdtscHz.toNat := by
  induction calls generalizing bucket with
  | nil => rfl
  | cons call rest ih =>
    have taken := greedy.taken
    have behind := @ih (tokenBucketAcquire rdtscHz bucket call).2
      greedy.2 inOrder.rest taken.2 space.2
    rw [tokenBucketAcquire_speed, tokenBucketAcquire_ts] at behind
    rw [tokenGrants, map_cons, tokenEarnings, map_cons, behind, taken.1,
      tokenBucketRefill_empty empty inOrder.later space.1]

/-- The upper bound holds where every fill was earned; the lower one in exactly the windows
whose fractions do not add up to a token. -/
theorem tokenBucket_bounds (positive : 0 < rdtscHz) (inOrder : InOrder 0 calls) :
    (AllFillsEarned rdtscHz (tokenBucketInit burst_limit speed) calls →
      AtMostEarned rdtscHz burst_limit speed calls) ∧
    (Greedy rdtscHz (tokenBucketInit burst_limit speed) calls →
      ∀ before window after, calls = before ++ window ++ after →
        NeverFull rdtscHz (tokenAfter rdtscHz (tokenBucketInit burst_limit speed) before) window →
          (AtLeastEarned rdtscHz
              (tokenAfter rdtscHz (tokenBucketInit burst_limit speed) before) window ↔
            FractionsFit rdtscHz
              (tokenAfter rdtscHz (tokenBucketInit burst_limit speed) before) window)) := by
  have hz : 0 < rdtscHz.toNat := positive
  constructor
  · intro earned t1 t2 _
    have bound := @grantsBetween_le rdtscHz (tokenBucketInit burst_limit speed) calls t1 t2
      inOrder earned
    have least : grantsBetween t1 t2
        (tokenGrants rdtscHz (tokenBucketInit burst_limit speed) calls) ≤
          (rdtscHz.toNat * burst_limit.toNat +
            (t2.toNat - t1.toNat) * speed.toNat) / rdtscHz.toNat :=
      (le_div_iff_mul_le hz).mpr (by rw [mul_comm]; exact bound)
    rw [mul_add_div hz] at least
    have up : (t2.toNat - t1.toNat) * speed.toNat / rdtscHz.toNat ≤
        ((t2.toNat - t1.toNat) * speed.toNat + rdtscHz.toNat - 1) / rdtscHz.toNat :=
      Nat.div_le_div_right (by omega)
    omega
  · intro greedy before window after whole space
    rw [whole, append_assoc] at greedy inOrder
    obtain ⟨greedyThere, orderThere, empty⟩ := greedy.after inOrder rfl
    have windowGreedy := greedyThere.front
    have windowOrder : InOrder
        (tokenAfter rdtscHz (tokenBucketInit burst_limit speed) before).ts window := by
      rw [InOrder, map_append, ← cons_append] at orderThere
      exact (pairwise_append.mp orderThere).1
    rw [AtLeastEarned, ← (@tokenEarnings_sum rdtscHz _ _ windowOrder).1,
      tokenGrants_sum windowGreedy windowOrder empty space, FractionsFit]
    exact sum_div_le_cut hz (Nat.le_of_lt rdtscHz.isLt) _

/-- Two polls, one tick apart each, at two tokens a tick. -/
theorem tokenBucket_bounds_even :
    AtMostEarned 1000 10 2000 [⟨1, 10⟩, ⟨2, 10⟩] ∧
      AtLeastEarned 1000 (tokenBucketInit 10 2000) [⟨1, 10⟩, ⟨2, 10⟩] := by
  have inOrder : InOrder 0 [⟨1, 10⟩, ⟨2, 10⟩] := by
    simp [InOrder]
  have bounds := @tokenBucket_bounds 1000 10 2000 [⟨1, 10⟩, ⟨2, 10⟩] (by decide) inOrder
  constructor
  · exact bounds.1 ⟨fun long => absurd long (by decide), fun long => absurd long (by decide),
      trivial⟩
  have space : NeverFull 1000 (tokenBucketInit 10 2000) [⟨1, 10⟩, ⟨2, 10⟩] :=
    ⟨by decide, by decide, trivial⟩
  exact (bounds.2 ⟨by decide, by decide, trivial⟩ [] _ [] rfl space).mpr
    ⟨by decide, by decide⟩

/-- Two calls a second apart, with a limit of ten tokens and a speed of one a second; and two
polls, a tick apart each, that together earn a token. -/
theorem tokenBucket_exceeds :
    ¬TokenBounds 1000 10 1 [⟨1000, 10⟩, ⟨2000, 10⟩] ∧
      ¬TokenBounds 1000 10 999 [⟨1, 10⟩, ⟨2, 10⟩] := by
  constructor
  · intro bounds
    exact absurd (bounds.upper 1000 2000 (by decide)) (by decide)
  intro bounds
  have space : NeverFull 1000 (tokenBucketInit 10 999) [⟨1, 10⟩, ⟨2, 10⟩] :=
    ⟨by decide, by decide, trivial⟩
  have least := bounds.lower ⟨by decide, by decide, trivial⟩ [] _ [] rfl space
  rw [AtLeastEarned] at least
  exact absurd least (by decide)

end MyCode.TokenBucket
