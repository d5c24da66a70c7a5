import Mathlib.Algebra.BigOperators.Group.List.Basic
import MyCode.Types

/-!
# Heavy keepers

A call touches the nodes at up to four positions of the table.  The position of
a call's draw stands for the turn at which it is made; `JHASH_GeneralBuffer` is
a parameter.
-/

namespace MyCode.HeavyKeep

variable {Key : Type}

def gTopnTopnIndex : List Nat :=
  [1, 1, 1, 1, 1, 1, 1, 1, 1, 1, 2, 2, 2, 2, 2, 3, 3, 3, 3, 4, 4, 5, 5, 5, 6, 6, 7, 7, 8, 9, 10,
    10, 11, 12, 13, 14, 15, 17, 18, 20, 21, 23, 25, 27, 29, 31, 34, 37, 40, 43, 46, 50, 54, 59, 63,
    68, 74, 80, 86, 93, 101, 109, 118, 127, 137, 148, 160, 173, 187, 202, 218, 236, 254, 275, 297,
    321, 346, 374, 404, 436, 471, 509, 550, 594, 642, 693, 748, 808, 873, 943, 1018, 1100, 1188,
    1283, 1386, 1497, 1616, 1746, 1885, 2036, 2199, 2375, 2565, 2771, 2992, 3232, 3490, 3770, 4071,
    4397, 4749, 5129, 5539, 5982, 6461, 6978, 7536, 8139, 8790, 9493, 10252, 11073, 11959, 12915,
    13949, 15065, 16270, 17571, 18977, 20495, 22135, 23906, 25818, 27884, 30115, 32524, 35126,
    37936, 40971, 44248, 47788, 51611, 55740, 60200, 65016, 70217, 75834, 81901, 88453, 95529,
    103172, 111426, 120340, 129967, 140364, 151594, 163721, 176819, 190964, 206242, 222741, 240560,
    259805, 280589, 303037, 327280, 353462, 381739, 412278, 445261, 480881, 519352, 560900, 605772,
    654234, 706573, 763099, 824147, 890078, 961285, 1038187, 1121242, 1210942, 1307817, 1412443,
    1525438, 1647473, 1779271, 1921613, 2075342, 2241369, 2420679, 2614333, 2823480, 3049359,
    3293307, 3556772, 3841314, 4148619, 4480508, 4838949, 5226065, 5644150, 6095682, 6583337,
    7110004, 7678804, 8293109, 8956557, 9673082, 10446929, 11282683, 12185298, 13160122, 14212931,
    15349966, 16577963, 17904200, 19336536, 20883459, 22554136, 24358467, 26307144, 28411716,
    30684653, 33139426, 35790580, 38653826, 41746132, 45085823, 48692689, 52588104, 56795152,
    61338765, 66245866, 71545535, 77269178, 83450712, 90126769, 97336911, 105123864, 113533773,
    122616475, 132425793, 143019856, 154461445, 166818360, 180163829, 194576936, 210143091,
    226954538, 245110901, 264719773, 285897355, 308769143, 333470675, 360148329, 388960195,
    420077011, 453683172, 489977826, 529176052, 571510136, 617230947, 666609423, 719938177,
    777533231, 839735889, 906914760, 979467941, 1057825377, 1142451407, 1233847519, 1332555321,
    1439159747, 1554292526, 1678635929, 1812926803, 1957960947, 2114597823, 2283765649, 2466466901,
    2663784253, 2876886993, 3107037953, 3355600989, 3624049068, 3913972994, 4227090833]

structure HeavykeepTopnNode (Key : Type) where
  freq : UINT64
  score : UINT64
  factor : UINT
  key : Key

structure HeavykeepTopn (Key : Type) where
  hash_size : UINT
  cycle : UINT
  freq : UINT
  score : UINT
  hash : Nat → HeavykeepTopnNode Key

def heavykeepAddHashnode (node : HeavykeepTopnNode Key) (key : Key) (value : UINT64) :
    HeavykeepTopnNode Key :=
  { node with key := key, freq := 1, score := value }

def heavykeepRefresh (draw : UINT) (node : HeavykeepTopnNode Key) (key : Key) (value : UINT64)
    (factor : UINT) : HeavykeepTopnNode Key :=
  if 288 < node.freq then node
  else
    let x : UINT := BitVec.ofNat 32 (gTopnTopnIndex.getD node.freq.toNat 0)
    if draw % x = 0 then
      if node.freq - 1 = 0 then
        { node with key := key, score := value, freq := 1, factor := factor }
      else { node with freq := node.freq - 1 }
    else node

def heavykeepBuildHash8 (mask hash_factor : UINT) : List UINT :=
  [hash_factor &&& mask, (hash_factor >>> 8) &&& mask, (hash_factor >>> 16) &&& mask,
    (hash_factor >>> 24) &&& mask]

def heavykeepBuildHash16 (jhash : Key → UINT → UINT) (mask hash_factor : UINT) (key : Key) :
    List UINT :=
  [hash_factor &&& mask, (hash_factor >>> 16) &&& mask, jhash key 1 &&& mask,
    (jhash key 1 >>> 16) &&& mask]

def heavykeepBuildHash32 (jhash : Key → UINT → UINT) (mask hash_factor : UINT) (key : Key) :
    List UINT :=
  [hash_factor &&& mask, jhash key 1 &&& mask, jhash key 2 &&& mask, jhash key 3 &&& mask]

def heavykeepBuildHash (jhash : Key → UINT → UINT) (mask hash_factor : UINT) (key : Key) :
    List UINT :=
  if mask ≤ 0xff then heavykeepBuildHash8 mask hash_factor
  else if mask ≤ 0xffff then heavykeepBuildHash16 jhash mask hash_factor key
  else heavykeepBuildHash32 jhash mask hash_factor key

/-- One turn of the loop of `HeavyKeep_Topn_FScore`. -/
def heavykeepTouch (draw : UINT) (node : HeavykeepTopnNode Key) (key : Key) (hash_factor : UINT)
    (score : UINT64) : HeavykeepTopnNode Key :=
  if node.freq = 0 then { heavykeepAddHashnode node key score with factor := hash_factor }
  else if node.factor = hash_factor then
    { node with freq := node.freq + 1, score := node.score + score }
  else heavykeepRefresh draw node key score hash_factor

def heavykeepTouchAll (RAND_Get : Nat → UINT) (key : Key) (hash_factor : UINT) (score : UINT64) :
    (i : Nat) → List UINT → (Nat → HeavykeepTopnNode Key) → Nat → HeavykeepTopnNode Key
  | _, [], hash => hash
  | i, index :: rest, hash =>
    heavykeepTouchAll RAND_Get key hash_factor score (i + 1) rest
      (Function.update hash index.toNat
        (heavykeepTouch (RAND_Get i) (hash index.toNat) key hash_factor score))

def heavykeepIndexes (jhash : Key → UINT → UINT) (topn : HeavykeepTopn Key) (key : Key)
    (hash_factor : UINT) : List UINT :=
  (heavykeepBuildHash jhash (topn.hash_size - 1) hash_factor key).take topn.cycle.toNat

def heavykeepTopnFScore (jhash : Key → UINT → UINT) (RAND_Get : Nat → UINT)
    (topn : HeavykeepTopn Key) (key : Key) (hash_factor score : UINT) : HeavykeepTopn Key :=
  { topn with
    hash := heavykeepTouchAll RAND_Get key hash_factor (score.setWidth 64) 0
      (heavykeepIndexes jhash topn key hash_factor) topn.hash
    freq := topn.freq + 1
    score := topn.score + score }

/-- `HeavyKeep_Topn_Create` on memory that holds zeros. -/
def heavykeepTopnCreate (hash_size cycle : UINT) (zero : Key) : HeavykeepTopn Key :=
  ⟨hash_size, if 4 < cycle.toInt then 4 else cycle, 0, 0, fun _ => ⟨0, 0, 0, zero⟩⟩

/-- The place of the least `freq` among the nodes of a result, the first one of them. -/
def heavykeepMinIndex (hash : Nat → HeavykeepTopnNode Key) (min_index : Nat) (min_freq : UINT64) :
    (i : Nat) → List Nat → Nat
  | _, [] => min_index
  | i, node :: rest =>
    if (hash node).freq < min_freq then heavykeepMinIndex hash i (hash node).freq (i + 1) rest
    else heavykeepMinIndex hash min_index min_freq (i + 1) rest

/-- The table and the positions of the result's nodes.  With no room at all the code reads the
first node of an empty result; here it is left as it is. -/
def heavykeepTopnAddResult (n : Nat) (hash : Nat → HeavykeepTopnNode Key) (nodes : List Nat)
    (node : Nat) : (Nat → HeavykeepTopnNode Key) × List Nat :=
  match nodes.find? fun node2 => (hash node).factor = (hash node2).factor with
  | some node2 =>
    if (hash node2).freq < (hash node).freq then
      (Function.update hash node2 { hash node2 with freq := (hash node).freq }, nodes)
    else (hash, nodes)
  | none =>
    if nodes.length < n then (hash, nodes ++ [node])
    else
      match nodes with
      | [] => (hash, nodes)
      | first :: rest =>
        let min_index := heavykeepMinIndex hash 0 (hash first).freq 1 rest
        if (hash (nodes.getD min_index 0)).freq < (hash node).freq then
          (hash, nodes.set min_index node)
        else (hash, nodes)

def heavykeepTopnScan (n : Nat) (found : (Nat → HeavykeepTopnNode Key) × List Nat) (node : Nat) :
    (Nat → HeavykeepTopnNode Key) × List Nat :=
  if (found.1 node).freq = 0 then found else heavykeepTopnAddResult n found.1 found.2 node

/-- The table and the result that `HeavyKeep_Topn_Get` leaves. -/
def heavykeepTopnGet (n : Nat) (topn : HeavykeepTopn Key) :
    (Nat → HeavykeepTopnNode Key) × List Nat :=
  (List.range topn.hash_size.toNat).foldl (heavykeepTopnScan n) (topn.hash, [])

end MyCode.HeavyKeep

/-!
## Heavy keepers never count too much

A call that touches no position twice adds at most one to the count of its
factor.
-/

namespace MyCode.HeavyKeep

variable {Key : Type} {jhash : Key → UINT → UINT}

/-- A call of `HeavyKeep_Topn_FScore` with the random draws it gets. -/
structure ScoreCall (Key : Type) where
  RAND_Get : Nat → UINT
  key : Key
  hash_factor : UINT
  score : UINT

def ScoreCall.run (jhash : Key → UINT → UINT) (topn : HeavykeepTopn Key) (call : ScoreCall Key) :
    HeavykeepTopn Key :=
  heavykeepTopnFScore jhash call.RAND_Get topn call.key call.hash_factor call.score

def callsOf (calls : List (ScoreCall Key)) (factor : UINT) : List (ScoreCall Key) :=
  calls.filter fun call => call.hash_factor = factor

/-- A node that is not empty counts calls of its factor and adds up their scores. -/
def Counted (calls : List (ScoreCall Key)) (node : HeavykeepTopnNode Key) : Prop :=
  node.freq ≠ 0 → node.freq.toNat ≤ (callsOf calls node.factor).length ∧
    node.score.toNat ≤ ((callsOf calls node.factor).map fun call => call.score.toNat).sum

def TouchesOnce (jhash : Key → UINT → UINT) (topn : HeavykeepTopn Key) (call : ScoreCall Key) :
    Prop :=
  (heavykeepIndexes jhash topn call.key call.hash_factor).Nodup

variable {calls : List (ScoreCall Key)} {call : ScoreCall Key} {node : HeavykeepTopnNode Key}
  {topn : HeavykeepTopn Key}

theorem callsOf_same (call : ScoreCall Key) (calls : List (ScoreCall Key)) :
    callsOf (call :: calls) call.hash_factor = call :: callsOf calls call.hash_factor :=
  List.filter_cons_of_pos (by simp)

theorem Counted.more (counted : Counted calls node) (call : ScoreCall Key) :
    Counted (call :: calls) node := by
  intro used
  obtain ⟨freq, score⟩ := counted used
  by_cases same : call.hash_factor = node.factor
  · rw [← same] at freq score ⊢
    rw [callsOf_same, List.length_cons, List.map_cons, List.sum_cons]
    omega
  have others : callsOf (call :: calls) node.factor = callsOf calls node.factor :=
    List.filter_cons_of_neg (by simpa using same)
  rw [others]
  exact ⟨freq, score⟩

theorem Counted.perm {others : List (ScoreCall Key)} (counted : Counted calls node)
    (perm : calls.Perm others) : Counted others node := by
  intro used
  obtain ⟨freq, score⟩ := counted used
  have own : (callsOf calls node.factor).Perm (callsOf others node.factor) := perm.filter _
  rw [own.length_eq] at freq
  rw [(own.map fun call => call.score.toNat).sum_eq] at score
  exact ⟨freq, score⟩

theorem counted_own (call : ScoreCall Key) (calls : List (ScoreCall Key)) (key : Key) :
    Counted (call :: calls) ⟨1, call.score.setWidth 64, call.hash_factor, key⟩ := by
  intro _
  have score : (call.score.setWidth 64).toNat = call.score.toNat := by
    rw [BitVec.toNat_setWidth]
    exact Nat.mod_eq_of_lt (Nat.lt_trans call.score.isLt (by decide))
  simp only [callsOf_same, List.length_cons, List.map_cons, List.sum_cons, score]
  exact ⟨Nat.le_add_left 1 _, Nat.le_add_right _ _⟩

theorem Counted.refresh (counted : Counted calls node) (used : node.freq ≠ 0) (draw : UINT)
    (key : Key) (call : ScoreCall Key) :
    Counted (call :: calls)
      (heavykeepRefresh draw node key (call.score.setWidth 64) call.hash_factor) := by
  have more := counted.more call
  rw [heavykeepRefresh]
  split
  · exact more
  simp only
  split
  · split
    · exact counted_own call calls key
    -- the node decays
    intro _
    obtain ⟨freq, score⟩ := more used
    have small : (node.freq - 1).toNat = node.freq.toNat - 1 :=
      BitVec.toNat_sub_of_le (Nat.pos_of_ne_zero fun zero => used (BitVec.eq_of_toNat_eq zero))
    refine ⟨?_, score⟩
    simp only [small]
    omega
  · exact more

theorem Counted.touch (counted : Counted calls node) (draw : UINT) (call : ScoreCall Key) :
    Counted (call :: calls)
      (heavykeepTouch draw node call.key call.hash_factor (call.score.setWidth 64)) := by
  rw [heavykeepTouch]
  split
  · exact counted_own call calls call.key
  next used =>
  split
  · next same =>
      obtain ⟨freq, score⟩ := counted used
      intro _
      have added : (node.freq + 1).toNat ≤ node.freq.toNat + 1 := Nat.mod_le _ _
      have scored : (node.score + call.score.setWidth 64).toNat ≤
          node.score.toNat + call.score.toNat := by
        rw [BitVec.toNat_add, BitVec.toNat_setWidth]
        exact Nat.le_trans (Nat.mod_le _ _) (Nat.add_le_add_left (Nat.mod_le _ _) _)
      simp only [same, callsOf_same, List.length_cons, List.map_cons, List.sum_cons]
      rw [same] at freq score
      omega
  · exact counted.refresh used draw call.key call

theorem heavykeepTouchAll_of_not_mem {RAND_Get : Nat → UINT} {key : Key} {hash_factor : UINT}
    {score : UINT64} {position : Nat} (i : Nat) (indexes : List UINT)
    (hash : Nat → HeavykeepTopnNode Key) (outside : ∀ index ∈ indexes, index.toNat ≠ position) :
    heavykeepTouchAll RAND_Get key hash_factor score i indexes hash position = hash position := by
  induction indexes generalizing i hash with
  | nil => rfl
  | cons index _ ih =>
    rw [heavykeepTouchAll, ih _ _ fun other inside => outside other (.tail _ inside)]
    exact Function.update_of_ne (outside index List.mem_cons_self).symm _ _

theorem heavykeepTouchAll_counted (call : ScoreCall Key) {position : Nat} (i : Nat)
    (indexes : List UINT) (hash : Nat → HeavykeepTopnNode Key) (apart : indexes.Nodup)
    (counted : Counted calls (hash position)) :
    Counted (call :: calls) (heavykeepTouchAll call.RAND_Get call.key call.hash_factor
      (call.score.setWidth 64) i indexes hash position) := by
  induction indexes generalizing i hash with
  | nil => exact counted.more call
  | cons index rest ih =>
    obtain ⟨new, others⟩ := List.nodup_cons.mp apart
    rw [heavykeepTouchAll]
    by_cases here : position = index.toNat
    · have once : ∀ other ∈ rest, other.toNat ≠ position := by
        intro other inside same
        exact new (BitVec.eq_of_toNat_eq (same.trans here) ▸ inside)
      rw [heavykeepTouchAll_of_not_mem _ _ _ once, here, Function.update_self]
      rw [here] at counted
      exact counted.touch _ call
    · apply ih (i + 1) _ others
      rw [Function.update_of_ne here]
      exact counted

def scoreAll (jhash : Key → UINT → UINT) (topn : HeavykeepTopn Key)
    (calls : List (ScoreCall Key)) : HeavykeepTopn Key :=
  calls.foldl (ScoreCall.run jhash) topn

/-- Every call of a run touches no position twice. -/
def AllTouchOnce (jhash : Key → UINT → UINT) (topn : HeavykeepTopn Key)
    (calls : List (ScoreCall Key)) : Prop :=
  ∀ call ∈ calls, TouchesOnce jhash topn call

theorem scoreAll_counted {before : List (ScoreCall Key)} (once : AllTouchOnce jhash topn calls)
    (counted : ∀ position, Counted before (topn.hash position)) (position : Nat) :
    Counted (calls.reverse ++ before) ((scoreAll jhash topn calls).hash position) := by
  induction calls generalizing topn before with
  | nil => exact counted position
  | cons call _ ih =>
    rw [List.reverse_cons, List.append_assoc, List.singleton_append]
    apply ih
    · intro later inside
      exact once later (.tail _ inside)
    · intro place
      exact heavykeepTouchAll_counted call 0 _ _ (once call List.mem_cons_self) (counted place)

def heavykeepAfter (jhash : Key → UINT → UINT) (hash_size cycle : UINT) (zero : Key)
    (calls : List (ScoreCall Key)) : HeavykeepTopn Key :=
  scoreAll jhash (heavykeepTopnCreate hash_size cycle zero) calls

theorem heavykeepAfter_counted {hash_size cycle : UINT} {zero : Key}
    (once : AllTouchOnce jhash (heavykeepTopnCreate hash_size cycle zero) calls) (position : Nat) :
    Counted calls ((heavykeepAfter jhash hash_size cycle zero calls).hash position) := by
  have counted := @scoreAll_counted Key jhash calls (heavykeepTopnCreate hash_size cycle zero) []
    once (fun _ used => absurd rfl used) position
  rw [List.append_nil] at counted
  exact counted.perm (List.reverse_perm calls)

end MyCode.HeavyKeep
