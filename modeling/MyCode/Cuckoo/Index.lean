import MyCode.Cuckoo.Contents

/-!
# The place that an add returns

`CuckooHash_Add` returns the place at which the new datum was put first.  A chain of
displacements that comes back to this place moves the datum on.
-/

namespace MyCode.Cuckoo

variable {α : Type} {funcs : CuckooFuncs α} {hash : CuckooHashS α} {a b left bkt_index index : Nat}
  {key_factor : UINT} {data carried : α} {RAND_Get : Nat → UINT} {place : Option Nat}

/-- The places that `cuckoohash_ForceAdd2Bkt` writes, in turn. -/
def cuckooChain (RAND_Get : Nat → UINT) : (left : Nat) → (hash : CuckooHashS α) →
    (bkt_index : Nat) → (key_factor : UINT) → (data : α) → List Nat
  | 0, hash, bkt_index, key_factor, data =>
    ((cuckoohashAdd2Bkt hash bkt_index key_factor data).map Prod.snd).toList
  | left + 1, hash, bkt_index, key_factor, data =>
    match cuckoohashAdd2Bkt hash bkt_index key_factor data with
    | some (_, added_index) => [added_index]
    | none =>
      let force_index := bkt_index * hash.bucket_depth.toNat +
        (RAND_Get (cuckooHashMaxTry - (left + 1)) &&& hash.bucket_depth_mask).toNat
      let old := hash.table force_index
      let hash := hash.setNode force_index { old with key_factor := key_factor, data := data }
      force_index :: cuckooChain RAND_Get left hash
        (cuckoohashPeerBktIndex hash old.key_factor bkt_index) old.key_factor old.data

/-- The places that `CuckooHash_Add` writes, in turn. -/
def cuckooAddChain (funcs : CuckooFuncs α) (hash : CuckooHashS α) (RAND_Get : Nat → UINT)
    (data : α) : List Nat :=
  match cuckoohashAdd2Bkt hash (cuckoohashFirstBktIndex hash (funcs.index_func data))
      (funcs.index_func data) data with
  | some (_, index) => [index]
  | none => cuckooChain RAND_Get cuckooHashMaxTry hash
      (cuckoohashSecondBktIndex hash (funcs.index_func data)) (funcs.index_func data) data

/-- Where a datum ends that is at `place` or in hand while the places are written in turn: it is
taken up when its place is written, and put at the next one. -/
def whereabouts : (place : Option Nat) → List Nat → Option Nat
  | place, [] => place
  | none, i :: rest => whereabouts (some i) rest
  | some at_, i :: rest => whereabouts (if i = at_ then none else some at_) rest

/-- The datum is in hand, or at its place only. -/
def Tracks (hash : CuckooHashS α) (data carried : α) : Option Nat → Prop
  | none => carried = data ∧ ∀ i < hash.size, (hash.table i).used = true → (hash.table i).data ≠ data
  | some at_ => carried ≠ data ∧ at_ < hash.size ∧ (hash.table at_).used = true ∧
      ∀ i < hash.size, (hash.table i).used = true → ((hash.table i).data = data ↔ i = at_)

/-- The first place of a chain is returned, and the datum is where it was followed to. -/
structure TracksTo (data : α) (place : Option Nat) (hash added : CuckooHashS α) (index : Nat)
    (chain : List Nat) : Prop where
  head : chain.head? = some index
  bounded : index < hash.size
  used : (added.table index).used = true
  kept : ∀ i, (hash.table i).used = true → (added.table i).used = true
  datum : ∀ i < hash.size, (added.table i).used = true →
    ((added.table i).data = data ↔ whereabouts place chain = some i)

theorem Tracks.fill (tracks : Tracks hash data carried place) (bounded : index < hash.size)
    (unused : (hash.table index).used = false) :
    TracksTo data place hash (hash.setNode index ⟨true, key_factor, carried⟩) index [index] := by
  refine ⟨rfl, bounded, by rw [setNode_self], fun i isUsed => ?_, fun i inside used => ?_⟩
  · by_cases same : i = index
    · rw [same, setNode_self]
    · rw [setNode_of_ne same]
      exact isUsed
  cases place with
  | none =>
    obtain ⟨rfl, absent⟩ := tracks
    rw [whereabouts, whereabouts, Option.some.injEq]
    by_cases same : i = index
    · rw [same, setNode_self]
      exact iff_of_true rfl rfl
    · rw [setNode_of_ne same] at used ⊢
      exact iff_of_false (absent i inside used) (Ne.symm same)
  | some at_ =>
    obtain ⟨differs, -, isUsed, only⟩ := tracks
    have elsewhere : index ≠ at_ := by
      rintro rfl
      rw [unused] at isUsed
      cases isUsed
    rw [whereabouts, whereabouts, if_neg elsewhere, Option.some.injEq]
    by_cases same : i = index
    · rw [same, setNode_self]
      exact iff_of_false differs (Ne.symm elsewhere)
    · rw [setNode_of_ne same] at used ⊢
      rw [only i inside used, eq_comm]

/-- The node at a place goes on in hand. -/
theorem Tracks.swap (tracks : Tracks hash data carried place) (bounded : index < hash.size)
    (isUsed : (hash.table index).used = true) :
    ∃ next, Tracks (hash.setNode index
        { hash.table index with key_factor := key_factor, data := carried }) data
        (hash.table index).data next ∧
      ∀ rest, whereabouts place (index :: rest) = whereabouts next rest := by
  cases place with
  | none =>
    obtain ⟨rfl, absent⟩ := tracks
    refine ⟨some index, ⟨absent index bounded isUsed, bounded, by rw [setNode_self]; exact isUsed,
      fun i inside used => ?_⟩, fun rest => rfl⟩
    by_cases same : i = index
    · rw [same, setNode_self]
      exact iff_of_true rfl rfl
    · rw [setNode_of_ne same] at used ⊢
      exact iff_of_false (absent i inside used) same
  | some at_ =>
    obtain ⟨differs, inside, atUsed, only⟩ := tracks
    by_cases here : index = at_
    · subst here
      refine ⟨none, ⟨(only index bounded isUsed).mpr rfl, fun i within used => ?_⟩, fun rest => ?_⟩
      · by_cases same : i = index
        · rw [same, setNode_self]
          exact differs
        · rw [setNode_of_ne same] at used ⊢
          exact fun isDatum => same ((only i within used).mp isDatum)
      · rw [whereabouts, if_pos rfl]
    refine ⟨some at_, ⟨fun isDatum => here ((only index bounded isUsed).mp isDatum), inside, ?_,
      fun i within used => ?_⟩, fun rest => ?_⟩
    · rw [setNode_of_ne (Ne.symm here)]
      exact atUsed
    · by_cases same : i = index
      · rw [same, setNode_self]
        exact iff_of_false differs here
      · rw [setNode_of_ne same] at used ⊢
        exact only i within used
    · rw [whereabouts, if_neg here]

theorem cuckoohashForceAdd2Bkt_tracks (sized : CuckooSized hash a b) (bounded : bkt_index < 2 ^ a)
    (tracks : Tracks hash data carried place)
    (returned : (cuckoohashForceAdd2Bkt RAND_Get left hash bkt_index key_factor carried).2 = some index) :
    TracksTo data place hash
      (cuckoohashForceAdd2Bkt RAND_Get left hash bkt_index key_factor carried).1 index
      (cuckooChain RAND_Get left hash bkt_index key_factor carried) := by
  induction left generalizing hash bkt_index key_factor carried place index with
  | zero =>
    rw [cuckoohashForceAdd2Bkt] at returned ⊢
    rw [cuckooChain]
    cases isAdded : cuckoohashAdd2Bkt hash bkt_index key_factor carried with
    | some =>
      obtain ⟨_, inside, unused, -, rfl⟩ := cuckoohashAdd2Bkt_eq_some sized isAdded
      rw [isAdded] at returned
      cases returned
      exact tracks.fill (sized.bkt_lt bounded inside) unused
    | none =>
      rw [isAdded] at returned
      cases returned
  | succ left ih =>
    rw [cuckoohashForceAdd2Bkt] at returned ⊢
    rw [cuckooChain]
    cases isAdded : cuckoohashAdd2Bkt hash bkt_index key_factor carried with
    | some =>
      obtain ⟨_, inside, unused, -, rfl⟩ := cuckoohashAdd2Bkt_eq_some sized isAdded
      rw [isAdded] at returned
      cases returned
      exact tracks.fill (sized.bkt_lt bounded inside) unused
    | none =>
      have inside := @CuckooSized.forced _ _ _ _ bkt_index sized
        (RAND_Get (cuckooHashMaxTry - (left + 1)))
      rw [isAdded] at returned
      simp only at returned ⊢
      generalize bkt_index * hash.bucket_depth.toNat +
        (RAND_Get (cuckooHashMaxTry - (left + 1)) &&& hash.bucket_depth_mask).toNat = force_index
        at inside returned ⊢
      have used := cuckoohashAdd2Bkt_eq_none sized inside isAdded
      obtain ⟨next, tracksNext, follows⟩ :=
        @Tracks.swap _ _ _ key_factor _ _ _ tracks (sized.bkt_lt bounded inside) used
      split at returned
      · next later isLater =>
        cases returned
        have moved := ih sized.setNode (sized.setNode.candidate candidate_peer) tracksNext isLater
        have kept : ∀ i, (hash.table i).used = true → ((hash.setNode index { hash.table index with
              key_factor := key_factor, data := carried }).table i).used = true := by
          intro i isUsed
          by_cases same : i = index
          · rw [same, setNode_self]
            exact used
          · rw [setNode_of_ne same]
            exact isUsed
        refine ⟨rfl, sized.bkt_lt bounded inside, moved.kept _ (kept _ used),
          fun i isUsed => moved.kept i (kept i isUsed), fun i within isUsed => ?_⟩
        rw [follows]
        exact moved.datum i within isUsed
      · cases returned

theorem cuckooHashAdd_tracks (sized : CuckooSized hash a b)
    (absent : ∀ i < hash.size, (hash.table i).used = true → (hash.table i).data ≠ data)
    (returned : (cuckooHashAdd funcs hash RAND_Get data).2 = some index) :
    TracksTo data none hash (cuckooHashAdd funcs hash RAND_Get data).1 index
      (cuckooAddChain funcs hash RAND_Get data) := by
  have tracks : Tracks hash data data none := ⟨rfl, absent⟩
  simp only [cuckooHashAdd, cuckoohashAddWithKeyFactor] at returned ⊢
  rw [cuckooAddChain]
  cases isAdded : cuckoohashAdd2Bkt hash (cuckoohashFirstBktIndex hash (funcs.index_func data))
      (funcs.index_func data) data with
  | some =>
    obtain ⟨_, inside, unused, -, rfl⟩ := cuckoohashAdd2Bkt_eq_some sized isAdded
    rw [isAdded] at returned
    cases returned
    have filled := @Tracks.fill _ _ _ (funcs.index_func data) _ _ _ tracks
      (sized.bkt_lt (sized.candidate (.inl rfl)) inside) unused
    exact ⟨filled.head, filled.bounded, filled.used, filled.kept, filled.datum⟩
  | none =>
    rw [isAdded] at returned
    split at returned
    · next later isLater =>
      cases returned
      have moved := cuckoohashForceAdd2Bkt_tracks sized (sized.candidate (.inr rfl)) tracks isLater
      exact ⟨moved.head, moved.bounded, moved.used, moved.kept, moved.datum⟩
    · cases returned

variable [DecidableEq α] {run : CuckooRun α}

/-- The returned place holds the added datum exactly when the chain, followed from the first
place, leaves the datum there or brings it back. -/
theorem cuckooHashAdd_index (agree : funcs.Agree) (fits : a + b < 31)
    (reached : (cuckooSystem funcs (BitVec.ofNat 32 (2 ^ a)) (BitVec.ofNat 32 (2 ^ b))).Reachable
      run)
    (absent : ∀ other ∈ run.stored, funcs.cmp_func other data ≠ 0)
    (returned : (cuckooHashAdd funcs run.hash RAND_Get data).2 = some index) :
    (cuckooHashAdd funcs run.hash RAND_Get data).1.table index =
        ⟨true, funcs.index_func data, data⟩ ↔
      whereabouts none (cuckooAddChain funcs run.hash RAND_Get data) =
        (cuckooAddChain funcs run.hash RAND_Get data).head? := by
  have ok := cuckooSystem_ok agree fits reached
  have fresh : ∀ i < run.hash.size, (run.hash.table i).used = true →
      (run.hash.table i).data ≠ data := by
    rintro i bounded used rfl
    refine absent (run.hash.table i).data ?_ (agree.refl _)
    rw [← Finset.mem_val, ← ok.contents]
    exact mem_contents.mpr ⟨i, bounded, used, rfl⟩
  have tracked := cuckooHashAdd_tracks ok.sized fresh returned
  rw [tracked.head, ← tracked.datum index tracked.bounded tracked.used]
  constructor
  · exact fun isNode => congrArg CuckooHashNode.data isNode
  intro isDatum
  rcases @cuckooHashAdd_adds _ funcs run.hash a b data RAND_Get ok.sized ok.placed with
    ⟨-, sizedAfter, placedAfter, -⟩ | failed
  · have sameSize : run.hash.size = (cuckooHashAdd funcs run.hash RAND_Get data).1.size := by
      rw [ok.sized.size_eq, sizedAfter.size_eq]
    have isFactor := (placedAfter.placed index (sameSize ▸ tracked.bounded) tracked.used).1
    rw [isDatum] at isFactor
    have used := tracked.used
    generalize (cuckooHashAdd funcs run.hash RAND_Get data).1.table index = node at *
    obtain ⟨isUsed, factor, datum⟩ := node
    obtain rfl : isUsed = true := used
    obtain rfl : factor = funcs.index_func data := isFactor
    obtain rfl : datum = data := isDatum
    rfl
  · rw [failed] at returned
    cases returned

/-- The places 1, 2 and 0 hold data whose other buckets are 2, 1 and 3. -/
def fullRun : CuckooRun Nat :=
  natRun 4 1 [.add (fun _ => 0) 0x30001, .add (fun _ => 0) 0x30002, .add (fun _ => 0) 0x30000]

theorem fullRun_reachable : (cuckooSystem natFuncs 4 1).Reachable fullRun :=
  natRun_reachable 4 1 _ (by decide +kernel)

theorem cuckooHashAdd_index_free :
    (cuckooHashAdd natFuncs fullRun.hash (fun _ => 0) 3).1.table 3 = ⟨true, 3, 3⟩ :=
  (@cuckooHashAdd_index Nat natFuncs 2 0 3 3 (fun _ => 0) _ fullRun natFuncs_agree (by decide)
    fullRun_reachable (by decide +kernel) (by decide +kernel)).mpr (by decide +kernel)

/-- The new datum 0x10000 is put at place 1, taken up again and put at place 0. -/
theorem cuckooHashAdd_moves_on :
    (cuckooSystem natFuncs 4 1).Reachable fullRun ∧
      (∀ other ∈ fullRun.stored, natFuncs.cmp_func other 0x10000 ≠ 0) ∧
      (cuckooHashAdd natFuncs fullRun.hash (fun _ => 0) 0x10000).2 = some 1 ∧
      ((cuckooHashAdd natFuncs fullRun.hash (fun _ => 0) 0x10000).1.table 1).data = 0x30002 :=
  ⟨fullRun_reachable, by decide +kernel, by decide +kernel, by decide +kernel⟩

end MyCode.Cuckoo
