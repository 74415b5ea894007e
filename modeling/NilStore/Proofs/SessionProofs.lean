import NilStore.Gateway.SessionProofs
import NilStore.Proofs.PlanCoverage
import NilStore.Proofs.SessionRange

/-!
# `NilStore.Proofs.SessionProofs`: which proof lists are accepted

`SubmitRetrievalSessionProof` wants one proof for each blob of the session, in ascending order
(`checkSubmission_required`). The download-session path sorts what was fetched and drops
repetitions, so it always sends that list: the key by which it drops is injective on every range
that can be opened (`proofKey_inj`). The bucket path sends the proofs as they came, so it sends that
list exactly when the blobs were fetched once each and in ascending order
(`submitted_required_iff`).
-/

set_option autoImplicit false

namespace NilStore.Gateway

open NilStore.Lib NilStore.Chain

variable {β : Type}

/-! ### The list that the chain wants -/

/-- The place of a proof: its MDU and its blob, compared in this order. -/
def position (proof : ChainedProof) :
    Nat ×ₗ Nat := toLex (proof.mduIndex.toNat, proof.blobIndex.toNat)

/-- The number of the `i`-th blob of a session. -/
def expectedGlobal (stripe : StripeParams) (session : RetrievalSession) (i : Nat) : UInt64 :=
  session.startGlobal stripe + UInt64.ofNat i

/-- The place of the `i`-th proof. -/
def expectedPosition (stripe : StripeParams) (session : RetrievalSession) (i : Nat) : Nat ×ₗ Nat :=
  toLex ((expectedGlobal stripe session i / stripe.leafCount).toNat,
    (expectedGlobal stripe session i % stripe.leafCount).toNat)

/-- The proofs are those that `SubmitRetrievalSessionProof` requires, in its order. -/
def Required (stripe : StripeParams) (session : RetrievalSession) (proofs : List ChainedProof) :
    Prop :=
  proofs.map position = (List.range session.blobCount.toNat).map (expectedPosition stripe session)

instance (stripe : StripeParams) (session : RetrievalSession) (proofs : List ChainedProof) :
    Decidable (Required stripe session proofs) :=
  inferInstanceAs (Decidable (_ = _))

/-- Proofs that pass are for the blobs of the range, one after the other. The position of a proof is
its MDU and its blob in it. -/
theorem checkSessionProofs_positions {env : Env β} {deal : Deal} {stripe : StripeParams}
    {session : RetrievalSession} {start : UInt64} {proofs : List ChainedProof} {u : Unit}
    (h : checkSessionProofs env deal stripe session start proofs = .ok u) :
    proofs.map position = (List.range proofs.length).map fun i =>
      toLex (((start + UInt64.ofNat i) / stripe.leafCount).toNat,
        ((start + UInt64.ofNat i) % stripe.leafCount).toNat) := by
  -- by the list of the proofs; the first is for the start
  induction proofs generalizing start with
  | nil => rfl
  | cons p rest ih =>
      simp only [checkSessionProofs, except_bind_ok] at h
      obtain ⟨_, hp, hrest⟩ := h
      simp only [checkSessionProof, except_bind_ok, rejectIf_eq_ok, not_or, not_not] at hp
      obtain ⟨_, ⟨hmdu, hblob⟩, -⟩ := hp
      rw [List.map_cons, ih hrest, List.length_cons, List.range_succ_eq_map,
        List.map_cons, List.map_map]
      have hfirst : position p = toLex (((start + UInt64.ofNat 0) / stripe.leafCount).toNat,
          ((start + UInt64.ofNat 0) % stripe.leafCount).toNat) := by
        show toLex _ = toLex _
        rw [hmdu, ← UInt32.toNat_toUInt64, hblob]
        simp
      rw [hfirst]
      refine congrArg _ (List.map_congr_left fun i _ => ?_)
      have hnext : start + 1 + UInt64.ofNat i = start + UInt64.ofNat (i + 1) := by
        rw [UInt64.ofNat_add, UInt64.add_assoc, UInt64.add_comm 1]
        rfl
      simp [hnext]

/-- Whatever `SubmitRetrievalSessionProof` accepts is the required list. -/
theorem checkSubmission_required {env : Env β} {session : RetrievalSession}
    {proofs : List ChainedProof}
    {deals : KVStore Nat Deal} {deal : Deal} {stripe : StripeParams} {u : Unit}
    (hdeal : deals.get session.dealId.toNat = some deal)
    (hstripe : stripeParamsForDeal deal = .ok stripe)
    (hlength : proofs.length < 2 ^ 64) (h : checkSubmission env session proofs deals = .ok u) :
    Required stripe session proofs := by
  simp only [checkSubmission, except_bind_ok, rejectIf_eq_ok, orFail_eq_ok, mapError_eq_ok,
    not_not] at h
  obtain ⟨deal', hdeal', _, -, _, hcount, stripe', hstripe', _, -, hproofs⟩ := h
  rw [hdeal] at hdeal'
  cases hdeal'
  rw [hstripe] at hstripe'
  cases hstripe'
  have hcount' : session.blobCount.toNat = proofs.length := by
    rw [← hcount, UInt64.toNat_ofNat_of_lt' hlength]
  rw [Required, hcount']
  exact checkSessionProofs_positions hproofs

/-! ### Ranges that can be opened -/

/-- What opening leaves of a range: it does not overflow, its bytes neither, and either an MDU has
at most 64 leaves, or the range is no longer than a slot is high, and the slots make up the MDU. -/
structure RangeOpened (stripe : StripeParams) (session : RetrievalSession) : Prop where
  count : 0 < session.blobCount.toNat
  fits : (session.startGlobal stripe).toNat + session.blobCount.toNat < 2 ^ 64
  bytes : session.blobCount.toNat < 2 ^ 47
  leaves : 0 < stripe.leafCount.toNat
  narrow : stripe.leafCount.toNat ≤ 64 ∨ session.blobCount.toNat + 64 ≤ stripe.leafCount.toNat

/-- `mulUint64` reports the products from `2 ^ 64` on. -/
theorem mulUint64_overflow {a b : UInt64} (h : (mulUint64 a b).2 = false) :
    a.toNat * b.toNat < 2 ^ 64 := by
  rw [mulUint64] at h
  split at h
  · rename_i hzero
    rcases hzero with rfl | rfl
    · simp
    · simp
  · rename_i hne
    by_contra hlarge
    have hdiv : (a * b / b).toNat = a.toNat := by
      have heq : a * b / b = a := by simpa using h
      rw [heq]
    rw [UInt64.toNat_div, UInt64.toNat_mul] at hdiv
    have hb : 0 < b.toNat := by
      have hb0 : b.toNat ≠ 0 := fun h0 => hne (Or.inr (UInt64.toNat_inj.mp h0))
      omega
    have hwrapped : a.toNat * b.toNat % 2 ^ 64 < a.toNat * b.toNat :=
      Nat.lt_of_lt_of_le (Nat.mod_lt _ (by decide)) (not_lt.mp hlarge)
    have hlt := (Nat.div_lt_iff_lt_mul hb).mpr hwrapped
    omega

/-- An accepted opening has its range checked. The counts are small enough for the wrapping
arithmetic of the handler, which the later proofs rely on. -/
theorem checkOpen_opened {codec : AddressCodec} {msg : MsgOpenRetrievalSession}
    {deals : KVStore Nat Deal}
    {plan : OpenPlan} {stripe : StripeParams} (h : checkOpen codec msg deals = .ok plan)
    (hstripe : stripeParamsForDeal plan.deal = .ok stripe) (ctx : Ctx) (sessionId : Bytes)
    (totalBytes : UInt64) (fee : Int) :
    RangeOpened stripe (newSession ctx msg sessionId totalBytes fee) := by
  simp only [checkOpen, except_bind_ok, rejectIf_eq_ok, orFail_eq_ok, mapError_eq_ok, not_or,
    not_not] at h
  obtain ⟨_, -, _, hcount, deal, -, _, -, _, -, _, -, stripe', hstripe', _, hrange, _,
    hbytes, owner, -,
    provider, -, hplan⟩ := h
  cases hplan
  rw [hstripe] at hstripe'
  cases hstripe'
  obtain ⟨hstart, hfits, hslots, -⟩ := checkBlobRange_iff.mp hrange
  -- the count is positive, and its bytes do not wrap
  have hpos : 0 < msg.blobCount.toNat := by
    have hne : msg.blobCount.toNat ≠ 0 := fun h0 => hcount (UInt64.toNat_inj.mp h0)
    omega
  have hbytes : msg.blobCount.toNat < 2 ^ 47 := by
    have hproduct := mulUint64_overflow (Bool.eq_false_iff.mpr hbytes)
    have hsize : blobSizeBytes.toNat = 131072 := rfl
    rw [hsize] at hproduct
    omega
  -- a start inside the leaves makes their number positive
  have hleaves : 0 < stripe.leafCount.toNat := by
    have hlt := UInt32.lt_iff_toNat_lt.mp hstart
    rw [UInt64.toNat_toUInt32] at hlt
    have hne : stripe.leafCount.toNat ≠ 0 := fun h0 => by simp [h0] at hlt
    omega
  refine ⟨hpos, hfits, hbytes, hleaves, ?_⟩
  rcases stripeParamsForDeal_cases hstripe with rfl | hs
  · exact Or.inl (by decide)
  · -- the range lies in one slot, and a slot is as high as each of the others
    obtain ⟨slotCount, -, hslotCount⟩ := hs.slots
    have hblob := msg.startBlobIndex.toNat_lt
    have hlast : msg.startBlobIndex.toNat + msg.blobCount.toNat =
        msg.startBlobIndex.toNat + msg.blobCount.toNat - 1 + 1 := by omega
    obtain ⟨-, hsame, -⟩ := (checkSlotRange_iff hs (by omega) hlast).mp (hslots hs.mode)
    have hrows := hs.rows_pos
    -- the first and the last blob are in the same slot
    have hheight : msg.blobCount.toNat ≤ stripe.rows.toNat := by
      have hlow := Nat.div_mul_le_self msg.startBlobIndex.toNat stripe.rows.toNat
      have hhigh := Nat.lt_div_mul_add
        (a := msg.startBlobIndex.toNat + msg.blobCount.toNat - 1) hrows
      rw [← hsame] at hhigh
      omega
    by_cases hsmall : stripe.leafCount.toNat ≤ 64
    · exact Or.inl hsmall
    · -- more than 64 leaves are at least one more slot than `K`
      refine Or.inr ?_
      show msg.blobCount.toNat + 64 ≤ _
      have hsize := hs.size
      have hslot : stripe.k.toNat + 1 ≤ slotCount := by
        by_contra hfew
        have hle := Nat.mul_le_mul_right stripe.rows.toNat (by omega : slotCount ≤ stripe.k.toNat)
        omega
      have hwide := Nat.mul_le_mul_right stripe.rows.toNat hslot
      rw [Nat.add_mul, hsize, Nat.one_mul] at hwide
      omega

/-- The keys of two places are different, when the places are at most as far apart as a range that
can be opened. The key has room for 64 blobs of an MDU, so a longer MDU reaches into the next
one. -/
theorem key_ne {leafCount g d : Nat} (hpos : 0 < leafCount) (hd : 0 < d) (hlt : leafCount < 2 ^ 64)
    (hrange : leafCount ≤ 64 ∧ d < 2 ^ 47 ∨ d + 64 < leafCount) :
    (g / leafCount * 64 + g % leafCount) % 2 ^ 64 ≠
      ((g + d) / leafCount * 64 + (g + d) % leafCount) % 2 ^ 64 := by
  obtain ⟨e, he⟩ :=
    Nat.exists_eq_add_of_le (Nat.div_le_div_right (c := leafCount) (Nat.le_add_right g d))
  have hfrom := Nat.div_add_mod' g leafCount
  have hto := Nat.div_add_mod' (g + d) leafCount
  have hr := Nat.mod_lt g hpos
  have hr' := Nat.mod_lt (g + d) hpos
  rw [he] at hto ⊢
  generalize g / leafCount = q at *
  generalize g % leafCount = r at *
  generalize (g + d) % leafCount = r' at *
  -- the second place is `e` MDUs behind the first
  have hstep : e * leafCount + r' = r + d := by
    rw [Nat.add_mul] at hto
    omega
  rcases hrange with ⟨hsmall, hnear⟩ | hnear
  · have hle : e ≤ e * leafCount := Nat.le_mul_of_pos_right e hpos
    rcases Nat.eq_zero_or_pos e with rfl | he
    · omega
    · omega
  -- with large MDUs the range ends in the next one at the latest
  · rcases Nat.lt_or_ge e 2 with he | he
    · interval_cases e
      · omega
      · omega
    · have hle := Nat.mul_le_mul_right leafCount he
      omega

/-! ### Places in a range -/

section

variable {stripe : StripeParams} {session : RetrievalSession} {i j : Nat}

/-- The blobs of an opened range are numbered without a wrap. -/
theorem RangeOpened.toNat_expectedGlobal (h : RangeOpened stripe session)
    (hi : i < session.blobCount.toNat) :
    (expectedGlobal stripe session i).toNat = (session.startGlobal stripe).toNat + i := by
  have hfits := h.fits
  have hbytes := h.bytes
  have hsmall : i < 2 ^ 64 := by omega
  rw [expectedGlobal, UInt64.toNat_add, UInt64.toNat_ofNat_of_lt' hsmall,
    Nat.mod_eq_of_lt (by omega)]

/-- The places of a range ascend. -/
theorem RangeOpened.expectedPosition_lt (h : RangeOpened stripe session) (hij : i < j)
    (hj : j < session.blobCount.toNat) :
    expectedPosition stripe session i < expectedPosition stripe session j := by
  have hi := h.toNat_expectedGlobal (hij.trans hj)
  have hj := h.toNat_expectedGlobal hj
  rw [expectedPosition, expectedPosition, UInt64.toNat_div, UInt64.toNat_div, UInt64.toNat_mod,
    UInt64.toNat_mod, hi, hj, Prod.Lex.toLex_lt_toLex]
  have hle : (session.startGlobal stripe).toNat + i ≤
    (session.startGlobal stripe).toNat + j := by omega
  rcases (Nat.div_le_div_right (c := stripe.leafCount.toNat) hle).lt_or_eq with hlt | heq
  · exact Or.inl hlt
  · refine Or.inr ⟨heq, ?_⟩
    have hlow := Nat.div_add_mod' ((session.startGlobal stripe).toNat + i) stripe.leafCount.toNat
    have hhigh := Nat.div_add_mod' ((session.startGlobal stripe).toNat + j) stripe.leafCount.toNat
    rw [heq] at hlow
    show _ % _ < _ % _
    omega

/-- The positions of an opened range ascend. -/
theorem RangeOpened.pairwise (h : RangeOpened stripe session) :
    ((List.range session.blobCount.toNat).map (expectedPosition stripe session)).Pairwise
      (· < ·) := by
  rw [List.pairwise_map]
  refine List.pairwise_lt_range.imp_of_mem ?_
  intro i j _ hj hij
  exact h.expectedPosition_lt hij (List.mem_range.mp hj)

/-- What was fetched: every blob of the range, and no other. -/
structure FetchesRange (stripe : StripeParams) (session : RetrievalSession)
    (fetches : List DownloadChunk) : Prop where
  touches : ∀ i < session.blobCount.toNat, ∃ c ∈ fetches,
    position c.proofDetails = expectedPosition stripe session i
  within : ∀ c ∈ fetches, ∃ i < session.blobCount.toNat,
    position c.proofDetails = expectedPosition stripe session i

/-- A list of proofs in strictly ascending order is the required one, when it has the same
places. -/
theorem RangeOpened.required (h : RangeOpened stripe session) {proofs : List ChainedProof}
    (hsorted : (proofs.map position).Pairwise (· < ·))
    (hmem : ∀ pos, pos ∈ proofs.map position ↔
      ∃ i < session.blobCount.toNat, pos = expectedPosition stripe session i) :
    Required stripe session proofs := by
  have hperm : (proofs.map position).Perm
      ((List.range session.blobCount.toNat).map (expectedPosition stripe session)) := by
    rw [List.perm_ext_iff_of_nodup (hsorted.imp ne_of_lt) (h.pairwise.imp ne_of_lt)]
    intro pos
    rw [hmem pos]
    simp [eq_comm]
  exact hperm.eq_of_pairwise (fun a b _ _ hab hba => absurd (hab.trans hba) (lt_irrefl _)) hsorted
    h.pairwise

/-! ### The key -/

/-- The key of a chunk whose place is in a range. -/
theorem toNat_proofKey {c : DownloadChunk}
    (hc : position c.proofDetails = expectedPosition stripe session i) :
    (proofKey c).toNat = ((expectedGlobal stripe session i).toNat / stripe.leafCount.toNat * 64 +
      (expectedGlobal stripe session i).toNat % stripe.leafCount.toNat) % 2 ^ 64 := by
  have hmdu : c.proofDetails.mduIndex.toNat =
      (expectedGlobal stripe session i / stripe.leafCount).toNat :=
    congrArg Prod.fst (toLex_inj.mp hc)
  have hblob : c.proofDetails.blobIndex.toNat =
      (expectedGlobal stripe session i % stripe.leafCount).toNat :=
    congrArg Prod.snd (toLex_inj.mp hc)
  have h64 : blobsPerMdu.toNat = 64 := rfl
  rw [proofKey, UInt64.toNat_add, UInt64.toNat_mul, UInt32.toNat_toUInt64, hmdu, hblob,
    UInt64.toNat_div, UInt64.toNat_mod, h64, Nat.mod_add_mod]

/-- Two chunks of a range with one key have one place. -/
theorem proofKey_inj (h : RangeOpened stripe session) {c c' : DownloadChunk}
    (hi : i < session.blobCount.toNat) (hj : j < session.blobCount.toNat)
    (hc : position c.proofDetails = expectedPosition stripe session i)
    (hc' : position c'.proofDetails = expectedPosition stripe session j)
    (hkey : proofKey c = proofKey c') : i = j := by
  have hkey := congrArg UInt64.toNat hkey
  rw [toNat_proofKey hc, toNat_proofKey hc', h.toNat_expectedGlobal hi, h.toNat_expectedGlobal hj]
    at hkey
  have hbytes := h.bytes
  have hne : ∀ {i j : Nat}, i < j → j < session.blobCount.toNat → _ := fun {i j} hij hj =>
    key_ne (g := (session.startGlobal stripe).toNat + i) (d := j - i) h.leaves (by omega)
      stripe.leafCount.toNat_lt (h.narrow.imp (fun hsmall => ⟨hsmall, by omega⟩) (by omega))
  rcases Nat.lt_trichotomy i j with hij | hij | hij
  · refine absurd hkey ?_
    have := hne hij hj
    rwa [Nat.add_assoc, Nat.add_sub_cancel' hij.le] at this
  · exact hij
  · refine absurd hkey.symm ?_
    have := hne hij hi
    rwa [Nat.add_assoc, Nat.add_sub_cancel' hij.le] at this

end

/-! ### Recording and sending -/

/-- The proofs recorded are those of the fetches. -/
theorem recordOnChain_eq (fetches : List DownloadChunk) :
    recordOnChain fetches = fetches.map (·.proofDetails) := by
  suffices h : ∀ proofs : List ChainedProof,
      fetches.foldl (fun proofs chunk =>
        storeOnChainSessionProof proofs chunk.proofDetails) proofs =
        proofs ++ fetches.map (·.proofDetails) from h []
  induction fetches with
  | nil => simp
  | cons c rest ih =>
      intro proofs
      rw [List.foldl_cons, ih, storeOnChainSessionProof, List.append_assoc]
      rfl

/-- Recording fetches appends them, for the same provider. -/
theorem chunks_recordDownload (session : DownloadSession) (fetches : List DownloadChunk) :
    (recordDownload session fetches).chunks = session.chunks ++ fetches ∧
      (recordDownload session fetches).provider = session.provider := by
  induction fetches generalizing session with
  | nil => exact ⟨(List.append_nil _).symm, rfl⟩
  | cons c rest ih =>
      obtain ⟨hchunks, hprovider⟩ := ih (session.append c)
      refine ⟨?_, hprovider⟩
      rw [recordDownload, List.foldl_cons, ← recordDownload, hchunks, DownloadSession.append,
        List.append_assoc]
      rfl

/-- The comparison is the one of the places. -/
theorem chunkLess_eq_false {a b : DownloadChunk} :
    chunkLess b a = false ↔ position a.proofDetails ≤ position b.proofDetails := by
  rw [chunkLess, position, position, Prod.Lex.toLex_le_toLex]
  by_cases hmdu : b.proofDetails.mduIndex = a.proofDetails.mduIndex
  · rw [if_neg (not_not.mpr hmdu), decide_eq_false_iff_not, hmdu, UInt32.not_lt,
      UInt32.le_iff_toNat_le]
    simp
  · have hne : b.proofDetails.mduIndex.toNat ≠ a.proofDetails.mduIndex.toNat := fun h =>
      hmdu (UInt64.toNat_inj.mp h)
    rw [if_pos hmdu, decide_eq_false_iff_not, UInt64.lt_iff_toNat_lt]
    show _ ↔ _ < _ ∨ _ = _ ∧ _
    constructor
    · intro h
      exact Or.inl (by omega)
    · rintro (h | ⟨h, -⟩)
      · omega
      · exact absurd h.symm hne

/-- The loop keeps chunks in their order, no two with one key, and one for each key. What was seen
before counts as kept. -/
theorem uniqueProofs_spec (seen : List UInt64) (chunks : List DownloadChunk) :
    ∃ kept : List DownloadChunk, uniqueProofs seen chunks = kept.map (·.proofDetails) ∧
      kept.Sublist chunks ∧ (kept.map proofKey).Nodup ∧ (∀ c ∈ kept, proofKey c ∉ seen) ∧
      ∀ c ∈ chunks, proofKey c ∉ seen → ∃ c' ∈ kept, proofKey c' = proofKey c := by
  -- by the list of the chunks; the first one is seen, or kept
  induction chunks generalizing seen with
  | nil => exact ⟨[], rfl, List.Sublist.refl _, List.nodup_nil, by simp, by simp⟩
  | cons c rest ih =>
      rw [uniqueProofs]
      split
      · rename_i hseen
        obtain ⟨kept, hkept, hsub, hnodup, hnew, hall⟩ := ih seen
        refine ⟨kept, hkept, hsub.cons c, hnodup, hnew, ?_⟩
        intro c' hc' hkey
        rcases List.mem_cons.mp hc' with rfl | hc'
        · exact absurd hseen hkey
        · exact hall c' hc' hkey
      · rename_i hseen
        obtain ⟨kept, hkept, hsub, hnodup, hnew, hall⟩ := ih (proofKey c :: seen)
        refine ⟨c :: kept, by rw [hkept, List.map_cons], hsub.cons_cons c, ?_, ?_, ?_⟩
        · rw [List.map_cons, List.nodup_cons]
          refine ⟨?_, hnodup⟩
          intro hmem
          obtain ⟨c', hc', hkey⟩ := List.mem_map.mp hmem
          exact hnew c' hc' (hkey ▸ List.mem_cons_self)
        · intro c' hc'
          rcases List.mem_cons.mp hc' with rfl | hc'
          · exact hseen
          · exact fun hmem => hnew c' hc' (List.mem_cons_of_mem _ hmem)
        -- a chunk is kept itself, or one with its key
        · intro c' hc' hkey
          by_cases hsame : proofKey c' = proofKey c
          · exact ⟨c, List.mem_cons_self, hsame.symm⟩
          · rcases List.mem_cons.mp hc' with rfl | hc'
            · exact absurd rfl hsame
            · obtain ⟨c₂, hc₂, heq⟩ := hall c' hc' (by simp [hsame, hkey])
              exact ⟨c₂, List.mem_cons_of_mem _ hc₂, heq⟩

section

variable {stripe : StripeParams} {session : RetrievalSession} {fetches : List DownloadChunk}

/-- The bucket has the required list when the fetches came in strictly ascending order. It keeps
what was fetched as it came. -/
theorem recordOnChain_required_iff (h : RangeOpened stripe session)
    (hfetches : FetchesRange stripe session fetches) :
    Required stripe session (recordOnChain fetches) ↔
      fetches.Pairwise fun a b => position a.proofDetails < position b.proofDetails := by
  rw [recordOnChain_eq, ← List.pairwise_map]
  have hmap : fetches.map (fun c => position c.proofDetails) =
      (fetches.map (·.proofDetails)).map position := by
    rw [List.map_map]
    rfl
  rw [hmap]
  -- the required list is ascending, and only one ascending list has its places
  constructor
  · intro hrequired
    rw [hrequired]
    exact h.pairwise
  · intro hsorted
    refine h.required hsorted fun pos => ?_
    rw [← hmap, List.mem_map]
    constructor
    · rintro ⟨c, hc, rfl⟩
      exact hfetches.within c hc
    · rintro ⟨i, hi, rfl⟩
      exact hfetches.touches i hi

/-- The sorted chunks without repetitions are the required list. Sorting brings the order, and the
keys bring each place once. -/
theorem uniqueProofs_required (h : RangeOpened stripe session)
    (hfetches : FetchesRange stripe session fetches) {sorted : List DownloadChunk}
    (hperm : sorted.Perm fetches) (hsorted : sorted.Pairwise fun a b => chunkLess b a = false) :
    Required stripe session (uniqueProofs [] sorted) := by
  obtain ⟨kept, hkept, hsub, hnodup, -, hall⟩ := uniqueProofs_spec [] sorted
  have hmap : (uniqueProofs [] sorted).map position = kept.map fun c =>
      position c.proofDetails := by
    rw [hkept, List.map_map]
    rfl
  refine h.required ?_ fun pos => ?_
  · -- sorted by place, and no place twice, as a place has one key
    rw [hmap, List.pairwise_map]
    have hle := hsorted.sublist hsub
    have hne := List.pairwise_map.mp hnodup
    refine (hle.and hne).imp ?_
    rintro a b ⟨hab, hkey⟩
    refine lt_of_le_of_ne (chunkLess_eq_false.mp hab) fun heq => hkey ?_
    obtain ⟨hmdu, hblob⟩ := Prod.mk.inj (toLex_inj.mp heq)
    rw [proofKey, proofKey, UInt64.toNat_inj.mp hmdu, UInt32.toNat_inj.mp hblob]
  -- every place of the range is there
  · rw [hmap, List.mem_map]
    constructor
    · rintro ⟨c, hc, rfl⟩
      exact hfetches.within c (hperm.mem_iff.mp (hsub.subset hc))
    · rintro ⟨i, hi, rfl⟩
      obtain ⟨c, hc, hpos⟩ := hfetches.touches i hi
      obtain ⟨c', hc', hkey⟩ := hall c (hperm.mem_iff.mpr hc) (by simp)
      obtain ⟨j, hj, hpos'⟩ := hfetches.within c' (hperm.mem_iff.mp (hsub.subset hc'))
      rw [proofKey_inj h hj hi hpos' hpos hkey] at hpos'
      exact ⟨c', hc', hpos'⟩

/-- An opened range is fetched in at least one piece. -/
theorem FetchesRange.ne_nil (h : RangeOpened stripe session)
    (hfetches : FetchesRange stripe session fetches) : fetches ≠ [] := by
  rintro rfl
  obtain ⟨c, hc, -⟩ := hfetches.touches 0 h.count
  cases hc

/-- A required list is not empty. -/
theorem Required.ne_nil (h : RangeOpened stripe session) {proofs : List ChainedProof}
    (hrequired : Required stripe session proofs) : proofs ≠ [] := by
  rintro rfl
  have hlength := congrArg List.length hrequired
  rw [List.map_nil, List.length_nil, List.length_map, List.length_range] at hlength
  have hcount := h.count
  omega

end

/-- **What is sent for a session.** For every session that is opened, and every sequence of fetches
that touches its blobs and no others: from a download session the list is always the required one,
and from the bucket exactly when the blobs were fetched once each, in ascending order. -/
theorem submitted_required_iff {codec : AddressCodec} {msg : MsgOpenRetrievalSession}
    {deals : KVStore Nat Deal} {plan : OpenPlan} {stripe : StripeParams}
    (hopen : checkOpen codec msg deals = .ok plan)
    (hstripe : stripeParamsForDeal plan.deal = .ok stripe)
    (ctx : Ctx) (sessionId : Bytes) (fee : Int) {fetches : List DownloadChunk}
    (hfetches : FetchesRange stripe (newSession ctx msg sessionId plan.totalBytes fee) fetches)
    (sort : ChunkSort) (localProviderAddr : Str) (s : DownloadSession) (hchunks : s.chunks = [])
    (hprovider : trimSpace s.provider = [] ∨ trimSpace s.provider = trimSpace localProviderAddr)
    (onChainProofs : Except String (List ChainedProof))
    (hempty : ∀ l, onChainProofs = .ok l → l = [])
    (downloadSession : Except String DownloadSession) :
    ((∃ proofs,
        spSessionProofs sort localProviderAddr (.ok (recordOnChain fetches)) downloadSession =
        .ok proofs ∧ Required stripe (newSession ctx msg sessionId plan.totalBytes fee) proofs) ↔
      fetches.Pairwise fun a b => position a.proofDetails < position b.proofDetails) ∧
    ∃ proofs,
      spSessionProofs sort localProviderAddr onChainProofs (.ok (recordDownload s fetches)) =
      .ok proofs ∧ Required stripe (newSession ctx msg sessionId plan.totalBytes fee) proofs := by
  have h := checkOpen_opened hopen hstripe ctx sessionId plan.totalBytes fee
  generalize newSession ctx msg sessionId plan.totalBytes fee = session at *
  have hne := hfetches.ne_nil h
  -- the bucket sends what it has, and the fallback what it sorts
  constructor
  · rw [← recordOnChain_required_iff h hfetches]
    have hbucket : spSessionProofs sort localProviderAddr
        (.ok (recordOnChain fetches)) downloadSession =
        .ok (recordOnChain fetches) := by
      rw [recordOnChain_eq]
      cases fetches with
      | nil => exact absurd rfl hne
      | cons c rest => rfl
    rw [hbucket]
    constructor
    · rintro ⟨proofs, heq, hrequired⟩
      cases heq
      exact hrequired
    · exact fun hrequired => ⟨_, rfl, hrequired⟩
  · obtain ⟨hrecorded, hsame⟩ := chunks_recordDownload s fetches
    rw [hchunks, List.nil_append] at hrecorded
    have hrequired := uniqueProofs_required h hfetches (sort.perm fetches) (sort.sorted fetches)
    refine ⟨uniqueProofs [] (sort.sort fetches), ?_, hrequired⟩
    -- the download session is usable
    have hfallback : fallbackProofs sort localProviderAddr (.ok (recordDownload s fetches)) =
        .ok (uniqueProofs [] (sort.sort fetches)) := by
      simp only [fallbackProofs, except_bind_ok, rejectIf_eq_ok]
      refine ⟨_, rfl, (), ?_, (), ?_, ?_⟩
      · rw [hsame]
        exact fun hboth => hprovider.elim hboth.1 hboth.2
      · rw [hrecorded]
        exact hne
      · rw [hrecorded]
        rfl
    have hpath : spSessionProofs sort localProviderAddr onChainProofs
        (.ok (recordDownload s fetches)) =
        (fallbackProofs sort localProviderAddr (.ok (recordDownload s fetches)) >>= fun proofs => do
          rejectIf (proofs = []) ⟨400, "session has no usable proofs", ""⟩
          return proofs) := by
      cases onChainProofs with
      | error e => rfl
      | ok l =>
          rw [hempty l rfl]
          rfl
    rw [hpath, hfallback, except_bind_ok]
    exact ⟨_, rfl, except_bind_ok.mpr ⟨(), rejectIf_eq_ok.mpr (hrequired.ne_nil h), rfl⟩⟩

/-! ### On a small chain -/

/-- Merge sort as the sort. -/
def mergeChunks : ChunkSort where
  sort := fun chunks => chunks.mergeSort fun a b => !chunkLess b a
  perm := fun chunks => List.mergeSort_perm chunks _
  sorted := fun chunks => by
    have hle : ∀ a b : DownloadChunk, (!chunkLess b a) = true ↔
        position a.proofDetails ≤ position b.proofDetails := by
      intro a b
      rw [← chunkLess_eq_false]
      simp
    refine (List.pairwise_mergeSort ?_ ?_ chunks).imp ?_
    · intro a b c hab hbc
      exact (hle a c).mpr (((hle a b).mp hab).trans ((hle b c).mp hbc))
    · intro a b
      simp only [Bool.or_eq_true, hle]
      exact le_total _ _
    · intro a b hab
      simpa using hab

/-- The deals of the small chain as its session is opened. -/
def openDeals : KVStore Nat Deal :=
  (run (apply (sampleEnv openKeccak [])) (genesis defaultParams sampleBank) (openRun.take 4)).deals

/-- A fetch of one of the first two blobs. -/
def fetchOf (blob : UInt32) : DownloadChunk :=
  ⟨0, 1, { sampleProof 0 with mduIndex := 0, blobIndex := blob }⟩

/-- The session of the small chain is opened, with 64 leaves in an MDU. -/
theorem checkOpen_openDeals : ∃ plan, checkOpen sampleBook.codec openMsg openDeals = .ok plan ∧
    stripeParamsForDeal plan.deal = .ok mode1StripeParams := by
  have hopen : (checkOpen sampleBook.codec openMsg openDeals).toOption.map
      (fun plan => (stripeParamsForDeal plan.deal).toOption) = some (some mode1StripeParams) := by
    decide +kernel
  cases hplan : checkOpen sampleBook.codec openMsg openDeals with
  | error e => simp [hplan, Except.toOption] at hopen
  | ok plan =>
      refine ⟨plan, rfl, ?_⟩
      cases hstripe : stripeParamsForDeal plan.deal with
      | error e => simp [hplan, hstripe, Except.toOption] at hopen
      | ok stripe =>
          simp [hplan, hstripe, Except.toOption] at hopen
          rw [hopen]

/-- Both blobs are fetched, in whatever order. The range has two blobs of one MDU. -/
theorem fetchesRange_both {fetches : List DownloadChunk}
    (hperm : fetches.Perm [fetchOf 0, fetchOf 1]) (totalBytes : UInt64) (fee : Int) :
    FetchesRange mode1StripeParams
      (newSession (ctxAt 2) openMsg openId totalBytes fee) fetches := by
  have hcount : (newSession (ctxAt 2) openMsg openId totalBytes fee).blobCount.toNat = 2 := rfl
  -- the two places of the range
  have hzero : position (fetchOf 0).proofDetails = expectedPosition mode1StripeParams
      (newSession (ctxAt 2) openMsg openId totalBytes fee) 0 := by
    show _ = expectedPosition mode1StripeParams (newSession (ctxAt 2) openMsg openId 0 0) 0
    decide +kernel
  have hone : position (fetchOf 1).proofDetails = expectedPosition mode1StripeParams
      (newSession (ctxAt 2) openMsg openId totalBytes fee) 1 := by
    show _ = expectedPosition mode1StripeParams (newSession (ctxAt 2) openMsg openId 0 0) 1
    decide +kernel
  constructor
  · intro i hi
    rw [hcount] at hi
    interval_cases i
    · exact ⟨fetchOf 0, hperm.mem_iff.mpr (by simp), hzero⟩
    · exact ⟨fetchOf 1, hperm.mem_iff.mpr (by simp), hone⟩
  · intro c hc
    rw [hcount]
    have hc := hperm.mem_iff.mp hc
    simp only [List.mem_cons, List.not_mem_nil, or_false] at hc
    rcases hc with rfl | rfl
    · exact ⟨0, by decide, hzero⟩
    · exact ⟨1, by decide, hone⟩

/-- A download session without chunks. -/
def emptySession : DownloadSession where
  dealId := 0
  epochId := 1
  owner := ownerText
  provider := providerText
  filePath := "f".toList
  rangeStart := 0
  rangeLen := 0
  createdAt := 0
  expiresAt := none
  chunks := []

/-- Fetched in order, the two proofs are sent as they are required. -/
theorem submitted_required_iff_openRun :
    ∃ plan proofs, checkOpen sampleBook.codec openMsg openDeals = .ok plan ∧
      spSessionProofs mergeChunks providerText (.ok (recordOnChain [fetchOf 0, fetchOf 1]))
        (.error "download session not found") = .ok proofs ∧
      Required mode1StripeParams
        (newSession (ctxAt 2) openMsg openId plan.totalBytes 0) proofs := by
  obtain ⟨plan, hopen, hstripe⟩ := checkOpen_openDeals
  obtain ⟨proofs, hproofs, hrequired⟩ :=
    (submitted_required_iff hopen hstripe (ctxAt 2) openId 0
      (fetchesRange_both (List.Perm.refl _) plan.totalBytes 0) mergeChunks providerText
        emptySession rfl
      (Or.inr rfl) (.ok []) (fun l h => (Except.ok.inj h).symm)
        (.error "download session not found")).1.mpr
        (by decide +kernel)
  exact ⟨plan, proofs, hopen, hproofs, hrequired⟩

/-- **Fetched the other way round**, the two proofs are sent the other way round. The first proof
that the chain expects is that of the first blob. -/
theorem submitted_reversed :
    ∃ plan, checkOpen sampleBook.codec openMsg openDeals = .ok plan ∧
      stripeParamsForDeal plan.deal = .ok mode1StripeParams ∧
      FetchesRange mode1StripeParams (newSession (ctxAt 2) openMsg openId plan.totalBytes 0)
        [fetchOf 1, fetchOf 0] ∧
      ¬∃ proofs, spSessionProofs mergeChunks providerText
          (.ok (recordOnChain [fetchOf 1, fetchOf 0])) (.error "download session not found") =
            .ok proofs ∧
        Required mode1StripeParams
          (newSession (ctxAt 2) openMsg openId plan.totalBytes 0) proofs := by
  obtain ⟨plan, hopen, hstripe⟩ := checkOpen_openDeals
  refine ⟨plan, hopen, hstripe,
    fetchesRange_both (List.Perm.swap _ _ _) plan.totalBytes 0, ?_⟩
  rintro ⟨proofs, hproofs, hrequired⟩
  have hsent : spSessionProofs mergeChunks providerText (.ok (recordOnChain [fetchOf 1, fetchOf 0]))
      (.error "download session not found") =
        .ok [(fetchOf 1).proofDetails, (fetchOf 0).proofDetails] := rfl
  rw [hsent] at hproofs
  cases hproofs
  -- the first of the list is not the first of the range
  have hfirst := congrArg List.head? hrequired
  exact absurd hfirst (by
    show ¬some (position (fetchOf 1).proofDetails) = some (expectedPosition mode1StripeParams
      (newSession (ctxAt 2) openMsg openId 0 0) 0)
    decide +kernel)

end NilStore.Gateway
