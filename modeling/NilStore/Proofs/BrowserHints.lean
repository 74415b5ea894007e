import NilStore.Lib.Decimal
import NilStore.Lib.Tokens
import NilStore.Proofs.ServiceHints
import NilStore.Website.ServiceHint

/-!
# `NilStore.Proofs.BrowserHints`: the browser reads service hints as the chain does

The two parsers cut a hint at the same places and differ in what they take for a count.
`browserView` is what the browser makes of a hint that the chain has read. On ASCII text a token
that the chain accepts does the same to both (`readToken_view`), so does the loop, and `hints_agree`
follows. A hint that the browser builds is read back by the chain, and so by the browser.
-/

set_option autoImplicit false

namespace NilStore.Website

open NilStore.Lib

/-! ### ASCII -/

/-- Every character is ASCII. -/
def Ascii (s : Str) : Prop := ∀ c ∈ s, c.toNat < 128

instance (s : Str) : Decidable (Ascii s) := List.decidableBAll (fun c : Char => c.toNat < 128) s

/-- A text made of characters of an ASCII text is ASCII. -/
theorem Ascii.of_subset {s t : Str} (h : Ascii t) (hsub : s ⊆ t) :
    Ascii s := fun c hc => h c (hsub hc)

/-- The two kinds of white space differ outside ASCII only. -/
theorem trim_eq_trimSpace {s : Str} (h : Ascii s) : trim s = trimSpace s := by
  refine trimBoth_congr fun c hc => ?_
  have hlt := h c hc
  rw [isTrimmed, isSpace]
  simp only [Bool.decide_or, Bool.decide_and, Bool.or_assoc]
  by_cases hlow : 9 ≤ c.toNat ∧ c.toNat ≤ 13
  · simp [hlow]
  · by_cases hblank : c.toNat = 32
    · simp [hblank]
    · have hnone : ∀ n, 128 ≤ n → ¬c.toNat = n ∧ ¬n ≤ c.toNat := fun n hn => ⟨by omega, by omega⟩
      simp [hblank, hnone]

/-- On ASCII the browser and Go lower-case alike. -/
theorem toLowerCase_eq_toLower {s : Str} (h : Ascii s) : toLowerCase s = toLower s := by
  refine List.map_congr_left fun c hc => ?_
  have hlt := h c hc
  rw [toLowerRune, if_neg (by omega), if_neg (by omega), if_neg (by omega)]

/-! ### Counts -/

/-- `Number` of a text that the chain reads as a count. -/
theorem toNumber_of_parsePositive {s : Str} {text : String} {n : UInt64} (hascii : Ascii s)
    (h : Chain.parsePositive (trimSpace s) text = .ok n) :
    positiveFinite (toNumber s) = some (nearestDouble n.toNat) := by
  have hparse : parseUint (trimSpace s) = some n := by
    rw [Chain.parsePositive] at h
    split at h
    · cases h
    · rename_i value hvalue
      split at h
      · cases h
      · cases h
        exact hvalue
  obtain ⟨hvalue, hne0⟩ := Chain.parsePositive_ok h
  obtain ⟨hne, hdigits⟩ := digits_of_parseUint hparse
  have hpos : 0 < n.toNat := Nat.pos_of_ne_zero fun h0 => hne0 (UInt64.toNat_inj.mp h0)
  obtain ⟨hround, hfinite⟩ := nearestDouble_range hpos n.toNat_lt
  rw [toNumber, trim_eq_trimSpace hascii, numericLiteral_digits hne hdigits,
    ← Chain.decimalNumber_eq, ← hvalue,
    JsNumber.ofRat, if_neg (not_le.mpr hfinite), if_neg (by decide), positiveFinite, if_pos hround]

/-- A text that the chain reads as a count has no `=` in it. -/
theorem eq_not_mem_of_parsePositive {s : Str} {text : String} {n : UInt64}
    (h : Chain.parsePositive (trimSpace s) text = .ok n) : '=' ∉ s := by
  intro hmem
  rw [Chain.parsePositive] at h
  split at h
  · cases h
  · rename_i value hvalue
    have hdigit := (digits_of_parseUint hvalue).2 '=' (mem_trimBoth (by decide) hmem)
    exact absurd hdigit (by decide)

/-! ### Tokens -/

/-- What the browser makes of a hint that the chain has read. -/
def browserView (info : Chain.ServiceHintInfo) : ServiceHintInfo where
  base := info.base
  replicas := if info.hasReplicas then some (nearestDouble info.replicas.toNat) else none
  rsK := if info.hasRS then some (nearestDouble info.rsk.toNat) else none
  rsM := if info.hasRS then some (nearestDouble info.rsm.toNat) else none
  mode := if info.hasRS then .mode2 else .mode1

/-- The browser reads the replica count that the chain reads. -/
theorem readReplicas_view {info : Chain.ServiceHintInfo} {val : Str} {text : String} {n : UInt64}
    (hascii : Ascii val) (h : Chain.parsePositive (trimSpace val) text = .ok n) :
    readReplicas (browserView info) val =
      browserView { info with replicas := n, hasReplicas := true } := by
  rw [readReplicas, toNumber_of_parsePositive hascii h]
  rfl

/-- What an `rs=` part that the chain takes looks like: two positive numbers around one plus
sign. -/
theorem parseRS_ok {info info' : Chain.ServiceHintInfo} {val : Str}
    (h : Chain.parseRS info val = .ok info') :
    ∃ kChunk mChunk k m text, val.splitOn '+' = [kChunk, mChunk] ∧
      Chain.parsePositive (trimSpace kChunk) text = .ok k ∧
        Chain.parsePositive (trimSpace mChunk) text = .ok m ∧
      info' = { info with rsk := k, rsm := m, hasRS := true } := by
  rw [Chain.parseRS] at h
  simp only at h
  split at h
  · rename_i kChunk mChunk hsplit
    rw [except_bind_ok] at h
    obtain ⟨k, hk, h⟩ := h
    rw [except_bind_ok] at h
    obtain ⟨m, hm, h⟩ := h
    split at h
    · cases h
    · split at h
      · cases h
      · cases h
        exact ⟨kChunk, mChunk, k, m, _, hsplit, hk, hm, rfl⟩
  · cases h

/-- The browser reads the two shard counts that the chain reads. -/
theorem readRS_view {info info' : Chain.ServiceHintInfo} {val : Str} (hascii : Ascii val)
    (h : Chain.parseRS info val = .ok info') :
      readRS (browserView info) val = browserView info' := by
  obtain ⟨kChunk, mChunk, k, m, text, hsplit, hk, hm, rfl⟩ := parseRS_ok h
  have hval := eq_of_splitOn_pair hsplit
  rw [hval] at hascii
  have hfirst : Ascii kChunk := fun c hc => hascii c (List.mem_append_left _ hc)
  have hsecond : Ascii mChunk := fun c hc =>
    hascii c (List.mem_append_right _ (List.mem_cons_of_mem _ hc))
  rw [readRS, hsplit]
  simp only [toNumber_of_parsePositive hfirst hk, toNumber_of_parsePositive hsecond hm]
  rfl

/-- No `=` in the value of an `rs` token either. -/
theorem eq_not_mem_of_parseRS {info info' : Chain.ServiceHintInfo} {val : Str}
    (h : Chain.parseRS info val = .ok info') : '=' ∉ val := by
  obtain ⟨kChunk, mChunk, k, m, text, hsplit, hk, hm, -⟩ := parseRS_ok h
  rw [eq_of_splitOn_pair hsplit]
  intro hmem
  rcases List.mem_append.mp hmem with hmem | hmem
  · exact eq_not_mem_of_parsePositive hk hmem
  · rcases List.mem_cons.mp hmem with heq | hmem
    · cases heq
    · exact eq_not_mem_of_parsePositive hm hmem

/-- The browser does with a token what the chain does. -/
theorem readToken_view {info info' : Chain.ServiceHintInfo} {token : Str} (hascii : Ascii token)
    (h : Chain.parseHintToken info token = .ok info') :
      readToken (browserView info) token = browserView info' := by
  rw [Chain.parseHintToken] at h
  rcases cut_cases '=' token with ⟨hnot, -⟩ | ⟨rawKey, rawVal, rfl, hnot, -⟩
  -- a token without a value is passed over on both sides
  · -- No value for either parser.
    have hcut : cut '=' (trimSpace token) = none := cut_eq_none fun hmem =>
      hnot (trimBoth_subset _ _ hmem)
    rw [hcut] at h
    cases h
    rw [readToken, List.splitOn_eq_singleton hnot]
    exact if_pos (Or.inr rfl)
  · have hkeyAscii : Ascii rawKey := fun c hc => hascii c (List.mem_append_left _ hc)
    have hvalAscii : Ascii rawVal := fun c hc =>
      hascii c (List.mem_append_right _ (List.mem_cons_of_mem _ hc))
    obtain ⟨key, val, hcut, hkey, hval⟩ : ∃ key val,
        cut '=' (trimSpace (rawKey ++ '=' :: rawVal)) = some (key, val) ∧
          trimSpace key = trimSpace rawKey ∧
          trimSpace val = trimSpace rawVal := trimBoth_cut (by decide) hnot
    rw [hcut] at h
    simp only [hkey, hval] at h
    -- The browser's value ends at a second `=`.
    obtain ⟨val', hparts, hsame⟩ : ∃ val', ((rawKey ++ '=' :: rawVal).splitOn '=').take 2 =
        [rawKey, val'] ∧
        ('=' ∉ rawVal → val' = rawVal) := by
      rw [List.splitOn_append_cons_self_of_not_mem hnot]
      rcases cut_cases '=' rawVal with ⟨hnone, -⟩ | ⟨a, b, hab, ha, -⟩
      · rw [List.splitOn_eq_singleton hnone]
        exact ⟨rawVal, rfl, fun _ => rfl⟩
      · rw [hab, List.splitOn_append_cons_self_of_not_mem ha]
        exact ⟨a, rfl, fun hno => absurd (List.mem_append_right _ List.mem_cons_self) hno⟩
    have htrimmedAscii : Ascii (trimSpace rawVal) := hvalAscii.of_subset (trimBoth_subset _ _)
    have hlower : toLowerCase (trim rawKey) = toLower (trimSpace rawKey) := by
      rw [trim_eq_trimSpace hkeyAscii]
      exact toLowerCase_eq_toLower (hkeyAscii.of_subset (trimBoth_subset _ _))
    rw [readToken, hparts]
    simp only [List.getD_cons_zero, List.getD_cons_succ, hlower]
    -- A value without a second `=` is the same for both, and trimmed once more it stays.
    have hvalue : '=' ∉ trimSpace rawVal → trim val' = trimSpace rawVal := by
      intro hno
      rw [hsame fun hmem => hno (mem_trimBoth (by decide) hmem), trim_eq_trimSpace hvalAscii]
    have hagain : trimSpace (trimSpace rawVal) = trimSpace rawVal := trimBoth_trimBoth
    by_cases hempty : trimSpace rawVal = []
    · rw [if_pos hempty] at h
      cases h
      exact if_pos (Or.inr ((hvalue (by rw [hempty]; exact List.not_mem_nil)).trans hempty))
    · rw [if_neg hempty] at h
      -- one branch for each key of the chain; the browser knows two of them
      by_cases howner : toLower (trimSpace rawKey) = "owner".toList
      · rw [if_pos howner] at h
        cases h
        rw [howner, if_neg (show ¬"owner".toList = "replicas".toList by decide),
          if_neg (show ¬"owner".toList = "rs".toList by decide), ite_self]
        rfl
      · rw [if_neg howner] at h
        by_cases hreplicas : toLower (trimSpace rawKey) = "replicas".toList
        · rw [if_pos hreplicas, except_bind_ok] at h
          obtain ⟨n, hn, h⟩ := h
          cases h
          have hn : Chain.parsePositive (trimSpace (trimSpace rawVal)) _ = .ok n := hagain.symm ▸ hn
          rw [hvalue (eq_not_mem_of_parsePositive hn), hreplicas, if_neg, if_pos rfl]
          · exact readReplicas_view htrimmedAscii hn
          · rintro (hkey | hval)
            · cases hkey
            · exact hempty hval
        · rw [if_neg hreplicas] at h
          by_cases hrs : toLower (trimSpace rawKey) = "rs".toList
          · rw [if_pos hrs] at h
            rw [hvalue (eq_not_mem_of_parseRS h), hrs, if_neg,
              if_neg (show ¬"rs".toList = "replicas".toList by decide), if_pos rfl]
            · exact readRS_view htrimmedAscii h
            · rintro (hkey | hval)
              · cases hkey
              · exact hempty hval
          · rw [if_neg hrs] at h
            cases h
            rw [if_neg hreplicas, if_neg hrs, ite_self]

/-- All tokens. -/
theorem readTokens_view (tokens : List Str) {info info' : Chain.ServiceHintInfo}
    (hascii : ∀ token ∈ tokens, Ascii token)
    (h : tokens.foldlM Chain.parseHintToken info = .ok info') :
    tokens.foldl readToken (browserView info) = browserView info' := by
  induction tokens generalizing info with
  | nil =>
      cases h
      rfl
  | cons token rest ih =>
      rw [List.foldlM_cons, except_bind_ok] at h
      obtain ⟨next, hnext, h⟩ := h
      rw [List.foldl_cons, readToken_view (hascii token List.mem_cons_self) hnext,
        ih (fun t ht => hascii t (List.mem_cons_of_mem _ ht)) h]

/-! ### Hints -/

/-- The browser reads a hint that the chain accepts as the chain does. -/
theorem parseServiceHint_view {s : Str} {info : Chain.ServiceHintInfo} (hascii : Ascii s)
    (h : Chain.parseServiceHint s = .ok info) : parseServiceHint (some s) = browserView info := by
  rw [parseServiceHint]
  simp only [Option.getD_some, trim_eq_trimSpace hascii]
  have htrimmed : Ascii (trimSpace s) := hascii.of_subset (trimBoth_subset _ _)
  have hagain : trim (trimSpace s) = trimSpace s := by
    rw [trim_eq_trimSpace htrimmed]
    exact trimBoth_trimBoth
  rw [Chain.parseServiceHint] at h
  simp only at h
  -- a hint of a base alone, or with tokens behind it
  rcases cut_cases ':' (trimSpace s) with ⟨hnot, hcut⟩ | ⟨base, extras, hparts, hnot, hcut⟩
  · rw [hcut] at h
    cases h
    by_cases hempty : trimSpace s = []
    · rw [if_pos hempty]
      simp only [browserView, hempty]
      rfl
    · rw [if_neg hempty, List.splitOn_eq_singleton hnot]
      simp only [hagain]
      rfl
  · rw [hcut] at h
    have hne : trimSpace s ≠ [] := by
      rw [hparts]
      simp
    have hsplit : (trimSpace s).splitOn ':' = base :: extras.splitOn ':' := by
      rw [hparts, List.splitOn_append_cons_self_of_not_mem hnot]
    have hbase : Ascii base := fun c hc => htrimmed c (hparts ▸ List.mem_append_left _ hc)
    have hextras : Ascii extras := fun c hc =>
      htrimmed c (hparts ▸ List.mem_append_right _ (List.mem_cons_of_mem _ hc))
    rw [if_neg hne, hsplit]
    simp only [trim_eq_trimSpace hbase]
    by_cases hnone : extras = []
    · -- The browser sees one empty token.
      simp only [if_pos hnone] at h
      cases h
      rw [hnone]
      rfl
    -- the tokens, one after the other
    · simp only [if_neg hnone] at h
      exact readTokens_view _ (fun token ht => hextras.of_subset (subset_of_mem_splitOn ht)) h

/-- The browser's reading of a hint is the chain's. -/
structure SameHint (info : Chain.ServiceHintInfo) (ts : ServiceHintInfo) : Prop where
  mode : ts.mode = .mode2 ↔ info.hasRS = true
  stripe : info.hasRS = true → ts.rsK = some (info.rsk.toNat : ℚ) ∧
    ts.rsM = some (info.rsm.toNat : ℚ)
  base : ts.base = info.base
  replicas : info.replicas.toNat < 2 ^ 53 →
    ts.replicas = if info.hasReplicas = true then some (info.replicas.toNat : ℚ) else none

/-- The counts of a stripe are small, so the browser has them exactly. -/
theorem sameHint_browserView {info : Chain.ServiceHintInfo}
    (hsum : info.hasRS = true → info.rsk.toNat + info.rsm.toNat ≤ 12) :
      SameHint info (browserView info) where
  mode := by
    cases hrs : info.hasRS
    · simp [browserView, hrs]
    · simp [browserView, hrs]
  stripe hrs := by
    have hle := hsum hrs
    simp only [browserView, hrs, if_true]
    rw [nearestDouble_natCast (by omega), nearestDouble_natCast (by omega)]
    exact ⟨rfl, rfl⟩
  base := rfl
  replicas hsmall := by
    rw [browserView, nearestDouble_natCast hsmall]

/-! ### Built hints -/

/-- A positive number below 2^64 is read back from its decimal digits. -/
theorem parsePositive_decimal {n : ℕ} (hpos : 0 < n) (h : n < 2 ^ 64) (text : String) :
    Chain.parsePositive (trimSpace (decimal n)) text = .ok (UInt64.ofNat n) := by
  have hne : UInt64.ofNat n ≠ 0 := by
    intro h0
    have := congrArg UInt64.toNat h0
    rw [UInt64.toNat_ofNat_of_lt' h] at this
    exact absurd this hpos.ne'
  rw [trimSpace_decimal, Chain.parsePositive, parseUint_decimal h]
  exact if_neg hne

/-- The counts that a hint is built from: replicas that the browser has exactly, and a stripe that
the chain takes. -/
structure AllowedCounts (r k m : Nat) : Prop where
  r_pos : 0 < r
  r_safe : r ≤ 2 ^ 53 - 1
  k_pos : 0 < k
  m_pos : 0 < m
  k_dvd : k ∣ 64
  sum_le : k + m ≤ 12

/-- A stripe with replicas that a deal can be created with is of this kind, where its sum has not
wrapped. -/
theorem allowedCounts_of_stripe {raw : Str} {info : Chain.ServiceHintInfo}
    {stripe : UInt64 × UInt32}
    (hparse : Chain.parseServiceHint raw = .ok info) (hrs : info.hasRS = true)
    (hrep : info.hasReplicas = true)
    (hstripe : Chain.requestedStripe info = .ok stripe)
    (hsum : info.rsk.toNat + info.rsm.toNat ≤ 12) :
    AllowedCounts info.replicas.toNat info.rsk.toNat info.rsm.toNat := by
  obtain ⟨hk0, hdvd, -⟩ := Chain.parseServiceHint_checked hparse hrs
  obtain ⟨hm0, -⟩ := Chain.lastRS_of_parse hparse hrs
  -- the hint names the sum of `K` and `M`, or another number and is refused
  have hreplicas : info.replicas.toNat = info.rsk.toNat + info.rsm.toNat := by
    rw [Chain.requestedStripe, if_pos hrs] at hstripe
    split at hstripe
    · cases hstripe
    · rename_i hsame
      rw [not_not.mp fun hne => hsame ⟨hrep, hne⟩, UInt64.toNat_add, Nat.mod_eq_of_lt (by omega)]
  have hk : 0 < info.rsk.toNat := Nat.pos_of_ne_zero fun h0 => hk0 (UInt64.toNat_inj.mp h0)
  have hm : 0 < info.rsm.toNat := Nat.pos_of_ne_zero fun h0 => hm0 (UInt64.toNat_inj.mp h0)
  have hdvd : info.rsk.toNat ∣ 64 := by
    have := congrArg UInt64.toNat hdvd
    rw [UInt64.toNat_mod] at this
    exact Nat.dvd_of_mod_eq_zero this
  exact ⟨by omega, by omega, hk, hm, hdvd, hsum⟩

/-- The base that a built hint has. -/
def hintBase (base : Str) : Str := if trim base = [] then "General".toList else trim base

/-- A token without white space around it is cut where it stands. -/
theorem cut_token {key val : Str} (hkey : key.dropWhile isSpace = key)
    (hval : ∀ c ∈ val, isSpace c = false)
    (hnot : '=' ∉ key) : cut '=' (trimSpace (key ++ '=' :: val)) = some (key, val) := by
  have hend : val.rdropWhile isSpace = val := by
    refine List.rdropWhile_eq_self_iff.mpr fun hne => ?_
    rw [hval _ (List.getLast_mem hne)]
    decide
  rw [trimSpace_eq_trimBoth, trimBoth_append_cons (by decide), hkey, hend, cut_append_cons hnot]

/-- A built `replicas=` token is read as the count it was built from. -/
theorem parseHintToken_replicas (info : Chain.ServiceHintInfo) {r : ℕ} (hpos : 0 < r)
    (h : r < 2 ^ 64) :
    Chain.parseHintToken info ("replicas=".toList ++ decimal r) =
      .ok { info with replicas := UInt64.ofNat r, hasReplicas := true } := by
  have hcut : cut '=' (trimSpace ("replicas=".toList ++ decimal r)) =
      some ("replicas".toList, decimal r) :=
    @cut_token "replicas".toList (decimal r) (by decide)
      (fun _ hc => isSpace_of_isDigit (isDigit_of_mem_decimal hc)) (by decide)
  have hne : decimal (r : ℤ) ≠ [] := by
    rw [decimal_natCast]
    exact Nat.toDigits_ne_nil
  have hkey : toLower (trimSpace "replicas".toList) = "replicas".toList := by decide
  have hnumber := parsePositive_decimal hpos h
  rw [trimSpace_decimal] at hnumber
  rw [Chain.parseHintToken, hcut]
  simp only [trimSpace_decimal, hkey]
  rw [if_neg hne, if_neg (by decide), if_pos trivial, hnumber]
  rfl

/-- A built `rs=` token with allowed counts is read as these counts. -/
theorem parseHintToken_rs (info : Chain.ServiceHintInfo) {k m : ℕ} (hk : 0 < k) (hm : 0 < m)
    (hdvd : k ∣ 64) (hsum : k + m ≤ 12) :
    Chain.parseHintToken info ("rs=".toList ++ decimal k ++ '+' :: decimal m) =
      .ok { info with rsk := UInt64.ofNat k, rsm := UInt64.ofNat m, hasRS := true } := by
  -- the value has digits and a plus sign, so no space is cut off
  have hval : ∀ c ∈ decimal (k : ℤ) ++ '+' :: decimal (m : ℤ), isSpace c = false := by
    intro c hc
    rcases List.mem_append.mp hc with hc | hc
    · exact isSpace_of_isDigit (isDigit_of_mem_decimal hc)
    · rcases List.mem_cons.mp hc with rfl | hc
      · decide
      · exact isSpace_of_isDigit (isDigit_of_mem_decimal hc)
  -- the token is cut at its equals sign, and the value at its plus sign
  have hcut : cut '=' (trimSpace ("rs=".toList ++ decimal k ++ '+' :: decimal m)) =
      some ("rs".toList, decimal k ++ '+' :: decimal m) := by
    rw [List.append_assoc]
    exact @cut_token "rs".toList _ (by decide) hval (by decide)
  have hne : decimal (k : ℤ) ++ '+' :: decimal (m : ℤ) ≠ [] := by simp
  have hkey : toLower (trimSpace "rs".toList) = "rs".toList := by decide
  have hsplit : (decimal (k : ℤ) ++ '+' :: decimal (m : ℤ)).splitOn '+' =
      [decimal k, decimal m] := by
    rw [List.splitOn_append_cons_self_of_not_mem (not_mem_decimal (by decide)),
      List.splitOn_eq_singleton (not_mem_decimal (by decide))]
  have hkNat : (UInt64.ofNat k).toNat = k := UInt64.toNat_ofNat_of_lt' (show k < 2 ^ 64 by omega)
  have hmNat : (UInt64.ofNat m).toNat = m := UInt64.toNat_ofNat_of_lt' (show m < 2 ^ 64 by omega)
  have hdivides : ¬64 % UInt64.ofNat k ≠ 0 := by
    rw [not_not, ← UInt64.toNat_inj, UInt64.toNat_mod, hkNat]
    exact Nat.mod_eq_zero_of_dvd hdvd
  have hfits : ¬UInt64.ofNat k + UInt64.ofNat m > Chain.dealBaseReplication := by
    rw [gt_iff_lt, UInt64.not_lt, UInt64.le_iff_toNat_le, UInt64.toNat_add, hkNat, hmNat,
      Nat.mod_eq_of_lt (by omega)]
    exact hsum
  rw [Chain.parseHintToken, hcut]
  simp only [trimSpace_eq_self hval, hkey]
  rw [if_neg hne, if_neg (by decide), if_neg (by decide), if_pos trivial, Chain.parseRS, hsplit]
  refine except_bind_ok.mpr ⟨_, parsePositive_decimal hk (by omega) _, ?_⟩
  refine except_bind_ok.mpr ⟨_, parsePositive_decimal hm (by omega) _, ?_⟩
  rw [if_neg hdivides, if_neg hfits]
  rfl

/-- The browser writes both extras. -/
theorem buildServiceHint_eq (base : Str) {r k m : ℕ} (h : AllowedCounts r k m) :
    buildServiceHint base ⟨some r, some k, some m⟩ =
      hintBase base ++ ':' :: ("replicas=".toList ++ decimal r ++
        ':' :: ("rs=".toList ++ decimal k ++ '+' :: decimal m)) := by
  have hreplicas : replicasExtra ⟨some r, some k, some m⟩ = ["replicas=".toList ++ decimal r] :=
    if_pos h.r_pos
  have hrs : rsExtra ⟨some r, some k, some m⟩ = ["rs=".toList ++ decimal k ++ '+' :: decimal m] :=
    if_pos ⟨h.k_pos.ne', h.m_pos.ne'⟩
  have htwo : ∀ a b : Str, [':'].intercalate [a, b] = a ++ ':' :: b :=
    fun a b => by simp [List.intercalate]
  rw [buildServiceHint, hreplicas, hrs, List.singleton_append, if_neg (List.cons_ne_nil _ _),
    htwo, hintBase]

/-- The base of a built hint is trimmed, and has no `:`. -/
theorem hintBase_spec {base : Str} (hascii : Ascii base) (hcolon : ':' ∉ base) :
    Ascii (hintBase base) ∧ ':' ∉ hintBase base ∧ trimSpace (hintBase base) = hintBase base := by
  rw [hintBase]
  split
  · exact ⟨by decide, by decide, by decide⟩
  · rw [trim_eq_trimSpace hascii]
    exact ⟨hascii.of_subset (trimBoth_subset _ _), fun hmem => hcolon (trimBoth_subset _ _ hmem),
      trimBoth_trimBoth⟩

/-- Decimal digits are ASCII. -/
theorem ascii_decimal (n : ℕ) : Ascii (decimal n) := by
  intro c hc
  obtain ⟨-, hhigh⟩ := isDigit_range (isDigit_of_mem_decimal hc)
  omega

/-- Two ASCII texts joined are ASCII. -/
theorem Ascii.append {s t : Str} (hs : Ascii s) (ht : Ascii t) : Ascii (s ++ t) := fun c hc =>
  (List.mem_append.mp hc).elim (hs c) (ht c)

/-- An ASCII character before an ASCII text keeps it ASCII. -/
theorem Ascii.cons {c : Char} {s : Str} (hc : c.toNat < 128) (hs : Ascii s) :
    Ascii (c :: s) := fun d hd =>
  (List.mem_cons.mp hd).elim (fun heq => heq ▸ hc) (hs d)

/-- What the chain reads in a hint that the browser has built. -/
theorem parseServiceHint_built {base : Str} {r k m : ℕ} (hascii : Ascii base) (hcolon : ':' ∉ base)
    (h : AllowedCounts r k m) :
    ∃ raw, Chain.parseServiceHint (buildServiceHint base ⟨some r, some k, some m⟩) =
      .ok { raw := raw, base := hintBase base, replicas := UInt64.ofNat r, hasReplicas := true,
            rsk := UInt64.ofNat k, rsm := UInt64.ofNat m, hasRS := true } := by
  obtain ⟨hr, hsafe, hk, hm, hdvd, hsum⟩ := h
  obtain ⟨-, hnot, htrimmed⟩ := hintBase_spec hascii hcolon
  -- neither token has a colon in it
  have hfirst : ':' ∉ "replicas=".toList ++ decimal (r : ℤ) := by
    rw [List.mem_append]
    rintro (hmem | hmem)
    · exact absurd hmem (by decide)
    · exact not_mem_decimal (by decide) hmem
  have hsecond : ':' ∉ "rs=".toList ++ decimal (k : ℤ) ++ '+' :: decimal (m : ℤ) := by
    simp only [List.mem_append, List.mem_cons]
    rintro ((hmem | hmem) | hmem | hmem)
    · exact absurd hmem (by decide)
    · exact not_mem_decimal (by decide) hmem
    · exact absurd hmem (by decide)
    · exact not_mem_decimal (by decide) hmem
  -- The last character is a digit, so the extras stay when the hint is trimmed.
  have hdigits : (decimal (m : ℤ)).rdropWhile isSpace = decimal (m : ℤ) := by
    refine List.rdropWhile_eq_self_iff.mpr fun hne => ?_
    rw [isSpace_of_isDigit (isDigit_of_mem_decimal (List.getLast_mem hne))]
    decide
  have hextras : ("replicas=".toList ++ decimal (r : ℤ) ++
      ':' :: ("rs=".toList ++ decimal (k : ℤ) ++ '+' :: decimal (m : ℤ))).rdropWhile isSpace =
        "replicas=".toList ++ decimal (r : ℤ) ++
          ':' :: ("rs=".toList ++ decimal (k : ℤ) ++ '+' :: decimal (m : ℤ)) := by
    rw [rdropWhile_append_cons (show isSpace ':' = false by decide),
      rdropWhile_append_cons (show isSpace '+' = false by decide), hdigits]
  have hbase : (hintBase base).dropWhile isSpace = hintBase base := by
    rw [← htrimmed, trimSpace_eq_trimBoth, dropWhile_trimBoth]
  refine ⟨trimSpace (buildServiceHint base ⟨some r, some k, some m⟩), ?_⟩
  -- the hint is cut behind its base
  have hcut : cut ':' (trimSpace (buildServiceHint base ⟨some r, some k, some m⟩)) =
      some (hintBase base, "replicas=".toList ++ decimal r ++
        ':' :: ("rs=".toList ++ decimal k ++ '+' :: decimal m)) := by
    rw [buildServiceHint_eq base ⟨hr, hsafe, hk, hm, hdvd, hsum⟩, trimSpace_eq_trimBoth,
      trimBoth_append_cons (show isSpace ':' = false by decide), hbase, hextras,
      cut_append_cons hnot]
  have hne : "replicas=".toList ++ decimal (r : ℤ) ++
      ':' :: ("rs=".toList ++ decimal (k : ℤ) ++ '+' :: decimal (m : ℤ)) ≠ [] :=
    List.append_ne_nil_of_right_ne_nil _ (List.cons_ne_nil _ _)
  -- and the rest is read token by token
  rw [Chain.parseServiceHint]
  simp only [hcut]
  rw [htrimmed, if_neg hne, List.splitOn_append_cons_self_of_not_mem hfirst,
    List.splitOn_eq_singleton hsecond, List.foldlM_cons]
  refine except_bind_ok.mpr ⟨_, parseHintToken_replicas _ hr (by omega), ?_⟩
  rw [List.foldlM_cons]
  refine except_bind_ok.mpr ⟨_, parseHintToken_rs _ hk hm hdvd hsum, ?_⟩
  rfl

/-- A built hint is ASCII. -/
theorem ascii_buildServiceHint {base : Str} {r k m : ℕ} (hascii : Ascii base) (hcolon : ':' ∉ base)
    (h : AllowedCounts r k m) : Ascii (buildServiceHint base ⟨some r, some k, some m⟩) := by
  obtain ⟨hbase, -, -⟩ := hintBase_spec hascii hcolon
  have hfirst : Ascii "replicas=".toList := by decide
  have hsecond : Ascii "rs=".toList := by decide
  rw [buildServiceHint_eq base h]
  exact hbase.append (.cons (by decide) ((hfirst.append (ascii_decimal r)).append
    (.cons (by decide)
      ((hsecond.append (ascii_decimal k)).append (.cons (by decide) (ascii_decimal m))))))

/-- **The browser reads service hints as the chain does**: every hint that the chain accepts, and
every hint that the browser builds for a stripe that the chain takes. -/
theorem hints_agree :
    (∀ (s : Str) (info : Chain.ServiceHintInfo), Ascii s → Chain.parseServiceHint s = .ok info →
      (info.hasRS = true → info.rsk.toNat + info.rsm.toNat ≤ 12) →
        SameHint info (parseServiceHint (some s))) ∧
    (∀ (raw : Str) (info : Chain.ServiceHintInfo) (stripe : UInt64 × UInt32),
      Chain.parseServiceHint raw = .ok info → info.hasRS = true → info.hasReplicas = true →
        Chain.requestedStripe info = .ok stripe → info.rsk.toNat + info.rsm.toNat ≤ 12 →
          AllowedCounts info.replicas.toNat info.rsk.toNat info.rsm.toNat) ∧
    ∀ (base : Str) (r k m : ℕ), Ascii base → ':' ∉ base → AllowedCounts r k m →
      parseServiceHint (some (buildServiceHint base ⟨some r, some k, some m⟩)) =
        { base := hintBase base, replicas := some (r : ℚ), rsK := some (k : ℚ), rsM := some (m : ℚ),
          mode := .mode2 } ∧
      ∃ info, Chain.parseServiceHint (buildServiceHint base ⟨some r, some k, some m⟩) = .ok info ∧
        info.base = hintBase base ∧ info.hasReplicas = true ∧ info.replicas.toNat = r ∧
        info.hasRS = true ∧ info.rsk.toNat = k ∧ info.rsm.toNat = m := by
  refine ⟨fun s info hascii hparse hsum => ?_, fun raw info stripe hparse hrs hrep hstripe hsum =>
    allowedCounts_of_stripe hparse hrs hrep hstripe hsum, fun base r k m hascii hcolon h => ?_⟩
  -- what the chain accepts, and what the browser builds
  · rw [parseServiceHint_view hascii hparse]
    exact sameHint_browserView hsum
  · obtain ⟨raw, hparse⟩ := parseServiceHint_built hascii hcolon h
    have hview := parseServiceHint_view (ascii_buildServiceHint hascii hcolon h) hparse
    have hsafe := h.r_safe
    have hsum := h.sum_le
    have hr : (UInt64.ofNat r).toNat = r := UInt64.toNat_ofNat_of_lt' (show r < 2 ^ 64 by omega)
    have hk : (UInt64.ofNat k).toNat = k := UInt64.toNat_ofNat_of_lt' (show k < 2 ^ 64 by omega)
    have hm : (UInt64.ofNat m).toNat = m := UInt64.toNat_ofNat_of_lt' (show m < 2 ^ 64 by omega)
    refine ⟨?_, _, hparse, rfl, rfl, hr, rfl, hk, hm⟩
    -- the numbers are small enough to be doubles
    rw [hview, browserView]
    simp only [if_true, hr, hk, hm]
    rw [nearestDouble_natCast (by omega), nearestDouble_natCast (by omega),
      nearestDouble_natCast (by omega)]

/-- A hint with spaces, capitals and a repeated key, which both readers take the same way. -/
theorem hints_agree_samples :
    SameHint
      { raw := "Hot: RS = 8 + 4 :rs=4+2".toList, base := "Hot".toList, rsk := 4, rsm := 2,
        hasRS := true }
      (parseServiceHint (some "Hot: RS = 8 + 4 :rs=4+2".toList)) ∧
    parseServiceHint (some (buildServiceHint " Hot ".toList ⟨some 12, some 8, some 4⟩)) =
      { base := hintBase " Hot ".toList, replicas := some (12 : ℕ), rsK := some (8 : ℕ),
        rsM := some (4 : ℕ), mode := .mode2 } :=
  ⟨hints_agree.1 _ _ (by decide) (by decide +kernel) fun _ => by decide,
    (hints_agree.2.2 " Hot ".toList 12 8 4 (by decide) (by decide)
      ⟨by decide, by decide, by decide, by decide, by decide, by decide⟩).1⟩

end NilStore.Website
