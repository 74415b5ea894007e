import NilStore.Core.Expand

/-!
# `NilStore.Core.Utils`: big integers and blobs

`fr_to_bytes_be` and `frs_to_blobs` of `nil_core/src/utils.rs`. A big integer forgets the leading
zeros of the bytes that it was read from. `frToBytesBe` puts them back up to 32 bytes, and panics on
a larger number.
-/

set_option autoImplicit false

namespace NilStore.Core

open NilStore.Lib

/-- `BigUint::to_bytes_be`: without leading zeros, but for the one of zero. -/
def toBytesBe (n : Nat) : Bytes :=
  if n < 256 then [UInt8.ofNat n] else toBytesBe (n / 256) ++ [UInt8.ofNat (n % 256)]
termination_by n
decreasing_by omega

/-- `fr_to_bytes_be`; `none` where it panics. -/
def frToBytesBe (fr : Nat) : Option Bytes :=
  let bytes := toBytesBe fr
  if bytes.length > 32 then none
  else
    let offset := 32 - bytes.length
    some (overwrite (List.replicate 32 0) offset bytes)

/-- The loop of `frs_to_blobs` over the scalars of one blob. -/
def writeFrs (i : Nat) (frs : List Nat) (blob : Bytes) : Option Bytes :=
  match frs with
  | [] => some blob
  | fr :: rest => do
      let bytes ← frToBytesBe fr
      writeFrs (i + 1) rest (overwrite blob (i * 32) bytes)

/-- `frs_to_blobs`. The last blob is filled up with zeros. -/
def frsToBlobs (frs : List Nat) : Option (List Bytes) :=
  (frs.toChunks scalarsPerBlob).mapM fun chunk => writeFrs 0 chunk (List.replicate blobSize 0)

/-! ### What they write -/

/-- The number 0 is written as zero bytes. -/
theorem beBytes_zero (w : Nat) : beBytes w 0 = List.replicate w 0 := by
  induction w with
  | zero => rfl
  | succ w ih =>
      rw [beBytes, Nat.zero_div, ih, List.replicate_succ']
      rfl

/-- Filled up with zeros from the left, the bytes of a number are those of a word. -/
theorem alignRight_toBytesBe {w n : Nat} (hw : 0 < w) (hn : n < 256 ^ w) :
    (toBytesBe n).length ≤ w ∧ alignRight 0 w (toBytesBe n) = beBytes w n := by
  induction n using toBytesBe.induct generalizing w with
  | case1 n hsmall =>
      obtain ⟨w, rfl⟩ : ∃ w', w = w' + 1 := ⟨w - 1, by omega⟩
      rw [toBytesBe, if_pos hsmall, beBytes, Nat.div_eq_of_lt hsmall, beBytes_zero,
        Nat.mod_eq_of_lt hsmall]
      exact ⟨Nat.succ_le_of_lt hw, rfl⟩
  -- the last byte is the remainder, and the bytes before it are those of the quotient
  | case2 n hlarge ih =>
      obtain ⟨w, rfl⟩ : ∃ w', w = w' + 1 := ⟨w - 1, by omega⟩
      have hpos : 0 < w := by
        by_contra hzero
        rw [Nat.eq_zero_of_not_pos hzero] at hn
        omega
      have hquot : n / 256 < 256 ^ w := by
        rw [Nat.div_lt_iff_lt_mul (by decide), ← Nat.pow_succ]
        exact hn
      obtain ⟨hlength, hbytes⟩ := ih hpos hquot
      rw [toBytesBe, if_neg hlarge, List.length_append, List.length_singleton]
      refine ⟨Nat.succ_le_succ hlength, ?_⟩
      rw [alignRight, List.length_append, List.length_singleton, Nat.add_sub_add_right,
        ← List.append_assoc, beBytes, ← hbytes, alignRight]

/-- A number of at most 32 bytes is written as such. -/
theorem frToBytesBe_eq {fr : Nat} (h : fr < 256 ^ 32) : frToBytesBe fr = some (beBytes 32 fr) := by
  obtain ⟨hlength, hbytes⟩ := alignRight_toBytesBe (by decide) h
  have hroom : overwrite (List.replicate 32 (0 : UInt8)) (32 - (toBytesBe fr).length)
      (toBytesBe fr) =
      alignRight 0 32 (toBytesBe fr) := by
    rw [overwrite, List.take_replicate, List.drop_replicate, alignRight]
    have hnone : 32 - (32 - (toBytesBe fr).length + (toBytesBe fr).length) = 0 := by omega
    have hfront : min (32 - (toBytesBe fr).length) 32 = 32 - (toBytesBe fr).length := by omega
    rw [hnone, hfront, List.replicate_zero, List.append_nil]
  rw [frToBytesBe]
  simp only
  rw [if_neg (by omega), hroom, hbytes]

/-- The bytes of a chunk that went through a number come back right-aligned. -/
theorem beBytes_ofBeBytes_alignRight {chunk : Bytes} {w : Nat} (h : chunk.length ≤ w) :
    beBytes w (ofBeBytes chunk) = alignRight 0 w chunk := by
  have hsame : ofBeBytes (alignRight 0 w chunk) = ofBeBytes chunk := by
    rw [alignRight, ofBeBytes, List.foldl_append]
    congr 1
    induction w - chunk.length with
    | zero => rfl
    | succ k ih => rw [List.replicate_succ', List.foldl_append, ih]; rfl
  have hread := beBytes_ofBeBytes (alignRight 0 w chunk)
  rwa [length_alignRight h, hsame] at hread

/-- The scalars of a blob stand one after the other. -/
theorem writeFrs_eq {frs : List Nat} (hfrs : ∀ fr ∈ frs, fr < 256 ^ 32) {i n : Nat} {done : Bytes}
    (hdone : done.length = i * 32) (hroom : frs.length ≤ n) :
    writeFrs i frs (done ++ List.replicate (32 * n) 0) =
      some (done ++ (frs.map (beBytes 32)).flatten ++
        List.replicate (32 * (n - frs.length)) 0) := by
  -- place `i` is the next to be written; what is behind it is still zero
  induction frs generalizing i n done with
  | nil => simp [writeFrs]
  | cons fr rest ih =>
      obtain ⟨n, rfl⟩ : ∃ n', n = n' + 1 := ⟨n - 1, by rw [List.length_cons] at hroom; omega⟩
      have hword := length_beBytes 32 fr
      have hwrite : overwrite (done ++ List.replicate (32 * (n + 1)) 0) (i * 32) (beBytes 32 fr) =
          done ++ beBytes 32 fr ++ List.replicate (32 * n) 0 := by
        have hpad := @overwrite_pad (beBytes 32 fr) done i n hdone hword.le
        simpa only [scalarBytes, alignRight, hword, Nat.sub_self, Nat.add_zero, List.replicate_zero,
          List.nil_append] using hpad
      have hlong : (done ++ beBytes 32 fr).length = (i + 1) * 32 := by
        rw [List.length_append, hdone, hword, Nat.succ_mul]
      rw [writeFrs, frToBytesBe_eq (hfrs fr List.mem_cons_self), Option.bind_eq_bind,
        Option.bind_some, hwrite, ih (fun fr h => hfrs fr (List.mem_cons_of_mem _ h)) hlong
          (by rw [List.length_cons] at hroom; omega), List.length_cons, Nat.add_sub_add_right,
          List.map_cons,
        List.flatten_cons]
      simp only [List.append_assoc]

/-- Scalars that fit one blob are written at its start, and zeros fill the rest. -/
theorem writeFrs_blob {frs : List Nat} (hfrs : ∀ fr ∈ frs, fr < 256 ^ 32)
    (hroom : frs.length ≤ scalarsPerBlob) :
    writeFrs 0 frs (List.replicate blobSize 0) =
      some ((frs.map (beBytes 32)).flatten ++
        List.replicate (32 * (scalarsPerBlob - frs.length)) 0) :=
  @writeFrs_eq frs hfrs 0 scalarsPerBlob [] rfl hroom

/-- No scalars make no blobs. -/
theorem frsToBlobs_nil : frsToBlobs [] = some [] := by
  rw [frsToBlobs, toChunks_nil]
  rfl

/-- The first 4096 scalars make the first blob and the others make the other blobs. -/
theorem frsToBlobs_cons {frs : List Nat} {first : Bytes} {blobs : List Bytes} (hne : frs ≠ [])
    (hfirst : writeFrs 0 (frs.take scalarsPerBlob) (List.replicate blobSize 0) = some first)
    (hblobs : frsToBlobs (frs.drop scalarsPerBlob) = some blobs) :
      frsToBlobs frs = some (first :: blobs) := by
  rw [frsToBlobs] at hblobs
  rw [frsToBlobs, toChunks_eq_cons (by decide) hne, List.mapM_cons, hfirst, Option.bind_eq_bind,
    Option.bind_some, hblobs]
  rfl

/-- The blobs together: the scalars, and zeros up to whole blobs. The recursion takes 4096 scalars
off the list each time, so the induction is on its length. -/
theorem frsToBlobs_eq {frs : List Nat} (hfrs : ∀ fr ∈ frs, fr < 256 ^ 32) :
    ∃ blobs k, frsToBlobs frs = some blobs ∧
      blobs.flatten = (frs.map (beBytes 32)).flatten ++ List.replicate k 0 ∧
      32 * frs.length + k = blobSize * ((frs.length + 4095) / 4096) := by
  induction hlength : frs.length using Nat.strong_induction_on generalizing frs with
  | _ n ih =>
      by_cases hne : frs = []
      · rw [hne] at hlength ⊢
        rw [← hlength]
        exact ⟨[], 0, frsToBlobs_nil, rfl, rfl⟩
      have hpos : 0 < frs.length := List.length_pos_iff.mpr hne
      have hfirst := @writeFrs_blob (frs.take scalarsPerBlob)
        (fun fr h => hfrs fr (List.mem_of_mem_take h)) (List.length_take_le _ _)
      by_cases hmore : frs.length ≤ scalarsPerBlob
      · -- One blob, with fillers.
        have hnil : frs.drop scalarsPerBlob = [] := List.drop_eq_nil_of_le hmore
        have hblobs : frsToBlobs (frs.drop scalarsPerBlob) = some [] := by rw [hnil, frsToBlobs_nil]
        refine ⟨_, 32 * (scalarsPerBlob - frs.length), frsToBlobs_cons hne hfirst hblobs, ?_, ?_⟩
        · rw [List.take_of_length_le hmore, List.flatten_cons, List.flatten_nil, List.append_nil]
        · rw [scalarsPerBlob] at hmore ⊢
          rw [blobSize]
          omega
      -- a full blob, and the blobs of the rest
      · obtain ⟨blobs, k, hblobs, hflat, hcount⟩ := ih (frs.drop scalarsPerBlob).length
          (by rw [List.length_drop, ← hlength, scalarsPerBlob]; omega)
          (fun fr h => hfrs fr (List.mem_of_mem_drop h)) rfl
        have hfull : scalarsPerBlob - (frs.take scalarsPerBlob).length = 0 := by
          rw [List.length_take]
          omega
        refine ⟨_, k, frsToBlobs_cons hne hfirst hblobs, ?_, ?_⟩
        · rw [List.flatten_cons, hflat, hfull, Nat.mul_zero, List.replicate_zero, List.append_nil,
            ← List.append_assoc, ← List.flatten_append, ← List.map_append, List.take_append_drop]
        · rw [List.length_drop, scalarsPerBlob] at hcount
          rw [scalarsPerBlob] at hmore
          rw [blobSize] at hcount ⊢
          omega

end NilStore.Core
