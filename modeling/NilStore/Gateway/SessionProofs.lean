import NilStore.Gateway.DownloadSession
import NilStore.Gateway.PlanSession

/-!
# `NilStore.Gateway.SessionProofs`: the proofs of a retrieval session

A fetch under the id of an on-chain session leaves its proof in a bucket of the session database
(`nil_gateway/fetch_session_onchain.go`), in the order in which the fetches end. A fetch under the
id of a download session leaves it in the session. `SpSubmitRetrievalSessionProof` of
`nil_gateway/main.go` sends the proofs of the bucket, or those of the download session when the
bucket has none.
-/

set_option autoImplicit false

namespace NilStore.Gateway

open NilStore.Lib NilStore.Chain

/-! ### Recording -/

/-- `storeOnChainSessionProof`, on the proofs under the id. -/
def storeOnChainSessionProof (proofs : List ChainedProof) (proof : ChainedProof) :
    List ChainedProof :=
  proofs ++ [proof]

/-- The bucket after the fetches. It starts without a proof under the id. -/
def recordOnChain (fetches : List DownloadChunk) : List ChainedProof :=
  fetches.foldl (fun proofs chunk => storeOnChainSessionProof proofs chunk.proofDetails) []

/-- The download session after the fetches. Each of them appends its chunk. -/
def recordDownload (session : DownloadSession) (fetches : List DownloadChunk) : DownloadSession :=
  fetches.foldl DownloadSession.append session

/-! ### Sending -/

/-- The comparison that `sort.Slice` gets. Two chunks of one blob are not ordered by it. -/
def chunkLess (a b : DownloadChunk) : Bool :=
  if a.proofDetails.mduIndex ≠ b.proofDetails.mduIndex then
    a.proofDetails.mduIndex < b.proofDetails.mduIndex
  else a.proofDetails.blobIndex < b.proofDetails.blobIndex

/-- `sort.Slice` with this comparison. It puts the chunks in order, and leaves open in which order
chunks end up of which none is less than the other. -/
structure ChunkSort where
  sort : List DownloadChunk → List DownloadChunk
  perm : ∀ chunks, (sort chunks).Perm chunks
  sorted : ∀ chunks, (sort chunks).Pairwise fun a b => chunkLess b a = false

/-- The key of a proof in `seen`. It is computed with 64 bits and may wrap. -/
def proofKey (chunk : DownloadChunk) : UInt64 :=
  chunk.proofDetails.mduIndex * blobsPerMdu + chunk.proofDetails.blobIndex.toUInt64

/-- The loop that keeps the first proof under each key. -/
def uniqueProofs (seen : List UInt64) : List DownloadChunk → List ChainedProof
  | [] => []
  | c :: rest =>
      if proofKey c ∈ seen then uniqueProofs seen rest
      else c.proofDetails :: uniqueProofs (proofKey c :: seen) rest

/-- The proofs of the download session: sorted, and one for each key. -/
def fallbackProofs (sort : ChunkSort) (localProviderAddr : Str)
    (downloadSession : Except String DownloadSession) : Except JsonError (List ChainedProof) := do
  let s ← downloadSession.mapError fun text => ⟨400, "invalid session_id", text⟩
  rejectIf (trimSpace s.provider ≠ [] ∧ trimSpace s.provider ≠ trimSpace localProviderAddr)
    ⟨403, "session provider mismatch", ""⟩
  rejectIf (s.chunks = [])
    ⟨400, "session has no recorded chunks",
      "fetch at least one blob chunk before submitting proofs"⟩
  return uniqueProofs [] (sort.sort s.chunks)

/-- The proofs that `SpSubmitRetrievalSessionProof` sends, from what `loadOnChainSessionProofs` and
`loadDownloadSession` return. -/
def spSessionProofs (sort : ChunkSort) (localProviderAddr : Str)
    (onChainProofs : Except String (List ChainedProof))
    (downloadSession : Except String DownloadSession) : Except JsonError (List ChainedProof) := do
  let proofs ← match onChainProofs with
    | .ok (proof :: rest) => .ok (proof :: rest)
    | _ => fallbackProofs sort localProviderAddr downloadSession
  rejectIf (proofs = []) ⟨400, "session has no usable proofs", ""⟩
  return proofs

end NilStore.Gateway
