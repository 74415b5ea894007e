import NilStore.Chain.Deals
import NilStore.Gateway.Mode2Ingest

/-!
# `NilStore.Gateway.Uploads`: runs of `S3PutObject` and `GatewayUpload`

A run of either handler reads the root and the service hint of the deal, builds a slab for its file,
and stores the slab in the directory that the new root names. Later the root is committed:
`S3PutObject` sends the message itself, with the size that the build has returned, and after
`GatewayUpload` the owner does. In between, other runs of the same deal read and commit.

Here the world is the chain, the directories of one deal, and the runs that have built and not
committed. The deal is in Mode 2: `S3PutObject` refuses other deals, and the pipeline of
`GatewayUpload` for them, which runs `nil_cli`, is left out. The lists `runs` and `committed` are
the model's own record of who has built and committed what.
-/

set_option autoImplicit false

namespace NilStore.Gateway

open NilStore.Lib NilStore.Core NilStore.Chain

/-! ### The two steps of a run -/

/-- A run that has built its slab: what it was given, the root that it read, and what it has
built. -/
structure UploadRun where
  file : Bytes
  fileRecordPath : Bytes
  chainRoot : Bytes
  result : Mode2IngestResult

/-- The slab for a file, from the root that the deal has: `mode2BuildArtifacts` if it has none. -/
def buildSlab (crypto : SlabCrypto) (slabs : KVStore Bytes Mode2Slab) (deal : Deal)
    (file fileRecordPath : Bytes) : Except String Mode2IngestResult := do
  let stripe ← stripeParamsFromHint deal.serviceHint
  if deal.manifestRoot = [] then mode2BuildArtifacts crypto stripe file fileRecordPath
  else
    rejectIf (crypto.isG1 deal.manifestRoot = false) "invalid manifest root"
    let old ← orFail (slabs.get deal.manifestRoot) "failed to resolve existing slab dir"
    mode2BuildArtifactsAppend crypto stripe old file fileRecordPath

/-- `mode2FinalizeStagingDir`: a slab that is there stays. -/
def mode2FinalizeStagingDir (slabs : KVStore Bytes Mode2Slab) (root : Bytes) (slab : Mode2Slab) :
    KVStore Bytes Mode2Slab :=
  if (slabs.get root).isSome then slabs else slabs.set root slab

/-- `ManifestRoot.Canonical`. -/
def canonicalRoot (root : Bytes) : Str := "0x".toList ++ hexEncode root

/-! ### The world -/

/-- The chain, the directories of the deal, the runs that have not committed, and the files of those
that have. -/
structure UploadWorld (β : Type) where
  chain : KeeperState β
  slabs : KVStore Bytes Mode2Slab
  runs : List UploadRun
  committed : List (Bytes × Bytes)

/-- What happens next: a run reads the deal and builds, or the chain gets the commit of a run. -/
inductive UploadStep where
  | build (file fileRecordPath : Bytes)
  | commit (i : Nat) (ctx : Ctx) (creator : Str) (size : UInt64)

section

variable {β : Type} (env : Env β) (crypto : SlabCrypto) (dealId : UInt64)

/-- The first step of a run. It reads the root that the deal has at this moment. -/
def UploadWorld.build (w : UploadWorld β) (file fileRecordPath : Bytes) :
    Except String UploadRun := do
  let deal ← orFail (w.chain.deals.get dealId.toNat) "deal not found"
  let result ← buildSlab crypto w.slabs deal file fileRecordPath
  return ⟨file, fileRecordPath, deal.manifestRoot, result⟩

/-- The message of the second step. It says nothing of the root that the slab was built on. -/
def UploadRun.commitMsg (r : UploadRun) (creator : Str) (size : UInt64) : MsgUpdateDealContent :=
  ⟨creator, dealId, canonicalRoot r.result.manifestRoot, size⟩

/-- One step. A build or a commit that fails changes nothing, and a run that has committed is
over. -/
def UploadWorld.step (w : UploadWorld β) : UploadStep → UploadWorld β
  | .build file fileRecordPath =>
      match w.build crypto dealId file fileRecordPath with
      | .error _ => w
      | .ok r => { w with
          slabs := mode2FinalizeStagingDir w.slabs r.result.manifestRoot r.result.slab
          runs := w.runs ++ [r] }
  | .commit i ctx creator size =>
      match w.runs[i]? with
      | none => w
      | some r =>
          match (updateDealContent env ctx (r.commitMsg dealId creator size)).exec w.chain with
          | (.error _, _) => w
          | (.ok _, chain) => { w with
              chain := chain
              runs := w.runs.eraseIdx i
              committed := w.committed ++ [(r.fileRecordPath, r.file)] }

end

end NilStore.Gateway
