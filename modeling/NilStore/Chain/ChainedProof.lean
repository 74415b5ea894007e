import NilStore.Chain.Keeper
import NilStore.Chain.Stripe

/-!
# `NilStore.Chain.ChainedProof`: verifying a chained proof from Go

The binding `crypto_ffi.VerifyChainedProof` and the three closures `verifyChainedProof` that
guard it: in `ProveLiveness`, in `SubmitRetrievalSessionProof` and in the precompile. The
closures share their length checks; they differ in the bound on the blob index and in the
check of the slot, which only `ProveLiveness` makes.
-/

set_option autoImplicit false

namespace NilStore.Chain

open NilStore.Lib NilStore.Core

/-- How a verification ends: a verdict, an error, a Go panic, or an abort of the process. The
callers treat the first two differently, and none of them recovers from the last. -/
inductive VerifyResult where
  | verdict (ok : Bool)
  | failed (text : String)
  | panicked (text : String)
  | aborted
deriving DecidableEq

/-- The verdict, where an error of the verification becomes the given fault. Panics and aborts are
passed on as they are. -/
def VerifyResult.toExcept (onError : String → Fault) : VerifyResult → Except Fault Bool
  | .verdict ok => .ok ok
  | .failed text => .error (onError text)
  | .panicked text => .error (.panic text)
  | .aborted => .error .abort

/-- `crypto_ffi.VerifyChainedProof`. It takes the address of the first byte of each slice, so
an empty path panics. -/
def cryptoFfiVerifyChainedProof (kzgCtx : Option KzgContext) (a : ChainedProofArgs) :
    VerifyResult :=
  if a.manifestCommitment.length ≠ 48 ∨ a.manifestProof.length ≠ 48 ∨
      a.mduMerkleRoot.length ≠ 32 ∨ a.blobCommitment.length ≠ 48 ∨ a.blobZ.length ≠ 32 ∨
      a.blobY.length ≠ 32 ∨ a.blobProof.length ≠ 48 then
    .failed "invalid input lengths for Chained Proof components"
  else if a.blobMerkleProof = [] then .panicked "index out of range [0] with length 0"
  else
    match nilVerifyChainedProof kzgCtx a with
    | none => .aborted
    | some res =>
        if res = 1 then .verdict true
        else if res = 0 then .verdict false
        else .failed ("nil_verify_chained_proof failed with code: " ++ toString res)

/-- The length checks that the three closures share. A proof with a field of another length is
answered with `false` and no error. -/
def ChainedProof.lengthsOk (p : ChainedProof) : Bool :=
  p.manifestOpening.length == 48 && p.mduRootFr.length == 32 && p.blobCommitment.length == 48 &&
    p.merklePath.length != 0 && p.zValue.length == 32 && p.yValue.length == 32 &&
    p.kzgOpeningProof.length == 48

/-- The arguments of the binding for a proof. The nodes of the Merkle path are flattened into one
buffer, as Go passes them to C, so their own lengths are lost. -/
def ChainedProof.args (p : ChainedProof) (manifestRoot : Bytes) (leafCount : UInt64) :
    ChainedProofArgs where
  manifestCommitment := manifestRoot
  mduIndex := p.mduIndex
  manifestProof := p.manifestOpening
  mduMerkleRoot := p.mduRootFr
  blobCommitment := p.blobCommitment
  blobIndex := p.blobIndex.toUInt64
  leafCount := leafCount
  blobMerkleProof := p.merklePath.flatten
  blobZ := p.zValue
  blobY := p.yValue
  blobProof := p.kzgOpeningProof

/-- The closure `verifyChainedProof`, with the check that a closure makes besides the
lengths. -/
def guardedVerify (kzgCtx : Option KzgContext) (guard : ChainedProof → Bool)
    (manifestRoot : Bytes) (leafCount : UInt64) (p : ChainedProof) : VerifyResult :=
  if ¬p.lengthsOk then .verdict false
  else if manifestRoot.length ≠ 48 then .verdict false
  else if ¬guard p then .verdict false
  else if ¬p.merklePath.all (·.length = 32) then .verdict false
  else cryptoFfiVerifyChainedProof kzgCtx (p.args manifestRoot leafCount)

/-- The check of `ProveLiveness`: the blob index is in range, and in Mode 2 it lies in the
sender's slot. -/
def livenessGuard (deal : Deal) (stripe : StripeParams) (creator : Str) (p : ChainedProof) : Bool :=
  p.blobIndex.toUInt64 < stripe.leafCount &&
    if stripe.mode = 2 then
      match leafSlotIndex p.blobIndex.toUInt64 stripe.rows with
      | .error _ => false
      | .ok slot => providerSlotIndex deal creator == some slot
    else true

/-- `verifyChainedProof` in `ProveLiveness`. Besides the lengths it checks that the blob is one of
the sender's. -/
def verifyLivenessProof (kzgCtx : Option KzgContext) (deal : Deal) (stripe : StripeParams)
    (creator : Str) (p : ChainedProof) : VerifyResult :=
  guardedVerify kzgCtx (livenessGuard deal stripe creator) deal.manifestRoot stripe.leafCount p

/-- `verifyChainedProof` in `SubmitRetrievalSessionProof`. The index of the blob was compared with
the range of the session before. -/
def verifySessionProof (kzgCtx : Option KzgContext) (deal : Deal) (stripe : StripeParams)
    (p : ChainedProof) : VerifyResult :=
  guardedVerify kzgCtx (fun _ => true) deal.manifestRoot stripe.leafCount p

/-- `verifyChainedProof` in the precompile. The number of leaves is that of the deal, and the index
of the blob is the caller's. -/
def verifyBatchProof (kzgCtx : Option KzgContext) (manifestRoot : Bytes) (leafCount : UInt64)
    (p : ChainedProof) : VerifyResult :=
  guardedVerify kzgCtx (fun _ => true) manifestRoot leafCount p

end NilStore.Chain
