import NilStore.Chain.Keeper
import NilStore.Lib.Walks

/-!
# `NilStore.Chain.Query`: the query server

`keeper/query.go` and `keeper/query_deals_providers.go`. A query reads one state. The request is a
pointer, so there may be none. Two of the queries walk an index of the sessions, keep the entries of
one name and look the sessions up; an entry without a session is passed over.
-/

set_option autoImplicit false

namespace NilStore.Chain

open NilStore.Lib

variable {β : Type}

/-- The gRPC codes that the queries answer with. No other code is used by them. -/
inductive Code where
  | invalidArgument
  | notFound
deriving DecidableEq

/-- `status.Error`. It has a code and a text. -/
structure Status where
  code : Code
  text : String
deriving DecidableEq

/-- The request that a query was called with. A missing one is an invalid argument. -/
def requested {α : Type} (req : Option α) : Except Status α :=
  orFail req ⟨.invalidArgument, "invalid request"⟩

/-- `GetReceiptNonce`, for a deal and the path of a file. The path is trimmed, and a file without
receipts has nonce zero. -/
def getReceiptNonce (s : KeeperState β) (req : Option (UInt64 × Str)) : Except Status UInt64 := do
  let (dealId, path) ← requested req
  let filePath := trimSpace path
  rejectIf (filePath = []) ⟨.invalidArgument, "file_path is required"⟩
  return lastNonce s.receiptNoncesByDealFile (join dealId.toNat filePath)

/-- `GetRetrievalSession`. The length of the id is checked before the store is read. -/
def getRetrievalSession (s : KeeperState β) (req : Option Bytes) :
    Except Status RetrievalSession := do
  let sessionId ← requested req
  rejectIf (sessionId.length ≠ 32) ⟨.invalidArgument, "session_id must be 32 bytes"⟩
  orFail (s.retrievalSessions.get sessionId) ⟨.notFound, "retrieval session not found"⟩

/-- The walk that both listings of sessions make: the index, and what the name is called. The name
is trimmed and must not be empty. -/
def listSessions (index : KVStore (Str ×ₗ Bytes) UInt64) (called : String) (s : KeeperState β)
    (req : Option Str) : Except Status (List RetrievalSession) := do
  let raw ← requested req
  let name := trimSpace raw
  rejectIf (name = []) ⟨.invalidArgument, called ++ " is required"⟩
  return walkIndex index s.retrievalSessions name

/-- `ListRetrievalSessionsByOwner`. It walks the index of the owners. -/
def listRetrievalSessionsByOwner (s : KeeperState β) (req : Option Str) :
    Except Status (List RetrievalSession) :=
  listSessions s.retrievalSessionsByOwner "owner" s req

/-- `ListRetrievalSessionsByProvider`. It walks the index of the providers. -/
def listRetrievalSessionsByProvider (s : KeeperState β) (req : Option Str) :
    Except Status (List RetrievalSession) :=
  listSessions s.retrievalSessionsByProvider "provider" s req

end NilStore.Chain
