import NilStore.Chain.Types
import NilStore.Lib.Runs

/-!
# `NilStore.Gateway.DownloadSession`: download sessions of `nil_gateway/download_session.go`

A download session is kept in a `sync.Map` and, when the gateway has a session database, in a bucket
of it. This is the store of one session id, with the handlers that work on it at the same time. A
handler is a call and the point that it has reached. Each step of a handler is one operation on the
map, or one transaction with what its closure does to the map: bbolt runs one writing transaction at
a time, and a transaction that returns an error is rolled back.

What the JSON encoding writes, it reads back, so the branches for a value that cannot be decoded are
not reached and not modelled.
-/

set_option autoImplicit false

namespace NilStore.Gateway

open NilStore.Lib NilStore.Chain

/-- `downloadChunk`: a range that was served in a download, with its proof. -/
structure DownloadChunk where
  rangeStart : UInt64
  rangeLen : UInt64
  proofDetails : ChainedProof
deriving DecidableEq

/-- `downloadSession`: a download in progress at the gateway, and what it has served so far. The
zero time is `none`. -/
structure DownloadSession where
  dealId : UInt64
  epochId : UInt64
  owner : Str
  provider : Str
  filePath : Str
  rangeStart : UInt64
  rangeLen : UInt64
  createdAt : Nat
  expiresAt : Option Nat
  chunks : List DownloadChunk
deriving DecidableEq

/-- `!s.ExpiresAt.IsZero() && time.Now().After(s.ExpiresAt)`. -/
def DownloadSession.expired (s : DownloadSession) (now : Nat) : Bool := s.expiresAt.any (· < now)

/-- `s.Chunks = append(s.Chunks, chunk)`. The order of the chunks is that of the receipt. -/
def DownloadSession.append (s : DownloadSession) (chunk : DownloadChunk) : DownloadSession :=
  { s with chunks := s.chunks ++ [chunk] }

/-- The errors of the three functions. -/
inductive DownloadError where
  | notFound
  | expired
  | rangeLenRequired
deriving DecidableEq

/-- Where the session is: `downloadSessionCache` and the bucket of `sessionDB`. -/
structure SessionStore where
  cache : Option DownloadSession
  bucket : Option DownloadSession
deriving DecidableEq

/-- `appendDownloadChunkToSession`, `loadDownloadSession` and `takeDownloadSession` on the id. -/
inductive SessionCall where
  | append (chunk : DownloadChunk)
  | load
  | take
deriving DecidableEq

/-- What a call returns: nothing for a chunk, the session for the other two, or an error. -/
inductive SessionReply where
  | stored
  | session (s : DownloadSession)
  | failed (e : DownloadError)
deriving DecidableEq

/-- The point that a handler has reached. -/
inductive Point where
  /-- Nothing is done yet. -/
  | start
  /-- `append` without a database has read the session, and will store it with the chunk. -/
  | appendStore (s : DownloadSession)
  /-- It has found the session expired, and will delete it. -/
  | appendDrop
  /-- `load` has missed the cache, and will look into the bucket. -/
  | loadView
  /-- It has read the session there, and will put it into the cache. -/
  | loadStore (s : DownloadSession)
  /-- It has found the cached session expired, and will delete it. -/
  | loadDrop
  /-- It will delete the expired session from the bucket. -/
  | loadDropBucket
  /-- `take` has done its transaction, and will delete the session from the cache. -/
  | takeDelete (found : Option DownloadSession)
  | done (reply : SessionReply)
deriving DecidableEq

/-- A handler: the call that it serves, and how far it has come. -/
structure Handler where
  call : SessionCall
  point : Point
deriving DecidableEq

section

variable (sessionDB : Bool) (now : Nat)

/-- The first step of `appendDownloadChunkToSession`. With a database it is the whole
transaction. -/
def appendStart (store : SessionStore) (chunk : DownloadChunk) : SessionStore × Point :=
  if chunk.rangeLen = 0 then (store, .done (.failed .rangeLenRequired))
  else if sessionDB then
    match store.bucket with
    | none => (store, .done (.failed .notFound))
    | some s =>
        -- The transaction fails, so only the deletion from the cache stays.
        if s.expired now then ({ store with cache := none }, .done (.failed .expired))
        else (⟨some (s.append chunk), some (s.append chunk)⟩, .done .stored)
  else
    match store.cache with
    | none => (store, .done (.failed .notFound))
    | some s => if s.expired now then (store, .appendDrop) else (store, .appendStore s)

/-- The first step of `loadDownloadSession`. A session in the cache is answered without the
database. -/
def loadStart (store : SessionStore) : SessionStore × Point :=
  match store.cache with
  | some s => if s.expired now then (store, .loadDrop) else (store, .done (.session s))
  | none => if sessionDB then (store, .loadView) else (store, .done (.failed .notFound))

/-- The transaction in which `loadDownloadSession` reads the bucket. The cache is filled in a later
step. -/
def loadView (store : SessionStore) : SessionStore × Point :=
  match store.bucket with
  | none => (store, .done (.failed .notFound))
  | some s => if s.expired now then (store, .loadDropBucket) else (store, .loadStore s)

/-- What `takeDownloadSession` makes of the session that it has taken. An expired one is gone as
well. -/
def takeReply : Option DownloadSession → SessionReply
  | none => .failed .notFound
  | some s => if s.expired now then .failed .expired else .session s

/-- The first step of `takeDownloadSession`. With a database the session is taken out of the bucket,
and leaves the cache only afterwards. -/
def takeStart (store : SessionStore) : SessionStore × Point :=
  if sessionDB then ({ store with bucket := none }, .takeDelete store.bucket)
  else ({ store with cache := none }, .done (takeReply now store.cache))

/-- The next step of a handler. Steps of other handlers may come in between any two of these. -/
def handlerStep (store : SessionStore) (h : Handler) : SessionStore × Point :=
  match h.point with
  | .start =>
      match h.call with
      | .append chunk => appendStart sessionDB now store chunk
      | .load => loadStart sessionDB now store
      | .take => takeStart sessionDB now store
  | .appendStore s =>
      match h.call with
      | .append chunk => ({ store with cache := some (s.append chunk) }, .done .stored)
      | _ => (store, h.point)
  | .appendDrop => ({ store with cache := none }, .done (.failed .expired))
  | .loadView => loadView now store
  | .loadStore s => ({ store with cache := some s }, .done (.session s))
  | .loadDrop =>
      ({ store with cache := none },
        if sessionDB then .loadDropBucket else .done (.failed .expired))
  | .loadDropBucket => ({ store with bucket := none }, .done (.failed .expired))
  | .takeDelete found => ({ store with cache := none }, .done (takeReply now found))
  | .done reply => (store, .done reply)

end

/-- The store and the handlers, in the order in which they were called. -/
structure SessionState where
  store : SessionStore
  handlers : List Handler
deriving DecidableEq

/-- A call comes in, or a handler makes a step. -/
inductive SessionEvent where
  | call (c : SessionCall)
  | step (i : Nat) (now : Nat)
deriving DecidableEq

/-- One event. A step of a handler that does not exist changes nothing. -/
def sessionStep (sessionDB : Bool) (st : SessionState) : SessionEvent → SessionState
  | .call c => { st with handlers := st.handlers ++ [⟨c, .start⟩] }
  | .step i now =>
      match st.handlers[i]? with
      | none => st
      | some h =>
          let next := handlerStep sessionDB now st.store h
          ⟨next.1, st.handlers.set i { h with point := next.2 }⟩

end NilStore.Gateway
