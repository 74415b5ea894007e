import NilStore.Gateway.DealProviders
import NilStore.Gateway.Multiaddr
import NilStore.Lib.TtlCache

/-!
# `NilStore.Gateway.RouterProxy`: the gateway as a router

In router mode the gateway serves nothing itself. It sends a request on to a provider of the deal
(`nil_gateway/router_proxy.go`), and finds the providers and their addresses at the LCD, through
caches (`nil_gateway/provider_discovery.go`). `RouterGatewayFetch` serves eight routes. It tries the
providers one after the other, and the one that answers is preferred for some seconds.
`RouterGatewayUpload` and `RouterGatewayUploadStatus` go to the preferred provider, or to the first
one, and try no other.

Requests are served side by side. A request waits for the LCD or for a provider, and what it does
between two answers is one step of the router: `Router.step`. An answer of the LCD is the one that
the retries have come to; they take time and change nothing else. The times are nanoseconds.
-/

set_option autoImplicit false

namespace NilStore.Gateway

open NilStore.Lib

/-! ### Requests -/

/-- How long the router keeps the base URL of a provider, in nanoseconds. -/
def providerCacheTTL : Nat := 30 * 10 ^ 9

/-- How long the router keeps the provider of a deal, in nanoseconds. -/
def dealProviderTTL : Nat := 10 * 10 ^ 9

/-- The error of a lookup at the LCD, which may be `ErrDealNotFound`. -/
structure LcdError where
  notFound : Bool
  text : String

/-- What comes back when a request is sent to a provider. `notMade` is the error of
`http.NewRequestWithContext` for a base URL that does not parse: nobody is contacted then. -/
inductive ProviderReply where
  | notMade (text : String)
  | unreachable (text : String)
  | replied (status : Nat) (statusText : Str) (body : Bytes)

/-- The handler of a request. `uploadStatus` has the `upload_id` of its query. -/
inductive Route where
  | fetch
  | upload
  | uploadStatus (uploadID : Str)
deriving DecidableEq

/-- What the client gets: an error of the router, or the reply of the provider that is named. -/
inductive Response where
  | jsonError (err : JsonError)
  | relayed (provider : Str) (status : Nat) (body : Bytes)
deriving DecidableEq

/-- What a request waits for: the providers of the deal, the endpoints of the first candidate, or
its answer. -/
inductive Stage where
  | dealProviders
  | endpoints
  | proxy (baseURL : Str)
  | answered (response : Response)
deriving DecidableEq

/-- A request. `candidates` are the providers that have not failed, and `failures` those that have,
with the errors. -/
structure Request where
  route : Route
  dealID : Nat
  arrived : Nat
  providers : List Str
  failures : List (Str × String)
  candidates : List Str
  stage : Stage

/-- The router: the time, its caches, and the requests in the order in which they came. -/
structure Router where
  now : Nat
  dealProviderCache : TtlCache Nat Str
  dealProvidersCache : TtlCache Nat (List Str)
  providerBaseCache : TtlCache Str Str
  requests : List Request

/-- The router at start: no request, no cached answer, no recorded upload. -/
def Router.empty : Router := ⟨0, .empty, .empty, .empty, []⟩

/-- `requireDealIDQuery`. The id has to be a decimal number of 64 bits. -/
def requireDealIDQuery (raw : Str) : Except JsonError UInt64 :=
  if trimSpace raw = [] then .error ⟨400, "deal_id query parameter is required", ""⟩
  else orFail (parseUint (trimSpace raw)) ⟨400, "invalid deal_id", ""⟩

/-- `requireUploadIDQuery`, where the route needs it. -/
def Route.check : Route → Except JsonError Unit
  | .uploadStatus uploadID =>
      rejectIf (trimSpace uploadID = []) ⟨400, "upload_id query parameter is required", ""⟩
  | _ => .ok ()

/-- Ends a request with a response. -/
def Request.answer (req : Request) (response : Response) : Request :=
  { req with stage := .answered response }

/-! ### The caches -/

namespace Router

/-- The cached providers of a deal, as `resolveDealProviders` takes them. -/
def cachedProviders (r : Router) (dealID : Nat) : Option (List Str) :=
  (r.dealProvidersCache.load r.now dealID).filter (· ≠ [])

/-- The preferred provider of a deal: the one that answered last, or to which an upload was
assigned. -/
def preferred (r : Router) (dealID : Nat) : Option Str :=
  (r.dealProviderCache.load r.now dealID).filter (· ≠ [])

/-- What `resolveProviderHTTPBaseURL` does before it asks the LCD. A cached base URL makes the
question superfluous. -/
def resolveStage (r : Router) (providerAddr : Str) : Stage :=
  match (r.providerBaseCache.load r.now (trimSpace providerAddr)).filter (· ≠ []) with
  | some baseURL => .proxy baseURL
  | none => .endpoints

/-- The loop of `RouterGatewayFetch`, up to the next provider that has to be asked. When there is
none left, the last failure is answered. -/
def tryNext (r : Router) (req : Request) : List Str → Request
  | [] =>
      { req with
        candidates := []
        stage := .answered (.jsonError ⟨502, "failed to contact provider",
          (req.failures.getLast?.map (·.2)).getD ""⟩) }
  | providerAddr :: rest =>
      if trimSpace providerAddr = [] then
        r.tryNext { req with
          failures := req.failures ++ [(providerAddr, "provider address is required")] } rest
      else { req with candidates := providerAddr :: rest, stage := r.resolveStage providerAddr }

/-- `RouterGatewayUpload` after the provider is known. Nobody else is tried. -/
def tryAssigned (r : Router) (req : Request) (providerAddr : Str) : Request :=
  if trimSpace providerAddr = [] then
    req.answer
      (.jsonError ⟨502, "failed to resolve provider endpoint", "provider address is required"⟩)
  else { req with candidates := [providerAddr], stage := r.resolveStage providerAddr }

/-- The providers of a request are known. A fetch goes through all of them, an upload to the
first. -/
def withProviders (r : Router) (req : Request) (providers : List Str) : Request :=
  match req.route with
  | .fetch => r.tryNext { req with providers := providers } providers
  | _ => r.tryAssigned { req with providers := providers } (providers.headD [])

/-- The providers that are known without the LCD. The fetches and the uploads have a cache each. -/
def knownProviders (r : Router) (route : Route) (dealID : Nat) : Option (List Str) :=
  match route with
  | .fetch => r.cachedProviders dealID
  | _ => (r.preferred dealID).map fun p => [p]

/-- A request has come. With cached providers it goes on at once, else the LCD is asked. -/
def accept (r : Router) (route : Route) (rawDealID : Str) : Request :=
  match requireDealIDQuery rawDealID with
  | .error err => ⟨route, 0, r.now, [], [], [], .answered (.jsonError err)⟩
  | .ok dealID =>
      let req : Request := ⟨route, dealID.toNat, r.now, [], [], [], .dealProviders⟩
      match route.check with
      | .error err => req.answer (.jsonError err)
      | .ok () =>
          match r.knownProviders route dealID.toNat with
          | some providers => r.withProviders req providers
          | none => req

/-- The request takes the place of the one with its number. -/
def setRequest (r : Router) (id : Nat) (req : Request) : Router :=
  { r with requests := r.requests.set id req }

end Router

/-! ### Answers of the LCD -/

/-- The preferred provider comes first. It has to be one of the deal, and the others keep their
order. -/
def preferFirst (preferred : Option Str) (providers : List Str) : List Str :=
  match preferred with
  | some p => if p ∈ providers then p :: providers.erase p else providers
  | none => providers

/-- What the client gets when there are no providers. -/
def dealLookupFailed (route : Route) (err : LcdError) : JsonError :=
  ⟨if err.notFound then 404 else 500,
    match route with
    | .fetch => "failed to resolve deal providers"
    | _ => "failed to resolve deal provider",
    err.text⟩

/-- The providers of a deal in the answer of the LCD, when there are any. -/
def dealProvidersOf (dealID : Nat) (answer : Except LcdError LcdDeal) :
    Except LcdError (List Str) :=
  answer.bind fun deal =>
    let providers := fetchDealProvidersFromLCD deal
    if providers = [] then
      .error ⟨false, "deal " ++ toString dealID ++ " has no assigned providers"⟩
    else .ok providers

/-- The address in the endpoints that the LCD has for a provider: the first one that is HTTP. -/
def baseURLOf (providerAddr : Str) (answer : Except String (List Str)) : Except String Str :=
  answer.bind fun endpoints =>
    orFail (((endpoints.map trimSpace).filter (· ≠ [])).findSome? httpBaseURLFromMultiaddr)
      ("no supported http multiaddr for provider " ++ String.ofList (trimSpace providerAddr))

/-- The answer of a provider that the client gets, or the error. `tryProxyToProviderBaseURL` does
not send on an error of the provider, and keeps the first 4096 bytes of its text. -/
def relayedReply (route : Route) : ProviderReply → Except JsonError (Nat × Bytes)
  | .notMade text => .error ⟨500, "failed to create provider request", text⟩
  | .unreachable text => .error ⟨502, "failed to contact provider", text⟩
  | .replied status statusText body =>
      if route = .fetch ∧ 500 ≤ status then
        let shown := trimSpace (goText (body.take 4096))
        .error ⟨502, "failed to contact provider",
          "provider returned " ++ toString status ++ ": " ++
          String.ofList (if shown = [] then statusText else shown)⟩
      else .ok (status, body)

namespace Router

/-- The first candidate of a request has failed. A fetch keeps the text of the error for later, an
upload answers it. -/
def candidateFailed (r : Router) (req : Request) (err : JsonError) : Request :=
  match req.route with
  | .fetch =>
      r.tryNext { req with failures := req.failures ++ [(req.candidates.headD [], err.hint)] }
        req.candidates.tail
  | _ => req.answer (.jsonError err)

/-- `resolveDealProviders` and `resolveDealAssignedProvider` after the LCD has answered. Only an
answer with providers is cached. -/
def dealAnswered (r : Router) (id : Nat) (req : Request) (answer : Except LcdError LcdDeal) :
    Router :=
  match dealProvidersOf req.dealID answer with
  | .error err => r.setRequest id (req.answer (.jsonError (dealLookupFailed req.route err)))
  | .ok providers =>
      match req.route with
      | .fetch =>
          let providers := preferFirst (r.preferred req.dealID) providers
          { r with
            dealProvidersCache :=
              r.dealProvidersCache.put (r.now + dealProviderTTL) (some (req.dealID, providers))
            requests := r.requests.set id (r.withProviders req providers) }
      | _ =>
          let assigned := providers.headD []
          { r with
            dealProviderCache :=
              r.dealProviderCache.put (r.now + dealProviderTTL) (some (req.dealID, assigned))
            requests := r.requests.set id (r.withProviders req [assigned]) }

/-- `resolveProviderHTTPBaseURL` after the LCD has answered. An error fails the provider that was
asked for. -/
def endpointsAnswered (r : Router) (id : Nat) (req : Request) (answer : Except String (List Str)) :
    Router :=
  match baseURLOf (req.candidates.headD []) answer with
  | .error err =>
      r.setRequest id (r.candidateFailed req ⟨502, "failed to resolve provider endpoint", err⟩)
  | .ok baseURL =>
      let key := trimSpace (req.candidates.headD [])
      { r with
        providerBaseCache :=
          r.providerBaseCache.put (r.now + providerCacheTTL) (some (key, baseURL))
        requests := r.requests.set id { req with stage := .proxy baseURL } }

/-- The handler after the provider has answered. A fetch makes the provider the preferred one of the
deal, an upload does not. -/
def providerReplied (r : Router) (id : Nat) (req : Request) (reply : ProviderReply) : Router :=
  match relayedReply req.route reply with
  | .error err => r.setRequest id (r.candidateFailed req err)
  | .ok (status, body) =>
      let providerAddr := req.candidates.headD []
      let answered := req.answer (.relayed providerAddr status body)
      match req.route with
      | .fetch =>
          { r with
            dealProviderCache :=
              r.dealProviderCache.put (r.now + dealProviderTTL) (some (req.dealID, providerAddr))
            requests := r.requests.set id answered }
      | _ => r.setRequest id answered

end Router

/-! ### Runs -/

/-- What happens to the router. A request is named by its number. -/
inductive RouterEvent where
  | elapse (ns : Nat)
  | arrive (route : Route) (rawDealID : Str)
  | dealAnswered (id : Nat) (answer : Except LcdError LcdDeal)
  | endpointsAnswered (id : Nat) (answer : Except String (List Str))
  | replied (id : Nat) (reply : ProviderReply)

namespace Router

/-- The request with the number, if it waits for what the predicate says. -/
def waiting (r : Router) (id : Nat) (p : Stage → Bool) : Option Request :=
  (r.requests[id]?).filter fun req => p req.stage

/-- Whether a request waits for the answer of a provider. -/
def Stage.isProxy : Stage → Bool
  | .proxy _ => true
  | _ => false

/-- One step. An answer that nobody waits for is dropped. -/
def step (r : Router) : RouterEvent → Router
  | .elapse ns => { r with now := r.now + ns }
  | .arrive route rawDealID => { r with requests := r.requests ++ [r.accept route rawDealID] }
  | .dealAnswered id answer =>
      match r.waiting id (· = .dealProviders) with
      | some req => r.dealAnswered id req answer
      | none => r
  | .endpointsAnswered id answer =>
      match r.waiting id (· = .endpoints) with
      | some req => r.endpointsAnswered id req answer
      | none => r
  | .replied id reply =>
      match r.waiting id Stage.isProxy with
      | some req => r.providerReplied id req reply
      | none => r

end Router

end NilStore.Gateway
