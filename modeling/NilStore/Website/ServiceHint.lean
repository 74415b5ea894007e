import NilStore.Lib.JsNumber
import NilStore.Website.UseFetch

/-!
# `NilStore.Website.ServiceHint`: service hints in the browser

`parseServiceHint` and `buildServiceHint` of `nil-website/src/lib/serviceHint.ts`. The parser takes
whatever `Number` reads, so a count is a rational number here. The counts that a hint is built from
are natural numbers up to `2 ^ 53 - 1`: `Math.round` leaves them, and a template writes them in
decimal.
-/

set_option autoImplicit false

namespace NilStore.Website

open NilStore.Lib

/-- `String.prototype.toLowerCase`, on the characters whose lower case is one ASCII character. -/
def toLowerCase (s : Str) : Str := s.map fun c => if c.toNat = 0x212A then 'k' else c.toLower

/-- `Number` of a text. White space around the literal is dropped. -/
def toNumber (s : Str) : JsNumber := numericLiteral (trim s)

/-- The number, where `Number.isFinite(n) && n > 0`. -/
def positiveFinite : JsNumber → Option ℚ
  | .finite q => if 0 < q then some q else none
  | _ => none

/-- The mode a hint asks for, as the page shows it. -/
inductive HintMode where
  | mode1
  | mode2
deriving DecidableEq

/-- `ServiceHintInfo`: what the page reads out of a hint. -/
structure ServiceHintInfo where
  base : Str
  replicas : Option ℚ := none
  rsK : Option ℚ := none
  rsM : Option ℚ := none
  mode : HintMode := .mode1
deriving DecidableEq

/-- The branch for `replicas`. A value that is no positive number is ignored. -/
def readReplicas (info : ServiceHintInfo) (val : Str) : ServiceHintInfo :=
  match positiveFinite (toNumber val) with
  | some n => { info with replicas := some n }
  | none => info

/-- The branch for `rs`. Both numbers have to be positive, and they make it a hint for Mode 2. -/
def readRS (info : ServiceHintInfo) (val : Str) : ServiceHintInfo :=
  match val.splitOn '+' with
  | [first, second] =>
      match positiveFinite (toNumber first), positiveFinite (toNumber second) with
      | some k, some m => { info with rsK := some k, rsM := some m, mode := .mode2 }
      | _, _ => info
  | _ => info

/-- The body of the loop over the tokens. A split with a limit of two drops what follows a second
`=`. -/
def readToken (info : ServiceHintInfo) (token : Str) : ServiceHintInfo :=
  let parts := (token.splitOn '=').take 2
  let key := toLowerCase (trim (parts.getD 0 []))
  let val := trim (parts.getD 1 [])
  if key = [] ∨ val = [] then info
  else if key = "replicas".toList then readReplicas info val
  else if key = "rs".toList then readRS info val
  else info

/-- `parseServiceHint`. The base comes first, and the extras are separated by colons. -/
def parseServiceHint (raw : Option Str) : ServiceHintInfo :=
  let trimmed := trim (raw.getD [])
  if trimmed = [] then { base := [] }
  else
    match trimmed.splitOn ':' with
    | [] => { base := [] }
    | baseRaw :: extras => extras.foldl readToken { base := trim baseRaw }

/-- The options of `buildServiceHint`. What is not given is not written. -/
structure HintOptions where
  replicas : Option Nat := none
  rsK : Option Nat := none
  rsM : Option Nat := none

/-- The extra for `replicas`. Zero replicas are not written. -/
def replicasExtra (opts : HintOptions) : List Str :=
  match opts.replicas with
  | some n => if 0 < n then ["replicas=".toList ++ decimal n] else []
  | none => []

/-- The extra for `rs`. It needs both numbers. -/
def rsExtra (opts : HintOptions) : List Str :=
  match opts.rsK, opts.rsM with
  | some k, some m => if k ≠ 0 ∧ m ≠ 0 then ["rs=".toList ++ decimal k ++ '+' :: decimal m] else []
  | _, _ => []

/-- `buildServiceHint`. Without a base the hint is a general one. -/
def buildServiceHint (base : Str) (opts : HintOptions) : Str :=
  let hintBase := if trim base = [] then "General".toList else trim base
  let extras := replicasExtra opts ++ rsExtra opts
  if extras = [] then hintBase else hintBase ++ ':' :: [':'].intercalate extras

end NilStore.Website
