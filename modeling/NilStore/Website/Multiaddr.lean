import NilStore.Website.UseFetch

/-!
# `NilStore.Website.Multiaddr`: the address of a provider in its endpoints, for the browser

`nil-website/src/lib/multiaddr.ts`. The browser reads the endpoints of a provider itself, and takes
more shapes than the gateway: it looks for the part `tcp`, and for the scheme anywhere.
-/

set_option autoImplicit false

namespace NilStore.Website

open NilStore.Lib

/-- `s.split('/').filter(Boolean)`. -/
def segments (s : Str) : List Str := (s.splitOn '/').filter (· ≠ [])

/-- `multiaddrToHttpUrl`. The part in front of the host is not empty, for empty parts are left
out. -/
def multiaddrToHttpUrl (ep : Str) : Option Str :=
  let s := trim ep
  if hasPrefix s "/".toList then
    let parts := segments s
    let idxTcp := parts.idxOf "tcp".toList
    if idxTcp < 2 ∨ parts.length ≤ idxTcp + 1 then none
    else
      let host := parts.getD (idxTcp - 1) []
      let port := parts.getD (idxTcp + 1) []
      if port = [] ∨ ¬port.all Char.isDigit then none
      else if "http".toList ∉ parts ∧ "https".toList ∉ parts then none
      else
        some ((if "https".toList ∈ parts then "https".toList else "http".toList) ++
          "://".toList ++ host ++ ":".toList ++ port)
  else none

end NilStore.Website
