import NilStore.Lib.GoString

/-!
# `NilStore.Gateway.Multiaddr`: the address of a provider in its endpoints

A provider registers endpoints in the form of multiaddrs. `httpBaseURLFromMultiaddr` of
`nil_gateway/provider_discovery.go` makes an HTTP address of one. An endpoint that is refused is
passed over by all callers, so the texts of the errors are left out.

`parseIP` is `net.ParseIP` of Go's standard library, for a text without a zone: four decimal
numbers, or up to eight hexadecimal ones with at most one gap, the last two of which may be written
as an IPv4 address.
-/

set_option autoImplicit false

namespace NilStore.Gateway

open NilStore.Lib

/-! ### `net.ParseIP` -/

/-- A decimal number below 256, without leading zeros. -/
def parseOctet (field : Str) : Option UInt8 :=
  if field = [] ∨ ¬field.all Char.isDigit ∨ (field.head? = some '0' ∧ 1 < field.length) then none
  else (parseUint field).bind fun n => if n ≤ 255 then some n.toUInt8 else none

/-- `parseIPv4Fields`. There are four fields, no more and no less. -/
def parseIPv4 (s : Str) : Option Bytes :=
  let fields := s.splitOn '.'
  if fields.length = 4 then fields.mapM parseOctet else none

/-- What the loop of `parseIPv6` has read: the rest of the text, the bytes, and the position of the
gap. -/
structure IPv6State where
  rest : Str
  ip : Bytes
  ellipsis : Option Nat

/-- The loop of `parseIPv6`, in which every round reads one number. The position of the gap is
remembered and filled in at the end. -/
def parseIPv6Fields : Nat → Str → Bytes → Option Nat → Option IPv6State
  | 0, s, ip, ellipsis => some ⟨s, ip, ellipsis⟩
  | rounds + 1, s, ip, ellipsis =>
      let digits := s.takeWhile fun c => (hexVal c).isSome
      let rest := s.drop digits.length
      if digits = [] ∨ 4 < digits.length then none
      else if rest.head? = some '.' then
        -- An IPv4 address takes the place of the last two numbers.
        if ellipsis = none ∧ ip.length ≠ 12 ∨ 16 < ip.length + 4 then none
        else (parseIPv4 s).map fun fields => ⟨[], ip ++ fields, ellipsis⟩
      else
        let acc := digits.foldl (fun acc c => acc * 16 + (hexVal c).getD 0) 0
        let ip := ip ++ [UInt8.ofNat (acc / 256), UInt8.ofNat acc]
        match rest with
        | [] => some ⟨[], ip, ellipsis⟩
        | ':' :: ':' :: rest =>
            if ellipsis.isSome then none
            else if rest = [] then some ⟨[], ip, some ip.length⟩
            else parseIPv6Fields rounds rest ip (some ip.length)
        | ':' :: d :: rest => parseIPv6Fields rounds (d :: rest) ip ellipsis
        | _ => none

/-- The end of `parseIPv6`: a gap stands for at least one zero. -/
def expandEllipsis (st : IPv6State) : Option Bytes :=
  if st.rest ≠ [] then none
  else
    match st.ellipsis with
    | some i =>
        if st.ip.length < 16 then
          some (st.ip.take i ++ List.replicate (16 - st.ip.length) 0 ++ st.ip.drop i)
        else none
    | none => if st.ip.length < 16 then none else some st.ip

/-- `parseIPv6`. A gap at the very beginning is taken off before the loop. -/
def parseIPv6 (s : Str) : Option Bytes :=
  if hasPrefix s "::".toList then
    if s.drop 2 = [] then some (List.replicate 16 0)
    else (parseIPv6Fields 8 (s.drop 2) [] (some 0)).bind expandEllipsis
  else (parseIPv6Fields 8 s [] none).bind expandEllipsis

/-- `net.ParseIP`: the 16 bytes of an address, an IPv4 address in its IPv6 form. -/
def parseIP (s : Str) : Option Bytes :=
  match s.find? fun c => c = '.' ∨ c = ':' ∨ c = '%' with
  | some '.' => (parseIPv4 s).map fun ip => List.replicate 10 0 ++ [0xff, 0xff] ++ ip
  | some ':' => if '%' ∈ s then none else parseIPv6 s
  | _ => none

/-- `To4`: the address is an IPv4 address. -/
def isIPv4 (ip : Bytes) : Bool := ip.take 12 = List.replicate 10 0 ++ [0xff, 0xff]

/-! ### Endpoints -/

/-- The host in the address of a provider. A name has to be there but is not looked at any
further. -/
def multiaddrHost (addrProto addr : Str) : Option Str :=
  if addrProto = "ip4".toList then
    (parseIP addr).bind fun ip => if isIPv4 ip then some addr else none
  else if addrProto = "ip6".toList then
    (parseIP addr).bind fun ip => if isIPv4 ip then none else some ('[' :: addr ++ [']'])
  else if addrProto = "dns".toList ∨ addrProto = "dns4".toList ∨ addrProto = "dns6".toList then
    if trimSpace addr = [] then none else some addr
  else none

/-- `strconv.Atoi`, for a number that fits in 64 bits. -/
def atoi (s : Str) : Option Int :=
  match s with
  | '-' :: digits => (parseUint digits).bind fun n =>
    if n.toNat ≤ 2 ^ 63 then some (-n.toNat) else none
  | '+' :: digits => (parseUint digits).bind fun n =>
    if n.toNat < 2 ^ 63 then some n.toNat else none
  | digits => (parseUint digits).bind fun n => if n.toNat < 2 ^ 63 then some n.toNat else none

/-- `httpBaseURLFromMultiaddr`. Only five parts are taken: a protocol and an address, `tcp` and a
port, and the scheme. -/
def httpBaseURLFromMultiaddr (endpoint : Str) : Option Str :=
  let ep := trimSpace endpoint
  if hasPrefix ep "/".toList then
    match (ep.drop 1).splitOn '/' with
    | [addrProto, addr, tcp, portStr, scheme] =>
        if tcp ≠ "tcp".toList then none
        else if scheme ≠ "http".toList ∧ scheme ≠ "https".toList then none
        else
          (atoi portStr).bind fun port =>
            if port ≤ 0 ∨ 65535 < port then none
            else (multiaddrHost addrProto addr).map fun host =>
              scheme ++ "://".toList ++ host ++ ":".toList ++ decimal port
    | _ => none
  else none

end NilStore.Gateway
