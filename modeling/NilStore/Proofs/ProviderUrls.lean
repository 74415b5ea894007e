import NilStore.Gateway.Multiaddr
import NilStore.Lib.Decimal
import NilStore.Website.Multiaddr

/-!
# `NilStore.Proofs.ProviderUrls`: the gateway and the browser read an endpoint

Both make an HTTP address of the endpoints that a provider has registered. The gateway takes one
shape and checks its parts. The browser takes more, and it copies the host and the port as they are
written. `provider_urls_agree` says for which endpoints of the gateway the browser gets the same
address: not for an IPv6 address, which the browser leaves without its brackets, and not for a port
with a sign or leading zeros. A host that is called `tcp` or `https` is taken for another part.
-/

set_option autoImplicit false

namespace NilStore.Website

open NilStore.Lib NilStore.Gateway

/-! ### What the gateway takes -/

/-- A host is written as it is, or is an IPv6 address in brackets. For an IP protocol the address
must parse, and for a name it must not be blank. -/
theorem multiaddrHost_cases {addrProto addr host : Str}
    (h : multiaddrHost addrProto addr = some host) :
    (addrProto = "ip6".toList ∧ host = '[' :: addr ++ [']'] ∧ (parseIP addr).isSome) ∨
      (addrProto = "ip4".toList ∧ host = addr ∧ (parseIP addr).isSome) ∨
      (addrProto = "dns".toList ∨ addrProto = "dns4".toList ∨ addrProto = "dns6".toList) ∧
        host = addr ∧
        trimSpace addr ≠ [] := by
  unfold multiaddrHost at h
  -- `ip4`, `ip6` and the names, in the order of the source
  split at h
  · rename_i hproto
    obtain ⟨ip, hip, hhost⟩ := Option.bind_eq_some_iff.mp h
    split at hhost
    · cases hhost
      exact .inr (.inl ⟨hproto, rfl, by rw [hip]; rfl⟩)
    · cases hhost
  split at h
  · rename_i hproto
    obtain ⟨ip, hip, hhost⟩ := Option.bind_eq_some_iff.mp h
    split at hhost
    · cases hhost
    · cases hhost
      exact .inl ⟨hproto, rfl, by rw [hip]; rfl⟩
  split at h
  · rename_i hproto
    split at h
    · cases h
    · rename_i hne
      cases h
      exact .inr (.inr ⟨hproto, rfl, hne⟩)
  · cases h

/-- A text that starts with a bracket is no address. -/
theorem parseIP_bracket (s : Str) : parseIP ('[' :: s) = none := by
  have hoctet (field : Str) : parseOctet ('[' :: field) = none := by
    rw [parseOctet, if_pos (.inr (.inl (by simp)))]
  have hv4 : parseIPv4 ('[' :: s) = none := by
    obtain ⟨first, rest, hpieces⟩ := List.exists_cons_of_ne_nil (List.splitOn_ne_nil '.' s)
    have hfields : ('[' :: s).splitOn '.' = ('[' :: first) :: rest := by
      rw [List.splitOn_cons_eq_if_modifyHead, if_neg (by decide), hpieces]
      rfl
    simp [parseIPv4, hfields, hoctet]
  have hv6 : parseIPv6 ('[' :: s) = none := by
    have hprefix : hasPrefix ('[' :: s) "::".toList = false := rfl
    have hfields : parseIPv6Fields 8 ('[' :: s) [] none = none := by
      rw [parseIPv6Fields]
      exact if_pos (.inl rfl)
    rw [parseIPv6, hprefix, hfields]
    rfl
  rw [parseIP, hv4, hv6]
  split
  · rfl
  · split <;> rfl
  · rfl

/-- The parts of an endpoint that the gateway takes. -/
structure Taken (s addrProto addr portStr scheme host : Str) (port : Int) : Prop where
  parts : s.splitOn '/' = [addrProto, addr, "tcp".toList, portStr, scheme]
  scheme : scheme = "http".toList ∨ scheme = "https".toList
  atoi_eq : atoi portStr = some port
  port_pos : 0 < port
  host : multiaddrHost addrProto addr = some host

/-- What an endpoint looks like that the gateway takes, and which URL it makes of it: five parts
with `tcp` in the middle, a port in range, and a scheme. -/
theorem httpBaseURLFromMultiaddr_taken {ep url : Str} (h : httpBaseURLFromMultiaddr ep = some url) :
    ∃ s addrProto addr portStr scheme host port, trimSpace ep = '/' :: s ∧
      Taken s addrProto addr portStr scheme host port ∧
      url = scheme ++ "://".toList ++ host ++ ":".toList ++ decimal port := by
  simp only [httpBaseURLFromMultiaddr] at h
  split at h
  · rename_i hslash
    obtain ⟨s, hs⟩ := List.isPrefixOf_iff_prefix.mp hslash
    rw [← hs] at h
    simp only [show ("/".toList ++ s).drop 1 = s from rfl] at h
    split at h
    · rename_i addrProto addr tcp portStr scheme hparts
      split at h
      · cases h
      split at h
      · cases h
      rename_i htcp hscheme
      obtain ⟨port, hport, h⟩ := Option.bind_eq_some_iff.mp h
      split at h
      · cases h
      rename_i hrange
      obtain ⟨host, hhost, rfl⟩ := Option.map_eq_some_iff.mp h
      have htcp := not_not.mp htcp
      subst htcp
      refine ⟨s, addrProto, addr, portStr, scheme, host, port, hs.symm,
        ⟨hparts, ?_, hport, ?_, hhost⟩, rfl⟩
      · by_contra hno
        exact hscheme (not_or.mp hno)
      · omega
    · cases h
  · cases h

section Taken

variable {s addrProto addr portStr scheme host : Str} {port : Int}

/-- An endpoint that is taken has one of the five address protocols. -/
theorem Taken.addrProto_mem (h : Taken s addrProto addr portStr scheme host port) :
    addrProto ∈ ["ip4".toList, "ip6".toList, "dns".toList, "dns4".toList, "dns6".toList] := by
  rcases multiaddrHost_cases h.host with ⟨rfl, -⟩ | ⟨rfl, -⟩ | ⟨rfl | rfl | rfl, -⟩ <;> decide

/-- An endpoint that is taken has an address. -/
theorem Taken.addr_ne_nil (h : Taken s addrProto addr portStr scheme host port) : addr ≠ [] := by
  rintro rfl
  rcases multiaddrHost_cases h.host with ⟨-, -, hip⟩ | ⟨-, -, hip⟩ | ⟨-, -, hne⟩
  · cases hip
  · cases hip
  · exact hne rfl

/-- No other part of a port can be read as a number. -/
theorem Taken.portStr_ne (h : Taken s addrProto addr portStr scheme host port) {t : Str}
    (ht : atoi t = none) :
    portStr ≠ t := by
  rintro rfl
  rw [h.atoi_eq] at ht
  cases ht

/-- The browser finds the five parts. -/
theorem Taken.segments_eq (h : Taken s addrProto addr portStr scheme host port) :
    segments ('/' :: s) = [addrProto, addr, "tcp".toList, portStr, scheme] := by
  have hsplit : ('/' :: s).splitOn '/' = [] :: s.splitOn '/' := by
    rw [List.splitOn_cons_eq_if_modifyHead, if_pos (by decide)]
  have hproto : addrProto ≠ [] := by
    rintro rfl
    exact absurd h.addrProto_mem (by decide)
  have hscheme : scheme ≠ [] := by
    rcases h.scheme with rfl | rfl <;> decide
  rw [segments, hsplit, h.parts]
  simp [hproto, h.addr_ne_nil, h.portStr_ne (t := []) rfl, hscheme]

/-- What the browser makes of an endpoint that the gateway takes. It looks for the first `tcp`
instead of counting the parts, and keeps the text of the port. -/
theorem Taken.multiaddrToHttpUrl_eq (h : Taken s addrProto addr portStr scheme host port) {ep : Str}
    (htrim : trim ep = '/' :: s) :
    multiaddrToHttpUrl ep =
      if addr = "tcp".toList ∨ ¬portStr.all Char.isDigit then none
      else some (
        (if addr = "https".toList ∨ scheme = "https".toList then "https".toList
          else "http".toList) ++
        "://".toList ++ addr ++ ":".toList ++ portStr) := by
  -- neither the protocol nor the port can be taken for `tcp` or `https`
  have hproto : addrProto ≠ "tcp".toList ∧ "https".toList ≠ addrProto := by
    refine ⟨?_, fun heq => ?_⟩
    · rintro rfl
      exact absurd h.addrProto_mem (by decide)
    · rw [← heq] at h
      exact absurd h.addrProto_mem (by decide)
  have hport : "https".toList ≠ portStr := (h.portStr_ne (t := "https".toList) rfl).symm
  have hscheme : ¬("http".toList ∉ [addrProto, addr, "tcp".toList, portStr, scheme] ∧
      "https".toList ∉ [addrProto, addr, "tcp".toList, portStr, scheme]) := by
    rcases h.scheme with rfl | rfl <;> simp
  have hhttps : "https".toList ∈ [addrProto, addr, "tcp".toList, portStr, scheme] ↔
      addr = "https".toList ∨ scheme = "https".toList := by
    have htcp : "https".toList ≠ "tcp".toList := by decide
    simp only [List.mem_cons, List.not_mem_nil, or_false, hproto.2, hport, htcp, false_or]
    exact or_congr eq_comm eq_comm
  have hprefix : hasPrefix ('/' :: s) "/".toList = true := rfl
  have hport' : portStr ≠ [] := h.portStr_ne (t := []) rfl
  simp only [multiaddrToHttpUrl, htrim, hprefix, if_true, h.segments_eq]
  by_cases haddr : addr = "tcp".toList
  · -- The part in front of the first `tcp` is no host.
    have hidx : List.idxOf "tcp".toList [addrProto, addr, "tcp".toList, portStr, scheme] = 1 := by
      rw [List.idxOf_cons_ne _ hproto.1, haddr, List.idxOf_cons_self]
    rw [hidx, if_pos (.inl (by decide)), if_pos (.inl haddr)]
  -- the part in front of `tcp` is the address
  · have hidx : List.idxOf "tcp".toList [addrProto, addr, "tcp".toList, portStr, scheme] = 2 := by
      rw [List.idxOf_cons_ne _ hproto.1, List.idxOf_cons_ne _ haddr, List.idxOf_cons_self]
    have hnot : ¬(2 < 2 ∨ [addrProto, addr, "tcp".toList, portStr, scheme].length ≤ 2 + 1) := by
      simp
    rw [hidx, if_neg hnot]
    show (if portStr = [] ∨ ¬portStr.all Char.isDigit then none else _) = _
    by_cases hdigits : portStr.all Char.isDigit
    · rw [if_neg (not_or.mpr ⟨hport', not_not.mpr hdigits⟩), if_neg hscheme,
        if_neg (not_or.mpr ⟨haddr, not_not.mpr hdigits⟩)]
      simp only [hhttps]
      rfl
    · rw [if_pos (.inr hdigits), if_pos (.inr hdigits)]

/-- The scheme that the browser finds, when the host is not in the way. -/
theorem Taken.scheme_eq (h : Taken s addrProto addr portStr scheme host port)
    (hscheme : addr = "https".toList → scheme = "https".toList) :
    (if addr = "https".toList ∨ scheme = "https".toList then "https".toList else "http".toList) =
      scheme := by
  split
  · rename_i hhttps
    exact (hhttps.elim hscheme id).symm
  · rename_i hhttp
    exact (h.scheme.resolve_right fun hs => hhttp (.inr hs)).symm

/-- A port is read back from its decimal text, and no other number has that text. -/
theorem atoi_decimal {n : Nat} {port : Int} (h : atoi (decimal n) = some port) : port = n := by
  -- the text begins with a digit, so there is no sign
  obtain ⟨c, rest, hcons⟩ := List.exists_cons_of_ne_nil (decimal_ne_nil n)
  have hdigit : c.isDigit = true :=
    isDigit_of_mem_decimal (n := n) (by rw [hcons]; exact List.mem_cons_self)
  have hread : atoi (decimal n) =
      (parseUint (decimal n)).bind fun m =>
        if m.toNat < 2 ^ 63 then some (m.toNat : Int) else none := by
    rw [hcons, atoi]
    · rintro digits heq
      cases heq
      cases hdigit
    · rintro digits heq
      cases heq
      cases hdigit
  rw [hread] at h
  obtain ⟨m, hm, hport⟩ := Option.bind_eq_some_iff.mp h
  split at hport
  · cases hport
    have hback := (parseUint_eq_some_iff.mp hm).2.2
    rw [decimal_natCast, Nat.ofDigitChars_toDigits (by decide) (by decide)] at hback
    rw [← hback]
  · cases hport

end Taken

/-- For an endpoint that the gateway takes, the browser gets the same address exactly when it is no
IPv6 address, its port is written in plain decimal digits, and its host is not taken for the part
`tcp` or for the scheme `https`. -/
theorem provider_urls_agree {ep s addrProto addr portStr scheme url : Str}
    (htrim : trim ep = trimSpace ep) (hep : trimSpace ep = '/' :: s)
    (hparts : s.splitOn '/' = [addrProto, addr, "tcp".toList, portStr, scheme])
    (h : httpBaseURLFromMultiaddr ep = some url) :
    multiaddrToHttpUrl ep = some url ↔
      addrProto ≠ "ip6".toList ∧ (∃ n : Nat, portStr = decimal n) ∧ addr ≠ "tcp".toList ∧
        (addr = "https".toList → scheme = "https".toList) := by
  obtain ⟨s', addrProto', addr', portStr', scheme', host, port, hep', ht, rfl⟩ :=
    httpBaseURLFromMultiaddr_taken h
  rw [hep] at hep'
  cases hep'
  have hsame := hparts.symm.trans ht.parts
  simp only [List.cons.injEq, and_true, true_and] at hsame
  obtain ⟨rfl, rfl, rfl, rfl⟩ := hsame
  rw [ht.multiaddrToHttpUrl_eq (htrim.trans hep)]
  constructor
  -- the URLs are equal, so their schemes, hosts and ports are
  · intro hsame
    split at hsame
    · cases hsame
    rename_i htaken
    have hurl := Option.some.inj hsame
    -- The first eight characters tell the schemes apart.
    have hscheme : addr = "https".toList → scheme = "https".toList := by
      intro haddr
      by_contra hne
      rw [if_pos (.inl haddr), ht.scheme.resolve_right hne] at hurl
      have hstart := congrArg (List.take 5) hurl
      exact absurd hstart (by simp)
    have hfront := ht.scheme_eq hscheme
    rw [hfront] at hurl
    simp only [List.append_assoc, List.append_cancel_left_eq] at hurl
    rcases multiaddrHost_cases ht.host with ⟨-, rfl, hip⟩ | hplain
    · -- The address does not start with the bracket.
      obtain ⟨c, rest, hcons⟩ := List.exists_cons_of_ne_nil ht.addr_ne_nil
      rw [hcons] at hurl hip
      obtain ⟨rfl, -⟩ := List.cons_eq_cons.mp hurl
      rw [parseIP_bracket] at hip
      cases hip
    -- the host is the address, and the rest is the port
    · have hhost : host = addr ∧ addrProto ≠ "ip6".toList := by
        rcases hplain with ⟨rfl, rfl, -⟩ | ⟨rfl | rfl | rfl, rfl, -⟩ <;> exact ⟨rfl, by decide⟩
      obtain ⟨rfl, hproto⟩ := hhost
      simp only [List.append_cancel_left_eq] at hurl
      refine ⟨hproto, ⟨port.toNat, ?_⟩, fun htcp => htaken (.inl htcp), hscheme⟩
      rw [Int.toNat_of_nonneg ht.port_pos.le]
      exact hurl
  · rintro ⟨hproto, ⟨n, rfl⟩, htcp, hscheme⟩
    have hhost : host = addr := by
      rcases multiaddrHost_cases ht.host with ⟨h6, -⟩ | ⟨-, hhost, -⟩ | ⟨-, hhost, -⟩
      · exact absurd h6 hproto
      · exact hhost
      · exact hhost
    have hdigits : (decimal (n : Int)).all Char.isDigit = true :=
      List.all_eq_true.mpr fun c hc => isDigit_of_mem_decimal hc
    have hfront := ht.scheme_eq hscheme
    rw [if_neg (not_or.mpr ⟨htcp, not_not.mpr hdigits⟩), hfront, hhost, atoi_decimal ht.atoi_eq]

/-- A DNS endpoint with white space around it. -/
theorem provider_urls_agree_dns :
    multiaddrToHttpUrl " /dns4/sp1.example/tcp/8080/https".toList =
      some "https://sp1.example:8080".toList := by
  have htrim : trim " /dns4/sp1.example/tcp/8080/https".toList =
      trimSpace " /dns4/sp1.example/tcp/8080/https".toList := by decide +kernel
  have hparts : "dns4/sp1.example/tcp/8080/https".toList.splitOn '/' =
      ["dns4".toList, "sp1.example".toList, "tcp".toList, "8080".toList,
        "https".toList] := by decide +kernel
  have htaken : httpBaseURLFromMultiaddr " /dns4/sp1.example/tcp/8080/https".toList =
      some "https://sp1.example:8080".toList := by decide +kernel
  refine (provider_urls_agree htrim (by decide +kernel) hparts htaken).mpr ?_
  exact ⟨by decide, ⟨8080, by decide +kernel⟩, by decide, by decide⟩

/-- The browser leaves out the brackets of an IPv6 address. -/
example :
    httpBaseURLFromMultiaddr "/ip6/::1/tcp/8080/http".toList = some "http://[::1]:8080".toList ∧
    multiaddrToHttpUrl "/ip6/::1/tcp/8080/http".toList =
      some "http://::1:8080".toList := by decide +kernel

end NilStore.Website
