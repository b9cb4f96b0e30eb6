-- SUMMARY: The endpoints of network readiness checks: which URLs and addresses are local, and that HTTP checks refuse the IPv6 loopback address.
import Procherd.Error
import Procherd.Format.Net
import Mathlib.Data.Bool.AllAny

/-!
# Endpoints

A TCP check names a socket address, an HTTP check a URL. Both are to be local.
The `url` crate is a parameter; a URL it returns is the record of its components.
-/

namespace Procherd

open Net

/-! ## The url crate -/

/-- `url::Host`. -/
inductive Host where
  | domain (name : String)
  | ipv4 (address : Ipv4Addr)
  | ipv6 (address : Ipv6Addr)
deriving DecidableEq

structure Url where
  scheme : String
  username : String
  password : Option String
  host : Option Host
  /-- The port, unless it is the default of the scheme. -/
  port : Option UInt16
  path : String
  query : Option String
deriving DecidableEq

class UrlCrate where
  /-- `Url::parse`; an error is its `Display`. -/
  parse : String → Except String Url
  /-- The text of an IPv6 address in a URL, without its brackets. -/
  displayIpv6 : Ipv6Addr → String

section UrlCrate

variable [UrlCrate]

/-- `Url::host_str`. -/
def Host.text : Host → String
  | .domain name => name
  | .ipv4 address => String.ofList address.display
  | .ipv6 address => "[" ++ UrlCrate.displayIpv6 address ++ "]"

/-- `Url::port_or_known_default`. -/
def Url.portOrKnownDefault (url : Url) : Option UInt16 :=
  url.port.or (if url.scheme = "http" ∨ url.scheme = "ws" then some 80
    else if url.scheme = "https" ∨ url.scheme = "wss" then some 443
    else if url.scheme = "ftp" then some 21
    else none)

/-- What the crate documents about the hosts of `http` URLs. -/
class LawfulUrlCrate : Prop where
  /-- A domain is in lower case, has no character that the syntax of an authority
      uses, and is not the text of an address. -/
  domain {value : String} {url : Url} {name : String} (h : UrlCrate.parse value = .ok url)
    (hscheme : url.scheme = "http") (hhost : url.host = some (.domain name)) :
    parseIpAddr name = none ∧ ':' ∉ name.toList ∧ '[' ∉ name.toList ∧
      ∀ c ∈ name.toList, c.toLower = c
  ipv6 {value : String} {url : Url} {address : Ipv6Addr} (h : UrlCrate.parse value = .ok url)
    (hhost : url.host = some (.ipv6 address)) :
    Net.ipv6 (UrlCrate.displayIpv6 address).toList = some (address, [])

/-! ## Local endpoints -/

/-- `eq_ignore_ascii_case("localhost")`. -/
def isLocalhost (host : String) : Bool := host.toList.map Char.toLower = "localhost".toList

/-- `local_socket_addresses`. -/
def localSocketAddresses (value : String) : Option (List SocketAddr) :=
  match parseSocketAddr value with
  | some address => if address.ip.isLoopback then some [address] else none
  | none =>
    if "localhost:".toList.isPrefixOf value.toList then
      (parseU16 (value.toList.drop 10)).map fun port =>
        [{ ip := .v4 .localhost, port }, { ip := .v6 .localhost, port }]
    else none

def notLoopback : AppError :=
  .usage "readiness HTTP host must be localhost or a loopback IP address"

/-- `validate_http_url`. -/
def validateHttpUrl (value : String) : Except AppError (Url × List SocketAddr) := do
  let url ← (UrlCrate.parse value).mapError fun error =>
    .usage ("invalid readiness HTTP URL: " ++ error)
  if url.scheme ≠ "http" then
    throw (.usage "version 0.1 readiness HTTP URLs must use http://")
  if url.username ≠ "" ∨ url.password.isSome then
    throw (.usage "readiness HTTP URLs must not contain credentials")
  let host ←
    match url.host with
    | none => throw (.usage "readiness HTTP URL has no host")
    | some host => pure host.text
  let port ←
    match url.portOrKnownDefault with
    | none => throw (.usage "readiness HTTP URL has no port")
    | some port => pure port.toNat
  let addresses ←
    if isLocalhost host then
      pure [{ ip := .v4 .localhost, port }, { ip := .v6 .localhost, port }]
    else
      match parseIpAddr host with
      | none => throw notLoopback
      | some ip =>
        if !ip.isLoopback then throw notLoopback
        pure [{ ip, port }]
  return (url, addresses)

/-- An `http` URL without credentials. -/
structure Url.Plain (url : Url) : Prop where
  scheme : url.scheme = "http"
  username : url.username = ""
  password : url.password = none

/-- The host is `localhost` or a loopback address. -/
def Host.isLocal : Host → Bool
  | .domain name => isLocalhost name
  | .ipv4 address => (IpAddr.v4 address).isLoopback
  | .ipv6 address => (IpAddr.v6 address).isLoopback

/-! ## What is accepted -/

variable {value : String} {url : Url} {host : Host}

omit [UrlCrate] in
theorem Url.Plain.port (h : url.Plain) : ∃ port, url.portOrKnownDefault = some port := by
  rw [portOrKnownDefault, if_pos (.inl h.scheme)]
  cases url.port with
  | none => exact ⟨80, rfl⟩
  | some port => exact ⟨port, rfl⟩

/-- Nothing but a plain URL with a host gets as far as its host. -/
theorem plain_of_validate {addresses : List SocketAddr}
    (h : validateHttpUrl value = .ok (url, addresses)) :
    UrlCrate.parse value = .ok url ∧ url.Plain ∧ ∃ host, url.host = some host := by
  simp only [validateHttpUrl, bind, Except.bind, throw, throwThe, MonadExceptOf.throw, pure,
    Except.pure] at h
  cases hparse : UrlCrate.parse value with
  | error e => rw [hparse] at h; cases h
  | ok parsed =>
    simp only [hparse, Except.mapError] at h
    split at h
    · cases h
    rename_i hscheme
    split at h
    · cases h
    rename_i hcredentials
    have ⟨husername, hpassword⟩ := not_or.mp hcredentials
    have hplain : parsed.Plain :=
      ⟨not_not.mp hscheme, not_not.mp husername, by simpa using hpassword⟩
    cases hhost : parsed.host with
    | none => simp only [hhost] at h; cases h
    | some host =>
      obtain rfl : parsed = url := by
        repeat' split at h
        all_goals cases h
        all_goals rfl
      exact ⟨rfl, hplain, host, hhost⟩

theorem validateHttpUrl_plain (hparse : UrlCrate.parse value = .ok url) (hplain : url.Plain)
    (hhost : url.host = some host) {port : UInt16} (hport : url.portOrKnownDefault = some port) :
    validateHttpUrl value =
      if isLocalhost host.text then
        .ok (url, [{ ip := .v4 .localhost, port := port.toNat },
          { ip := .v6 .localhost, port := port.toNat }])
      else
        match parseIpAddr host.text with
        | none => .error notLoopback
        | some ip =>
          if ip.isLoopback then .ok (url, [{ ip, port := port.toNat }])
          else .error notLoopback := by
  simp only [validateHttpUrl, hparse, hplain.scheme, hplain.username, hplain.password, hhost, hport,
    Except.mapError, bind, Except.bind, pure, Except.pure, throw, throwThe, MonadExceptOf.throw]
  simp only [ne_eq, not_true_eq_false, Option.isSome_none, Bool.false_eq_true, or_self, if_false]
  split
  · rfl
  · cases parseIpAddr host.text with
    | none => rfl
    | some ip => cases hloopback : ip.isLoopback <;> simp [hloopback]

omit [UrlCrate] in
theorem isLocalhost_display (address : Ipv4Addr) :
    isLocalhost (String.ofList address.display) = false := by
  have hdot : '.' ∈ address.display := by simp [Ipv4Addr.display]
  refine decide_eq_false fun heq => ?_
  rw [String.toList_ofList] at heq
  have hmem : Char.toLower '.' ∈ "localhost".toList := heq ▸ List.mem_map_of_mem hdot
  exact absurd hmem (by decide)

theorem isLocalhost_bracket (address : Ipv6Addr) : isLocalhost (Host.ipv6 address).text = false := by
  refine decide_eq_false fun heq => ?_
  simp [Host.text, String.toList_append] at heq

theorem parseIpAddr_ipv6 (address : Ipv6Addr) : parseIpAddr (Host.ipv6 address).text = none := by
  have htext : (Host.ipv6 address).text =
      String.ofList ('[' :: ((UrlCrate.displayIpv6 address).toList ++ [']'])) := by
    refine String.toList_inj.mp ?_
    simp [Host.text, String.toList_append]
  rw [htext, parseIpAddr_bracket]

/-- HTTP checks accept `localhost` and the IPv4 loopback addresses. -/
theorem validateHttpUrl_ok [LawfulUrlCrate] (hparse : UrlCrate.parse value = .ok url)
    (hplain : url.Plain) (hhost : url.host = some host) :
    (∃ r, validateHttpUrl value = .ok r) ↔ host.isLocal ∧ host ≠ .ipv6 .localhost := by
  obtain ⟨port, hport⟩ := hplain.port
  rw [validateHttpUrl_plain hparse hplain hhost hport]
  cases host with
  | domain name =>
    rw [Host.text, (LawfulUrlCrate.domain hparse hplain.scheme hhost).1, Host.isLocal]
    split
    · rename_i hlocal
      simp [hlocal]
    · rename_i hremote
      simp [hremote]
  | ipv4 address =>
    rw [Host.text, isLocalhost_display, parseIpAddr_display, Host.isLocal]
    cases hloopback : (IpAddr.v4 address).isLoopback <;> simp [hloopback]
  | ipv6 address =>
    rw [isLocalhost_bracket, parseIpAddr_ipv6, Host.isLocal]
    simp [IpAddr.isLoopback]

omit [UrlCrate] in
theorem eq_of_prefix_colon {a b t : List Char} (ha : ':' ∉ a) (hb : ':' ∉ b)
    (h : a ++ [':'] <+: b ++ ':' :: t) : a = b := by
  induction a generalizing b with
  | nil =>
    cases b with
    | nil => rfl
    | cons d b => exact absurd ((List.cons_prefix_cons.mp h).1 ▸ List.mem_cons_self) hb
  | cons c a ih =>
    cases b with
    | nil => exact absurd ((List.cons_prefix_cons.mp h).1 ▸ List.mem_cons_self) ha
    | cons d b =>
      obtain ⟨rfl, htail⟩ := List.cons_prefix_cons.mp h
      rw [ih (fun hmem => ha (List.mem_cons_of_mem _ hmem))
        (fun hmem => hb (List.mem_cons_of_mem _ hmem)) htail]

/-- TCP checks accept `localhost` and all loopback addresses. -/
theorem localSocketAddresses_isSome [LawfulUrlCrate] (hparse : UrlCrate.parse value = .ok url)
    (hplain : url.Plain) (hhost : url.host = some host) (port : UInt16) :
    (localSocketAddresses (host.text ++ ":" ++ toString port.toNat)).isSome ↔ host.isLocal := by
  have hport : port.toNat ≤ 65535 := Nat.le_of_lt_succ port.toNat_lt
  have htext (chars : List Char) (h : host.text.toList = chars) :
      host.text ++ ":" ++ toString port.toNat =
        String.ofList (chars ++ ':' :: Nat.toDigits 10 port.toNat) := by
    refine String.toList_inj.mp ?_
    simp [String.toList_append, h]
  cases host with
  | domain name =>
    obtain ⟨hname, hcolon, hbracket, hlower⟩ := LawfulUrlCrate.domain hparse hplain.scheme hhost
    rw [htext name.toList rfl, localSocketAddresses,
      parseSocketAddr_name (by rwa [String.ofList_toList]) hcolon hbracket]
    simp only [String.toList_ofList (l := name.toList ++ _)]
    have hlocal : isLocalhost name ↔ name.toList = "localhost".toList := by
      rw [isLocalhost, decide_eq_true_iff, List.map_congr_left hlower, List.map_id']
    have hpre : "localhost:".toList.isPrefixOf
        (name.toList ++ ':' :: Nat.toDigits 10 port.toNat) ↔ name.toList = "localhost".toList := by
      rw [List.isPrefixOf_iff_prefix]
      refine ⟨fun h => (eq_of_prefix_colon (by decide) hcolon h).symm, fun h => ?_⟩
      rw [h]
      exact List.prefix_append _ (Nat.toDigits 10 port.toNat)
    rw [Host.isLocal, hlocal]
    by_cases heq : name.toList = "localhost".toList
    · have hdrop : (name.toList ++ ':' :: Nat.toDigits 10 port.toNat).drop 10 =
          Nat.toDigits 10 port.toNat := by
        rw [heq]
        rfl
      rw [if_pos (hpre.mpr heq), hdrop, parseU16_toDigits hport]
      exact iff_of_true rfl heq
    · rw [if_neg (mt hpre.mp heq)]
      exact iff_of_false nofun heq
  | ipv4 address =>
    rw [htext address.display String.toList_ofList, localSocketAddresses,
      parseSocketAddr_display address hport, Host.isLocal]
    cases hloopback : (IpAddr.v4 address).isLoopback <;> simp [hloopback]
  | ipv6 address =>
    have hbracket : (Host.ipv6 address).text.toList =
        '[' :: ((UrlCrate.displayIpv6 address).toList ++ [']']) := by
      simp [Host.text, String.toList_append]
    rw [htext _ hbracket, localSocketAddresses, List.cons_append, List.append_assoc,
      List.singleton_append, parseSocketAddr_bracket (LawfulUrlCrate.ipv6 hparse hhost) hport,
      Host.isLocal]
    cases hloopback : (IpAddr.v6 address).isLoopback <;> simp [hloopback]

/-! ## Loopback endpoints -/

/-- What HTTP checks are to accept: exactly the local endpoints, which are those
    that TCP checks accept, and the addresses they probe are local. -/
structure AcceptsLocal (value : String) : Prop where
  accepts : (∃ r, validateHttpUrl value = .ok r) ↔
    ∃ url host, UrlCrate.parse value = .ok url ∧ url.Plain ∧ url.host = some host ∧ host.isLocal
  addresses : ∀ url addresses, validateHttpUrl value = .ok (url, addresses) →
    addresses ≠ [] ∧ ∀ address ∈ addresses, address.ip.isLoopback ∧
      url.portOrKnownDefault.map UInt16.toNat = some address.port
  tcp : ∀ url host port, UrlCrate.parse value = .ok url → url.Plain → url.host = some host →
    url.portOrKnownDefault = some port →
      ((∃ r, validateHttpUrl value = .ok r) ↔
        (localSocketAddresses (host.text ++ ":" ++ toString port.toNat)).isSome)

theorem http_loopback [LawfulUrlCrate] (value : String) :
    AcceptsLocal value ↔ ∀ url, UrlCrate.parse value = .ok url → url.Plain →
      url.host ≠ some (.ipv6 .localhost) := by
  constructor
  · intro h url hparse hplain hhost
    have hok := h.accepts.mpr ⟨url, _, hparse, hplain, hhost, by decide⟩
    exact ((validateHttpUrl_ok hparse hplain hhost).mp hok).2 rfl
  · intro hv6
    have hok {url : Url} {host : Host} (hparse : UrlCrate.parse value = .ok url)
        (hplain : url.Plain) (hhost : url.host = some host) :
        (∃ r, validateHttpUrl value = .ok r) ↔ host.isLocal := by
      rw [validateHttpUrl_ok hparse hplain hhost, and_iff_left]
      rintro rfl
      exact hv6 url hparse hplain hhost
    refine ⟨⟨?_, ?_⟩, ?_, ?_⟩
    · rintro ⟨⟨url, addresses⟩, hvalid⟩
      obtain ⟨hparse, hplain, host, hhost⟩ := plain_of_validate hvalid
      exact ⟨url, host, hparse, hplain, hhost, (hok hparse hplain hhost).mp ⟨_, hvalid⟩⟩
    · rintro ⟨url, host, hparse, hplain, hhost, hlocal⟩
      exact (hok hparse hplain hhost).mpr hlocal
    · intro url addresses hvalid
      obtain ⟨hparse, hplain, host, hhost⟩ := plain_of_validate hvalid
      obtain ⟨port, hport⟩ := hplain.port
      rw [validateHttpUrl_plain hparse hplain hhost hport] at hvalid
      rw [hport]
      split at hvalid
      · cases hvalid
        exact ⟨List.cons_ne_nil _ _, List.forall_mem_cons.mpr
          ⟨⟨rfl, rfl⟩, List.forall_mem_singleton.mpr ⟨rfl, rfl⟩⟩⟩
      split at hvalid
      · cases hvalid
      split at hvalid
      · rename_i hloopback
        cases hvalid
        exact ⟨List.cons_ne_nil _ _, List.forall_mem_singleton.mpr ⟨hloopback, rfl⟩⟩
      · cases hvalid
    · intro url host port hparse hplain hhost _
      rw [hok hparse hplain hhost, localSocketAddresses_isSome hparse hplain hhost]

end UrlCrate

end Procherd

namespace Procherd.Reference

open Net

def localhostUrl : Url :=
  { scheme := "http", username := "", password := none, host := some (.domain "localhost")
    port := none, path := "/", query := none }

def ipv6Url : Url := { localhostUrl with host := some (.ipv6 .localhost), port := some 8080 }

/-- The crate on two URLs. -/
scoped instance urlCrate : UrlCrate where
  parse value :=
    if value = "http://localhost/" then .ok localhostUrl
    else if value = "http://[::1]:8080/" then .ok ipv6Url
    else .error "relative URL without a base"
  displayIpv6 _ := "::1"

theorem parse_urls {value : String} {url : Url} (h : UrlCrate.parse value = .ok url) :
    url = localhostUrl ∨ url = ipv6Url := by
  simp only [UrlCrate.parse] at h
  repeat' split at h
  all_goals cases h
  · exact .inl rfl
  · exact .inr rfl

scoped instance : LawfulUrlCrate where
  domain h _ hhost := by
    rcases parse_urls h with rfl | rfl
    · cases hhost
      exact ⟨by decide +kernel, by decide +kernel, by decide +kernel,
        List.all_iff_forall_prop.mp rfl⟩
    · cases hhost
  ipv6 h hhost := by
    rcases parse_urls h with rfl | rfl
    · cases hhost
    · cases hhost
      decide +kernel

theorem http_loopback_localhost : AcceptsLocal "http://localhost/" := by
  refine (http_loopback _).mpr fun url hparse _ hhost => ?_
  cases hparse
  cases hhost

/-- The host of the URL is `[::1]`, which is no address without its brackets. -/
theorem http_loopback_ipv6 :
    validateHttpUrl "http://[::1]:8080/" = .error notLoopback ∧
    localSocketAddresses "[::1]:8080" = some [{ ip := .v6 .localhost, port := 8080 }] ∧
    ¬ AcceptsLocal "http://[::1]:8080/" := by
  have hrefused : validateHttpUrl "http://[::1]:8080/" = .error notLoopback := by rfl
  refine ⟨hrefused, by decide +kernel, fun h => ?_⟩
  obtain ⟨r, hr⟩ := h.accepts.mpr ⟨ipv6Url, .ipv6 .localhost, rfl, ⟨rfl, rfl, rfl⟩, rfl, by decide⟩
  cases hrefused.symm.trans hr

end Procherd.Reference
