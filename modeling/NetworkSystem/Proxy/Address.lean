import NetworkSystem.Proxy.Request

/-! `parse_address` against the way a URI is put together, and the request that is sent for
it. -/

namespace NetworkSystem.Proxy

open Bytes
open Dfc (atoi atoi_digits isDigit isSpace)

/-- The parts of a URI: `http://` in some letter case, a host, and, if it has them, a port
and a path. -/
structure Uri where
  scheme : Bytes
  host : Bytes
  port : Option Bytes
  path : Option Bytes
  scheme_http : lower scheme = ascii "http://"
  host_some : host ≠ []
  host_clean : ∀ byte ∈ host, byte ≠ 0 ∧ isHostEnd byte = false
  port_decimal : ∀ digits ∈ port,
    digits ≠ [] ∧ (∀ byte ∈ digits, isDigit byte = true) ∧ ofDigits digits ≤ 65535
  path_clean : ∀ text ∈ path, ∀ byte ∈ text, byte ≠ 0 ∧ isSpace byte = false

namespace Uri

variable (uri : Uri)

def pathPart : Bytes :=
  match uri.path with
  | none => []
  | some path => 47 :: path

def behindHost : Bytes :=
  match uri.port with
  | none => uri.pathPart
  | some digits => 58 :: (digits ++ uri.pathPart)

def text : Bytes := uri.scheme ++ (uri.host ++ uri.behindHost)

/-- What the parts say: the port is 80 where none is given, and a path that is not given is
empty. -/
def target : Target where
  address := uri.host
  port := match uri.port with
    | none => 80
    | some digits => ofDigits digits
  path := uri.path.getD []

theorem scheme_length : uri.scheme.length = 7 := by
  have same := congrArg List.length uri.scheme_http
  rwa [lower, List.length_map] at same

theorem pathPart_head? : uri.pathPart.head? = none ∨ uri.pathPart.head? = some 47 := by
  rw [pathPart]
  cases uri.path with
  | none => exact Or.inl rfl
  | some path => exact Or.inr rfl

theorem behindHost_head? :
    uri.behindHost.head? = none ∨ uri.behindHost.head? = some 47 ∨
      uri.behindHost.head? = some 58 := by
  rw [behindHost]
  cases uri.port with
  | none => exact uri.pathPart_head?.imp_right Or.inl
  | some digits => exact Or.inr (Or.inr rfl)

theorem behindHost_ends :
    uri.behindHost.takeWhile (fun byte => !isHostEnd byte) = [] ∧
      uri.behindHost.dropWhile (fun byte => !isHostEnd byte) = uri.behindHost := by
  have head := uri.behindHost_head?
  cases behind : uri.behindHost with
  | nil => exact ⟨rfl, rfl⟩
  | cons byte rest =>
      have ends : isHostEnd byte = true := by
        rw [behind, List.head?_cons] at head
        rcases head with none_ | slash | colon
        · cases none_
        · rw [Option.some.inj slash]
          decide
        · rw [Option.some.inj colon]
          decide
      have stops : ¬ (!isHostEnd byte) = true := by
        rw [ends]
        exact Bool.false_ne_true
      exact ⟨List.takeWhile_cons_of_neg stops, List.dropWhile_cons_of_neg stops⟩

theorem host_open : ∀ byte ∈ uri.host, (!isHostEnd byte) = true := by
  intro byte member
  rw [(uri.host_clean byte member).2]
  rfl

theorem port_read :
    (if uri.behindHost.head? = some 58 then atoi (uri.behindHost.drop 1) else DEFAULT_PORT) =
      uri.target.port := by
  rw [behindHost, target]
  cases given : uri.port with
  | none =>
      have other : ¬ uri.pathPart.head? = some 58 := by
        rcases uri.pathPart_head? with none_ | slash
        · rw [none_]
          exact nofun
        · rw [slash]
          decide
      simp only
      rw [if_neg other]
      rfl
  | some digits =>
      have decimal := uri.port_decimal digits given
      have stop : uri.pathPart.head?.map isDigit ≠ some true := by
        rcases uri.pathPart_head? with none_ | slash
        · rw [none_]
          exact nofun
        · rw [slash]
          decide
      exact atoi_digits digits _ decimal.1 decimal.2.1 stop

theorem path_read : ((uri.host ++ uri.behindHost).dropWhile (· ≠ 47)).drop 1 = uri.target.path := by
  have host : ∀ byte ∈ uri.host, decide (byte ≠ 47) = true := by
    intro byte member
    have open_ := (uri.host_clean byte member).2
    apply decide_eq_true
    intro slash
    rw [slash] at open_
    exact absurd open_ (by decide)
  have last : uri.pathPart.dropWhile (· ≠ 47) = uri.pathPart ∧
      uri.pathPart.drop 1 = uri.path.getD [] := by
    rw [pathPart]
    cases uri.path with
    | none => exact ⟨rfl, rfl⟩
    | some path => exact ⟨List.dropWhile_cons_of_neg (by simp), rfl⟩
  have found : uri.behindHost.dropWhile (· ≠ 47) = uri.pathPart := by
    rw [behindHost]
    cases given : uri.port with
    | none => exact last.1
    | some digits =>
        have clean : ∀ byte ∈ 58 :: digits, decide (byte ≠ 47) = true := by
          intro byte member
          apply decide_eq_true
          intro slash
          rw [slash] at member
          rcases List.mem_cons.mp member with colon | digit
          · exact absurd colon (by decide)
          · exact absurd ((uri.port_decimal digits given).2.1 47 digit) (by decide)
        change (58 :: digits ++ uri.pathPart).dropWhile (· ≠ 47) = uri.pathPart
        rw [List.dropWhile_append_of_pos clean, last.1]
  rw [List.dropWhile_append_of_pos host, found, last.2]
  rfl

/-- `parse_address` finds the parts of a URI. -/
theorem parseAddress_text : parseAddress uri.text = some uri.target := by
  have front : uri.text.take 7 = uri.scheme ∧ uri.text.drop 7 = uri.host ++ uri.behindHost := by
    rw [text, ← uri.scheme_length]
    exact ⟨List.take_left, List.drop_left⟩
  have open_ := uri.host_open
  rw [parseAddress, front.1, if_pos uri.scheme_http, front.2]
  dsimp only
  rw [uri.path_read]
  simp only [List.takeWhile_append_of_pos open_, List.dropWhile_append_of_pos open_,
    uri.behindHost_ends.1, uri.behindHost_ends.2, uri.port_read, List.append_nil]
  rfl

end Uri

theorem length_requestText (address path version : Bytes) :
    (requestText address path version).length =
      address.length + path.length + version.length + 18 := by
  have texts : (ascii "GET /").length = 5 ∧ (ascii " ").length = 1 ∧
      (ascii "\r\nHost: ").length = 8 ∧ (ascii "\r\n\r\n").length = 4 := by decide
  simp only [requestText, List.length_append]
  omega

theorem sendRequest_eq_some_iff (address path version sent : Bytes) :
    sendRequest address path version = some sent ↔
      address.length + path.length + version.length + 19 ≤ MAXBUF ∧
        requestText address path version = sent := by
  rw [sendRequest, storeText_eq_some, length_requestText]
  exact and_congr_left (fun _ => by omega)

/-- The parts that a URI is put together from are found again, and the request asks for its
path on its host exactly when it fits the buffer. -/
theorem address_inverted_iff (uri : Uri) (version : Bytes) :
    parseAddress uri.text = some uri.target ∧
    ((∃ target, parseAddress uri.text = some target ∧
        sendRequest target.address target.path version =
          some (ascii "GET /" ++ uri.path.getD [] ++ ascii " " ++ version ++
            ascii "\r\nHost: " ++ uri.host ++ ascii "\r\n\r\n")) ↔
      uri.host.length + (uri.path.getD []).length + version.length + 19 ≤ MAXBUF) := by
  refine ⟨uri.parseAddress_text, ?_⟩
  simp only [uri.parseAddress_text, Option.some.injEq, exists_eq_left', sendRequest_eq_some_iff]
  exact and_iff_left rfl

/-- A URI whose request fills the buffer of `read_request`. -/
def longUri : Uri where
  scheme := ascii "http://"
  host := ascii "h"
  port := none
  path := some (List.replicate 4069 120)
  scheme_http := by decide
  host_some := by decide
  host_clean := by
    intro byte member
    rw [List.eq_of_mem_singleton member]
    decide
  port_decimal := nofun
  path_clean := by
    intro text given byte member
    rw [← Option.some.inj given] at member
    rw [List.eq_of_mem_replicate member]
    decide

def longRequest : Bytes := ascii "GET " ++ longUri.text ++ ascii " HTTP/1.0\r\n\r\n"

theorem longUri_length : longUri.text.length = 4078 := by
  change (ascii "http://" ++ (ascii "h" ++ 47 :: List.replicate 4069 120)).length = 4078
  rw [List.length_append, List.length_append, List.length_cons, List.length_replicate]
  rfl

theorem longRequest_length : longRequest.length = 4095 := by
  rw [longRequest, List.length_append, List.length_append, longUri_length]
  rfl

/-- The request that is made from it has one byte more than it came with, and one too many. -/
theorem longUri_unsent :
    sendRequest longUri.target.address longUri.target.path (ascii "HTTP/1.0") = none := by
  have host : longUri.target.address.length = 1 := rfl
  have path : longUri.target.path.length = 4069 := List.length_replicate
  have version : (ascii "HTTP/1.0").length = 8 := rfl
  have limit : MAXBUF = 4096 := rfl
  have long : ¬ (requestText longUri.target.address longUri.target.path
      (ascii "HTTP/1.0")).length < MAXBUF := by
    rw [length_requestText, host, path, version, limit]
    omega
  rw [sendRequest, storeText, if_neg long]

theorem address_not_asked :
    longRequest.length < MAXBUF ∧
    ¬ ∃ target, parseAddress longUri.text = some target ∧
      sendRequest target.address target.path (ascii "HTTP/1.0") =
        some (ascii "GET /" ++ longUri.path.getD [] ++ ascii " " ++ ascii "HTTP/1.0" ++
          ascii "\r\nHost: " ++ longUri.host ++ ascii "\r\n\r\n") := by
  refine ⟨longRequest_length ▸ by decide, ?_⟩
  intro found
  rcases found with ⟨target, parsed, sent⟩
  rw [longUri.parseAddress_text, Option.some.injEq] at parsed
  subst parsed
  rw [longUri_unsent] at sent
  exact Bool.false_ne_true (congrArg Option.isSome sent)

end NetworkSystem.Proxy
