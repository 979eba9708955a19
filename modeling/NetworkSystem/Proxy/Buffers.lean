import NetworkSystem.Proxy.Address

/-! The arrays of the proxy: which requests are rebuilt inside the buffer of `send_request`,
and which log entries fit. -/

namespace NetworkSystem.Proxy

open Bytes
open Dfc (formatInt isSpace)

/-- The host that a URI names, and its path without the first slash. -/
def hostOf (uri : Bytes) : Bytes := (uri.drop 7).takeWhile (fun byte => !isHostEnd byte)

def pathOf (uri : Bytes) : Bytes := ((uri.drop 7).dropWhile (· ≠ 47)).drop 1

theorem parseAddress_parts {uri : Bytes} {target : Target}
    (parsed : parseAddress uri = some target) :
    7 ≤ uri.length ∧ target.address = hostOf uri ∧ target.path = pathOf uri := by
  rw [parseAddress] at parsed
  split_ifs at parsed with http
  have same := congrArg List.length http
  rw [lower, List.length_map, List.length_take] at same
  have scheme : (ascii "http://").length = 7 := rfl
  refine ⟨by omega, ?_⟩
  rw [← Option.some.inj parsed]
  exact ⟨rfl, rfl⟩

theorem sendRequest_isSome_iff (address path version : Bytes) :
    (sendRequest address path version).isSome = true ↔
      address.length + path.length + version.length + 19 ≤ MAXBUF := by
  rw [Option.isSome_iff_exists]
  simp only [sendRequest_eq_some_iff, exists_and_left, exists_eq', and_true]

theorem length_logEntry (date : Bytes) (peer : UInt32) (uri : Bytes) (size : Int) :
    (logEntry date peer uri size).length =
      date.length + (dotted peer).length + uri.length + (formatInt size).length + 4 := by
  have texts : (ascii ": ").length = 2 ∧ (ascii " ").length = 1 := by decide
  simp only [logEntry, List.length_append]
  omega

theorem formatLogEntry_isSome_iff (logString date : Bytes) (peer : Option UInt32) (uri : Bytes)
    (size : Int) :
    (formatLogEntry logString date peer uri size).isSome = true ↔
      ∀ address ∈ peer, date.length + (dotted address).length + uri.length +
        (formatInt size).length + 4 < 1024 := by
  cases peer with
  | none => exact ⟨fun _ => nofun, fun _ => rfl⟩
  | some peer =>
      rw [formatLogEntry, Option.isSome_map, Option.isSome_iff_exists]
      simp only [storeText_eq_some, length_logEntry, exists_and_left, exists_eq', and_true,
        Option.mem_some_iff, forall_eq']

/-- The buffers of the proxy suffice for a request that it accepts exactly when host, path
and version have at most 4077 bytes, and the entry of the log less than 1024. -/
theorem proxy_buffers_suffice_iff (stack : Stack) (request logString date : Bytes)
    (peer : Option UInt32) (size : Int) (target : Target) (uri version : Bytes)
    (ended : stack.buf[request.length]? = some 0)
    (accepted : readRequest stack (some request) = .accepted target uri version) :
    ((sendRequest target.address target.path (cstr version)).isSome = true ∧
        (formatLogEntry logString date peer (cstr uri) size).isSome = true) ↔
      (hostOf (uriOf stack request)).length + (pathOf (uriOf stack request)).length +
          (versionOf stack request).length + 19 ≤ MAXBUF ∧
        ∀ address ∈ peer, date.length + (dotted address).length +
          (uriOf stack request).length + (formatInt size).length + 4 < 1024 := by
  rcases accepted_parts ended accepted with ⟨-, parsed, uri_, version_⟩
  rcases parseAddress_parts parsed with ⟨-, host, path⟩
  rw [sendRequest_isSome_iff, formatLogEntry_isSome_iff, uri_, version_, host, path]

def freshStack : Stack where
  buf := zeros MAXBUF
  method := zeros MAXBUF
  uri := zeros MAXBUF
  version := zeros MAXBUF
  buf_size := List.length_replicate
  method_size := List.length_replicate
  uri_size := List.length_replicate
  version_size := List.length_replicate

theorem freshStack_ended {request : Bytes} (short : request.length < MAXBUF) :
    freshStack.buf[request.length]? = some 0 :=
  List.getElem?_replicate_of_lt short

/-- What `strftime` gives at some time. -/
def someDate : Bytes := ascii "Mon 05 Oct 2015 12:00:00 MDT"

def shortRequest : Bytes := ascii "GET http://h/p HTTP/1.0\r\n\r\n"

theorem proxy_buffers_suffice_iff_short :
    ((sendRequest (ascii "h") (ascii "p")
          (cstr (stored freshStack.version (some (ascii "HTTP/1.0"))))).isSome = true ∧
        (formatLogEntry [] someDate (some 2130706433)
          (cstr (stored freshStack.uri (some (ascii "http://h/p")))) 0).isSome = true) ↔
      (hostOf (uriOf freshStack shortRequest)).length +
          (pathOf (uriOf freshStack shortRequest)).length +
          (versionOf freshStack shortRequest).length + 19 ≤ MAXBUF ∧
        ∀ address ∈ some 2130706433, someDate.length + (dotted address).length +
          (uriOf freshStack shortRequest).length + (formatInt 0).length + 4 < 1024 := by
  have ended : freshStack.buf[shortRequest.length]? = some 0 := freshStack_ended (by decide)
  have words : requestWords shortRequest =
      ascii "GET" :: ascii "http://h/p" :: ascii "HTTP/1.0" :: [] := by decide +kernel
  have parsed : parseAddress (ascii "http://h/p") = some ⟨ascii "h", 80, ascii "p"⟩ := by
    decide +kernel
  exact proxy_buffers_suffice_iff freshStack shortRequest [] someDate (some 2130706433) 0
    ⟨ascii "h", 80, ascii "p"⟩ _ _ ended (readRequest_get ended words (by decide) parsed)

theorem longUri_word : ∀ byte ∈ longUri.text, isSpace byte = false ∧ byte ≠ 0 := by
  have shape : longUri.text = ascii "http://h/" ++ List.replicate 4069 120 := by
    have front : ascii "http://h/" = ascii "http://" ++ (ascii "h" ++ [47]) := rfl
    rw [front, List.append_assoc, List.append_assoc]
    rfl
  have host : (ascii "http://h/").all (fun byte => isSpace byte = false ∧ byte ≠ 0) = true := by
    decide
  intro byte member
  rw [shape] at member
  rcases List.mem_append.mp member with front | path
  · exact of_decide_eq_true (List.all_eq_true.mp host byte front)
  · rw [List.eq_of_mem_replicate path]
    decide

theorem longRequest_words :
    requestWords longRequest = ascii "GET" :: longUri.text :: ascii "HTTP/1.0" :: [] := by
  have shape : longRequest = ascii "GET" ++ 32 :: (longUri.text ++ 32 ::
      (ascii "HTTP/1.0" ++ 13 :: [10, 13, 10])) := by
    have front : ascii "GET " = ascii "GET" ++ [32] := rfl
    have back : ascii " HTTP/1.0\r\n\r\n" = 32 :: (ascii "HTTP/1.0" ++ 13 :: [10, 13, 10]) := rfl
    rw [longRequest, front, back, List.append_assoc, List.append_assoc, List.singleton_append]
  have clean : 0 ∉ longRequest := by
    intro zero
    rw [shape] at zero
    rcases List.mem_append.mp zero with front | later
    · exact absurd front (by decide)
    · rcases List.mem_cons.mp later with space | later
      · exact absurd space (by decide)
      · rcases List.mem_append.mp later with uri | back
        · exact (longUri_word 0 uri).2 rfl
        · exact absurd back (by decide)
  have uri : Fields.fields isSpace longUri.text = [longUri.text] :=
    Fields.fields_single isSpace _ (by rw [← List.length_pos_iff, longUri_length]; decide)
      (fun byte member => (longUri_word byte member).1)
  have method : Fields.fields isSpace (ascii "GET") = [ascii "GET"] := by decide +kernel
  have version : Fields.fields isSpace (ascii "HTTP/1.0" ++ 13 :: [10, 13, 10]) =
      [ascii "HTTP/1.0"] := by decide +kernel
  calc requestWords longRequest
      = Fields.fields isSpace longRequest := by rw [requestWords, cstr_of_clean clean]
    _ = Fields.fields isSpace (ascii "GET") ++ (Fields.fields isSpace longUri.text ++
          Fields.fields isSpace (ascii "HTTP/1.0" ++ 13 :: [10, 13, 10])) := by
        rw [shape, Fields.fields_append_cons _ _ _ 32 rfl, Fields.fields_append_cons _ _ _ 32 rfl]
    _ = ascii "GET" :: longUri.text :: ascii "HTTP/1.0" :: [] := by
        rw [method, uri, version]
        rfl

theorem proxy_buffers_overrun :
    longRequest.length < MAXBUF ∧ freshStack.buf[longRequest.length]? = some 0 ∧
    ∃ target uri version,
      readRequest freshStack (some longRequest) = .accepted target uri version ∧
      ¬ (sendRequest target.address target.path (cstr version)).isSome = true ∧
      ¬ (formatLogEntry [] someDate (some 2130706433) (cstr uri) 0).isSome = true := by
  have short : longRequest.length < MAXBUF := longRequest_length ▸ by decide
  have uri : cstr (stored freshStack.uri (some longUri.text)) = longUri.text :=
    cstr_append_zero _ _ (fun zero => (longUri_word 0 zero).2 rfl)
  have version : cstr (stored freshStack.version (some (ascii "HTTP/1.0"))) = ascii "HTTP/1.0" :=
    cstr_append_zero _ _ (by decide)
  refine ⟨short, freshStack_ended short, longUri.target, _, _,
    readRequest_get (freshStack_ended short) longRequest_words (by decide)
      longUri.parseAddress_text, ?_, ?_⟩
  · rw [version, longUri_unsent]
    exact Bool.false_ne_true
  · rw [uri, formatLogEntry_isSome_iff, longUri_length]
    intro fits
    exact absurd (fits 2130706433 rfl) (by omega)

end NetworkSystem.Proxy
