import NetworkSystem.Http.Bounds
import NetworkSystem.Lib.Fields

/-! What `parse_http_req` makes of a request that stays within its arrays, and what the
request is: a first line, header lines up to an empty one, and a body. -/

namespace NetworkSystem.Http

open Bytes

/-! The parse, without the arrays. -/

/-- The type that is stored for the file of a request; empty when there is none. -/
def requestType (conf : Config) (buf : Bytes) : Bytes :=
  (getContentType conf (requestUri conf buf)).getD []

def lineRequest (conf : Config) (buf : Bytes) : ParsedReq :=
  let req := parseMethod ((requestTokens buf).getD 0 []) ParsedReq.zero
  let req := { req with uri := requestUri conf buf, contentType := requestType conf buf }
  let req := if req.contentType.length = 0 then { req with errorCode := ERR_NOT_IMPLEMENTED }
    else req
  parseVersion ((requestTokens buf).getD 2 []) req

def applyField (req : ParsedReq) (field : Bytes × Bytes) : ParsedReq :=
  if field.1 = ascii "host" then { req with host := field.2 }
  else if field.1 = ascii "connection" then
    { req with keepAlive := if field.2 = ascii "keep-alive" then 1 else 0 }
  else req

section

variable [Overlapping]

def headerName (line : Bytes) : Bytes := (strip (splitFirst (lower line) 58).1 32).getD []

def headerValue (line : Bytes) : Bytes := (strip (splitFirst (lower line) 58).2 32).getD []

/-- What a header line stores that is readable. -/
def applyHeader (req : ParsedReq) (line : Bytes) : ParsedReq :=
  applyField req (headerName line, headerValue line)

end

def headerTexts (lines : List Bytes) : List Bytes :=
  (lines.map removeEndl).takeWhile (· ≠ [])

def parsedRequest [Overlapping] (conf : Config) (buf : Bytes) : ParsedReq :=
  if (requestTokens buf).length < 3 then { ParsedReq.zero with errorCode := ERR_BAD_REQUEST }
  else
    let lines := (tokens buf [10]).drop 1
    { (headerTexts lines).foldl applyHeader (lineRequest conf buf) with postData := bodyText lines }

theorem parseHeader_eq [Overlapping] (line : Bytes) (req : ParsedReq)
    (fits : (splitFirst (lower line) 58).1.length < 128 ∧
      (splitFirst (lower line) 58).2.length < 128)
    (read : Readable (lower line)) :
    parseHeader line req = some (applyHeader req line) := by
  obtain ⟨name, first, second⟩ := read
  have named : headerName line = name := by rw [headerName, first, Option.getD_some]
  have parts : splitHeader line = some (name, (splitFirst (lower line) 58).2) := by
    rw [Option.mem_def] at first
    simp only [splitHeader, storeText, fits, ↓reduceIte, first, Option.map_some]
  simp only [parseHeader, parts, applyHeader, applyField, named]
  by_cases listed : name ∈ [ascii "host", ascii "connection"]
  · obtain ⟨value, stripped⟩ := Option.isSome_iff_exists.mp (second listed)
    have size := length_strip_le stripped
    have stored : storeText 256 value = some value := storeText_eq_some.mpr ⟨by omega, rfl⟩
    simp only [headerValue, stripped, Option.bind_some, stored, Option.getD_some]
    split_ifs <;> rfl
  · simp only [List.mem_cons, List.not_mem_nil, or_false, not_or] at listed
    rw [if_neg listed.1, if_neg listed.2, if_neg listed.1, if_neg listed.2]

theorem headerTexts_cons (line : Bytes) (rest : List Bytes) (filled : removeEndl line ≠ []) :
    headerTexts (line :: rest) = removeEndl line :: headerTexts rest := by
  rw [headerTexts, List.map_cons, List.takeWhile_cons_of_pos (by simpa using filled)]
  rfl

theorem headerTexts_blank (line : Bytes) (rest : List Bytes) (blank : removeEndl line = []) :
    headerTexts (line :: rest) = [] := by
  rw [headerTexts, List.map_cons, List.takeWhile_cons_of_neg (by simpa using blank)]

theorem parseHeaders_eq [Overlapping] (lines : List Bytes) (req : ParsedReq)
    (fits : ∀ line ∈ headerLines lines,
      (splitFirst line 58).1.length < 128 ∧ (splitFirst line 58).2.length < 128)
    (read : ∀ line ∈ headerLines lines, Readable line) :
    parseHeaders lines req = some ((headerTexts lines).foldl applyHeader req, bodyLines lines) := by
  induction lines generalizing req with
  | nil => rfl
  | cons line rest ih =>
      by_cases blank : removeEndl line = []
      · have body : bodyLines (line :: rest) = rest := by
          rw [bodyLines, List.dropWhile_cons_of_neg (by simpa using blank), List.drop_one,
            List.tail_cons]
        simp only [parseHeaders, blank, ↓reduceIte, headerTexts_blank line rest blank, body,
          List.foldl_nil]
      · have body : bodyLines (line :: rest) = bodyLines rest := by
          rw [bodyLines, List.dropWhile_cons_of_pos (by simpa using blank)]
          rfl
        have texts := headerTexts_cons line rest blank
        have heads : headerLines (line :: rest) = lower (removeEndl line) :: headerLines rest := by
          change (headerTexts (line :: rest)).map lower = _
          rw [texts]
          rfl
        rw [heads, List.forall_mem_cons] at fits read
        simp only [parseHeaders, blank, ↓reduceIte, parseHeader_eq _ req fits.1 read.1,
          ih (applyHeader req (removeEndl line)) fits.2 read.2, texts, body, List.foldl_cons]

theorem parseRequestLine_eq (conf : Config) (buf : Bytes) (type : Bytes)
    (sizes : ∀ token ∈ requestTokens buf, token.length < 128)
    (found : getContentType conf (requestUri conf buf) = some type) :
    parseRequestLine conf (requestTokens buf) ParsedReq.zero = some (lineRequest conf buf) := by
  have uri : storeUri conf ((requestTokens buf).getD 1 []) = some (requestUri conf buf) :=
    storeUri_eq conf _ (length_getD_lt (by omega) sizes 1)
  have stored : requestType conf buf = type := by rw [requestType, found, Option.getD_some]
  simp only [parseRequestLine, uri, found, lineRequest, stored]

theorem foldl_applyHeader_keeps [Overlapping] (lines : List Bytes) (req : ParsedReq) :
    let next := lines.foldl applyHeader req
    next = { req with host := next.host, keepAlive := next.keepAlive } := by
  induction lines generalizing req with
  | nil => rfl
  | cons line rest ih =>
      simp only [List.foldl_cons] at ih ⊢
      rw [ih, applyHeader, applyField]
      split_ifs <;> rfl

theorem parseHttpReq_read [Overlapping] (conf : Config) (buf : Bytes) (fits : Fits conf buf)
    (read : 3 ≤ (requestTokens buf).length → HeadersRead buf) :
    parseHttpReq conf buf = some (parsedRequest conf buf) := by
  have lines : storeTokens 32 256 (tokens buf [10]) = some (tokens buf [10]) :=
    storeTokens_eq_some.mpr ⟨⟨fits.lines, fits.lineSizes⟩, rfl⟩
  have words : storeTokens 4 128 (tokens (removeEndl ((tokens buf [10]).getD 0 [])) [32]) =
      some (requestTokens buf) := storeTokens_eq_some.mpr ⟨⟨fits.tokens, fits.tokenSizes⟩, rfl⟩
  by_cases few : (requestTokens buf).length < 3
  · simp only [parseHttpReq, lines, words, parsedRequest, few, ↓reduceIte]
    split_ifs <;> rfl
  · have parts := fits.parts (by omega)
    have some_ : (tokens buf [10]).length ≠ 0 := by
      intro empty
      rw [requestTokens, List.eq_nil_of_length_eq_zero empty] at few
      exact few (by decide)
    obtain ⟨type, found⟩ := Option.isSome_iff_exists.mp
      ((getContentType_isSome conf (requestUri conf buf)).mpr ⟨parts.extension, parts.contentType⟩)
    have line := parseRequestLine_eq conf buf type fits.tokenSizes found
    have headers := parseHeaders_eq _ (lineRequest conf buf) parts.headers (read (by omega))
    have bare : (lineRequest conf buf).postData = [] :=
      (parseRequestLine_sets conf _ _ _ line).1
    have kept : ((headerTexts ((tokens buf [10]).drop 1)).foldl applyHeader
        (lineRequest conf buf)).postData = [] := by
      rw [foldl_applyHeader_keeps]
      exact bare
    have body := appendLines_eq (bodyLines ((tokens buf [10]).drop 1)) [] (Nat.zero_lt_succ _)
    have stored : storeText 2048 (bodyText ((tokens buf [10]).drop 1)) =
        some (bodyText ((tokens buf [10]).drop 1)) := storeText_eq_some.mpr ⟨parts.body, rfl⟩
    rw [List.nil_append, ← bodyText, stored] at body
    simp only [parseHttpReq, lines, words, parsedRequest, few, some_, ↓reduceIte, parseParts, line,
      headers, kept, body]

theorem parseHttpReq_eq [Letters] (conf : Config) (buf : Bytes) (fits : Fits conf buf) :
    parseHttpReq conf buf = some (parsedRequest conf buf) :=
  parseHttpReq_read conf buf fits (fun _ line _ => readable line)

theorem parsedRequest_few [Overlapping] (conf : Config) (buf : Bytes)
    (few : (requestTokens buf).length < 3) :
    parsedRequest conf buf = { ParsedReq.zero with errorCode := ERR_BAD_REQUEST } := by
  rw [parsedRequest, if_pos few]

/-- Most of a parsed request is set by its first line. -/
theorem parsedRequest_many [Overlapping] (conf : Config) (buf : Bytes)
    (many : 3 ≤ (requestTokens buf).length) :
    let req := parsedRequest conf buf
    req = { lineRequest conf buf with
      host := req.host
      keepAlive := req.keepAlive
      postData := bodyText ((tokens buf [10]).drop 1) } := by
  have kept := foldl_applyHeader_keeps (headerTexts ((tokens buf [10]).drop 1)) (lineRequest conf buf)
  simp only at kept
  simp only [parsedRequest, if_neg (by omega : ¬ (requestTokens buf).length < 3)]
  rw [kept]

theorem parseVersion_contentType (token : Bytes) (req : ParsedReq) :
    (parseVersion token req).contentType = req.contentType := by
  simp only [parseVersion]
  split_ifs <;> rfl

theorem lineRequest_contentType (conf : Config) (buf : Bytes) :
    (lineRequest conf buf).contentType = requestType conf buf := by
  simp only [lineRequest, parseVersion_contentType]
  generalize requestType conf buf = type
  split_ifs <;> rfl

theorem length_requestType_lt (conf : Config) (buf : Bytes) : (requestType conf buf).length < 64 := by
  rw [requestType]
  cases found : getContentType conf (requestUri conf buf) with
  | none => exact Nat.zero_lt_succ _
  | some type =>
      simp only [getContentType] at found
      split at found
      · cases found
      · split_ifs at found
        · split at found
          · rw [← Option.some.inj found]
            exact Nat.zero_lt_succ _
          · have stored := storeText_eq_some.mp found
            rw [Option.getD_some, ← stored.2]
            exact stored.1
        · rw [← Option.some.inj found]
          exact Nat.zero_lt_succ _

theorem parse_contentType [Overlapping] (conf : Config) (buf : Bytes) (req : ParsedReq)
    (parsed : parseHttpReq conf buf = some req) : req.contentType.length < 64 := by
  have fits := (parseHttpReq_isSome_iff conf buf).mp (by rw [parsed]; rfl)
  rw [parseHttpReq_read conf buf fits.1 fits.2] at parsed
  rw [← Option.some.inj parsed]
  by_cases few : (requestTokens buf).length < 3
  · rw [parsedRequest_few conf buf few]
    exact Nat.zero_lt_succ _
  · rw [parsedRequest_many conf buf (by omega), lineRequest_contentType]
    exact length_requestType_lt conf buf

/-- An empty line, with or without a CR. -/
def BlankLine (line : Bytes) : Prop := line = [] ∨ line = [13]

instance : DecidablePred BlankLine :=
  fun line => inferInstanceAs (Decidable (line = [] ∨ line = [13]))

/-- What stands behind the request line: the header lines up to the first empty one,
and the bytes behind it. -/
inductive Sections : Bytes → List Bytes → Bytes → Prop where
  | blank (line body : Bytes) (empty : BlankLine line) : Sections (line ++ 10 :: body) [] body
  | blankEnd (line : Bytes) (empty : BlankLine line) : Sections line [] []
  | header (line rest : Bytes) (headers : List Bytes) (body : Bytes) (single : 10 ∉ line)
      (filled : ¬ BlankLine line) (behind : Sections rest headers body) :
      Sections (line ++ 10 :: rest) (line :: headers) body
  | headerEnd (line : Bytes) (single : 10 ∉ line) (filled : ¬ BlankLine line) :
      Sections line [line] []

/-- A request of that first line, those header lines and that body. -/
inductive Request : Bytes → Bytes → List Bytes → Bytes → Prop where
  | bare (first : Bytes) (single : 10 ∉ first) : Request first first [] []
  | full (first rest : Bytes) (headers : List Bytes) (body : Bytes) (single : 10 ∉ first)
      (behind : Sections rest headers body) : Request (first ++ 10 :: rest) first headers body

theorem removeEndl_eq_nil (line : Bytes) (single : 10 ∉ line) :
    removeEndl line = [] ↔ BlankLine line := by
  have noLf : line.getLast? ≠ some 10 := fun last => single (List.mem_of_getLast? last)
  simp only [removeEndl, noLf, ↓reduceIte]
  constructor
  · intro empty
    split at empty
    · rename_i last
      right
      rw [← List.dropLast_append_getLast? 13 last, empty]
      rfl
    · exact Or.inl empty
  · intro blank
    rcases blank with rfl | rfl
    · rfl
    · rfl

theorem BlankLine.single {line : Bytes} (blank : BlankLine line) : 10 ∉ line := by
  rcases blank with rfl | rfl
  · decide
  · decide

theorem exists_sections (text : Bytes) : ∃ headers body, Sections text headers body := by
  induction text using Fields.pieces_induction (10 : UInt8) with
  | last line single =>
      by_cases blank : BlankLine line
      · exact ⟨[], [], .blankEnd line blank⟩
      · exact ⟨[line], [], .headerEnd line single blank⟩
  | more line rest single ih =>
      by_cases blank : BlankLine line
      · exact ⟨[], rest, .blank line rest blank⟩
      · obtain ⟨headers, body, behind⟩ := ih
        exact ⟨line :: headers, body, .header line rest headers body single blank behind⟩

theorem exists_request (buf : Bytes) : ∃ first headers body, Request buf first headers body := by
  induction buf using Fields.pieces_induction (10 : UInt8) with
  | last first single => exact ⟨first, [], [], .bare first single⟩
  | more first rest single _ =>
      obtain ⟨headers, body, behind⟩ := exists_sections rest
      exact ⟨first, headers, body, .full first rest headers body single behind⟩

theorem bodyText_cons (line : Bytes) (rest : List Bytes) (filled : removeEndl line ≠ []) :
    bodyText (line :: rest) = bodyText rest := by
  rw [bodyText, bodyLines, List.dropWhile_cons_of_pos (by simpa using filled)]
  rfl

theorem bodyText_blank (line : Bytes) (rest : List Bytes) (blank : removeEndl line = []) :
    bodyText (line :: rest) = List.intercalate [10] rest := by
  rw [bodyText, bodyLines, List.dropWhile_cons_of_neg (by simpa using blank), List.drop_one,
    List.tail_cons]

theorem Sections.split {text body : Bytes} {headers : List Bytes}
    (sections : Sections text headers body) :
    headerTexts (text.splitOn 10) = headers.map removeEndl ∧ bodyText (text.splitOn 10) = body := by
  induction sections with
  | blank line body empty =>
      have none_ := (removeEndl_eq_nil line empty.single).mpr empty
      rw [List.splitOn_append_cons_self_of_not_mem empty.single, headerTexts_blank _ _ none_,
        bodyText_blank _ _ none_, List.intercalate_splitOn]
      exact ⟨rfl, rfl⟩
  | blankEnd line empty =>
      have none_ := (removeEndl_eq_nil line empty.single).mpr empty
      rw [List.splitOn_eq_singleton empty.single, headerTexts_blank _ _ none_,
        bodyText_blank _ _ none_]
      exact ⟨rfl, rfl⟩
  | header line rest headers body single filled behind ih =>
      have some_ := (not_congr (removeEndl_eq_nil line single)).mpr filled
      rw [List.splitOn_append_cons_self_of_not_mem single, headerTexts_cons _ _ some_,
        bodyText_cons _ _ some_, ih.1, ih.2]
      exact ⟨rfl, rfl⟩
  | headerEnd line single filled =>
      have some_ := (not_congr (removeEndl_eq_nil line single)).mpr filled
      rw [List.splitOn_eq_singleton single, headerTexts_cons _ _ some_, bodyText_cons _ _ some_]
      exact ⟨rfl, rfl⟩

theorem Request.split {buf first body : Bytes} {headers : List Bytes}
    (request : Request buf first headers body) :
    (tokens buf [10]).getD 0 [] = first ∧
      headerTexts ((tokens buf [10]).drop 1) = headers.map removeEndl ∧
      bodyText ((tokens buf [10]).drop 1) = body := by
  cases request with
  | bare _ single =>
      by_cases empty : buf = []
      · rw [tokens_single, if_pos empty, empty]
        exact ⟨rfl, rfl, rfl⟩
      · rw [tokens_single, if_neg empty, List.splitOn_eq_singleton single]
        exact ⟨rfl, rfl, rfl⟩
  | full _ rest _ _ single behind =>
      have some_ : first ++ 10 :: rest ≠ [] := List.append_ne_nil_of_right_ne_nil _ (by simp)
      rw [tokens_single, if_neg some_, List.splitOn_append_cons_self_of_not_mem single]
      exact ⟨rfl, behind.split⟩

theorem Request.parsed [Overlapping] {buf first body : Bytes} {headers : List Bytes}
    (request : Request buf first headers body) (conf : Config) (fits : Fits conf buf)
    (many : 3 ≤ (requestTokens buf).length) (read : HeadersRead buf) :
    parseHttpReq conf buf = some { (headers.map removeEndl).foldl applyHeader
      (lineRequest conf buf) with postData := body } := by
  obtain ⟨-, texts, behind⟩ := request.split
  rw [parseHttpReq_read conf buf fits (fun _ => read), parsedRequest, if_neg (by omega)]
  simp only [texts, behind]

/-- The body is kept as it is: the bytes behind the first empty header line, or
nothing where there is no such line. -/
theorem parse_keeps_body [Letters] (conf : Config) (buf : Bytes) (fits : Fits conf buf)
    (many : 3 ≤ (requestTokens buf).length) :
    ∃ req, parseHttpReq conf buf = some req ∧
      ∀ body, (∃ first headers, Request buf first headers body) ↔ body = req.postData := by
  obtain ⟨first, headers, body, request⟩ := exists_request buf
  refine ⟨_, request.parsed conf fits many (fun line _ => readable line), fun other => ?_⟩
  constructor
  · intro found
    obtain ⟨line, lines, split⟩ := found
    exact split.split.2.2.symm.trans request.split.2.2
  · intro same
    rw [same]
    exact ⟨first, headers, request⟩

attribute [local instance] Letters.forward

def samplePostText : Bytes := ascii "POST /f.html HTTP/1.1\r\nHost: a\n\r\nx\r\n\ny\n"

theorem parse_keeps_body_post :
    ∃ req, parseHttpReq sampleConfig samplePostText = some req ∧
      ∀ body, (∃ first headers, Request samplePostText first headers body) ↔ body = req.postData :=
  parse_keeps_body sampleConfig samplePostText
    ((parseHttpReq_isSome sampleConfig samplePostText).mp (by decide +kernel)) (by decide +kernel)

/-- CRs, empty lines and the last LF included. -/
example : (parsedRequest sampleConfig samplePostText).postData = ascii "x\r\n\ny\n" := by
  decide +kernel

end NetworkSystem.Http
