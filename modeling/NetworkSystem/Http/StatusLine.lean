import NetworkSystem.Http.Classify
import NetworkSystem.Http.Length
import NetworkSystem.Http.Sizes

/-! The form of a response: a status line, header lines and a blank line. The version
in the status line is the one of the request, if the parser has set it. -/

namespace NetworkSystem.Http

open Bytes

def IsHeaderLine (line : Bytes) : Prop :=
  ∃ name value, line = name ++ ascii ": " ++ value ∧ name ≠ [] ∧ 58 ∉ name ∧ 10 ∉ line

structure ResponseHead where
  version : Bytes
  status : Bytes
  reason : Bytes
  headers : List Bytes
  supported : SupportedVersion version
  digits : status.length = 3 ∧ ∀ digit ∈ status, 48 ≤ digit ∧ digit ≤ 57
  phrase : reason ≠ [] ∧ 10 ∉ reason
  named : headers ≠ [] ∧ ∀ line ∈ headers, IsHeaderLine line

def ResponseHead.text (head : ResponseHead) : Bytes :=
  head.version ++ ascii " " ++ head.status ++ ascii " " ++ head.reason ++ ascii "\r\n" ++
    head.headers.flatMap (· ++ ascii "\r\n") ++ ascii "\r\n"

def WellFormed (response : Bytes) : Prop := ∃ head : ResponseHead, head.text <+: response

theorem WellFormed.head?_ne {response : Bytes} (wellFormed : WellFormed response) :
    response.head? ≠ some 32 := by
  obtain ⟨head, rest, same⟩ := wellFormed
  rw [← same]
  rcases head.supported with version | version
  · simp [ResponseHead.text, version, ascii]
  · simp [ResponseHead.text, version, ascii]

theorem isHeaderLine_of (name value : Bytes) (some_ : name ≠ []) (single : 58 ∉ name)
    (line : 10 ∉ name) (value_line : 10 ∉ value) : IsHeaderLine (name ++ ascii ": " ++ value) := by
  refine ⟨name, value, rfl, some_, single, ?_⟩
  simp only [List.mem_append, not_or]
  exact ⟨⟨line, by decide⟩, value_line⟩

/-- What `build_http_resp_header` writes between the status line and the blank line. -/
def builtLines (date : Bytes) (header : HttpRespHeader) : List Bytes :=
  [ascii "Date" ++ ascii ": " ++ date,
    ascii "Content-Length" ++ ascii ": " ++ formatInt header.contentLength,
    ascii "Connection" ++ ascii ": " ++
      (if header.keepAlive ≠ 0 then ascii "keep-alive" else ascii "close"),
    ascii "Content-Type" ++ ascii ": " ++ header.contentType,
    ascii "Cache-control" ++ ascii ": " ++ ascii "max-age=3600"]

theorem builtLines_isHeaderLine (date : Bytes) (header : HttpRespHeader) (dateLine : 10 ∉ date)
    (typeLine : 10 ∉ header.contentType) :
    ∀ line ∈ builtLines date header, IsHeaderLine line := by
  have connection : 10 ∉ (if header.keepAlive ≠ 0 then ascii "keep-alive" else ascii "close") := by
    split_ifs <;> decide
  have number := formatInt_clean header.contentLength 10 (by decide)
  intro line member
  simp only [builtLines, List.mem_cons, List.not_mem_nil, or_false] at member
  rcases member with rfl | rfl | rfl | rfl | rfl
  · exact isHeaderLine_of _ _ (by decide) (by decide) (by decide) dateLine
  · exact isHeaderLine_of _ _ (by decide) (by decide) (by decide) number
  · exact isHeaderLine_of _ _ (by decide) (by decide) (by decide) connection
  · exact isHeaderLine_of _ _ (by decide) (by decide) (by decide) typeLine
  · exact isHeaderLine_of _ _ (by decide) (by decide) (by decide) (by decide)

theorem buildHttpRespHeader_eq (date : Bytes) (header : HttpRespHeader) :
    buildHttpRespHeader date header =
      statusLine header ++ ascii "\r\n" ++
        (builtLines date header).flatMap (· ++ ascii "\r\n") ++ ascii "\r\n" := by
  have marks : ascii "\r\nDate: " = ascii "\r\n" ++ ascii "Date" ++ ascii ": " ∧
      ascii "\r\nContent-Length: " = ascii "\r\n" ++ ascii "Content-Length" ++ ascii ": " ∧
      ascii "\r\nConnection: " = ascii "\r\n" ++ ascii "Connection" ++ ascii ": " ∧
      ascii "\r\nContent-Type: " = ascii "\r\n" ++ ascii "Content-Type" ++ ascii ": " ∧
      ascii "\r\nCache-control: max-age=3600\r\n\r\n" = ascii "\r\n" ++ ascii "Cache-control" ++
        ascii ": " ++ ascii "max-age=3600" ++ ascii "\r\n" ++ ascii "\r\n" := by
    decide
  simp only [buildHttpRespHeader, statusLine, builtLines, marks, List.flatMap_cons,
    List.flatMap_nil, List.append_assoc, List.nil_append]

/-- A header of a response to a request: the version is the request's, and the status
stands in the table. -/
structure Answers (req : HttpReq) (header : HttpRespHeader) : Prop where
  version : header.version = req.version
  status : ∃ code < 5, header.statusCode = errStatusCode.getD code 0
  typeLine : 10 ∉ header.contentType

theorem Answers.digits {req : HttpReq} {header : HttpRespHeader} (answers : Answers req header) :
    (decimal header.statusCode.toNat).length = 3 ∧
      ∀ digit ∈ decimal header.statusCode.toNat, 48 ≤ digit ∧ digit ≤ 57 := by
  have table : ∀ code < 5, (decimal (errStatusCode.getD code 0).toNat).length = 3 ∧
      ∀ digit ∈ decimal (errStatusCode.getD code 0).toNat, 48 ≤ digit ∧ digit ≤ 57 := by
    decide +kernel
  obtain ⟨code, known, status⟩ := answers.status
  rw [status]
  exact table code known

theorem reason_phrase (statusCode : UInt16) :
    getReasonPhrase statusCode ≠ [] ∧ 10 ∉ getReasonPhrase statusCode := by
  simp only [getReasonPhrase]
  split_ifs <;> decide

theorem head?_of_no_version (date body : Bytes) (header : HttpRespHeader)
    (unset : getHttpVersionStr header.version = []) :
    (buildHttpRespHeader date header ++ body).head? = some 32 := by
  have blank : ascii " " = [32] := by decide
  rw [buildHttpRespHeader_eq, statusLine, unset, blank]
  simp only [List.nil_append, List.append_assoc, List.cons_append, List.head?_cons]

theorem getHttpVersionStr_cases (version : UInt8) :
    SupportedVersion (getHttpVersionStr version) ∨ getHttpVersionStr version = [] := by
  simp only [getHttpVersionStr]
  split_ifs
  · exact Or.inl (Or.inr rfl)
  · exact Or.inl (Or.inl rfl)
  · exact Or.inr rfl

/-- All that a header can lack is its version. -/
theorem wellFormed_iff (date body : Bytes) (req : HttpReq) (header : HttpRespHeader)
    (dateLine : 10 ∉ date) (answers : Answers req header) :
    WellFormed (buildHttpRespHeader date header ++ body) ↔
      SupportedVersion (getHttpVersionStr req.version) := by
  rw [← answers.version]
  constructor
  · intro wellFormed
    cases getHttpVersionStr_cases header.version with
    | inl supported => exact supported
    | inr unset => exact absurd (head?_of_no_version date body header unset) wellFormed.head?_ne
  · intro supported
    refine ⟨⟨getHttpVersionStr header.version, decimal header.statusCode.toNat,
      getReasonPhrase header.statusCode, builtLines date header, supported, answers.digits,
      reason_phrase header.statusCode, List.cons_ne_nil _ _,
      builtLines_isHeaderLine date header dateLine answers.typeLine⟩, ?_⟩
    rw [buildHttpRespHeader_eq]
    exact List.prefix_append _ body

namespace Connection

theorem handleOut_first (conf : Config) (outcomes : Outcomes) (conn : Connection) (req : HttpReq)
    (held : conn.buf = none) (free : conn.readfd = 0) (asked : conn.req = some req)
    (known : req.errorCode.toNat < 5) (typeLine : 10 ∉ req.contentType) :
    ∃ next header body, handleOut conf outcomes conn = some next ∧ Answers req header ∧
      sends next.log = sends conn.log ++ [(buildHttpRespHeader outcomes.date header ++ body,
        (buildHttpRespHeader outcomes.date header ++ body).length)] := by
  have html : 10 ∉ ascii "text/html" := by decide
  simp only [handleOut, held, free, ↓reduceIte, asked]
  split_ifs with fine
  · cases outcomes.opened with
    | some fd =>
        refine ⟨_, foundHeader outcomes.fileSize req, [], rfl,
          ⟨rfl, ⟨0, by decide, rfl⟩, typeLine⟩, ?_⟩
        rw [answerFound, sends_sendData, List.append_nil]
        simp [fill, sends]
    | none =>
        refine ⟨_, errHeader { req with errorCode := ERR_NOT_FOUND },
          errResp.getD ERR_NOT_FOUND.toNat [], rfl, ⟨rfl, ⟨2, by decide, rfl⟩, html⟩, ?_⟩
        rw [answerError, sends_sendData]
        simp [fill, sends]
  · refine ⟨_, errHeader req, errResp.getD req.errorCode.toNat [], rfl,
      ⟨rfl, ⟨req.errorCode.toNat, known, rfl⟩, html⟩, ?_⟩
    rw [answerError, sends_sendData]
    simp [fill, sends]

end Connection

theorem parseVersion_version (token : Bytes) (req : ParsedReq) (unset : req.version = 0) :
    SupportedVersion (getHttpVersionStr (parseVersion token req).version) ↔
      SupportedVersion token := by
  have none_ : ¬ SupportedVersion (getHttpVersionStr 0) := by decide
  have ten : SupportedVersion (getHttpVersionStr 10) := by decide
  have eleven : SupportedVersion (getHttpVersionStr 11) := by decide
  simp only [parseVersion]
  split_ifs with one zero
  · exact iff_of_true eleven (Or.inl one)
  · exact iff_of_true ten (Or.inr zero)
  · rw [unset]
    apply iff_of_false none_
    intro supported
    cases supported with
    | inl same => exact one same
    | inr same => exact zero same

theorem parseMethod_version (token : Bytes) (req : ParsedReq) :
    (parseMethod token req).version = req.version := by
  simp only [parseMethod]
  split_ifs <;> rfl

theorem lineRequest_version (conf : Config) (buf : Bytes) :
    SupportedVersion (getHttpVersionStr (lineRequest conf buf).version) ↔
      SupportedVersion ((requestTokens buf).getD 2 []) := by
  have unset := parseMethod_version ((requestTokens buf).getD 0 []) ParsedReq.zero
  apply parseVersion_version
  split_ifs
  · exact unset
  · exact unset

theorem parseMethod_errorCode_lt (token : Bytes) (req : ParsedReq)
    (known : req.errorCode.toNat < 5) : (parseMethod token req).errorCode.toNat < 5 := by
  simp only [parseMethod]
  split_ifs
  · exact known
  · exact known
  · exact Nat.lt_succ_self 4

theorem parseVersion_errorCode_lt (token : Bytes) (req : ParsedReq)
    (known : req.errorCode.toNat < 5) : (parseVersion token req).errorCode.toNat < 5 := by
  have wrong : ERR_BAD_REQUEST.toNat < 5 := by decide
  simp only [parseVersion]
  split_ifs
  · exact known
  · exact known
  · exact wrong

theorem lineRequest_errorCode_lt (conf : Config) (buf : Bytes) :
    (lineRequest conf buf).errorCode.toNat < 5 := by
  have method := parseMethod_errorCode_lt ((requestTokens buf).getD 0 []) ParsedReq.zero (by decide)
  apply parseVersion_errorCode_lt
  split_ifs
  · exact Nat.lt_succ_self 4
  · exact method

theorem parsedRequest_head [Overlapping] (conf : Config) (buf : Bytes) :
    (parsedRequest conf buf).errorCode.toNat < 5 ∧
      (SupportedVersion (getHttpVersionStr (parsedRequest conf buf).version) ↔
        SupportedVersion ((requestTokens buf).getD 2 [])) := by
  by_cases few : (requestTokens buf).length < 3
  · rw [parsedRequest_few conf buf few]
    exact ⟨by decide, iff_of_false (by decide) (not_supportedVersion_getD buf few)⟩
  · rw [parsedRequest_many conf buf (by omega)]
    exact ⟨lineRequest_errorCode_lt conf buf, lineRequest_version conf buf⟩

namespace Connection

/-- The first thing that is sent for a request is a well-formed response exactly when
the third token of the request line is a known version. -/
theorem response_wellFormed_iff [Letters] (conf : Config) (events : List Readiness)
    (conn : Connection)
    (start : run conf fresh events = some conn) (waits : conn.events = .EPOLLIN)
    (bytes : Segment) (behind : Bytes) (fits : Fits conf (receivedText bytes behind)) (outcomes : Outcomes) :
    ∃ next text, run conf conn [.readable (.received bytes behind), .writable outcomes] = some next ∧
      sends next.log = sends conn.log ++ [(text, text.length)] ∧
      (WellFormed text ↔
        SupportedVersion ((requestTokens (receivedText bytes behind)).getD 2 [])) := by
  have parsed := parseHttpReq_eq conf _ fits
  have head := parsedRequest_head conf (receivedText bytes behind)
  have typeLine := (parse_sets conf _ _ parsed).2
  obtain ⟨held, -, free⟩ := (tidy_run conf events conn start).waiting waits
  obtain ⟨middle, behaves, asked, buf, readfd, answers, noted⟩ :=
    run_received conf conn waits bytes behind _ parsed
  obtain ⟨next, header, body, handled, answering, sent⟩ := handleOut_first conf outcomes middle _
    (buf.trans held) (readfd.trans free) asked head.1 typeLine
  refine ⟨next, _, ?_, ?_, (wellFormed_iff _ body _ header outcomes.date_line answering).trans head.2⟩
  · rw [behaves, run_cons]
    simp only [step, answers, ↓reduceIte, handled, Option.bind_some]
    rfl
  · rw [sent, noted, sends_append]
    simp [sends]

attribute [local instance] Letters.forward

theorem response_wellFormed_iff_get :
    ∃ next text, run sampleConfig fresh [.readable (.received ⟨ascii "GET / HTTP/1.0\r\n\r\n", by decide⟩ []),
        .writable sampleOpened] = some next ∧
      sends next.log = sends fresh.log ++ [(text, text.length)] ∧
      (WellFormed text ↔ SupportedVersion
        ((requestTokens (receivedText (ascii "GET / HTTP/1.0\r\n\r\n") [])).getD 2 [])) :=
  response_wellFormed_iff sampleConfig [] fresh rfl rfl ⟨ascii "GET / HTTP/1.0\r\n\r\n", by decide⟩ []
    ((parseHttpReq_isSome _ _).mp (by decide +kernel)) sampleOpened

/-- A request without a version is answered without one. -/
theorem response_of_bare_request :
    Fits sampleConfig (receivedText (ascii "GET /\r\n\r\n") []) ∧
      ∃ next text, run sampleConfig fresh [.readable (.received ⟨ascii "GET /\r\n\r\n", by decide⟩ []),
          .writable sampleOpened] = some next ∧
        sends next.log = [(text, text.length)] ∧ text.take 16 = ascii " 400 Bad Request" ∧
        ¬ WellFormed text := by
  have fits : Fits sampleConfig (receivedText (ascii "GET /\r\n\r\n") []) :=
    (parseHttpReq_isSome _ _).mp (by decide +kernel)
  have returns : (run sampleConfig fresh [.readable (.received ⟨ascii "GET /\r\n\r\n", by decide⟩ []),
      .writable sampleOpened]).isSome = true := by decide +kernel
  obtain ⟨next, reached⟩ := Option.isSome_iff_exists.mp returns
  have facts : (run sampleConfig fresh [.readable (.received ⟨ascii "GET /\r\n\r\n", by decide⟩ []),
      .writable sampleOpened]).map (fun next => ((sends next.log).map
        (fun entry => (entry.1.take 16, decide (entry.2 = entry.1.length))))) =
      some [(ascii " 400 Bad Request", true)] := by
    decide +kernel
  rw [reached, Option.map_some, Option.some.injEq] at facts
  obtain ⟨entry, sent, same⟩ := List.map_eq_singleton_iff.mp facts
  rw [Prod.mk.injEq, decide_eq_true_eq] at same
  refine ⟨fits, next, entry.1, reached, ?_, same.1, fun wellFormed => ?_⟩
  · rw [sent, ← same.2]
  · apply wellFormed.head?_ne
    have first : (entry.1.take 16).head? = some 32 := by
      rw [same.1]
      decide
    rwa [List.head?_take, if_neg (by decide)] at first

end Connection

end NetworkSystem.Http
