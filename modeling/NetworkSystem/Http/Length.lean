import NetworkSystem.Http.Bounds
import NetworkSystem.Http.Machine
import NetworkSystem.Http.Delivery

/-! Whether the length that a response announces is that of its body. -/

namespace NetworkSystem.Http

open Bytes

/-- The bytes that a `send` hands over. -/
def Call.sentBytes : Call → Bytes
  | .sent buf size (.room count) => (buf.take size).take count
  | _ => []

def Call.readBytes : Call → Bytes
  | .read _ data => data.getD []
  | _ => []

/-- A `send` that accepts its whole buffer, and a `read` that succeeds. -/
def Call.Whole : Call → Prop
  | .sent _ size (.room count) => size ≤ count
  | .sent _ _ _ => False
  | .read _ data => data ≠ none
  | _ => True

instance : DecidablePred Call.Whole
  | .sent _ size (.room count) => inferInstanceAs (Decidable (size ≤ count))
  | .sent _ _ .again => inferInstanceAs (Decidable False)
  | .sent _ _ .error => inferInstanceAs (Decidable False)
  | .read _ data => inferInstanceAs (Decidable (data ≠ none))
  | .received _ => inferInstanceAs (Decidable True)
  | .opened _ _ => inferInstanceAs (Decidable True)
  | .answered _ => inferInstanceAs (Decidable True)
  | .closed _ => inferInstanceAs (Decidable True)
  | .waiting => inferInstanceAs (Decidable True)

theorem Call.whole_sent {buf : Bytes} {size : Nat} {outcome : SendOutcome}
    (whole : (Call.sent buf size outcome).Whole) : ∃ count, outcome = .room count ∧ size ≤ count := by
  cases outcome with
  | room count => exact ⟨count, rfl, whole⟩
  | again => exact absurd whole id
  | error => exact absurd whole id

@[simp] theorem Call.sentBytes_read (fd : Nat) (data : Option Bytes) :
    (Call.read fd data).sentBytes = [] := rfl

@[simp] theorem Call.readBytes_read (fd : Nat) (data : Option Bytes) :
    (Call.read fd data).readBytes = data.getD [] := rfl

@[simp] theorem Call.readBytes_sent (buf : Bytes) (size : Nat) (outcome : SendOutcome) :
    (Call.sent buf size outcome).readBytes = [] := rfl

def sentBytes (calls : List Call) : Bytes := calls.flatMap Call.sentBytes

def readBytes (calls : List Call) : Bytes := calls.flatMap Call.readBytes

/-- The number behind `Content-Length:` is the number of bytes behind the blank line. -/
def Truthful (response : Bytes) : Prop :=
  ∃ behind body, after (ascii "\r\nContent-Length: ") response = some behind ∧
    after (ascii "\r\n\r\n") response = some body ∧
    behind.takeWhile (· ≠ 13) = decimal body.length

theorem truthful_iff_map (response : Bytes) :
    Truthful response ↔ after (ascii "\r\n\r\n") response ≠ none ∧
      (after (ascii "\r\nContent-Length: ") response).map (List.takeWhile (· ≠ 13)) =
        (after (ascii "\r\n\r\n") response).map (fun body => decimal body.length) := by
  rw [Truthful]
  cases after (ascii "\r\nContent-Length: ") response with
  | none => cases after (ascii "\r\n\r\n") response <;> simp
  | some behind => cases after (ascii "\r\n\r\n") response <;> simp

instance (response : Bytes) : Decidable (Truthful response) :=
  decidable_of_iff' _ (truthful_iff_map response)

theorem formatInt_eq_decimal (value : Int) (count : Nat) :
    formatInt value = decimal count ↔ value.bmod (2 ^ 32) = count := by
  simp only [formatInt]
  generalize value.bmod (2 ^ 32) = low
  by_cases negative : low < 0
  · simp only [negative, ↓reduceIte]
    constructor
    · intro same
      have sign : (45 : UInt8) ∈ decimal count := by
        rw [← same]
        exact List.mem_append_left _ (by decide)
      exact absurd sign (not_mem_decimal count 45 (by decide))
    · omega
  · simp only [negative, ↓reduceIte]
    constructor
    · intro same
      have magnitude := decimal_injective same
      omega
    · intro same
      have magnitude : low.natAbs = count := by omega
      rw [magnitude]

theorem formatInt_clean (value : Int) (byte : UInt8) (other : byte.toNat < 45) :
    byte ∉ formatInt value := by
  have digits := not_mem_decimal (value.bmod (2 ^ 32)).natAbs byte (by omega)
  simp only [formatInt]
  split_ifs
  · intro member
    rcases List.mem_append.mp member with sign | digit
    · have same : byte = 45 := List.mem_singleton.mp sign
      rw [same] at other
      exact absurd other (by decide)
    · exact digits digit
  · exact digits

def statusLine (header : HttpRespHeader) : Bytes :=
  getHttpVersionStr header.version ++ ascii " " ++ decimal header.statusCode.toNat ++ ascii " " ++
    getReasonPhrase header.statusCode

theorem statusLine_line (header : HttpRespHeader) : 10 ∉ statusLine header := by
  have version : 10 ∉ getHttpVersionStr header.version := by
    simp only [getHttpVersionStr]
    split_ifs <;> decide
  have reason : 10 ∉ getReasonPhrase header.statusCode := by
    simp only [getReasonPhrase]
    split_ifs <;> decide
  have status := not_mem_decimal header.statusCode.toNat 10 (by decide)
  have blank : (10 : UInt8) ∉ ascii " " := by decide
  simp only [statusLine, List.mem_append, not_or]
  exact ⟨⟨⟨⟨version, blank⟩, status⟩, blank⟩, reason⟩

theorem header_lines (date body : Bytes) (header : HttpRespHeader) :
    buildHttpRespHeader date header ++ body =
      statusLine header ++ 13 :: 10 :: ((ascii "Date: " ++ date) ++
        13 :: 10 :: ((ascii "Content-Length: " ++ formatInt header.contentLength) ++
          13 :: 10 :: ((ascii "Connection: " ++
              (if header.keepAlive ≠ 0 then ascii "keep-alive" else ascii "close")) ++
            13 :: 10 :: ((ascii "Content-Type: " ++ header.contentType) ++
              13 :: 10 :: (ascii "Cache-control: max-age=3600" ++ 13 :: 10 :: 13 :: 10 :: body))))) := by
  have marks : ascii "\r\nDate: " = 13 :: 10 :: ascii "Date: " ∧
      ascii "\r\nContent-Length: " = 13 :: 10 :: ascii "Content-Length: " ∧
      ascii "\r\nConnection: " = 13 :: 10 :: ascii "Connection: " ∧
      ascii "\r\nContent-Type: " = 13 :: 10 :: ascii "Content-Type: " ∧
      ascii "\r\nCache-control: max-age=3600\r\n\r\n" =
        13 :: 10 :: (ascii "Cache-control: max-age=3600" ++ [13, 10, 13, 10]) := by
    decide
  simp only [buildHttpRespHeader, statusLine, marks, List.append_assoc, List.cons_append,
    List.nil_append]

section header

variable (date body : Bytes) (header : HttpRespHeader) (dateLine : 10 ∉ date)

include dateLine

theorem date_line_clean : 10 ∉ ascii "Date: " ++ date := by
  simp only [List.mem_append, not_or]
  exact ⟨by decide, dateLine⟩

theorem after_length : ∃ rest,
    after (ascii "\r\nContent-Length: ") (buildHttpRespHeader date header ++ body) =
      some (formatInt header.contentLength ++ 13 :: rest) := by
  have mark : ascii "\r\nContent-Length: " = 13 :: 10 :: ascii "Content-Length: " := by decide
  rw [mark, header_lines, after_line_other _ _ _ (statusLine_line header) rfl,
    List.append_assoc (ascii "Content-Length: "), after_line_found _ _ _ (date_line_clean date dateLine)]
  exact ⟨_, rfl⟩

theorem after_blank (typeLine : 10 ∉ header.contentType) :
    after (ascii "\r\n\r\n") (buildHttpRespHeader date header ++ body) = some body := by
  have third : 10 ∉ ascii "Content-Length: " ++ formatInt header.contentLength := by
    simp only [List.mem_append, not_or]
    exact ⟨by decide, formatInt_clean _ _ (by decide)⟩
  have fourth : 10 ∉ ascii "Connection: " ++
      (if header.keepAlive ≠ 0 then ascii "keep-alive" else ascii "close") := by
    split_ifs <;> decide
  have fifth : 10 ∉ ascii "Content-Type: " ++ header.contentType := by
    simp only [List.mem_append, not_or]
    exact ⟨by decide, typeLine⟩
  have sixth : 10 ∉ ascii "Cache-control: max-age=3600" := by decide
  have mark : ascii "\r\n\r\n" = 13 :: 10 :: [13, 10] := by decide
  rw [mark, header_lines, after_line_other _ _ _ (statusLine_line header) rfl,
    after_line_other _ _ _ (date_line_clean date dateLine) rfl, after_line_other _ _ _ third rfl,
    after_line_other _ _ _ fourth rfl, after_line_other _ _ _ fifth rfl]
  exact after_line_found [13, 10] _ body sixth

omit dateLine

theorem takeWhile_formatInt (value : Int) (rest : Bytes) :
    (formatInt value ++ 13 :: rest).takeWhile (· ≠ 13) = formatInt value := by
  have clean := formatInt_clean value 13 (by decide)
  rw [List.takeWhile_append_of_pos]
  · simp
  · intro byte member
    simp only [ne_eq, decide_not, Bool.not_eq_eq_eq_not, Bool.not_true, decide_eq_false_iff_not]
    intro same
    exact clean (same ▸ member)

theorem truthful_iff (dateLine : 10 ∉ date) (typeLine : 10 ∉ header.contentType) :
    Truthful (buildHttpRespHeader date header ++ body) ↔
      header.contentLength.bmod (2 ^ 32) = body.length := by
  rcases after_length date body header dateLine with ⟨rest, number⟩
  have blank := after_blank date body header dateLine typeLine
  have digits := takeWhile_formatInt header.contentLength rest
  rw [← formatInt_eq_decimal, Truthful, number, blank]
  constructor
  · intro announced
    rcases announced with ⟨behind, shown, same, found, equal⟩
    rw [← Option.some.inj same, digits] at equal
    rw [equal, Option.some.inj found]
  · intro equal
    exact ⟨_, body, rfl, rfl, digits.trans equal⟩

end header

@[simp] theorem sentBytes_cons (call : Call) (calls : List Call) :
    sentBytes (call :: calls) = call.sentBytes ++ sentBytes calls := List.flatMap_cons

@[simp] theorem readBytes_cons (call : Call) (calls : List Call) :
    readBytes (call :: calls) = call.readBytes ++ readBytes calls := List.flatMap_cons

theorem sentBytes_append (first second : List Call) :
    sentBytes (first ++ second) = sentBytes first ++ sentBytes second := List.flatMap_append

theorem readBytes_append (first second : List Call) :
    readBytes (first ++ second) = readBytes first ++ readBytes second := List.flatMap_append

@[simp] theorem readBytes_nil : readBytes [] = [] := rfl

namespace Connection

theorem sendData_more (outcomes : Outcomes) (conn : Connection)
    (whole : (Call.sent (conn.buf.getD []) conn.size outcomes.sent).Whole) :
    let next := sendData outcomes true conn
    next.buf = none ∧ next.readfd = conn.readfd ∧ next.req = conn.req ∧
      next.events = conn.events ∧
      next.log = conn.log ++ [.sent (conn.buf.getD []) conn.size outcomes.sent] := by
  rcases Call.whole_sent whole with ⟨count, room, -⟩
  simp only [sendData, room, ↓reduceIte]
  exact ⟨trivial, rfl, rfl, rfl, rfl⟩

theorem sendData_last (outcomes : Outcomes) (conn : Connection)
    (whole : (Call.sent (conn.buf.getD []) conn.size outcomes.sent).Whole) :
    let next := sendData outcomes false conn
    next.events = .EPOLLIN ∧
      next.log = conn.log ++
        .sent (conn.buf.getD []) conn.size outcomes.sent :: resetCalls conn.readfd := by
  rcases Call.whole_sent whole with ⟨count, room, -⟩
  simp only [sendData, room, Bool.false_eq_true, ↓reduceIte]
  refine ⟨rfl, ?_⟩
  rw [log_resetEpoll_eq]
  simp only [note_log, note_readfd, List.append_assoc, List.singleton_append]

theorem reset_bytes (readfd : Nat) :
    sentBytes (resetCalls readfd) = [] ∧ readBytes (resetCalls readfd) = [] := by
  simp only [resetCalls]
  split_ifs <;> exact ⟨rfl, rfl⟩

theorem sentBytes_whole (text : Bytes) (outcome : SendOutcome)
    (whole : (Call.sent text text.length outcome).Whole) :
    (Call.sent text text.length outcome).sentBytes = text := by
  rcases Call.whole_sent whole with ⟨count, room, fits⟩
  rw [room, Call.sentBytes, List.take_length, List.take_of_length_le fits]

theorem calls_front {front added calls log : List Call} (inside : front ++ added <+: log)
    (whole : log = front ++ calls) : ∃ behind, calls = added ++ behind := by
  rw [whole, List.prefix_append_right_inj] at inside
  rcases inside with ⟨behind, rfl⟩
  exact ⟨behind, rfl⟩

/-- A connection that has made the calls `added` and holds `text` in its buffer. -/
structure Filled (front added : List Call) (text : Bytes) (conn : Connection) : Prop where
  buf : conn.buf = some text
  size : conn.size = text.length
  log : conn.log = front ++ added

theorem filled_fill {front added : List Call} {conn : Connection} (text : Bytes)
    (log : conn.log = front ++ added) : Filled front added text (conn.fill text) := ⟨rfl, rfl, log⟩

section answer

variable {conf : Config} {final : Connection} {front added calls : List Call} {text : Bytes}
  {conn : Connection} (filled : Filled front added text conn) (outcomes : Outcomes)
  (rest : List Outcomes) (log : final.log = front ++ calls)
  (whole : ∀ call ∈ calls, call.Whole)

include filled log whole

theorem Filled.sending [Overlapping] (more : Bool)
    (reached : run conf (sendData outcomes more conn) (rest.map Readiness.writable) = some final) :
    ∃ behind, calls = added ++ .sent text text.length outcomes.sent :: behind ∧
      (Call.sent text text.length outcomes.sent).Whole := by
  have inside := (log_sendData outcomes more conn).trans (log_run conf _ final _ reached)
  rw [filled.buf, filled.size, filled.log, Option.getD_some, List.append_assoc] at inside
  rcases calls_front inside log with ⟨behind, rfl⟩
  have taken : (Call.sent text text.length outcomes.sent).Whole := whole _ (by simp)
  exact ⟨behind, by rw [List.append_assoc, List.singleton_append], taken⟩

theorem Filled.last [Overlapping]
    (reached : run conf (sendData outcomes false conn) (rest.map Readiness.writable) = some final) :
    sentBytes calls = sentBytes added ++ text ∧ readBytes calls = readBytes added := by
  rcases filled.sending outcomes rest log whole false reached with ⟨behind, rfl, taken⟩
  have through := sendData_last outcomes conn (by
    rw [filled.buf, filled.size]
    exact taken)
  rw [run_waiting conf _ rest through.1] at reached
  have resets : behind = resetCalls conn.readfd := by
    have shape := through.2
    rw [Option.some.inj reached, log, filled.buf, filled.size, filled.log, List.append_assoc,
      List.append_cancel_left_eq, List.append_cancel_left_eq] at shape
    exact (List.cons.inj shape).2
  rcases reset_bytes conn.readfd with ⟨quiet, unread⟩
  rw [← resets] at quiet unread
  constructor
  · calc
      _ = sentBytes added ++ ((Call.sent text text.length outcomes.sent).sentBytes ++
          sentBytes behind) := by
        rw [sentBytes_append, sentBytes_cons]
      _ = sentBytes added ++ text := by
        rw [sentBytes_whole text outcomes.sent taken, quiet, List.append_nil]
  · calc
      _ = readBytes added ++ readBytes behind := by
        rw [readBytes_append, readBytes_cons, Call.readBytes_sent, List.nil_append]
      _ = readBytes added := by
        rw [unread, List.append_nil]

theorem Filled.more [Overlapping]
    (reached : run conf (sendData outcomes true conn) (rest.map Readiness.writable) = some final) :
    ∃ behind, final.log = (sendData outcomes true conn).log ++ behind ∧
      (∀ call ∈ behind, call.Whole) ∧
      sentBytes calls = sentBytes added ++ (text ++ sentBytes behind) ∧
      readBytes calls = readBytes added ++ readBytes behind ∧
      (sendData outcomes true conn).buf = none ∧
      (sendData outcomes true conn).readfd = conn.readfd ∧
      (sendData outcomes true conn).req = conn.req ∧
      (sendData outcomes true conn).events = conn.events := by
  rcases filled.sending outcomes rest log whole true reached with ⟨behind, rfl, taken⟩
  rcases sendData_more outcomes conn (by rw [filled.buf, filled.size]; exact taken) with
    ⟨buf, readfd, req, events, shape⟩
  have last : final.log = (sendData outcomes true conn).log ++ behind := by
    rw [log, shape, filled.log, filled.buf, filled.size]
    simp only [Option.getD_some, List.append_assoc, List.singleton_append]
  have later : ∀ call ∈ behind, call.Whole := fun call member =>
    whole call (List.mem_append_right _ (List.mem_cons_of_mem _ member))
  have sent : sentBytes (added ++ .sent text text.length outcomes.sent :: behind) =
      sentBytes added ++ (text ++ sentBytes behind) := by
    rw [sentBytes_append, sentBytes_cons, sentBytes_whole text outcomes.sent taken]
  have read : readBytes (added ++ .sent text text.length outcomes.sent :: behind) =
      readBytes added ++ readBytes behind := by
    rw [readBytes_append, readBytes_cons, Call.readBytes_sent, List.nil_append]
  exact ⟨behind, last, later, sent, read, buf, readfd, req, events⟩

end answer

section answer

variable (conf : Config) (req : HttpReq) (final : Connection) (ended : final.events = .EPOLLIN)

include ended

theorem run_reading [Overlapping] (rest : List Outcomes) (conn : Connection) (calls : List Call)
    (held : conn.buf = none) (busy : conn.readfd ≠ 0) (asked : conn.req = some req)
    (waits : conn.events = .EPOLLOUT)
    (reached : run conf conn (rest.map Readiness.writable) = some final)
    (log : final.log = conn.log ++ calls) (whole : ∀ call ∈ calls, call.Whole) :
    sentBytes calls = readBytes calls ++ (trailer req).flatten := by
  induction rest generalizing conn calls with
  | nil =>
      rw [← Option.some.inj reached, waits] at ended
      cases ended
  | cons outcomes rest ih =>
      rw [List.map_cons, run_cons] at reached
      obtain ⟨next, stepped, later⟩ := Option.bind_eq_some_iff.mp reached
      simp only [step, waits, ↓reduceIte] at stepped
      have out := outStep_handleOut conf outcomes conn next stepped
      cases out with
      | pending buf other =>
          rw [held] at other
          cases other
      | found req fd held free => exact absurd free busy
      | missing req held free => exact absurd free busy
      | refused req held free => exact absurd free busy
      | failed held busy data =>
          have inside := (List.prefix_append _ _).trans
            ((log_sendData outcomes true _).trans (log_run conf _ final _ later))
          rcases calls_front inside log with ⟨behind, rfl⟩
          exact absurd data (whole (.read conn.readfd outcomes.read) List.mem_cons_self)
      | data bytes held busy data nonempty =>
          have filled := filled_fill bytes (note_log [.read conn.readfd outcomes.read] conn)
          rcases filled.more outcomes rest log whole later with
            ⟨behind, log, whole, sent, read, none_, readfd, same, events⟩
          have tail := ih _ behind none_ (by rw [readfd]; exact busy) (by rw [same]; exact asked)
            (by rw [events]; exact waits) later log whole
          calc
            _ = bytes ++ sentBytes behind := sent
            _ = bytes ++ (readBytes behind ++ (trailer req).flatten) := by rw [tail]
            _ = readBytes calls ++ (trailer req).flatten := by
              rw [read, data, ← List.append_assoc]
              simp only [readBytes_cons, readBytes_nil, Call.readBytes_read, Option.getD_some,
                List.append_nil]
      | trailer asking text held busy data other appends posted =>
          have filled := filled_fill text (note_log [.read conn.readfd outcomes.read] conn)
          rcases filled.last outcomes rest log whole later with ⟨sent, read⟩
          have same : asking = req := Option.some.inj (other.symm.trans asked)
          have posts : text = postText req.postData := by
            simp only [appendPostResponse, List.nil_append] at posted
            split at posted
            · rw [← Option.some.inj posted, same]
            · cases posted
          rw [same] at appends
          calc
            _ = text := sent
            _ = (trailer req).flatten := by
              simp only [posts, trailer, appends, ↓reduceIte, List.flatten_cons, List.flatten_nil,
                List.append_nil]
            _ = readBytes calls ++ (trailer req).flatten := by
              rw [read, data]
              rfl
      | ended asking held busy data other ends =>
          rw [run_waiting conf _ rest rfl] at later
          have same : asking = req := Option.some.inj (other.symm.trans asked)
          have shape := log_resetEpoll_eq outcomes.now (conn.note [.read conn.readfd outcomes.read])
          rw [Option.some.inj later, log, note_log, note_readfd, List.append_assoc,
            List.append_cancel_left_eq] at shape
          rw [same] at ends
          rw [shape]
          simp only [List.singleton_append, sentBytes_cons, readBytes_cons, reset_bytes,
            Call.sentBytes_read, Call.readBytes_read, data, Option.getD_some, List.append_nil,
            trailer, ends, Bool.false_eq_true, ↓reduceIte, List.flatten_nil]

omit ended

theorem run_refused [Overlapping] (outcomes : Outcomes) (rest : List Outcomes) (conn : Connection)
    (asking : HttpReq) (calls : List Call)
    (reached : run conf (answerError outcomes asking conn) (rest.map Readiness.writable) = some final)
    (log : final.log = conn.log ++ calls) (whole : ∀ call ∈ calls, call.Whole) :
    sentBytes calls = buildHttpRespHeader outcomes.date (errHeader asking) ++
      errResp.getD asking.errorCode.toNat [] := by
  rw [answerError] at reached
  generalize buildHttpRespHeader outcomes.date (errHeader asking) ++
    errResp.getD asking.errorCode.toNat [] = text at reached ⊢
  have filled : Filled conn.log [.answered (errHeader asking)] text
      (({ conn.note [.answered (errHeader asking)] with req := some asking }).fill text) :=
    filled_fill text rfl
  exact (filled.last outcomes rest log whole reached).1

theorem run_found [Overlapping] (fd : Nat) (outcomes : Outcomes) (rest : List Outcomes)
    (conn : Connection)
    (calls : List Call) (opened : outcomes.opened = some fd) (asked : conn.req = some req)
    (waits : conn.events = .EPOLLOUT) (ended : final.events = .EPOLLIN)
    (reached : run conf (answerFound outcomes fd req conn) (rest.map Readiness.writable) = some final)
    (log : final.log = conn.log ++ calls) (whole : ∀ call ∈ calls, call.Whole) :
    sentBytes calls = buildHttpRespHeader outcomes.date (foundHeader outcomes.fileSize req) ++
      (readBytes calls ++ (trailer req).flatten) := by
  have positive : fd ≠ 0 := by
    intro zero
    rw [zero] at opened
    exact outcomes.opened_pos opened
  rw [answerFound] at reached
  generalize buildHttpRespHeader outcomes.date (foundHeader outcomes.fileSize req) = text
    at reached ⊢
  have filled : Filled conn.log [.answered (foundHeader outcomes.fileSize req)] text
      (({ conn.note [.answered (foundHeader outcomes.fileSize req)] with readfd := fd }).fill text) :=
    filled_fill text rfl
  rcases filled.more outcomes rest log whole reached with
    ⟨behind, log, whole, sent, read, none_, readfd, same, events⟩
  have tail := run_reading conf req final ended rest _ behind none_
    (by rw [readfd]; exact positive) (by rw [same]; exact asked) (by rw [events]; exact waits)
    reached log whole
  calc sentBytes calls = sentBytes [.answered (foundHeader outcomes.fileSize req)] ++
      (text ++ sentBytes behind) := sent
    _ = text ++ sentBytes behind := List.nil_append _
    _ = text ++ (readBytes behind ++ (trailer req).flatten) := by rw [tail]
    _ = text ++ (readBytes calls ++ (trailer req).flatten) := by rw [read]; rfl

theorem run_answer [Overlapping] (first : Outcomes) (rest : List Outcomes) (conn : Connection)
    (calls : List Call) (held : conn.buf = none) (free : conn.readfd = 0)
    (asked : conn.req = some req) (waits : conn.events = .EPOLLOUT) (ended : final.events = .EPOLLIN)
    (reached : run conf conn ((first :: rest).map Readiness.writable) = some final)
    (log : final.log = conn.log ++ calls) (whole : ∀ call ∈ calls, call.Whole) :
    (req.errorCode = 0 ∧ first.opened ≠ none ∧ sentBytes calls =
      buildHttpRespHeader first.date (foundHeader first.fileSize req) ++
        (readBytes calls ++ (trailer req).flatten)) ∨
    (¬ (req.errorCode = 0 ∧ first.opened ≠ none) ∧ ∃ asking, sentBytes calls =
      buildHttpRespHeader first.date (errHeader asking) ++
        errResp.getD asking.errorCode.toNat []) := by
  rw [List.map_cons, run_cons] at reached
  obtain ⟨next, stepped, later⟩ := Option.bind_eq_some_iff.mp reached
  simp only [step, waits, ↓reduceIte] at stepped
  have out := outStep_handleOut conf first conn next stepped
  cases out with
  | pending buf other =>
      rw [held] at other
      cases other
  | found asking fd held free other fine opened =>
      have same : asking = req := Option.some.inj (other.symm.trans asked)
      subst same
      have there : first.opened ≠ none := by
        rw [opened]
        exact Option.some_ne_none fd
      have inside := (log_answerFound first fd asking
        (conn.note [.opened (conf.root.text ++ asking.uri) first.opened])).trans
          (log_run conf _ final _ later)
      rcases calls_front inside log with ⟨behind, rfl⟩
      have sent := run_found conf asking final fd first rest
        (conn.note [.opened (conf.root.text ++ asking.uri) first.opened]) behind opened asked waits
        ended later (by rw [log, note_log, List.append_assoc])
        (fun call member => whole call (List.mem_append_right _ member))
      exact Or.inl ⟨fine, there, sent⟩
  | missing asking held free other fine opened =>
      have inside := (log_answerError first { asking with errorCode := ERR_NOT_FOUND }
        (conn.note [.opened (conf.root.text ++ asking.uri) first.opened])).trans
          (log_run conf _ final _ later)
      rcases calls_front inside log with ⟨behind, rfl⟩
      have sent := run_refused conf final first rest
        (conn.note [.opened (conf.root.text ++ asking.uri) first.opened])
        { asking with errorCode := ERR_NOT_FOUND } behind later
        (by rw [log, note_log, List.append_assoc])
        (fun call member => whole call (List.mem_append_right _ member))
      exact Or.inr ⟨fun both => both.2 opened, _, sent⟩
  | refused asking held free other wrong =>
      have same : asking = req := Option.some.inj (other.symm.trans asked)
      have sent := run_refused conf final first rest conn asking calls later log whole
      exact Or.inr ⟨fun both => wrong (same ▸ both.1), asking, sent⟩
  | failed held busy => exact absurd free busy
  | data bytes held busy => exact absurd free busy
  | trailer asking text held busy => exact absurd free busy
  | ended asking held busy => exact absurd free busy

end answer

theorem truthful_refused (date : Bytes) (req : HttpReq) (dateLine : 10 ∉ date) :
    Truthful (buildHttpRespHeader date (errHeader req) ++ errResp.getD req.errorCode.toNat []) := by
  have texts : ∀ text ∈ errResp, text.length < 2048 := by decide
  have short := length_getD_lt (by omega) texts req.errorCode.toNat
  have typeLine : 10 ∉ ascii "text/html" := by decide
  rw [truthful_iff date _ _ dateLine typeLine]
  simp only [errHeader]
  rw [Int.bmod_def]
  omega

/-- The header of a file announces a trailer for every POST, which is sent for
`text/html` only. -/
theorem truthful_found (date content : Bytes) (req : HttpReq) (dateLine : 10 ∉ date)
    (typeLine : 10 ∉ req.contentType) (posted : req.postData.length < 2048) :
    Truthful (buildHttpRespHeader date (foundHeader content.length req) ++
      (content ++ (trailer req).flatten)) ↔
      (content.length + (if req.method = POST then 29 + req.postData.length else 0) < 2 ^ 31 ∧
        (req.method = POST → req.contentType = ascii "text/html")) := by
  rw [truthful_iff date _ _ dateLine typeLine]
  have marks : (ascii "<h1>Post Data</h1><pre>").length + (ascii "</pre>").length = 29 := by decide
  by_cases post : req.method = POST
  · by_cases html : req.contentType = ascii "text/html"
    · have appends : req.appends = true := decide_eq_true ⟨post, html⟩
      simp only [foundHeader, post, html, ↓reduceIte, trailer, appends, List.flatten_cons,
        List.flatten_nil, List.append_nil, List.length_append, postText, implies_true, and_true]
      rw [Int.bmod_def]
      omega
    · have silent : req.appends = false := decide_eq_false (fun both => html both.2)
      simp only [foundHeader, post, html, ↓reduceIte, trailer, silent, Bool.false_eq_true,
        List.flatten_nil, List.append_nil, imp_false, not_true_eq_false, and_false, iff_false]
      rw [Int.bmod_def]
      omega
  · have silent : req.appends = false := decide_eq_false (fun both => post both.1)
    simp only [foundHeader, post, ↓reduceIte, trailer, silent, Bool.false_eq_true,
      List.flatten_nil, List.append_nil, false_implies, and_true, Int.add_zero, Nat.add_zero]
    rw [Int.bmod_def]
    omega

theorem run_received [Overlapping] (conf : Config) (conn : Connection)
    (waits : conn.events = .EPOLLIN)
    (bytes : Segment) (behind : Bytes) (req : ParsedReq)
    (parsed : parseHttpReq conf (receivedText bytes behind) = some req) :
    ∃ next, (∀ later, run conf conn (.readable (.received bytes behind) :: later) =
        run conf next later) ∧
      next.req = some req.toHttpReq ∧ next.buf = conn.buf ∧ next.readfd = conn.readfd ∧
      next.events = .EPOLLOUT ∧ next.log = conn.log ++ [.received (.received bytes behind)] := by
  refine ⟨{ conn.note [.received (.received bytes behind)] with
    req := some req.toHttpReq
    keepaliveTime := if req.keepAlive = 0 then 0 else conf.keepaliveTime
    events := .EPOLLOUT }, ?_, rfl, rfl, rfl, rfl, rfl⟩
  intro later
  rw [run_cons]
  simp only [step, waits, ↓reduceIte, handleIn, parsed, Option.bind_some]

attribute [local instance] Letters.forward

def samplePost : List Readiness :=
  .readable (.received ⟨ascii "POST /f.txt HTTP/1.1\r\n\r\nabc", by decide⟩ []) :: sampleEvents.drop 1

end Connection

end NetworkSystem.Http
