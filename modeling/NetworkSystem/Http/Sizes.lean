import NetworkSystem.Http.Machine
import NetworkSystem.Http.Request

/-! The sizes that `send` is called with, against what has been written to the
buffer. -/

namespace NetworkSystem.Http

open Bytes

/-- The buffers that `send` was called with, and the sizes. -/
def sends (log : List Call) : List (Bytes × Nat) :=
  log.filterMap (fun call => match call with
    | .sent buf size _ => some (buf, size)
    | _ => none)

/-- The descriptors of which a `read` has failed. -/
def failedReads (log : List Call) : List Nat :=
  log.filterMap (fun call => match call with
    | .read fd none => some fd
    | _ => none)

/-- A size that is the length of the buffer, which holds `BUF_SIZE` bytes. -/
def Exact (entry : Bytes × Nat) : Prop := entry.2 ≤ BUF_SIZE ∧ entry.2 = entry.1.length

instance : DecidablePred Exact :=
  fun entry => inferInstanceAs (Decidable (entry.2 ≤ BUF_SIZE ∧ entry.2 = entry.1.length))

@[simp] theorem sends_append (first second : List Call) :
    sends (first ++ second) = sends first ++ sends second :=
  List.filterMap_append

@[simp] theorem failedReads_append (first second : List Call) :
    failedReads (first ++ second) = failedReads first ++ failedReads second :=
  List.filterMap_append

theorem length_decimal_le (value count : Nat) (positive : 0 < count) (bound : value < 10 ^ count) :
    (decimal value).length ≤ count := by
  rw [decimal, List.length_map]
  exact (Nat.length_toDigits_le_iff (by decide) positive).mpr bound

theorem length_formatInt_le (value : Int) : (formatInt value).length ≤ 11 := by
  have range : (value.bmod (2 ^ 32)).natAbs < 10 ^ 10 := by
    have low := Int.le_bmod (x := value) (m := 2 ^ 32) (by decide)
    have high := Int.bmod_lt (x := value) (m := 2 ^ 32) (by decide)
    omega
  have digits := length_decimal_le _ 10 (by decide) range
  have sign : (ascii "-").length = 1 := by decide
  simp only [formatInt]
  split_ifs
  · rw [List.length_append]
    omega
  · omega

/-- A header is short: its parts are the texts of the format, a date and a content type
of their own arrays, and numbers. -/
theorem length_buildHttpRespHeader_lt (date : Bytes) (header : HttpRespHeader)
    (dated : date.length < 128) (typed : header.contentType.length < 64) :
    (buildHttpRespHeader date header).length < 1024 := by
  have version : (getHttpVersionStr header.version).length ≤ 8 := by
    simp only [getHttpVersionStr]
    split_ifs <;> decide
  have status : (decimal header.statusCode.toNat).length ≤ 5 :=
    length_decimal_le _ 5 (by decide) (by have := header.statusCode.toNat_lt; omega)
  have reason : (getReasonPhrase header.statusCode).length ≤ 21 := by
    simp only [getReasonPhrase]
    split_ifs <;> decide
  have number := length_formatInt_le header.contentLength
  have connection : (if header.keepAlive ≠ 0 then ascii "keep-alive" else ascii "close").length ≤
      10 := by
    split_ifs <;> decide
  have marks : (ascii " ").length = 1 ∧ (ascii "\r\nDate: ").length = 8 ∧
      (ascii "\r\nContent-Length: ").length = 18 ∧ (ascii "\r\nConnection: ").length = 14 ∧
      (ascii "\r\nContent-Type: ").length = 16 ∧
      (ascii "\r\nCache-control: max-age=3600\r\n\r\n").length = 33 := by
    decide
  simp only [buildHttpRespHeader, List.length_append, marks]
  omega

theorem length_errResp_lt (code : UInt8) : (errResp.getD code.toNat []).length < 1024 := by
  have texts : ∀ text ∈ errResp, text.length < 1024 := by decide
  exact length_getD_lt (by omega) texts code.toNat

namespace Connection

theorem sends_resetEpoll (now : Nat) (conn : Connection) :
    sends (resetEpoll now conn).log = sends conn.log := by
  rw [log_resetEpoll_eq, resetCalls]
  split_ifs <;> simp [sends]

theorem failedReads_resetEpoll (now : Nat) (conn : Connection) :
    failedReads (resetEpoll now conn).log = failedReads conn.log := by
  rw [log_resetEpoll_eq, resetCalls]
  split_ifs <;> simp [failedReads]

theorem sends_sendData (outcomes : Outcomes) (more : Bool) (conn : Connection) :
    sends (sendData outcomes more conn).log = sends conn.log ++ [(conn.buf.getD [], conn.size)] := by
  rcases sendData_cases outcomes more conn with ⟨_, -, -, sent⟩ | ⟨-, sent⟩ | ⟨_, -, -, sent⟩ |
    ⟨-, sent⟩
  · rw [sent]
    exact sends_append _ _
  · rw [sent]
    exact sends_append _ _
  · rw [sent, sends_resetEpoll]
    exact sends_append _ _
  · rw [sent, sends_resetEpoll]
    exact sends_append _ _

theorem failedReads_sendData (outcomes : Outcomes) (more : Bool) (conn : Connection) :
    failedReads (sendData outcomes more conn).log = failedReads conn.log := by
  have none_ : failedReads (conn.log ++ [.sent (conn.buf.getD []) conn.size outcomes.sent]) =
      failedReads conn.log := by
    rw [failedReads_append]
    exact List.append_nil _
  rcases sendData_cases outcomes more conn with ⟨_, -, -, sent⟩ | ⟨-, sent⟩ | ⟨_, -, -, sent⟩ |
    ⟨-, sent⟩
  · rw [sent]
    exact none_
  · rw [sent]
    exact none_
  · rw [sent, failedReads_resetEpoll]
    exact none_
  · rw [sent, failedReads_resetEpoll]
    exact none_

theorem sendData_keeps (outcomes : Outcomes) (more : Bool) (conn : Connection) :
    let next := sendData outcomes more conn
    (next.buf = none ∨ next.buf = conn.buf ∧ next.size = conn.size) ∧
      (next.req = none ∨ next.req = conn.req) := by
  rcases sendData_cases outcomes more conn with ⟨_, -, -, sent⟩ | ⟨-, sent⟩ | ⟨_, -, -, sent⟩ |
    ⟨-, sent⟩
  · rw [sent]
    exact ⟨Or.inl rfl, Or.inr rfl⟩
  · rw [sent]
    exact ⟨Or.inr ⟨rfl, rfl⟩, Or.inr rfl⟩
  · rw [sent]
    exact ⟨Or.inl rfl, Or.inl rfl⟩
  · rw [sent]
    exact ⟨Or.inl rfl, Or.inl rfl⟩

/-- What holds between two events: a size is wrong only behind a `read` that failed, and
right as long as none has. -/
structure Sized (conn : Connection) : Prop where
  typed : ∀ req ∈ conn.req, req.contentType.length < 64
  held : ∀ buf ∈ conn.buf, Exact (buf, conn.size) ∨ failedReads conn.log ≠ []
  sent : (∀ entry ∈ sends conn.log, Exact entry) ↔ failedReads conn.log = []

theorem sized_fresh : Sized fresh where
  typed _ none_ := by cases none_
  held _ none_ := by cases none_
  sent := by simp [fresh, sends, failedReads]

/-- A connection that is about to send the `size` bytes of its buffer. -/
structure Ready (text : Bytes) (conn : Connection) : Prop where
  buf : conn.buf = some text
  typed : ∀ req ∈ conn.req, req.contentType.length < 64
  right : failedReads conn.log = [] →
    (∀ entry ∈ sends conn.log, Exact entry) ∧ Exact (text, conn.size)
  wrong : failedReads conn.log ≠ [] →
    ¬ ((∀ entry ∈ sends conn.log, Exact entry) ∧ Exact (text, conn.size))

theorem Ready.sendData {text : Bytes} {conn : Connection} (ready : Ready text conn)
    (outcomes : Outcomes) (more : Bool) : Sized (sendData outcomes more conn) := by
  have kept := sendData_keeps outcomes more conn
  have fails := failedReads_sendData outcomes more conn
  have held : conn.buf.getD [] = text := by rw [ready.buf, Option.getD_some]
  refine ⟨?_, ?_, ?_⟩
  · intro req member
    cases kept.2 with
    | inl none_ =>
        rw [none_] at member
        cases member
    | inr same =>
        rw [same] at member
        exact ready.typed req member
  · intro buf member
    cases kept.1 with
    | inl none_ =>
        rw [none_] at member
        cases member
    | inr same =>
        rw [same.1, ready.buf] at member
        rw [same.2, fails, ← Option.some.inj member]
        by_cases fine : failedReads conn.log = []
        · exact Or.inl (ready.right fine).2
        · exact Or.inr fine
  · rw [sends_sendData, fails, held, List.forall_mem_append, List.forall_mem_singleton]
    constructor
    · intro exact_
      by_contra failed
      exact ready.wrong failed exact_
    · exact ready.right

theorem Sized.fill {conn : Connection} (sized : Sized conn) (text : Bytes)
    (short : text.length ≤ BUF_SIZE) : Ready text (conn.fill text) where
  buf := rfl
  typed := sized.typed
  right fine := ⟨sized.sent.mpr fine, short, rfl⟩
  wrong bad exact_ := bad (sized.sent.mp exact_.1)

theorem Sized.note {conn : Connection} (sized : Sized conn) (calls : List Call)
    (sent : sends calls = []) (failed : failedReads calls = []) : Sized (conn.note calls) where
  typed := sized.typed
  held buf member := by
    rw [note_log, failedReads_append, failed, List.append_nil]
    exact sized.held buf member
  sent := by
    rw [note_log, sends_append, failedReads_append, sent, failed, List.append_nil, List.append_nil]
    exact sized.sent

theorem Sized.answerError {conn : Connection} (sized : Sized conn) (outcomes : Outcomes)
    (req : HttpReq) (dated : outcomes.date.length < 128) (typed : req.contentType.length < 64) :
    Sized (answerError outcomes req conn) := by
  have html : (ascii "text/html").length < 64 := by decide
  have header := length_buildHttpRespHeader_lt outcomes.date (errHeader req) dated html
  have error := length_errResp_lt req.errorCode
  have limit : BUF_SIZE = 4096 := rfl
  have noted := sized.note [.answered (errHeader req)] rfl rfl
  have asking : Sized { conn.note [.answered (errHeader req)] with req := some req } := by
    refine ⟨fun asked member => ?_, noted.held, noted.sent⟩
    rw [← Option.some.inj member]
    exact typed
  exact (asking.fill _ (by rw [List.length_append]; omega)).sendData outcomes false

theorem Sized.answerFound {conn : Connection} (sized : Sized conn) (outcomes : Outcomes) (fd : Nat)
    (req : HttpReq) (dated : outcomes.date.length < 128) (typed : req.contentType.length < 64) :
    Sized (answerFound outcomes fd req conn) := by
  have header := length_buildHttpRespHeader_lt outcomes.date (foundHeader outcomes.fileSize req)
    dated typed
  have limit : BUF_SIZE = 4096 := rfl
  have noted := sized.note [.answered (foundHeader outcomes.fileSize req)] rfl rfl
  have reading : Sized { conn.note [.answered (foundHeader outcomes.fileSize req)] with
    readfd := fd } := ⟨noted.typed, noted.held, noted.sent⟩
  exact (reading.fill _ (by omega)).sendData outcomes true

theorem Sized.resetEpoll {conn : Connection} (sized : Sized conn) (now : Nat) :
    Sized (resetEpoll now conn) where
  typed _ none_ := by cases none_
  held _ none_ := by cases none_
  sent := by
    rw [sends_resetEpoll, failedReads_resetEpoll]
    exact sized.sent

theorem OutStep.sized {conf : Config} {outcomes : Outcomes} {conn next : Connection}
    (step : OutStep conf outcomes conn next) (sized : Sized conn)
    (dated : outcomes.date.length < 128) : Sized next := by
  have limit : BUF_SIZE = 4096 := rfl
  cases step with
  | pending buf held =>
      have old := sized.held buf held
      apply Ready.sendData
      refine ⟨held, sized.typed, fun fine => ?_, fun bad exact_ => bad (sized.sent.mp exact_.1)⟩
      exact ⟨sized.sent.mpr fine, old.resolve_right (fun bad => bad fine)⟩
  | found req fd held free asked fine opened =>
      exact (sized.note _ rfl rfl).answerFound outcomes fd req dated (sized.typed req asked)
  | missing req held free asked fine opened =>
      exact (sized.note _ rfl rfl).answerError outcomes _ dated (sized.typed req asked)
  | refused req held free asked wrong =>
      exact sized.answerError outcomes req dated (sized.typed req asked)
  | failed held busy data =>
      have huge : ¬ readFailed ≤ BUF_SIZE := by decide
      apply Ready.sendData
      refine ⟨rfl, sized.typed, ?_, fun _ exact_ => huge exact_.2.1⟩
      intro none_
      simp [data, failedReads] at none_
  | data bytes held busy data some_ =>
      have short := outcomes.read_fits bytes data
      have read : failedReads [Call.read conn.readfd outcomes.read] = [] := by rw [data]; rfl
      exact ((sized.note _ rfl read).fill bytes short).sendData outcomes true
  | trailer req text held busy data asked appends posted =>
      have short : text.length < 1024 := by
        simp only [appendPostResponse, List.nil_append] at posted
        split_ifs at posted with fits
        rw [← Option.some.inj posted]
        exact fits
      have read : failedReads [Call.read conn.readfd outcomes.read] = [] := by rw [data]; rfl
      exact ((sized.note _ rfl read).fill text (by omega)).sendData outcomes false
  | ended req held busy data asked ends =>
      have read : failedReads [Call.read conn.readfd outcomes.read] = [] := by rw [data]; rfl
      exact (sized.note _ rfl read).resetEpoll outcomes.now

def Dated : Readiness → Prop
  | .readable _ => True
  | .writable outcomes => outcomes.date.length < 128

theorem sized_step [Overlapping] (conf : Config) (conn : Connection) (event : Readiness)
    (next : Connection)
    (sized : Sized conn) (dated : Dated event) (stepped : step conf conn event = some next) :
    Sized next := by
  cases moved_of_step stepped with
  | input outcome waits handled =>
      rcases handleIn_cases conf outcome conn next handled with same |
        ⟨bytes, behind, req, -, parsed, same⟩
      · rw [same]
        exact sized.note _ rfl rfl
      · have noted := sized.note [.received outcome] rfl rfl
        have typed := parse_contentType conf _ req parsed
        rw [same]
        refine ⟨fun asked member => ?_, noted.held, noted.sent⟩
        rw [← Option.some.inj member]
        exact typed
  | output outcomes answers handled => exact handled.sized sized dated
  | ignored _ other same =>
      rw [same]
      exact sized

/-- Every `send` of a run is called with the length of its buffer exactly when no
`read` of the run has failed: the -1 of such a `read` becomes the size. -/
theorem send_size_iff [Overlapping] (conf : Config) (events : List Readiness) (conn : Connection)
    (dated : ∀ event ∈ events, Dated event) (reached : run conf fresh events = some conn) :
    (∀ entry ∈ sends conn.log, Exact entry) ↔ failedReads conn.log = [] :=
  (Runs.run_invariant_on (step conf) Sized Dated (sized_step conf) fresh conn events sized_fresh
    dated reached).sent

attribute [local instance] Letters.forward

theorem send_size_iff_request :
    ∃ conn, run sampleConfig fresh sampleEvents = some conn ∧
      ((∀ entry ∈ sends conn.log, Exact entry) ↔ failedReads conn.log = []) := by
  have returns : (run sampleConfig fresh sampleEvents).isSome = true := by decide +kernel
  obtain ⟨conn, reached⟩ := Option.isSome_iff_exists.mp returns
  have dated : ∀ event ∈ sampleEvents, Dated event := by
    intro event member
    simp only [sampleEvents, List.mem_cons, List.not_mem_nil, or_false] at member
    rcases member with rfl | rfl | rfl | rfl
    · exact trivial
    · exact Nat.zero_lt_succ _
    · exact Nat.zero_lt_succ _
    · exact Nat.zero_lt_succ _
  exact ⟨conn, reached, send_size_iff sampleConfig sampleEvents conn dated reached⟩

def unreadable : Outcomes := { sampleOpened with read := none, read_fits := by simp }

theorem send_size_of_failed_read :
    ∃ conn, run sampleConfig fresh (sampleEvents.take 2 ++ [.writable unreadable]) = some conn ∧
      ∃ entry ∈ sends conn.log, entry.2 = readFailed ∧ ¬ Exact entry := by
  have returns : (run sampleConfig fresh (sampleEvents.take 2 ++ [.writable unreadable])).isSome =
      true := by decide +kernel
  obtain ⟨conn, reached⟩ := Option.isSome_iff_exists.mp returns
  have last : (run sampleConfig fresh (sampleEvents.take 2 ++ [.writable unreadable])).map
      (fun conn => (sends conn.log).getLast?.map Prod.snd) = some (some readFailed) := by
    decide +kernel
  rw [reached, Option.map_some, Option.some.injEq] at last
  obtain ⟨entry, listed, size⟩ := Option.map_eq_some_iff.mp last
  have huge : ¬ readFailed ≤ BUF_SIZE := by decide
  refine ⟨conn, reached, entry, List.mem_of_getLast? listed, size, fun exact_ => ?_⟩
  rw [Exact, size] at exact_
  exact huge exact_.1

end Connection

end NetworkSystem.Http
