import NetworkSystem.Http.Connection

/-! The connection as a state machine: what its fields hold whenever it waits for an
event, and that nothing of a request is left behind for the next one. -/

namespace NetworkSystem.Http

open Bytes

/-- The descriptors that `open` has returned. -/
def openings (log : List Call) : List Nat :=
  log.filterMap (fun call => match call with
    | .opened _ fd => fd
    | _ => none)

def closings (log : List Call) : List Nat :=
  log.filterMap (fun call => match call with
    | .closed fd => some fd
    | _ => none)

@[simp] theorem openings_append (first second : List Call) :
    openings (first ++ second) = openings first ++ openings second :=
  List.filterMap_append

@[simp] theorem closings_append (first second : List Call) :
    closings (first ++ second) = closings first ++ closings second :=
  List.filterMap_append

/-- Of the descriptors opened so far, only the one in `readfd` is still open. -/
def Closing (readfd : Nat) (log : List Call) : Prop :=
  openings log = closings log ++ (if readfd = 0 then [] else [readfd])

/-- A call that neither opens nor closes a descriptor. -/
theorem Closing.note {readfd : Nat} {log : List Call} (closing : Closing readfd log) (call : Call)
    (opens : openings [call] = []) (closes : closings [call] = []) :
    Closing readfd (log ++ [call]) := by
  simp only [Closing, openings_append, closings_append, opens, closes, List.append_nil]
  exact closing

namespace Connection

/-- What holds between two events. -/
structure Tidy (conn : Connection) : Prop where
  waiting : conn.events = .EPOLLIN → conn.buf = none ∧ conn.req = none ∧ conn.readfd = 0
  answering : conn.events = .EPOLLOUT → conn.req ≠ none
  closing : Closing conn.readfd conn.log

theorem tidy_fresh : Tidy fresh where
  waiting _ := ⟨rfl, rfl, rfl⟩
  answering waits := by cases waits
  closing := rfl

theorem tidy_resetEpoll (now : Nat) (conn : Connection) (closing : Closing conn.readfd conn.log) :
    Tidy (resetEpoll now conn) where
  waiting _ := ⟨rfl, rfl, rfl⟩
  answering waits := by cases waits
  closing := by
    simp only [Closing] at closing ⊢
    by_cases none_ : conn.readfd = 0
    · simp only [none_, ↓reduceIte, List.append_nil] at closing
      simp only [resetEpoll, note, none_, ne_eq, not_true_eq_false, ↓reduceIte, openings_append,
        closings_append, closing, List.append_nil]
      rfl
    · simp only [none_, ↓reduceIte] at closing
      simp only [resetEpoll, note, none_, ne_eq, not_false_eq_true, ↓reduceIte, openings_append,
        closings_append, closing, List.append_assoc]
      rfl

theorem sendData_cases (outcomes : Outcomes) (more : Bool) (conn : Connection) :
    let noted := conn.note [.sent (conn.buf.getD []) conn.size outcomes.sent]
    (∃ count, outcomes.sent = .room count ∧ more = true ∧
      sendData outcomes more conn = { noted with buf := none }) ∨
    (outcomes.sent = .again ∧ sendData outcomes more conn = noted) ∨
    (∃ count, outcomes.sent = .room count ∧ more = false ∧
      sendData outcomes more conn = resetEpoll outcomes.now { noted with buf := none }) ∨
    (outcomes.sent = .error ∧
      sendData outcomes more conn = resetEpoll outcomes.now { noted with keepaliveTime := 0 }) := by
  simp only [sendData]
  cases outcomes.sent with
  | room count =>
      cases more with
      | true => exact Or.inl ⟨count, rfl, rfl, rfl⟩
      | false => exact Or.inr (Or.inr (Or.inl ⟨count, rfl, rfl, rfl⟩))
  | again => exact Or.inr (Or.inl ⟨rfl, rfl⟩)
  | error => exact Or.inr (Or.inr (Or.inr ⟨rfl, rfl⟩))

structure Answering (conn : Connection) : Prop where
  events : conn.events = .EPOLLOUT
  req : conn.req ≠ none
  closing : Closing conn.readfd conn.log

theorem Tidy.isAnswering {conn : Connection} (tidy : Tidy conn) (waits : conn.events = .EPOLLOUT) :
    Answering conn :=
  ⟨waits, tidy.answering waits, tidy.closing⟩

theorem Answering.tidy {conn : Connection} (answering : Answering conn) : Tidy conn where
  waiting waits := by
    rw [answering.events] at waits
    cases waits
  answering _ := answering.req
  closing := answering.closing

theorem Answering.sendData {conn : Connection} (answering : Answering conn) (outcomes : Outcomes)
    (more : Bool) : Tidy (sendData outcomes more conn) := by
  have noted : Closing conn.readfd
      (conn.log ++ [.sent (conn.buf.getD []) conn.size outcomes.sent]) :=
    answering.closing.note _ rfl rfl
  rcases sendData_cases outcomes more conn with ⟨_, -, -, sent⟩ | ⟨-, sent⟩ | ⟨_, -, -, sent⟩ |
    ⟨-, sent⟩
  · rw [sent]
    exact Answering.tidy ⟨answering.events, answering.req, noted⟩
  · rw [sent]
    exact Answering.tidy ⟨answering.events, answering.req, noted⟩
  · rw [sent]
    exact tidy_resetEpoll _ _ noted
  · rw [sent]
    exact tidy_resetEpoll _ _ noted

theorem tidy_answerFound (outcomes : Outcomes) (fd : Nat) (path : Bytes) (req : HttpReq)
    (conn : Connection) (answering : Answering conn) (free : conn.readfd = 0)
    (opened : outcomes.opened = some fd) :
    Tidy (answerFound outcomes fd req (conn.note [.opened path outcomes.opened])) := by
  have positive : fd ≠ 0 := by
    intro zero
    rw [zero] at opened
    exact outcomes.opened_pos opened
  apply Answering.sendData
  refine ⟨answering.events, answering.req, ?_⟩
  have closing := answering.closing
  simp only [Closing, free, ↓reduceIte, List.append_nil] at closing
  simp only [Closing, fill, note, openings_append, closings_append, closing, positive, opened,
    ↓reduceIte, List.append_assoc]
  rfl

theorem tidy_answerError (outcomes : Outcomes) (req : HttpReq) (conn : Connection)
    (answering : Answering conn) : Tidy (answerError outcomes req conn) := by
  apply Answering.sendData
  refine ⟨answering.events, Option.some_ne_none req, ?_⟩
  exact answering.closing.note _ rfl rfl

/-- The calls of `reset_epoll`. -/
def resetCalls (readfd : Nat) : List Call :=
  (if readfd = 0 then [] else [.closed readfd]) ++ [.waiting]

theorem log_resetEpoll_eq (now : Nat) (conn : Connection) :
    (resetEpoll now conn).log = conn.log ++ resetCalls conn.readfd := by
  simp only [resetEpoll, note_log, ne_eq, resetCalls]
  split_ifs <;> simp

theorem log_resetEpoll (now : Nat) (conn : Connection) :
    conn.log <+: (resetEpoll now conn).log := by
  rw [log_resetEpoll_eq]
  exact List.prefix_append _ _

theorem log_sendData (outcomes : Outcomes) (more : Bool) (conn : Connection) :
    conn.log ++ [.sent (conn.buf.getD []) conn.size outcomes.sent] <+:
      (sendData outcomes more conn).log := by
  rcases sendData_cases outcomes more conn with ⟨_, -, -, sent⟩ | ⟨-, sent⟩ | ⟨_, -, -, sent⟩ |
    ⟨-, sent⟩
  · rw [sent]
    exact List.prefix_rfl
  · rw [sent]
    exact List.prefix_rfl
  · rw [sent]
    exact log_resetEpoll outcomes.now { conn.note _ with buf := none }
  · rw [sent]
    exact log_resetEpoll outcomes.now { conn.note _ with keepaliveTime := 0 }

theorem log_answerError (outcomes : Outcomes) (req : HttpReq) (conn : Connection) :
    conn.log <+: (answerError outcomes req conn).log := by
  apply List.IsPrefix.trans _ (log_sendData outcomes false _)
  simp only [fill, note_log, List.append_assoc]
  exact List.prefix_append _ _

theorem log_answerFound (outcomes : Outcomes) (fd : Nat) (req : HttpReq) (conn : Connection) :
    conn.log <+: (answerFound outcomes fd req conn).log := by
  apply List.IsPrefix.trans _ (log_sendData outcomes true _)
  simp only [fill, note_log, List.append_assoc]
  exact List.prefix_append _ _

/-- What `handle_out` can do with an event. -/
inductive OutStep (conf : Config) (outcomes : Outcomes) (conn : Connection) : Connection → Prop
  | pending (buf : Bytes) (held : conn.buf = some buf) :
      OutStep conf outcomes conn (sendData outcomes false conn)
  | found (req : HttpReq) (fd : Nat) (held : conn.buf = none) (free : conn.readfd = 0)
      (asked : conn.req = some req) (fine : req.errorCode = 0) (opened : outcomes.opened = some fd) :
      OutStep conf outcomes conn (answerFound outcomes fd req
        (conn.note [.opened (conf.root.text ++ req.uri) outcomes.opened]))
  | missing (req : HttpReq) (held : conn.buf = none) (free : conn.readfd = 0)
      (asked : conn.req = some req) (fine : req.errorCode = 0) (opened : outcomes.opened = none) :
      OutStep conf outcomes conn (answerError outcomes { req with errorCode := ERR_NOT_FOUND }
        (conn.note [.opened (conf.root.text ++ req.uri) outcomes.opened]))
  | refused (req : HttpReq) (held : conn.buf = none) (free : conn.readfd = 0)
      (asked : conn.req = some req) (wrong : req.errorCode ≠ 0) :
      OutStep conf outcomes conn (answerError outcomes req conn)
  | failed (held : conn.buf = none) (busy : conn.readfd ≠ 0) (read : outcomes.read = none) :
      OutStep conf outcomes conn (sendData outcomes true
        { conn.note [.read conn.readfd outcomes.read] with
          buf := some (zeros BUF_SIZE)
          size := readFailed })
  | data (bytes : Bytes) (held : conn.buf = none) (busy : conn.readfd ≠ 0)
      (read : outcomes.read = some bytes) (some_ : bytes.length > 0) :
      OutStep conf outcomes conn
        (sendData outcomes true ((conn.note [.read conn.readfd outcomes.read]).fill bytes))
  | trailer (req : HttpReq) (text : Bytes) (held : conn.buf = none) (busy : conn.readfd ≠ 0)
      (read : outcomes.read = some []) (asked : conn.req = some req) (appends : req.appends = true)
      (posted : appendPostResponse [] req.postData = some text) :
      OutStep conf outcomes conn
        (sendData outcomes false ((conn.note [.read conn.readfd outcomes.read]).fill text))
  | ended (req : HttpReq) (held : conn.buf = none) (busy : conn.readfd ≠ 0)
      (read : outcomes.read = some []) (asked : conn.req = some req) (ends : req.appends = false) :
      OutStep conf outcomes conn
        (resetEpoll outcomes.now (conn.note [.read conn.readfd outcomes.read]))

theorem outStep_answerFile (conf : Config) (outcomes : Outcomes) (conn next : Connection)
    (held : conn.buf = none) (busy : conn.readfd ≠ 0)
    (answered : answerFile outcomes conn = some next) : OutStep conf outcomes conn next := by
  simp only [answerFile] at answered
  cases data : outcomes.read with
  | none =>
      simp only [data, Option.some.injEq] at answered
      rw [← answered, ← data]
      exact .failed held busy data
  | some bytes =>
      simp only [data] at answered
      by_cases some_ : bytes.length > 0
      · simp only [some_, ↓reduceIte, Option.some.injEq] at answered
        rw [← answered, ← data]
        exact .data bytes held busy data some_
      · have empty : bytes = [] := List.eq_nil_of_length_eq_zero (by omega)
        simp only [some_, ↓reduceIte, note_req] at answered
        cases asked : conn.req with
        | none => simp only [asked, reduceCtorEq] at answered
        | some req =>
            simp only [asked] at answered
            cases appends : req.appends with
            | true =>
                simp only [appends, ↓reduceIte] at answered
                obtain ⟨text, posted, rfl⟩ := Option.map_eq_some_iff.mp answered
                rw [← data]
                exact .trailer req text held busy (by rw [data, empty]) asked appends posted
            | false =>
                simp only [appends, Bool.false_eq_true, ↓reduceIte, Option.some.injEq] at answered
                rw [← answered, ← data]
                exact .ended req held busy (by rw [data, empty]) asked appends

theorem outStep_handleOut (conf : Config) (outcomes : Outcomes) (conn next : Connection)
    (answered : handleOut conf outcomes conn = some next) : OutStep conf outcomes conn next := by
  simp only [handleOut] at answered
  cases held : conn.buf with
  | some buf =>
      simp only [held, Option.some.injEq] at answered
      rw [← answered]
      exact .pending buf held
  | none =>
      simp only [held] at answered
      by_cases free : conn.readfd = 0
      · simp only [free, ↓reduceIte] at answered
        cases asked : conn.req with
        | none => simp only [asked, reduceCtorEq] at answered
        | some req =>
            simp only [asked] at answered
            by_cases fine : req.errorCode = 0
            · simp only [fine, ↓reduceIte] at answered
              cases opened : outcomes.opened with
              | some fd =>
                  simp only [opened, Option.some.injEq] at answered
                  rw [← answered, ← opened]
                  exact .found req fd held free asked fine opened
              | none =>
                  simp only [opened, Option.some.injEq] at answered
                  rw [← answered, ← opened]
                  exact .missing req held free asked fine opened
            · simp only [fine, ↓reduceIte, Option.some.injEq] at answered
              rw [← answered]
              exact .refused req held free asked fine
      · simp only [free, ↓reduceIte] at answered
        exact outStep_answerFile conf outcomes conn next held free answered

theorem OutStep.tidy {conf : Config} {outcomes : Outcomes} {conn next : Connection}
    (step : OutStep conf outcomes conn next) (answering : Answering conn) : Tidy next := by
  have read : Closing conn.readfd (conn.log ++ [.read conn.readfd outcomes.read]) :=
    answering.closing.note _ rfl rfl
  cases step with
  | pending buf held => exact answering.sendData outcomes false
  | found req fd held free asked fine opened =>
      exact tidy_answerFound outcomes fd _ req conn answering free opened
  | missing req held free asked fine opened =>
      apply tidy_answerError
      refine ⟨answering.events, answering.req, ?_⟩
      rw [opened]
      exact answering.closing.note _ rfl rfl
  | refused req held free asked wrong => exact tidy_answerError outcomes req conn answering
  | failed held busy data =>
      apply Answering.sendData
      exact ⟨answering.events, answering.req, read⟩
  | data bytes held busy data some_ =>
      apply Answering.sendData
      exact ⟨answering.events, answering.req, read⟩
  | trailer req text held busy data asked appends posted =>
      apply Answering.sendData
      exact ⟨answering.events, answering.req, read⟩
  | ended req held busy data asked ends => exact tidy_resetEpoll _ _ read

theorem handleIn_cases [Overlapping] (conf : Config) (outcome : RecvOutcome)
    (conn next : Connection)
    (handled : handleIn conf outcome conn = some next) :
    next = conn.note [.received outcome] ∨
    ∃ bytes behind req, outcome = .received bytes behind ∧
      parseHttpReq conf (receivedText bytes behind) = some req ∧
      next = { conn.note [.received outcome] with
        req := some req.toHttpReq
        keepaliveTime := if req.keepAlive = 0 then 0 else conf.keepaliveTime
        events := .EPOLLOUT } := by
  cases outcome with
  | received bytes behind =>
      right
      simp only [handleIn] at handled
      cases parsed : parseHttpReq conf (receivedText bytes behind) with
      | none => simp only [parsed, reduceCtorEq] at handled
      | some req =>
          simp only [parsed, Option.some.injEq] at handled
          exact ⟨bytes, behind, req, rfl, parsed, handled.symm⟩
  | closed => exact Or.inl (Option.some.inj handled).symm
  | again => exact Or.inl (Option.some.inj handled).symm
  | error => exact Or.inl (Option.some.inj handled).symm

theorem tidy_handleIn [Overlapping] (conf : Config) (outcome : RecvOutcome) (conn next : Connection)
    (tidy : Tidy conn) (handled : handleIn conf outcome conn = some next) : Tidy next := by
  have noted : Closing conn.readfd (conn.log ++ [.received outcome]) := tidy.closing.note _ rfl rfl
  rcases handleIn_cases conf outcome conn next handled with same | ⟨bytes, behind, req, -, -, same⟩
  · rw [same]
    exact ⟨tidy.waiting, tidy.answering, noted⟩
  · rw [same]
    exact Answering.tidy ⟨rfl, Option.some_ne_none _, noted⟩

theorem log_handleIn [Overlapping] (conf : Config) (outcome : RecvOutcome) (conn next : Connection)
    (handled : handleIn conf outcome conn = some next) :
    next.log = conn.log ++ [.received outcome] := by
  rcases handleIn_cases conf outcome conn next handled with same | ⟨bytes, behind, req, -, -, same⟩
  · rw [same, note_log]
  · rw [same, note_log]

def Registered (conn : Connection) : Readiness → Prop
  | .readable _ => conn.events = .EPOLLIN
  | .writable _ => conn.events = .EPOLLOUT

/-- What an event can do to a connection: it is handled when the connection is registered
for it. -/
inductive Moved [Overlapping] (conf : Config) (conn next : Connection) : Readiness → Prop where
  | input (outcome : RecvOutcome) (waits : conn.events = .EPOLLIN)
      (handled : handleIn conf outcome conn = some next) : Moved conf conn next (.readable outcome)
  | output (outcomes : Outcomes) (answers : conn.events = .EPOLLOUT)
      (handled : OutStep conf outcomes conn next) : Moved conf conn next (.writable outcomes)
  | ignored (event : Readiness) (other : ¬ Registered conn event) (same : next = conn) :
      Moved conf conn next event

theorem moved_of_step [Overlapping] {conf : Config} {conn next : Connection} {event : Readiness}
    (stepped : step conf conn event = some next) : Moved conf conn next event := by
  cases event with
  | readable outcome =>
      simp only [step] at stepped
      split_ifs at stepped with waits
      · exact Moved.input outcome waits stepped
      · exact Moved.ignored _ waits (Option.some.inj stepped).symm
  | writable outcomes =>
      simp only [step] at stepped
      split_ifs at stepped with answers
      · exact Moved.output outcomes answers (outStep_handleOut conf outcomes conn next stepped)
      · exact Moved.ignored _ answers (Option.some.inj stepped).symm

theorem tidy_step [Overlapping] (conf : Config) (conn : Connection) (event : Readiness)
    (next : Connection)
    (tidy : Tidy conn) (stepped : step conf conn event = some next) : Tidy next := by
  cases moved_of_step stepped with
  | input outcome waits handled => exact tidy_handleIn conf outcome conn next tidy handled
  | output outcomes answers handled => exact handled.tidy (tidy.isAnswering answers)
  | ignored _ other same =>
      rw [same]
      exact tidy

theorem tidy_run [Overlapping] (conf : Config) (events : List Readiness) (conn : Connection)
    (reached : run conf fresh events = some conn) : Tidy conn :=
  Runs.run_invariant (step conf) Tidy (tidy_step conf) fresh conn events tidy_fresh reached

theorem OutStep.log {conf : Config} {outcomes : Outcomes} {conn next : Connection}
    (step : OutStep conf outcomes conn next) : conn.log <+: next.log := by
  cases step with
  | pending buf held => exact (List.prefix_append _ _).trans (log_sendData _ _ _)
  | found req fd held free asked fine opened =>
      exact (List.prefix_append _ _).trans (log_answerFound outcomes fd req (conn.note _))
  | missing req held free asked fine opened =>
      exact (List.prefix_append _ _).trans (log_answerError outcomes _ (conn.note _))
  | refused req held free asked wrong => exact log_answerError outcomes req conn
  | failed held busy data =>
      apply List.IsPrefix.trans _ (log_sendData _ _ _)
      simp only [note_log, List.append_assoc]
      exact List.prefix_append _ _
  | data bytes held busy data some_ =>
      apply List.IsPrefix.trans _ (log_sendData _ _ _)
      simp only [fill, note_log, List.append_assoc]
      exact List.prefix_append _ _
  | trailer req text held busy data asked appends posted =>
      apply List.IsPrefix.trans _ (log_sendData _ _ _)
      simp only [fill, note_log, List.append_assoc]
      exact List.prefix_append _ _
  | ended req held busy data asked ends =>
      exact (List.prefix_append _ _).trans (log_resetEpoll _ (conn.note _))

theorem log_step [Overlapping] (conf : Config) (conn next : Connection) (event : Readiness)
    (stepped : step conf conn event = some next) : conn.log <+: next.log := by
  cases moved_of_step stepped with
  | input outcome waits handled =>
      rw [log_handleIn conf outcome conn next handled]
      exact List.prefix_append _ _
  | output outcomes answers handled => exact handled.log
  | ignored _ other same => exact same ▸ List.prefix_rfl

theorem log_run [Overlapping] (conf : Config) (conn last : Connection) (events : List Readiness)
    (reached : run conf conn events = some last) : conn.log <+: last.log :=
  Runs.run_invariant (step conf) (fun state => conn.log <+: state.log)
    (fun state event next front stepped => front.trans (log_step conf state next event stepped))
    conn last events List.prefix_rfl reached

theorem run_cons [Overlapping] (conf : Config) (conn : Connection) (event : Readiness)
    (rest : List Readiness) :
    run conf conn (event :: rest) =
      (step conf conn event).bind (fun next => run conf next rest) :=
  Runs.run_cons (step conf) conn event rest

theorem run_waiting [Overlapping] (conf : Config) (conn : Connection) (outcomes : List Outcomes)
    (waits : conn.events = .EPOLLIN) :
    run conf conn (outcomes.map Readiness.writable) = some conn := by
  induction outcomes with
  | nil => rfl
  | cons first rest ih =>
      have still : step conf conn (.writable first) = some conn := by
        simp only [step, waits, reduceCtorEq, ↓reduceIte]
      rw [List.map_cons, run_cons, still]
      exact ih

/-! A connection that waits is as good as a fresh one. -/

/-- Equal up to the history in front, and to fields that are set before they are
read. -/
structure Alike (front : List Call) (conn mirror : Connection) : Prop where
  readfd : conn.readfd = mirror.readfd
  req : conn.req = mirror.req
  buf : conn.buf = mirror.buf
  size : mirror.buf ≠ none → conn.size = mirror.size
  events : conn.events = mirror.events
  log : conn.log = front ++ mirror.log

theorem Tidy.alike {conn : Connection} (tidy : Tidy conn) (waits : conn.events = .EPOLLIN) :
    Alike conn.log conn fresh := by
  rcases tidy.waiting waits with ⟨buf, req, readfd⟩
  exact ⟨readfd, req, buf, fun held => absurd rfl held, waits, (List.append_nil _).symm⟩

namespace Alike

variable {front : List Call} {conn mirror : Connection} (alike : Alike front conn mirror)

include alike

theorem note (calls : List Call) : Alike front (conn.note calls) (mirror.note calls) where
  readfd := alike.readfd
  req := alike.req
  buf := alike.buf
  size := alike.size
  events := alike.events
  log := by rw [note_log, note_log, alike.log, List.append_assoc]

theorem resetEpoll (now : Nat) :
    Alike front (Connection.resetEpoll now conn) (Connection.resetEpoll now mirror) := by
  have closes : Alike front (if conn.readfd ≠ 0 then conn.note [.closed conn.readfd] else conn)
      (if mirror.readfd ≠ 0 then mirror.note [.closed mirror.readfd] else mirror) := by
    rw [alike.readfd]
    split_ifs
    · exact alike.note _
    · exact alike
  exact ⟨rfl, rfl, rfl, fun held => absurd rfl held, rfl, (closes.note [.waiting]).log⟩

theorem sendData (outcomes : Outcomes) (more : Bool) (held : mirror.buf ≠ none) :
    Alike front (Connection.sendData outcomes more conn)
      (Connection.sendData outcomes more mirror) := by
  have same : conn.note [.sent (conn.buf.getD []) conn.size outcomes.sent] =
      conn.note [.sent (mirror.buf.getD []) mirror.size outcomes.sent] := by
    rw [alike.buf, alike.size held]
  have noted := alike.note [.sent (mirror.buf.getD []) mirror.size outcomes.sent]
  have freed : Alike front
      { conn.note [.sent (mirror.buf.getD []) mirror.size outcomes.sent] with buf := none }
      { mirror.note [.sent (mirror.buf.getD []) mirror.size outcomes.sent] with buf := none } :=
    ⟨noted.readfd, noted.req, rfl, fun held => absurd rfl held, noted.events, noted.log⟩
  simp only [Connection.sendData, same]
  generalize outcomes.sent = result at noted freed ⊢
  cases result with
  | room count =>
      cases more with
      | true => exact freed
      | false => exact freed.resetEpoll outcomes.now
  | again => exact noted
  | error =>
      apply resetEpoll
      exact ⟨noted.readfd, noted.req, noted.buf, noted.size, noted.events, noted.log⟩

theorem fill (text : Bytes) : Alike front (conn.fill text) (mirror.fill text) :=
  ⟨alike.readfd, alike.req, rfl, fun _ => rfl, alike.events, alike.log⟩

theorem answerFound (outcomes : Outcomes) (fd : Nat) (req : HttpReq) :
    Alike front (Connection.answerFound outcomes fd req conn)
      (Connection.answerFound outcomes fd req mirror) := by
  have noted := alike.note [.answered (foundHeader outcomes.fileSize req)]
  apply sendData
  · apply fill
    exact ⟨rfl, noted.req, noted.buf, noted.size, noted.events, noted.log⟩
  · exact Option.some_ne_none _

theorem answerError (outcomes : Outcomes) (req : HttpReq) :
    Alike front (Connection.answerError outcomes req conn)
      (Connection.answerError outcomes req mirror) := by
  have noted := alike.note [.answered (errHeader req)]
  apply sendData
  · apply fill
    exact ⟨noted.readfd, rfl, noted.buf, noted.size, noted.events, noted.log⟩
  · exact Option.some_ne_none _

theorem answerFile (outcomes : Outcomes) :
    Option.Rel (Alike front) (Connection.answerFile outcomes conn)
      (Connection.answerFile outcomes mirror) := by
  have noted := alike.note [.read mirror.readfd outcomes.read]
  simp only [Connection.answerFile, alike.readfd, note_req, alike.req]
  generalize outcomes.read = result at noted ⊢
  cases result with
  | none =>
      have filled : Alike front
          { conn.note [.read mirror.readfd none] with
            buf := some (zeros BUF_SIZE)
            size := readFailed }
          { mirror.note [.read mirror.readfd none] with
            buf := some (zeros BUF_SIZE)
            size := readFailed } :=
        ⟨noted.readfd, noted.req, rfl, fun _ => rfl, noted.events, noted.log⟩
      have sent := filled.sendData outcomes true (Option.some_ne_none _)
      simp only [note_req, alike.req] at sent
      exact Option.Rel.some sent
  | some bytes =>
      simp only
      split_ifs
      · exact Option.Rel.some ((noted.fill bytes).sendData outcomes true (Option.some_ne_none _))
      · cases mirror.req with
        | none => exact Option.Rel.none
        | some req =>
            simp only
            split_ifs
            · cases appendPostResponse [] req.postData with
              | none => exact Option.Rel.none
              | some text =>
                  exact Option.Rel.some
                    ((noted.fill text).sendData outcomes false (Option.some_ne_none _))
            · exact Option.Rel.some (noted.resetEpoll outcomes.now)

theorem handleOut (conf : Config) (outcomes : Outcomes) :
    Option.Rel (Alike front) (Connection.handleOut conf outcomes conn)
      (Connection.handleOut conf outcomes mirror) := by
  simp only [Connection.handleOut, alike.buf, alike.readfd, alike.req]
  cases held : mirror.buf with
  | some buf =>
      apply Option.Rel.some
      exact alike.sendData outcomes false (by rw [held]; exact Option.some_ne_none _)
  | none =>
      simp only
      split_ifs
      · cases mirror.req with
        | none => exact Option.Rel.none
        | some req =>
            have noted := alike.note [.opened (conf.root.text ++ req.uri) outcomes.opened]
            simp only
            split_ifs
            · generalize outcomes.opened = result at noted ⊢
              cases result with
              | some fd => exact Option.Rel.some (noted.answerFound outcomes fd req)
              | none => exact Option.Rel.some (noted.answerError outcomes _)
            · exact Option.Rel.some (alike.answerError outcomes req)
      · exact alike.answerFile outcomes

theorem handleIn [Overlapping] (conf : Config) (outcome : RecvOutcome) :
    Option.Rel (Alike front) (Connection.handleIn conf outcome conn)
      (Connection.handleIn conf outcome mirror) := by
  have noted := alike.note [.received outcome]
  cases outcome with
  | received bytes behind =>
      simp only [Connection.handleIn]
      cases parseHttpReq conf (receivedText bytes behind) with
      | none => exact Option.Rel.none
      | some req =>
          exact Option.Rel.some ⟨noted.readfd, rfl, noted.buf, noted.size, rfl, noted.log⟩
  | closed => exact Option.Rel.some noted
  | again => exact Option.Rel.some noted
  | error => exact Option.Rel.some noted

theorem step [Overlapping] (conf : Config) (event : Readiness) :
    Option.Rel (Alike front) (Connection.step conf conn event)
      (Connection.step conf mirror event) := by
  cases event with
  | readable outcome =>
      simp only [Connection.step, alike.events]
      split_ifs
      · exact alike.handleIn conf outcome
      · exact Option.Rel.some alike
  | writable outcomes =>
      simp only [Connection.step, alike.events]
      split_ifs
      · exact alike.handleOut conf outcomes
      · exact Option.Rel.some alike

theorem run [Overlapping] (conf : Config) (events : List Readiness) :
    Option.Rel (Alike front) (Connection.run conf conn events)
      (Connection.run conf mirror events) :=
  Runs.run_alike (Connection.step conf) (Connection.step conf) (Alike front)
    (fun _ _ event related => related.step conf event) conn mirror events alike

theorem log_run [Overlapping] (conf : Config) (events : List Readiness) :
    (Connection.run conf conn events).map Connection.log =
      (Connection.run conf mirror events).map (fun last => front ++ last.log) := by
  have related := alike.run conf events
  generalize Connection.run conf conn events = first at related ⊢
  generalize Connection.run conf mirror events = second at related ⊢
  cases related with
  | none => rfl
  | some last => simp only [Option.map_some, last.log]

end Alike

/-- The events at which a request or a trailer runs past its buffer. -/
def Overruns [Overlapping] (conf : Config) (conn : Connection) : Readiness → Prop
  | .readable (.received bytes behind) => parseHttpReq conf (receivedText bytes behind) = none
  | .readable _ => False
  | .writable outcomes => outcomes.read = some [] ∧
      ∃ req, conn.req = some req ∧ req.appends = true ∧ appendPostResponse [] req.postData = none

theorem stuck_overruns [Overlapping] (conf : Config) (conn : Connection) (event : Readiness)
    (tidy : Tidy conn)
    (stuck : step conf conn event = none) : Overruns conf conn event := by
  -- Only the parse and the trailer can fail; every other branch contradicts `stuck`.
  cases event with
  | readable outcome =>
      simp only [step] at stuck
      split at stuck
      · cases outcome with
        | received bytes behind =>
            simp only [handleIn] at stuck
            simp only [Overruns]
            cases parsed : parseHttpReq conf (receivedText bytes behind) with
            | none => rfl
            | some req => simp only [parsed, reduceCtorEq] at stuck
        | closed => cases stuck
        | again => cases stuck
        | error => cases stuck
      · cases stuck
  | writable outcomes =>
      simp only [step] at stuck
      split at stuck
      · rename_i waits
        obtain ⟨req, asked⟩ := Option.ne_none_iff_exists'.mp (tidy.answering waits)
        simp only [handleOut] at stuck
        split at stuck
        · cases stuck
        · split at stuck
          · simp only [asked] at stuck
            split at stuck
            · split at stuck <;> cases stuck
            · cases stuck
          · simp only [answerFile] at stuck
            split at stuck
            · cases stuck
            · rename_i bytes data
              split at stuck
              · cases stuck
              · rename_i empty
                have none_ : bytes = [] := List.eq_nil_of_length_eq_zero (by omega)
                simp only [note_req, asked] at stuck
                split at stuck
                · rename_i appends
                  exact ⟨by rw [data, none_], req, asked, appends, Option.map_eq_none_iff.mp stuck⟩
                · cases stuck
      · cases stuck

/-- The fields of a connection in every state it reaches, its descriptors, and that it
meets every request as a fresh connection does. -/
theorem connection_machine [Overlapping] (conf : Config) (events : List Readiness)
    (conn : Connection)
    (reached : run conf fresh events = some conn) :
    (conn.events = .EPOLLIN → conn.buf = none ∧ conn.req = none ∧ conn.readfd = 0) ∧
    (conn.events = .EPOLLOUT → conn.req ≠ none) ∧
    (∀ event, step conf conn event = none → Overruns conf conn event) ∧
    closings conn.log <+: openings conn.log ∧
    (conn.events = .EPOLLIN → openings conn.log = closings conn.log) ∧
    (conn.events = .EPOLLIN → ∀ later, (run conf conn later).map log =
      (run conf fresh later).map (fun last => conn.log ++ last.log)) := by
  have tidy := tidy_run conf events conn reached
  refine ⟨tidy.waiting, tidy.answering, fun event => stuck_overruns conf conn event tidy, ?_, ?_, ?_⟩
  · rw [tidy.closing]
    exact List.prefix_append _ _
  · intro waits
    have balance := tidy.closing
    simp only [Closing, (tidy.waiting waits).2.2, ↓reduceIte, List.append_nil] at balance
    exact balance
  · intro waits later
    exact (tidy.alike waits).log_run conf later

/-- What the calls of an event return, where the connection takes all it is sent. -/
def sampleOutcomes (opened : Option Nat) (data : Bytes) (opened_pos : opened ≠ some 0)
    (read_fits : data.length ≤ BUF_SIZE) : Outcomes where
  now := 0
  date := []
  opened := opened
  fileSize := 3
  read := some data
  sent := .room 4096
  date_line := List.not_mem_nil
  opened_pos := opened_pos
  read_fits _ found := by
    rw [← Option.mem_some.mp found]
    exact read_fits

def sampleOpened : Outcomes :=
  sampleOutcomes (some 5) [] (by decide) (by decide)

/-- What is opened and read, where the calls of an event can return it. -/
def sampleReturns (opened : Option Nat) (data : Bytes) : Outcomes :=
  if fits : opened ≠ some 0 ∧ data.length ≤ BUF_SIZE then
    sampleOutcomes opened data fits.1 fits.2
  else sampleOpened

def sampleSegment : Segment := ⟨ascii "GET /f.html HTTP/1.1\r\n\r\n", by decide⟩

def otherSegment : Segment := ⟨ascii "GET /g.html HTTP/1.1\r\n\r\n", by decide⟩

/-- A request, and the three events that answer it with a file of three bytes. -/
def sampleEvents : List Readiness :=
  [.readable (.received sampleSegment []),
    .writable (sampleOutcomes (some 5) [] (by decide) (by decide)),
    .writable (sampleOutcomes none [1, 2, 3] (by decide) (by decide)),
    .writable (sampleOutcomes none [] (by decide) (by decide))]

attribute [local instance] Letters.forward

theorem connection_machine_request :
    ∃ conn, run sampleConfig fresh sampleEvents = some conn ∧ conn.events = .EPOLLIN ∧
      openings conn.log = [5] ∧ closings conn.log = [5] ∧
      (run sampleConfig conn sampleEvents).map log =
        (run sampleConfig fresh sampleEvents).map (fun last => conn.log ++ last.log) := by
  have returns : (run sampleConfig fresh sampleEvents).isSome = true := by decide +kernel
  obtain ⟨conn, reached⟩ := Option.isSome_iff_exists.mp returns
  have waits : (run sampleConfig fresh sampleEvents).map Connection.events = some .EPOLLIN := by
    decide +kernel
  have opened : (run sampleConfig fresh sampleEvents).map (fun conn => openings conn.log) =
      some [5] := by
    decide +kernel
  rw [reached, Option.map_some, Option.some.injEq] at waits opened
  have facts := connection_machine sampleConfig sampleEvents conn reached
  rcases facts with ⟨-, -, -, -, balance, again⟩
  exact ⟨conn, reached, waits, opened, (balance waits).symm.trans opened, again waits sampleEvents⟩

end Connection

end NetworkSystem.Http
