import NetworkSystem.Http.Sizes

/-! A request that arrives in pieces. Nothing puts the pieces together: each of them is
parsed and answered as if it were a request. -/

namespace NetworkSystem.Http

open Bytes

/-- What the calls of `recv` have brought. -/
def pieces (log : List Call) : List Bytes :=
  log.filterMap (fun call => match call with
    | .received (.received bytes _) => some bytes.1
    | _ => none)

/-- The calls besides those of `recv`. -/
def reaction (log : List Call) : List Call :=
  log.filter (fun call => match call with
    | .received _ => false
    | _ => true)

def responses (log : List Call) : List HttpRespHeader :=
  log.filterMap (fun call => match call with
    | .answered header => some header
    | _ => none)

@[simp] theorem pieces_append (first second : List Call) :
    pieces (first ++ second) = pieces first ++ pieces second :=
  List.filterMap_append

@[simp] theorem reaction_append (first second : List Call) :
    reaction (first ++ second) = reaction first ++ reaction second :=
  List.filter_append _ _

@[simp] theorem responses_append (first second : List Call) :
    responses (first ++ second) = responses first ++ responses second :=
  List.filterMap_append

theorem responses_reaction (log : List Call) : responses (reaction log) = responses log := by
  induction log with
  | nil => rfl
  | cons call rest ih =>
      have split : call :: rest = [call] ++ rest := rfl
      rw [split, reaction_append, responses_append, responses_append, ih]
      cases call <;> rfl

namespace Connection

/-- How far a connection is with what it has received. -/
inductive Stage (conn : Connection) : Prop
  | idle (waits : conn.events = .EPOLLIN) (silent : pieces conn.log = [])
      (quiet : reaction conn.log = [])
  | asked (piece : Bytes) (answers : conn.events = .EPOLLOUT) (held : conn.buf = none)
      (free : conn.readfd = 0) (one : pieces conn.log = [piece]) (silent : responses conn.log = [])
  | answering (piece : Bytes) (answers : conn.events = .EPOLLOUT)
      (begun : conn.buf ≠ none ∨ conn.readfd ≠ 0) (one : pieces conn.log = [piece])
      (answered : (responses conn.log).length = 1)
  | finished (piece : Bytes) (waits : conn.events = .EPOLLIN) (one : pieces conn.log = [piece])
      (answered : (responses conn.log).length = 1)

theorem pieces_resetEpoll (now : Nat) (conn : Connection) :
    pieces (resetEpoll now conn).log = pieces conn.log ∧
      responses (resetEpoll now conn).log = responses conn.log := by
  rw [log_resetEpoll_eq, resetCalls]
  split_ifs <;> simp [pieces, responses]

theorem stage_resetEpoll (now : Nat) (conn : Connection) (piece : Bytes)
    (one : pieces conn.log = [piece]) (answered : (responses conn.log).length = 1) :
    Stage (resetEpoll now conn) := by
  rcases pieces_resetEpoll now conn with ⟨kept, told⟩
  apply Stage.finished piece rfl
  · rw [kept]
    exact one
  · rw [told]
    exact answered

theorem stage_sendData (outcomes : Outcomes) (more : Bool) (conn : Connection) (piece : Bytes)
    (answers : conn.events = .EPOLLOUT) (held : conn.buf ≠ none)
    (open_ : more = true → conn.readfd ≠ 0) (one : pieces conn.log = [piece])
    (answered : (responses conn.log).length = 1) : Stage (sendData outcomes more conn) := by
  have noted : pieces (conn.log ++ [.sent (conn.buf.getD []) conn.size outcomes.sent]) = [piece] := by
    rw [pieces_append, one]
    rfl
  have told : (responses (conn.log ++
      [.sent (conn.buf.getD []) conn.size outcomes.sent])).length = 1 := by
    rw [responses_append, List.length_append, answered]
    rfl
  rcases sendData_cases outcomes more conn with ⟨_, -, again, sent⟩ | ⟨-, sent⟩ | ⟨_, -, -, sent⟩ |
    ⟨-, sent⟩
  · rw [sent]
    exact .answering piece answers (Or.inr (open_ again)) noted told
  · rw [sent]
    exact .answering piece answers (Or.inl held) noted told
  · rw [sent]
    exact stage_resetEpoll _ _ piece noted told
  · rw [sent]
    exact stage_resetEpoll _ _ piece noted told

theorem answered_once (log : List Call) (header : HttpRespHeader) (piece : Bytes)
    (one : pieces log = [piece]) (silent : responses log = []) :
    pieces (log ++ [.answered header]) = [piece] ∧
      (responses (log ++ [.answered header])).length = 1 := by
  rw [pieces_append, responses_append, one, silent]
  exact ⟨rfl, rfl⟩

theorem stage_answerError (outcomes : Outcomes) (req : HttpReq) (conn : Connection) (piece : Bytes)
    (answers : conn.events = .EPOLLOUT) (one : pieces conn.log = [piece])
    (silent : responses conn.log = []) : Stage (answerError outcomes req conn) := by
  have once := answered_once conn.log (errHeader req) piece one silent
  exact stage_sendData outcomes false _ piece answers (Option.some_ne_none _) (by simp) once.1 once.2

theorem stage_answerFound (outcomes : Outcomes) (fd : Nat) (req : HttpReq) (conn : Connection)
    (piece : Bytes) (positive : fd ≠ 0) (answers : conn.events = .EPOLLOUT)
    (one : pieces conn.log = [piece]) (silent : responses conn.log = []) :
    Stage (answerFound outcomes fd req conn) := by
  have once := answered_once conn.log (foundHeader outcomes.fileSize req) piece one silent
  exact stage_sendData outcomes true _ piece answers (Option.some_ne_none _) (fun _ => positive)
    once.1 once.2

theorem OutStep.stage_answering {conf : Config} {outcomes : Outcomes} {conn next : Connection}
    (step : OutStep conf outcomes conn next) (piece : Bytes) (answers : conn.events = .EPOLLOUT)
    (begun : conn.buf ≠ none ∨ conn.readfd ≠ 0) (one : pieces conn.log = [piece])
    (answered : (responses conn.log).length = 1) : Stage next := by
  have read : pieces (conn.log ++ [.read conn.readfd outcomes.read]) = [piece] ∧
      (responses (conn.log ++ [.read conn.readfd outcomes.read])).length = 1 := by
    rw [pieces_append, responses_append, List.length_append, one, answered]
    exact ⟨rfl, rfl⟩
  have busy_of : conn.buf = none → conn.readfd = 0 → False := by
    intro held free
    cases begun with
    | inl some_ => exact some_ held
    | inr busy => exact busy free
  cases step with
  | pending buf held =>
      exact stage_sendData outcomes false conn piece answers (by simp [held]) (by simp) one answered
  | found req fd held free => exact absurd free (fun free => busy_of held free)
  | missing req held free => exact absurd free (fun free => busy_of held free)
  | refused req held free => exact absurd free (fun free => busy_of held free)
  | failed held busy data =>
      exact stage_sendData outcomes true _ piece answers (Option.some_ne_none _) (fun _ => busy)
        read.1 read.2
  | data bytes held busy data some_ =>
      exact stage_sendData outcomes true _ piece answers (Option.some_ne_none _) (fun _ => busy)
        read.1 read.2
  | trailer req text held busy data asked appends posted =>
      exact stage_sendData outcomes false _ piece answers (Option.some_ne_none _) (by simp)
        read.1 read.2
  | ended req held busy data asked ends =>
      exact stage_resetEpoll _ _ piece read.1 read.2

theorem OutStep.stage_asked {conf : Config} {outcomes : Outcomes} {conn next : Connection}
    (step : OutStep conf outcomes conn next) (piece : Bytes) (answers : conn.events = .EPOLLOUT)
    (held : conn.buf = none) (free : conn.readfd = 0) (one : pieces conn.log = [piece])
    (silent : responses conn.log = []) : Stage next := by
  have opened : ∀ path, pieces (conn.log ++ [.opened path outcomes.opened]) = [piece] ∧
      responses (conn.log ++ [.opened path outcomes.opened]) = [] := by
    intro path
    rw [pieces_append, responses_append, one, silent]
    exact ⟨rfl, rfl⟩
  cases step with
  | pending buf other =>
      rw [held] at other
      cases other
  | found req fd held free asked fine got =>
      have positive : fd ≠ 0 := by
        intro zero
        rw [zero] at got
        exact outcomes.opened_pos got
      exact stage_answerFound outcomes fd req _ piece positive answers (opened _).1 (opened _).2
  | missing req held free asked fine got =>
      exact stage_answerError outcomes _ _ piece answers (opened _).1 (opened _).2
  | refused req held free asked wrong =>
      exact stage_answerError outcomes req conn piece answers one silent
  | failed held busy => exact absurd free busy
  | data bytes held busy => exact absurd free busy
  | trailer req text held busy => exact absurd free busy
  | ended req held busy => exact absurd free busy

theorem stage_handleIn [Overlapping] (conf : Config) (outcome : RecvOutcome)
    (conn next : Connection)
    (tidy : Tidy conn) (waits : conn.events = .EPOLLIN) (none_ : pieces conn.log = [])
    (quiet : reaction conn.log = []) (handled : handleIn conf outcome conn = some next) :
    Stage next := by
  have silent : responses conn.log = [] := by
    rw [← responses_reaction, quiet]
    rfl
  have noted : pieces (conn.log ++ [.received outcome]) = pieces [.received outcome] ∧
      reaction (conn.log ++ [.received outcome]) = [] ∧
      responses (conn.log ++ [.received outcome]) = [] := by
    rw [pieces_append, reaction_append, responses_append, none_, quiet, silent]
    exact ⟨rfl, rfl, rfl⟩
  obtain ⟨held, -, free⟩ := tidy.waiting waits
  cases outcome with
  | received bytes behind =>
      simp only [handleIn] at handled
      split at handled
      · cases handled
      · rw [← Option.some.inj handled]
        exact .asked bytes rfl held free noted.1 noted.2.2
  | closed =>
      rw [← Option.some.inj handled]
      exact .idle waits noted.1 noted.2.1
  | again =>
      rw [← Option.some.inj handled]
      exact .idle waits noted.1 noted.2.1
  | error =>
      rw [← Option.some.inj handled]
      exact .idle waits noted.1 noted.2.1

/-- A connection that waits for input has received nothing or has answered. -/
theorem Stage.waiting {conn : Connection} (stage : Stage conn) (waits : conn.events = .EPOLLIN) :
    (pieces conn.log = [] ∧ reaction conn.log = []) ∨
      ∃ piece, pieces conn.log = [piece] ∧ (responses conn.log).length = 1 := by
  cases stage with
  | idle _ silent quiet => exact Or.inl ⟨silent, quiet⟩
  | asked piece answers =>
      rw [waits] at answers
      cases answers
  | answering piece answers =>
      rw [waits] at answers
      cases answers
  | finished piece _ one answered => exact Or.inr ⟨piece, one, answered⟩

/-- An event before the response is over. -/
theorem stage_step [Overlapping] (conf : Config) (conn next : Connection) (event : Readiness)
    (tidy : Tidy conn)
    (stage : Stage conn) (early : conn.events = .EPOLLIN → responses conn.log = [])
    (stepped : step conf conn event = some next) : Stage next := by
  cases moved_of_step stepped with
  | input outcome waits handled =>
      rcases stage.waiting waits with ⟨silent, quiet⟩ | ⟨piece, one, answered⟩
      · exact stage_handleIn conf outcome conn next tidy waits silent quiet handled
      · rw [early waits] at answered
        cases answered
  | output outcomes answers handled =>
      cases stage with
      | idle waits =>
          rw [answers] at waits
          cases waits
      | asked piece _ held free one silent =>
          exact handled.stage_asked piece answers held free one silent
      | answering piece _ begun one answered =>
          exact handled.stage_answering piece answers begun one answered
      | finished piece waits =>
          rw [answers] at waits
          cases waits
  | ignored _ other same => rwa [same]

/-- Events that take a fresh connection to a response and back to waiting, with one
piece, or with none and nothing to do. -/
structure Round [Overlapping] (conf : Config) (events : List Readiness) (last : Connection) :
    Prop where
  reached : run conf fresh events = some last
  waits : last.events = .EPOLLIN
  alone : (pieces last.log = [] ∧ reaction last.log = []) ∨
    ∃ piece, pieces last.log = [piece] ∧ (responses last.log).length = 1

theorem Stage.round [Overlapping] {conf : Config} {events : List Readiness} {last : Connection}
    (stage : Stage last) (reached : run conf fresh events = some last)
    (waits : last.events = .EPOLLIN) : Round conf events last :=
  ⟨reached, waits, stage.waiting waits⟩

/-- A run as rounds, the last of them still going on. The history is that of fresh
connections, one for each round. -/
structure Divided [Overlapping] (conf : Config) (events : List Readiness) (conn : Connection)
    (rounds : List (List Readiness × Connection)) (current : List Readiness) (mirror : Connection) :
    Prop where
  events : rounds.flatMap Prod.fst ++ current = events
  complete : ∀ round ∈ rounds, Round conf round.1 round.2
  reached : run conf fresh current = some mirror
  alike : Alike (rounds.flatMap (fun round => round.2.log)) conn mirror
  stage : Stage mirror
  waiting : mirror.events = .EPOLLIN → current = []

theorem divided_step [Overlapping] (conf : Config) (events : List Readiness)
    (conn next : Connection)
    (event : Readiness) (rounds : List (List Readiness × Connection)) (current : List Readiness)
    (mirror : Connection) (divided : Divided conf events conn rounds current mirror)
    (reached : run conf fresh events = some conn) (stepped : step conf conn event = some next) :
    ∃ rounds current mirror, Divided conf (events ++ [event]) next rounds current mirror := by
  have tidy := tidy_run conf current mirror divided.reached
  have early : mirror.events = .EPOLLIN → responses mirror.log = [] := by
    intro waits
    have same := divided.reached
    rw [divided.waiting waits] at same
    rw [← Option.some.inj same]
    rfl
  -- The mirror has seen the events of the last round only, and does the same as the connection.
  have related := divided.alike.step conf event
  rw [stepped] at related
  cases moved : step conf mirror event with
  | none =>
      rw [moved] at related
      cases related
  | some image =>
      rw [moved] at related
      have alike : Alike (rounds.flatMap (fun round => round.2.log)) next image := by
        cases related with
        | some alike => exact alike
      have stage := stage_step conf mirror image event tidy divided.stage early moved
      have reached' : run conf fresh (current ++ [event]) = some image := by
        rw [run, Runs.run_concat, ← run, divided.reached, Option.bind_some, moved]
      have all : rounds.flatMap Prod.fst ++ (current ++ [event]) = events ++ [event] := by
        rw [← List.append_assoc, divided.events]
      by_cases waits : image.events = .EPOLLIN
      · have waits' : next.events = .EPOLLIN := alike.events.trans waits
        have back := (tidy_step conf conn event next (tidy_run conf events conn reached) stepped).alike
          waits'
        rw [alike.log] at back
        refine ⟨rounds ++ [(current ++ [event], image)], [], fresh, ?_, ?_, rfl, ?_,
          .idle rfl rfl rfl, fun _ => rfl⟩
        · rw [List.flatMap_append, List.flatMap_singleton, List.append_nil, all]
        · intro round member
          cases List.mem_append.mp member with
          | inl old => exact divided.complete round old
          | inr new =>
              rw [List.mem_singleton.mp new]
              exact stage.round reached' waits
        · rwa [List.flatMap_append, List.flatMap_singleton]
      · exact ⟨rounds, current ++ [event], image, all, divided.complete, reached', alike, stage,
          fun back => absurd back waits⟩

theorem exists_divided [Overlapping] (conf : Config) (events : List Readiness) (conn : Connection)
    (reached : run conf fresh events = some conn) :
    ∃ rounds current mirror, Divided conf events conn rounds current mirror := by
  induction events using List.reverseRecOn generalizing conn with
  | nil =>
      rw [← Option.some.inj reached]
      exact ⟨[], [], fresh, rfl, by simp, rfl, tidy_fresh.alike rfl, .idle rfl rfl rfl, fun _ => rfl⟩
  | append_singleton events event ih =>
      rw [run, Runs.run_concat, ← run] at reached
      obtain ⟨middle, before, stepped⟩ := Option.bind_eq_some_iff.mp reached
      obtain ⟨rounds, current, mirror, divided⟩ := ih middle before
      exact divided_step conf events middle conn event rounds current mirror divided before stepped

theorem exists_rounds [Overlapping] (conf : Config) (events : List Readiness) (conn : Connection)
    (reached : run conf fresh events = some conn) (waits : conn.events = .EPOLLIN) :
    ∃ rounds : List (List Readiness × Connection), rounds.flatMap Prod.fst = events ∧
      (∀ round ∈ rounds, Round conf round.1 round.2) ∧
      conn.log = rounds.flatMap (fun round => round.2.log) := by
  obtain ⟨rounds, current, mirror, divided⟩ := exists_divided conf events conn reached
  have idle := divided.waiting (divided.alike.events.symm.trans waits)
  have all := divided.events
  have mirrored := divided.reached
  have log := divided.alike.log
  rw [idle, List.append_nil] at all
  rw [idle] at mirrored
  rw [← Option.some.inj mirrored] at log
  exact ⟨rounds, all, divided.complete, log.trans (List.append_nil _)⟩

/-- As many responses as pieces. -/
theorem responses_of_rounds [Overlapping] (conf : Config)
    (rounds : List (List Readiness × Connection))
    (complete : ∀ round ∈ rounds, Round conf round.1 round.2) :
    (responses (rounds.flatMap (fun round => round.2.log))).length =
      (pieces (rounds.flatMap (fun round => round.2.log))).length := by
  induction rounds with
  | nil => rfl
  | cons round rest ih =>
      have tail := ih (fun next member => complete next (List.mem_cons_of_mem _ member))
      have here : (responses round.2.log).length = (pieces round.2.log).length := by
        rcases (complete round List.mem_cons_self).alone with ⟨none_, quiet⟩ | ⟨piece, one, answered⟩
        · rw [none_, ← responses_reaction, quiet]
          rfl
        · rw [one, answered]
          rfl
      calc (responses ((round :: rest).flatMap (fun round => round.2.log))).length
          = (responses round.2.log).length +
              (responses (rest.flatMap (fun round => round.2.log))).length := by
            rw [List.flatMap_cons, responses_append, List.length_append]
        _ = (pieces round.2.log).length +
              (pieces (rest.flatMap (fun round => round.2.log))).length := by rw [here, tail]
        _ = (pieces ((round :: rest).flatMap (fun round => round.2.log))).length := by
            rw [List.flatMap_cons, pieces_append, List.length_append]

theorem reaction_of_silent_rounds [Overlapping] (conf : Config)
    (rounds : List (List Readiness × Connection))
    (complete : ∀ round ∈ rounds, Round conf round.1 round.2)
    (none_ : pieces (rounds.flatMap (fun round => round.2.log)) = []) :
    reaction (rounds.flatMap (fun round => round.2.log)) = [] := by
  induction rounds with
  | nil => rfl
  | cons round rest ih =>
      rw [List.flatMap_cons, pieces_append, List.append_eq_nil_iff] at none_
      have tail := ih (fun next member => complete next (List.mem_cons_of_mem _ member)) none_.2
      rw [List.flatMap_cons, reaction_append, tail, List.append_nil]
      rcases (complete round List.mem_cons_self).alone with ⟨-, quiet⟩ | ⟨piece, one, -⟩
      · exact quiet
      · rw [one] at none_
        cases none_.1

theorem reaction_of_rounds [Overlapping] (conf : Config)
    (rounds : List (List Readiness × Connection))
    (piece : Bytes) (complete : ∀ round ∈ rounds, Round conf round.1 round.2)
    (one : pieces (rounds.flatMap (fun round => round.2.log)) = [piece]) :
    ∃ round ∈ rounds, pieces round.2.log = [piece] ∧
      reaction (rounds.flatMap (fun round => round.2.log)) = reaction round.2.log := by
  induction rounds with
  | nil => cases one
  | cons round rest ih =>
      have later := fun next member => complete next (List.mem_cons_of_mem round member)
      rw [List.flatMap_cons, pieces_append] at one
      rw [List.flatMap_cons, reaction_append]
      rcases (complete round List.mem_cons_self).alone with ⟨none_, quiet⟩ | ⟨other, single, -⟩
      · rw [none_, List.nil_append] at one
        obtain ⟨found, member, same, reacts⟩ := ih later one
        rw [quiet, List.nil_append]
        exact ⟨found, List.mem_cons_of_mem _ member, same, reacts⟩
      · rw [single, List.singleton_append] at one
        have nothing := (List.cons.inj one).2
        refine ⟨round, List.mem_cons_self, ?_, ?_⟩
        · rw [single, (List.cons.inj one).1]
        · rw [reaction_of_silent_rounds conf rest later nothing, List.append_nil]

/-- Each piece that a `recv` brings is answered as a request of its own, as a fresh
connection answers it. So a request is answered as when it comes in one piece only if
it does. -/
theorem pieces_answered_apart [Overlapping] (conf : Config) (events : List Readiness)
    (conn : Connection)
    (reached : run conf fresh events = some conn) (waits : conn.events = .EPOLLIN) :
    (∃ rounds : List (List Readiness × Connection), rounds.flatMap Prod.fst = events ∧
      (∀ round ∈ rounds, Round conf round.1 round.2) ∧
      conn.log = rounds.flatMap (fun round => round.2.log)) ∧
    (responses conn.log).length = (pieces conn.log).length ∧
    ∀ request, (pieces conn.log).flatten = request →
      ((∃ whole last, Round conf whole last ∧ pieces last.log = [request] ∧
        reaction conn.log = reaction last.log) ↔ pieces conn.log = [request]) := by
  obtain ⟨rounds, all, complete, log⟩ := exists_rounds conf events conn reached waits
  have count : (responses conn.log).length = (pieces conn.log).length := by
    rw [log]
    exact responses_of_rounds conf rounds complete
  refine ⟨⟨rounds, all, complete, log⟩, count, fun request divided => ?_⟩
  constructor
  · intro same
    obtain ⟨whole, last, round, one, reacts⟩ := same
    have answered : (responses last.log).length = 1 := by
      rcases round.alone with ⟨none_, -⟩ | ⟨piece, -, answered⟩
      · rw [one] at none_
        cases none_
      · exact answered
    have size : (pieces conn.log).length = 1 := by
      calc
        _ = (responses (reaction conn.log)).length := by rw [responses_reaction, count]
        _ = (responses last.log).length := by rw [reacts, responses_reaction]
        _ = 1 := answered
    obtain ⟨piece, single⟩ := List.length_eq_one_iff.mp size
    rw [single, List.flatten_singleton] at divided
    rw [single, divided]
  · intro one
    rw [log] at one
    obtain ⟨round, member, same, reacts⟩ := reaction_of_rounds conf rounds request complete one
    rw [← log] at reacts
    exact ⟨round.1, round.2, complete round member, same, reacts⟩

def dividedEvents : List Readiness :=
  [.readable (.received ⟨ascii "GET /f.h", by decide⟩ []), .writable sampleOpened,
    .readable (.received ⟨ascii "tml HTTP/1.1\r\n\r\n", by decide⟩ []), .writable sampleOpened]

attribute [local instance] Letters.forward

theorem pieces_answered_apart_divided :
    ∃ conn, run sampleConfig fresh dividedEvents = some conn ∧ (responses conn.log).length = 2 := by
  have returns : (run sampleConfig fresh dividedEvents).isSome = true := by decide +kernel
  obtain ⟨conn, reached⟩ := Option.isSome_iff_exists.mp returns
  have facts : (run sampleConfig fresh dividedEvents).map
      (fun conn => (conn.events, (pieces conn.log).length)) = some (.EPOLLIN, 2) := by
    decide +kernel
  rw [reached, Option.map_some, Option.some.injEq, Prod.mk.injEq] at facts
  have apart := pieces_answered_apart sampleConfig dividedEvents conn reached facts.1
  exact ⟨conn, reached, apart.2.1.trans facts.2⟩

/-- The same bytes are answered with the file when they come at once, and with two
errors when they come in these two pieces. -/
theorem request_depends_on_pieces :
    Fits sampleConfig (receivedText (ascii "GET /f.html HTTP/1.1\r\n\r\n") []) ∧
    ∃ whole divided, run sampleConfig fresh sampleEvents = some whole ∧
      run sampleConfig fresh dividedEvents = some divided ∧
      pieces whole.log = [ascii "GET /f.html HTTP/1.1\r\n\r\n"] ∧
      (pieces divided.log).flatten = ascii "GET /f.html HTTP/1.1\r\n\r\n" ∧
      (responses whole.log).map HttpRespHeader.statusCode = [200] ∧
      (responses divided.log).map HttpRespHeader.statusCode = [400, 400] := by
  have wholeReturns : (run sampleConfig fresh sampleEvents).isSome = true := by decide +kernel
  obtain ⟨whole, reached⟩ := Option.isSome_iff_exists.mp wholeReturns
  have dividedReturns : (run sampleConfig fresh dividedEvents).isSome = true := by decide +kernel
  obtain ⟨divided, reached'⟩ := Option.isSome_iff_exists.mp dividedReturns
  have wholeFacts : (run sampleConfig fresh sampleEvents).map (fun conn =>
      (pieces conn.log, (responses conn.log).map HttpRespHeader.statusCode)) =
      some ([ascii "GET /f.html HTTP/1.1\r\n\r\n"], [200]) := by
    decide +kernel
  have dividedFacts : (run sampleConfig fresh dividedEvents).map (fun conn =>
      ((pieces conn.log).flatten, (responses conn.log).map HttpRespHeader.statusCode)) =
      some (ascii "GET /f.html HTTP/1.1\r\n\r\n", [400, 400]) := by
    decide +kernel
  rw [reached, Option.map_some, Option.some.injEq, Prod.mk.injEq] at wholeFacts
  rw [reached', Option.map_some, Option.some.injEq, Prod.mk.injEq] at dividedFacts
  exact ⟨(parseHttpReq_isSome _ _).mp (by decide +kernel), whole, divided, reached, reached',
    wholeFacts.1, dividedFacts.1, wholeFacts.2, dividedFacts.2⟩

end Connection

end NetworkSystem.Http
