import NetworkSystem.Http.Accounting
import NetworkSystem.Http.Stream
import Mathlib.Data.List.Forall2

/-! The server in front of files that do not change: what a client takes out of the bytes of
its connection are the answers to its requests, one for each and in their order, whatever
the server does for other connections in between. -/

namespace NetworkSystem.Http

open Bytes

/-- The requests that have been received, as the parser sees them. -/
def requestTexts (log : List Call) : List Bytes :=
  log.filterMap (fun call => match call with
    | .received (.received bytes behind) => some (receivedText bytes behind)
    | _ => none)

@[simp] theorem requestTexts_append (first second : List Call) :
    requestTexts (first ++ second) = requestTexts first ++ requestTexts second :=
  List.filterMap_append

def Call.progress (done : Bytes) : Call → Bytes
  | .opened _ _ => []
  | .read _ data => done ++ data.getD []
  | _ => done

def progress (log : List Call) : Bytes := log.foldl Call.progress []

@[simp] theorem progress_append (first second : List Call) :
    progress (first ++ second) = second.foldl Call.progress (progress first) := List.foldl_append

namespace Connection

section files

variable [Overlapping] (conf : Config) (files : Bytes → Option Bytes)

/-- The calls of an event find the files: `open` and `size_of_file` the one that is asked for,
and `read` the next bytes of it. -/
def Finds (conn : Connection) : Readiness → Prop
  | .readable _ => True
  | .writable outcomes => conn.buf = none → ∀ req ∈ conn.req,
      if conn.readfd = 0 then
        req.errorCode = 0 →
          outcomes.opened.isSome = (files (conf.root.text ++ req.uri)).isSome ∧
            ∀ content ∈ files (conf.root.text ++ req.uri), outcomes.fileSize = content.length
      else
        ∀ content ∈ files (conf.root.text ++ req.uri), ∃ data ∈ outcomes.read,
          data <+: content.drop (progress conn.log).length ∧
            (data = [] → content.length ≤ (progress conn.log).length)

instance (conn : Connection) (event : Readiness) : Decidable (Finds conf files conn event) :=
  match event with
  | .readable _ => inferInstanceAs (Decidable True)
  | .writable _ => inferInstanceAs (Decidable (conn.buf = none → ∀ req ∈ conn.req, ite _ _ _))

def FindsAlong : Connection → List Readiness → Prop
  | _, [] => True
  | conn, event :: rest =>
      Finds conf files conn event ∧ ∀ next ∈ step conf conn event, FindsAlong next rest

instance (conn : Connection) (events : List Readiness) :
    Decidable (FindsAlong conf files conn events) :=
  match events with
  | [] => inferInstanceAs (Decidable True)
  | event :: rest =>
      have := fun next => instDecidableFindsAlong next rest
      inferInstanceAs (Decidable (Finds conf files conn event ∧
        ∀ next ∈ step conf conn event, FindsAlong conf files next rest))

/-- The response to a request, at some time of day. -/
def Fulfils (text : Bytes) (reply : Reply) : Prop :=
  ∃ req date, parseHttpReq conf text = some req ∧ 10 ∉ date ∧
    reply = answerTo files conf.root.text date req.toHttpReq

/-- Some requests have been answered, and another one is to be. -/
structure Asks (conn : Connection) (replies : List Reply) (req : HttpReq) : Prop where
  events : conn.events = .EPOLLOUT
  held : conn.buf = none
  asked : conn.req = some req
  heard : ∃ texts text parsed, requestTexts conn.log = texts ++ [text] ∧
    List.Forall₂ (Fulfils conf files) texts replies ∧ parseHttpReq conf text = some parsed ∧
    parsed.toHttpReq = req

/-- Where a connection is with its requests. -/
inductive Serving (conn : Connection) : Prop
  | idle (replies : List Reply) (waits : conn.events = .EPOLLIN)
      (answered : List.Forall₂ (Fulfils conf files) (requestTexts conn.log) replies)
      (sent : sentBytes conn.log = replies.flatMap Reply.text)
  | asked (replies : List Reply) (req : HttpReq) (asks : Asks conf files conn replies req)
      (free : conn.readfd = 0) (sent : sentBytes conn.log = replies.flatMap Reply.text)
  | sending (replies : List Reply) (req : HttpReq) (content date : Bytes)
      (asks : Asks conf files conn replies req) (busy : conn.readfd ≠ 0)
      (fine : req.errorCode = 0) (found : files (conf.root.text ++ req.uri) = some content)
      (dateLine : 10 ∉ date) (part : progress conn.log <+: content)
      (sent : sentBytes conn.log = replies.flatMap Reply.text ++
        (buildHttpRespHeader date (foundHeader content.length req) ++ progress conn.log))

variable {conf files} {conn next : Connection} {replies : List Reply} {req : HttpReq}
  {outcomes : Outcomes}

theorem Asks.answer (asks : Asks conf files conn replies req) (date : Bytes) (dateLine : 10 ∉ date) :
    List.Forall₂ (Fulfils conf files) (requestTexts conn.log)
      (replies ++ [answerTo files conf.root.text date req]) := by
  obtain ⟨texts, text, parsed, heard, answered, parse, same⟩ := asks.heard
  rw [heard]
  apply List.rel_append answered
  apply List.Forall₂.cons _ List.Forall₂.nil
  exact ⟨parsed, date, parse, dateLine, by rw [same]⟩

theorem Asks.goes (asks : Asks conf files conn replies req) {calls : List Call}
    (log : next.log = conn.log ++ calls) (quiet : requestTexts calls = [])
    (events : next.events = conn.events) (held : next.buf = none) (same : next.req = conn.req) :
    Asks conf files next replies req where
  events := events.trans asks.events
  held := held
  asked := same.trans asks.asked
  heard := by
    rw [log, requestTexts_append, quiet, List.append_nil]
    exact asks.heard

omit [Overlapping] in
theorem requestTexts_resetCalls (readfd : Nat) : requestTexts (resetCalls readfd) = [] := by
  rw [resetCalls]
  split_ifs <;> rfl

theorem Asks.finishes (asks : Asks conf files conn replies req) {middle : Connection} {date : Bytes}
    (dateLine : 10 ∉ date) {text : Bytes} {calls : List Call}
    (filled : Filled conn.log calls text middle) (quiet : requestTexts calls = [])
    (whole : ∀ call ∈ (sendData outcomes false middle).log, call.Whole)
    (sent : sentBytes (conn.log ++ calls) ++ text =
      (replies ++ [answerTo files conf.root.text date req]).flatMap Reply.text) :
    Serving conf files (sendData outcomes false middle) := by
  have noted := log_sendData outcomes false middle
  have taken := whole _ (noted.subset (List.mem_append_right _ List.mem_cons_self))
  rcases sendData_last outcomes middle taken with ⟨waits, last⟩
  rw [filled.buf, filled.size, Option.getD_some] at taken last
  apply Serving.idle _ waits
  · have heard : requestTexts (sendData outcomes false middle).log = requestTexts conn.log := by
      rw [last, filled.log]
      simp only [requestTexts_append, quiet, List.append_nil]
      have rest := requestTexts_resetCalls middle.readfd
      rw [show Call.sent text text.length outcomes.sent :: resetCalls middle.readfd =
        [Call.sent text text.length outcomes.sent] ++ resetCalls middle.readfd from rfl,
        requestTexts_append, rest]
      exact List.append_nil _
    rw [heard]
    exact asks.answer date dateLine
  · rw [last, filled.log, sentBytes_append, sentBytes_cons, (reset_bytes middle.readfd).1, List.append_nil,
      sentBytes_whole text outcomes.sent taken]
    exact sent

theorem Asks.sends (asks : Asks conf files conn replies req) {middle : Connection} {text : Bytes}
    {calls : List Call} (filled : Filled conn.log calls text middle)
    (quiet : requestTexts calls = []) (events : middle.events = conn.events)
    (same : middle.req = conn.req)
    (whole : ∀ call ∈ (sendData outcomes true middle).log, call.Whole) :
    let next := sendData outcomes true middle
    Asks conf files next replies req ∧ next.readfd = middle.readfd ∧
      progress next.log = progress (conn.log ++ calls) ∧
      sentBytes next.log = sentBytes (conn.log ++ calls) ++ text := by
  have noted := log_sendData outcomes true middle
  have taken := whole _ (noted.subset (List.mem_append_right _ List.mem_cons_self))
  rcases sendData_more outcomes middle taken with ⟨empty, readfd, req_, events_, last⟩
  rw [filled.buf, filled.size, Option.getD_some] at taken last
  have log' : (sendData outcomes true middle).log =
      conn.log ++ (calls ++ [.sent text text.length outcomes.sent]) := by
    rw [last, filled.log, List.append_assoc]
  constructor
  · apply asks.goes log' _ (events_.trans events) empty (req_.trans same)
    rw [requestTexts_append, quiet]
    rfl
  · constructor
    · exact readfd
    · constructor
      · rw [last, filled.log, progress_append]
        rfl
      · rw [last, filled.log, sentBytes_append, sentBytes_cons, sentBytes_whole text outcomes.sent taken]
        exact congrArg _ (List.append_nil text)

theorem serving_found (asks : Asks conf files conn replies req) (free : conn.readfd = 0)
    (fine : req.errorCode = 0) (sent : sentBytes conn.log = replies.flatMap Reply.text) {fd : Nat}
    (opened : outcomes.opened = some fd) (finds : Finds conf files conn (.writable outcomes))
    (whole : ∀ call ∈ (answerFound outcomes fd req
      (conn.note [.opened (conf.root.text ++ req.uri) outcomes.opened])).log, call.Whole) :
    Serving conf files (answerFound outcomes fd req
      (conn.note [.opened (conf.root.text ++ req.uri) outcomes.opened])) := by
  have positive : fd ≠ 0 := by
    intro zero
    rw [zero] at opened
    exact outcomes.opened_pos opened
  have file := finds asks.held req asks.asked
  rw [if_pos free] at file
  rcases file fine with ⟨there, size⟩
  rw [opened, Option.isSome_some] at there
  obtain ⟨content, found⟩ := Option.isSome_iff_exists.mp there.symm
  obtain ⟨text, header⟩ : ∃ text, text =
    buildHttpRespHeader outcomes.date (foundHeader outcomes.fileSize req) := ⟨_, rfl⟩
  simp only [answerFound, ← header] at whole ⊢
  have filled : Filled conn.log [.opened (conf.root.text ++ req.uri) outcomes.opened,
      .answered (foundHeader outcomes.fileSize req)] text
      (({ (conn.note [.opened (conf.root.text ++ req.uri) outcomes.opened]).note
        [.answered (foundHeader outcomes.fileSize req)] with readfd := fd }).fill text) :=
    filled_fill text (List.append_assoc _ _ _)
  rcases asks.sends filled rfl rfl rfl whole with ⟨asks', readfd, progress_, sent'⟩
  have none_ : progress (conn.log ++ [.opened (conf.root.text ++ req.uri) outcomes.opened,
      .answered (foundHeader outcomes.fileSize req)]) = [] := progress_append _ _
  have quiet : sentBytes (conn.log ++ [.opened (conf.root.text ++ req.uri) outcomes.opened,
      .answered (foundHeader outcomes.fileSize req)]) = sentBytes conn.log := by
    rw [sentBytes_append]
    exact List.append_nil _
  rw [none_] at progress_
  rw [quiet, sent, header, size content found] at sent'
  rw [header, size content found] at progress_ readfd asks' ⊢
  apply Serving.sending replies req content outcomes.date asks' _ fine found outcomes.date_line
  · rw [progress_]
    exact List.nil_prefix
  · rw [progress_, List.append_nil]
    exact sent'
  · rw [readfd]
    exact positive

theorem serving_error (asks : Asks conf files conn replies req)
    (sent : sentBytes conn.log = replies.flatMap Reply.text) {calls : List Call} {asking : HttpReq}
    (quiet : requestTexts calls = []) (silent : sentBytes calls = [])
    (refused : answerTo files conf.root.text outcomes.date req = errorReply outcomes.date asking)
    (whole : ∀ call ∈ (answerError outcomes asking (conn.note calls)).log, call.Whole) :
    Serving conf files (answerError outcomes asking (conn.note calls)) := by
  obtain ⟨text, page⟩ : ∃ text, text = (errorReply outcomes.date asking).text := ⟨_, rfl⟩
  have same : buildHttpRespHeader outcomes.date (errHeader asking) ++
      errResp.getD asking.errorCode.toNat [] = text := page.symm
  simp only [answerError, same] at whole ⊢
  have filled : Filled conn.log (calls ++ [.answered (errHeader asking)]) text
      (({ (conn.note calls).note [.answered (errHeader asking)] with req := some asking }).fill
        text) :=
    filled_fill text (List.append_assoc _ _ _)
  apply asks.finishes outcomes.date_line filled _ whole
  · have none_ : sentBytes (calls ++ [.answered (errHeader asking)]) = [] := by
      rw [sentBytes_append, silent]
      rfl
    rw [refused, sentBytes_append, none_, List.append_nil, sent, List.flatMap_append,
      List.flatMap_singleton, ← page]
  · rw [requestTexts_append, quiet]
    rfl

section sending

variable {content date : Bytes} (asks : Asks conf files conn replies req) (busy : conn.readfd ≠ 0)
  (fine : req.errorCode = 0) (found : files (conf.root.text ++ req.uri) = some content)
  (dateLine : 10 ∉ date) (part : progress conn.log <+: content)
  (sent : sentBytes conn.log = replies.flatMap Reply.text ++
    (buildHttpRespHeader date (foundHeader content.length req) ++ progress conn.log))
  (finds : Finds conf files conn (.writable outcomes))

include asks busy found part finds

theorem finds_read : ∃ data, outcomes.read = some data ∧ progress conn.log ++ data <+: content ∧
    (data = [] → progress conn.log = content) := by
  have file := finds asks.held req asks.asked
  rw [if_neg busy] at file
  obtain ⟨data, read, next, last⟩ := file content found
  obtain ⟨rest, rfl⟩ := part
  refine ⟨data, read, ?_, ?_⟩
  · rw [List.drop_left] at next
    exact (List.prefix_append_right_inj _).mpr next
  · intro empty
    have size := last empty
    rw [List.length_append] at size
    have none_ : rest = [] := List.eq_nil_of_length_eq_zero (by omega)
    rw [none_, List.append_nil]

include fine dateLine sent

theorem serving_data {bytes : Bytes} (read : outcomes.read = some bytes)
    (whole : ∀ call ∈ (sendData outcomes true
      ((conn.note [.read conn.readfd outcomes.read]).fill bytes)).log, call.Whole) :
    Serving conf files
      (sendData outcomes true ((conn.note [.read conn.readfd outcomes.read]).fill bytes)) := by
  obtain ⟨data, read', inside, -⟩ := finds_read asks busy found part finds
  have same : data = bytes := Option.some.inj (read'.symm.trans read)
  rw [same] at inside
  have filled : Filled conn.log [.read conn.readfd outcomes.read] bytes
      ((conn.note [.read conn.readfd outcomes.read]).fill bytes) := filled_fill bytes rfl
  rcases asks.sends filled rfl rfl rfl whole with ⟨asks', readfd, progress_, sent'⟩
  have reads : progress (conn.log ++ [.read conn.readfd outcomes.read]) =
      progress conn.log ++ bytes := by
    rw [progress_append, read]
    rfl
  have quiet : sentBytes (conn.log ++ [.read conn.readfd outcomes.read]) = sentBytes conn.log := by
    rw [sentBytes_append]
    exact List.append_nil _
  rw [reads] at progress_
  rw [quiet, sent] at sent'
  apply Serving.sending replies req content date asks' _ fine found dateLine
  · rw [progress_]
    exact inside
  · rw [progress_, sent']
    simp only [List.append_assoc]
  · rw [readfd]
    exact busy

omit dateLine in
theorem sent_of_end (read : outcomes.read = some []) :
    sentBytes (conn.log ++ [.read conn.readfd outcomes.read]) ++ (trailer req).flatten =
      (replies ++ [answerTo files conf.root.text date req]).flatMap Reply.text := by
  obtain ⟨data, read', -, last⟩ := finds_read asks busy found part finds
  have whole := last (Option.some.inj (read'.symm.trans read))
  have quiet : sentBytes (conn.log ++ [.read conn.readfd outcomes.read]) = sentBytes conn.log := by
    rw [sentBytes_append]
    exact List.append_nil _
  rw [quiet, sent, whole, answerTo, if_pos fine, found, List.flatMap_append, List.flatMap_singleton]
  simp only [fileReply, Reply.text, Reply.head, List.append_assoc]

theorem serving_trailer {text : Bytes} (read : outcomes.read = some [])
    (appends : req.appends = true) (posted : appendPostResponse [] req.postData = some text)
    (whole : ∀ call ∈ (sendData outcomes false
      ((conn.note [.read conn.readfd outcomes.read]).fill text)).log, call.Whole) :
    Serving conf files
      (sendData outcomes false ((conn.note [.read conn.readfd outcomes.read]).fill text)) := by
  have ends := sent_of_end asks busy fine found part sent finds read
  have posts : text = postText req.postData := by
    simp only [appendPostResponse, List.nil_append] at posted
    split at posted
    · exact (Option.some.inj posted).symm
    · cases posted
  have last : (trailer req).flatten = text := by
    simp only [posts, trailer, appends, ↓reduceIte, List.flatten_cons, List.flatten_nil,
      List.append_nil]
  rw [last] at ends
  have filled : Filled conn.log [.read conn.readfd outcomes.read] text
      ((conn.note [.read conn.readfd outcomes.read]).fill text) := filled_fill text rfl
  exact asks.finishes dateLine filled rfl whole ends

theorem serving_ended (read : outcomes.read = some []) (ends : req.appends = false) :
    Serving conf files
      (resetEpoll outcomes.now (conn.note [.read conn.readfd outcomes.read])) := by
  have last := sent_of_end asks busy fine found part sent finds read
  have none_ : (trailer req).flatten = [] := by
    simp only [trailer, ends, Bool.false_eq_true, ↓reduceIte, List.flatten_nil]
  rw [none_, List.append_nil] at last
  have log := log_resetEpoll_eq outcomes.now (conn.note [.read conn.readfd outcomes.read])
  rw [note_log, note_readfd] at log
  apply Serving.idle _ rfl
  · have silent : requestTexts [.read conn.readfd outcomes.read] = [] := rfl
    rw [log, requestTexts_append, requestTexts_append, requestTexts_resetCalls, silent,
      List.append_nil, List.append_nil]
    exact asks.answer date dateLine
  · rw [log, sentBytes_append, (reset_bytes conn.readfd).1, List.append_nil]
    exact last

end sending

theorem serving_out (serving : Serving conf files conn) (answers : conn.events = .EPOLLOUT)
    (out : OutStep conf outcomes conn next) (finds : Finds conf files conn (.writable outcomes))
    (whole : ∀ call ∈ next.log, call.Whole) : Serving conf files next := by
  cases serving with
  | idle replies waits =>
      rw [answers] at waits
      cases waits
  | asked replies req asks free sent =>
      have mine : ∀ {asking}, conn.req = some asking → asking = req := by
        intro asking asked
        exact Option.some.inj (asked.symm.trans asks.asked)
      -- In front of the response only its header can be next.
      cases out with
      | pending buf held =>
          rw [asks.held] at held
          cases held
      | found asking fd held free' asked fine opened =>
          obtain rfl := mine asked
          exact serving_found asks free fine sent opened finds whole
      | missing asking held free' asked fine opened =>
          obtain rfl := mine asked
          have file := finds asks.held asking asks.asked
          rw [if_pos free] at file
          have absent : files (conf.root.text ++ asking.uri) = none := by
            have there := (file fine).1
            rw [opened, Option.isSome_none] at there
            exact Option.not_isSome_iff_eq_none.mp (by rw [← there]; decide)
          apply serving_error asks sent rfl rfl _ whole
          rw [answerTo, if_pos fine, absent]
      | refused asking held free' asked wrong =>
          obtain rfl := mine asked
          have same : conn.note [] = conn := by
            simp only [note, List.append_nil]
          rw [← same] at whole ⊢
          exact serving_error asks sent rfl rfl (by rw [answerTo, if_neg wrong]) whole
      | failed held busy => exact absurd free busy
      | data bytes held busy => exact absurd free busy
      | trailer asking text held busy => exact absurd free busy
      | ended asking held busy => exact absurd free busy
  | sending replies req content date asks busy fine found dateLine part sent =>
      have mine : ∀ {asking}, conn.req = some asking → asking = req := by
        intro asking asked
        exact Option.some.inj (asked.symm.trans asks.asked)
      -- Behind the header only the file and what follows it can be next.
      cases out with
      | pending buf held =>
          rw [asks.held] at held
          cases held
      | found asking fd held free => exact absurd free busy
      | missing asking held free => exact absurd free busy
      | refused asking held free => exact absurd free busy
      | failed held busy' read =>
          obtain ⟨data, read', -⟩ := finds_read asks busy found part finds
          rw [read] at read'
          cases read'
      | data bytes held busy' read some_ =>
          exact serving_data asks busy fine found dateLine part sent finds read whole
      | trailer asking text held busy' read asked appends posted =>
          obtain rfl := mine asked
          exact serving_trailer asks busy fine found dateLine part sent finds read appends posted
            whole
      | ended asking held busy' read asked ends =>
          obtain rfl := mine asked
          exact serving_ended asks busy fine found dateLine part sent finds read ends

theorem serving_in (serving : Serving conf files conn) (tidy : Tidy conn)
    (waits : conn.events = .EPOLLIN) {outcome : RecvOutcome}
    (handled : handleIn conf outcome conn = some next) : Serving conf files next := by
  rcases tidy.waiting waits with ⟨held, -, free⟩
  cases serving with
  | idle replies waits' answered sent =>
      have quiet : sentBytes (conn.log ++ [.received outcome]) = replies.flatMap Reply.text := by
        rw [sentBytes_append, sent]
        exact List.append_nil _
      have stays : requestTexts [.received outcome] = [] →
          Serving conf files (conn.note [.received outcome]) := by
        intro silent
        apply Serving.idle replies
        · exact waits
        · rw [note_log, requestTexts_append, silent, List.append_nil]
          exact answered
        · exact quiet
      cases outcome with
      | received bytes behind =>
          simp only [handleIn] at handled
          split at handled
          · cases handled
          · rename_i req parsed
            obtain rfl := Option.some.inj handled
            apply Serving.asked replies req.toHttpReq
            · constructor
              · rfl
              · exact held
              · rfl
              · exact ⟨requestTexts conn.log, receivedText bytes behind, req,
                  requestTexts_append _ _, answered, parsed, rfl⟩
            · exact free
            · exact quiet
      | closed =>
          rw [← Option.some.inj handled]
          exact stays rfl
      | again =>
          rw [← Option.some.inj handled]
          exact stays rfl
      | error =>
          rw [← Option.some.inj handled]
          exact stays rfl
  | asked replies req asks =>
      rw [asks.events] at waits
      cases waits
  | sending replies req content date asks =>
      rw [asks.events] at waits
      cases waits

theorem serving_fresh : Serving conf files fresh :=
  .idle [] rfl List.Forall₂.nil rfl

theorem serving_step (serving : Serving conf files conn) (tidy : Tidy conn) {event : Readiness}
    (stepped : step conf conn event = some next) (finds : Finds conf files conn event)
    (whole : ∀ call ∈ next.log, call.Whole) : Serving conf files next := by
  cases moved_of_step stepped with
  | input outcome waits handled => exact serving_in serving tidy waits handled
  | output outcomes answers handled => exact serving_out serving answers handled finds whole
  | ignored _ other same =>
      rw [same]
      exact serving

theorem serving_run (events : List Readiness) (serving : Serving conf files conn) (tidy : Tidy conn)
    (reached : run conf conn events = some next) (finds : FindsAlong conf files conn events)
    (whole : ∀ call ∈ next.log, call.Whole) : Serving conf files next := by
  induction events generalizing conn with
  | nil =>
      rw [← Option.some.inj reached]
      exact serving
  | cons event rest ih =>
      rw [run_cons] at reached
      obtain ⟨middle, stepped, later⟩ := Option.bind_eq_some_iff.mp reached
      rcases finds with ⟨here, behind⟩
      have front := log_run conf middle next rest later
      have serving' := serving_step serving tidy stepped here
        (fun call member => whole call (front.subset member))
      exact ih serving' (tidy_step conf conn event middle tidy stepped) later (behind middle stepped)

end files

end Connection

namespace Server

def conn (i : Nat) (server : Server) : Connection := (server.conns[i]?).getD Connection.fresh

def hears (i : Nat) (server : Server) : ServerEvent → List Readiness
  | .listening _ => []
  | .ready j readiness => if j = i ∧ i < server.conns.length then [readiness] else []

def heard [Overlapping] (conf : Config) (i : Nat) : Server → List ServerEvent → List Readiness
  | _, [] => []
  | server, event :: rest =>
      hears i server event ++
        (match step conf server event with
          | some next => heard conf i next rest
          | none => [])

theorem step_hears [Overlapping] {conf : Config} {server next : Server} {event : ServerEvent}
    (i : Nat)
    (stepped : step conf server event = some next) :
    Connection.run conf (server.conn i) (hears i server event) = some (next.conn i) := by
  cases event with
  | listening outcome =>
      have same : next.conn i = server.conn i := by
        simp only [step] at stepped
        split_ifs at stepped
        · rw [← Option.some.inj stepped]
        · rw [← Option.some.inj stepped]
          cases outcome with
          | accepted =>
              simp only [conn, handleAccept, List.getElem?_append]
              split_ifs with old
              · rfl
              · rw [List.getElem?_eq_none (by omega : server.conns.length ≤ i), List.getElem?_singleton]
                split_ifs <;> rfl
          | again => rfl
          | error => rfl
      rw [same]
      rfl
  | ready j readiness =>
      simp only [step] at stepped
      simp only [hears]
      cases here : server.conns[j]? with
      | none =>
          simp only [here] at stepped
          have beyond := List.getElem?_eq_none_iff.mp here
          rw [if_neg (by omega), ← Option.some.inj stepped]
          rfl
      | some old =>
          simp only [here] at stepped
          have inside := (List.getElem?_eq_some_iff.mp here).1
          obtain ⟨moved, step_, rfl⟩ := Option.map_eq_some_iff.mp stepped
          by_cases same : j = i
          · subst same
            have before : server.conn j = old := by
              rw [conn, here, Option.getD_some]
            have behind : conn j { server with conns := server.conns.set j moved } = moved := by
              simp only [conn, List.getElem?_set_self inside, Option.getD_some]
            rw [if_pos ⟨rfl, inside⟩, Connection.run_cons, before, behind, step_]
            rfl
          · have kept : conn i { server with conns := server.conns.set j moved } = server.conn i := by
              simp only [conn, List.getElem?_set_ne same]
            rw [if_neg (fun both => same both.1), kept]
            rfl

/-- A connection does what it hears, whatever the others do. -/
theorem run_heard [Overlapping] {conf : Config} {server last : Server} {events : List ServerEvent}
    (i : Nat)
    (reached : run conf server events = some last) :
    Connection.run conf (server.conn i) (heard conf i server events) = some (last.conn i) := by
  induction events generalizing server with
  | nil =>
      rw [← Option.some.inj reached]
      rfl
  | cons event rest ih =>
      rw [run, Runs.run_cons] at reached
      obtain ⟨next, stepped, later⟩ := Option.bind_eq_some_iff.mp reached
      have here := step_hears i stepped
      simp only [heard, stepped]
      rw [Connection.run, Runs.run_append]
      rw [Connection.run] at here
      rw [here, Option.bind_some]
      exact ih later

end Server

theorem exists_left_of_mem {α β : Type} {related : α → β → Prop} {front : List α} {back : List β}
    (all : List.Forall₂ related front back) {entry : β} (member : entry ∈ back) :
    ∃ first ∈ front, related first entry := by
  induction all with
  | nil => cases member
  | cons here _ ih =>
      rcases List.mem_cons.mp member with rfl | later
      · exact ⟨_, List.mem_cons_self, here⟩
      · obtain ⟨first, inside, found⟩ := ih later
        exact ⟨first, List.mem_cons_of_mem _ inside, found⟩

/-- A connection that waits for the next request has answered the others. -/
theorem Connection.served [Overlapping] (conf : Config) (files : Bytes → Option Bytes)
    (events : List Readiness)
    (conn : Connection) (reached : Connection.run conf .fresh events = some conn)
    (waits : conn.events = .EPOLLIN) (whole : ∀ call ∈ conn.log, call.Whole)
    (finds : Connection.FindsAlong conf files Connection.fresh events)
    (announceable : ∀ text ∈ requestTexts conn.log, ∀ req ∈ parseHttpReq conf text,
      Announceable files conf.root.text req.toHttpReq) :
    ∃ replies, List.Forall₂ (Connection.Fulfils conf files) (requestTexts conn.log) replies ∧
      clientResponses (sentBytes conn.log) =
        some (replies.map (fun reply => (reply.head, reply.body))) := by
  have idle : Connection.Serving conf files Connection.fresh := Connection.serving_fresh
  have serving := Connection.serving_run _ idle Connection.tidy_fresh reached finds whole
  cases serving with
  | idle replies waits' answered sent =>
      refine ⟨replies, answered, ?_⟩
      rw [sent]
      apply clientResponses_texts
      intro reply member
      obtain ⟨text, heard, fulfils⟩ := exists_left_of_mem answered member
      obtain ⟨req, date, parsed, dateLine, rfl⟩ := fulfils
      rcases parse_sets conf text req parsed with ⟨posted, typeLine⟩
      exact announced_answerTo files _ date _ dateLine typeLine posted
        (announceable text heard req parsed)
  | asked replies req asks =>
      rw [asks.events] at waits
      cases waits
  | sending replies req content date asks =>
      rw [asks.events] at waits
      cases waits

/-- Whatever a server does for its other connections: once a client has been answered, the
bytes of its connection are taken apart into one response for each of its requests, each one
the answer to its request. -/
theorem clients_served [Overlapping] (conf : Config) (files : Bytes → Option Bytes)
    (events : List ServerEvent)
    (server : Server) (reached : Server.run conf .initial events = some server) (i : Nat)
    (waits : (server.conn i).events = .EPOLLIN)
    (whole : ∀ call ∈ (server.conn i).log, call.Whole)
    (finds : Connection.FindsAlong conf files Connection.fresh
      (Server.heard conf i .initial events))
    (announceable : ∀ text ∈ requestTexts (server.conn i).log, ∀ req ∈ parseHttpReq conf text,
      Announceable files conf.root.text req.toHttpReq) :
    ∃ replies, List.Forall₂ (Connection.Fulfils conf files) (requestTexts (server.conn i).log)
        replies ∧
      clientResponses (sentBytes (server.conn i).log) =
        some (replies.map (fun reply => (reply.head, reply.body))) := by
  have run := Server.run_heard i reached
  have fresh : Server.initial.conn i = Connection.fresh := rfl
  rw [fresh] at run
  exact Connection.served conf files _ (server.conn i) run waits whole finds announceable

def sampleFiles : Bytes → Option Bytes := fun path =>
  if path = sampleConfig.root.text ++ ascii "/f.html" then some [1, 2, 3] else none

/-- A client asks for the file and for another one, while a second client asks for the
file. -/
def servedEvents : List ServerEvent :=
  [.listening .accepted, .listening .accepted,
    .ready 0 (.readable (.received Connection.sampleSegment [])),
    .ready 1 (.readable (.received Connection.sampleSegment [])),
    .ready 0 (.writable (Connection.sampleReturns (some 7) [])),
    .ready 1 (.writable (Connection.sampleReturns (some 8) [])),
    .ready 0 (.writable (Connection.sampleReturns none [1, 2])),
    .ready 0 (.writable (Connection.sampleReturns none [3])),
    .ready 0 (.writable (Connection.sampleReturns none [])),
    .ready 0 (.readable (.received Connection.otherSegment [])),
    .ready 0 (.writable (Connection.sampleReturns none []))]

attribute [local instance] Letters.forward

theorem clients_served_twice :
    ∃ (server : Server) (replies : List Reply),
      Server.run sampleConfig .initial servedEvents = some server ∧
      replies.length = 2 ∧ clientResponses (sentBytes (server.conn 0).log) =
        some (replies.map (fun reply => (reply.head, reply.body))) := by
  have returns : (Server.run sampleConfig .initial servedEvents).isSome = true := by decide +kernel
  obtain ⟨server, reached⟩ := Option.isSome_iff_exists.mp returns
  have facts : (Server.run sampleConfig .initial servedEvents).map (fun (server : Server) =>
      ((server.conn 0).events, (requestTexts (server.conn 0).log).length,
        decide (∀ call ∈ (server.conn 0).log, call.Whole),
        decide (∀ text ∈ requestTexts (server.conn 0).log, ∀ req ∈ parseHttpReq sampleConfig text,
          Announceable sampleFiles sampleConfig.root.text req.toHttpReq))) =
      some (.EPOLLIN, 2, true, true) := by
    decide +kernel
  have finds : Connection.FindsAlong sampleConfig sampleFiles Connection.fresh
      (Server.heard sampleConfig 0 .initial servedEvents) := by
    decide +kernel
  simp only [reached, Option.map_some, Option.some.injEq, Prod.mk.injEq, decide_eq_true_eq] at facts
  rcases facts with ⟨waits, asked, whole, announceable⟩
  obtain ⟨replies, fulfils, read⟩ := clients_served sampleConfig sampleFiles servedEvents server
    reached 0 waits whole finds announceable
  exact ⟨server, replies, reached, fulfils.length_eq.symm.trans asked, read⟩

end NetworkSystem.Http
