import NetworkSystem.Http.Machine
import NetworkSystem.Paths

/-! Which files a request can open: the path is the root of the documents with the URI
behind it, and nothing looks at either. -/

namespace NetworkSystem.Http

open Bytes NetworkSystem.Path

def openedPaths (log : List Call) : List Bytes :=
  log.filterMap (fun call => match call with
    | .opened path (some _) => some path
    | _ => none)

@[simp] theorem openedPaths_append (first second : List Call) :
    openedPaths (first ++ second) = openedPaths first ++ openedPaths second :=
  List.filterMap_append

theorem openedPaths_opened {path other : Bytes} {fd : Option Nat}
    (opened : other ∈ openedPaths [.opened path fd]) : other = path := by
  cases fd with
  | none => exact absurd opened List.not_mem_nil
  | some fd => exact List.mem_singleton.mp opened

def Named [Overlapping] (conf : Config) (log : List Call) (uri : Bytes) : Prop :=
  ∃ (bytes : Segment) (behind : Bytes) (req : ParsedReq), .received (.received bytes behind) ∈ log ∧
    parseHttpReq conf (receivedText bytes behind) = some req ∧ req.uri = uri

theorem Named.mono [Overlapping] {conf : Config} {log later : List Call} {uri : Bytes}
    (named : Named conf log uri) (front : log <+: later) : Named conf later uri := by
  rcases named with ⟨bytes, behind, req, member, parsed, same⟩
  exact ⟨bytes, behind, req, front.mem member, parsed, same⟩

namespace Connection

/-- The request at hand and all files come from requests that were received. -/
structure Asked [Overlapping] (conf : Config) (conn : Connection) : Prop where
  req : ∀ req, conn.req = some req → Named conf conn.log req.uri
  opened : ∀ path ∈ openedPaths conn.log,
    ∃ uri, Named conf conn.log uri ∧ path = conf.root.text ++ uri

theorem openedPaths_resetEpoll (now : Nat) (conn : Connection) :
    openedPaths (resetEpoll now conn).log = openedPaths conn.log := by
  rw [log_resetEpoll_eq, openedPaths_append, resetCalls]
  split_ifs <;> exact List.append_nil _

theorem sendData_opens (outcomes : Outcomes) (more : Bool) (conn : Connection) :
    openedPaths (sendData outcomes more conn).log = openedPaths conn.log ∧
      ∀ req, (sendData outcomes more conn).req = some req → conn.req = some req := by
  have noted : openedPaths (conn.log ++ [.sent (conn.buf.getD []) conn.size outcomes.sent]) =
      openedPaths conn.log := by
    rw [openedPaths_append]
    exact List.append_nil _
  rcases sendData_cases outcomes more conn with
    ⟨count, room, last, sent⟩ | ⟨room, sent⟩ | ⟨count, room, last, sent⟩ | ⟨room, sent⟩
  · rw [sent]
    exact ⟨noted, fun req asked => asked⟩
  · rw [sent]
    exact ⟨noted, fun req asked => asked⟩
  · rw [sent, openedPaths_resetEpoll]
    exact ⟨noted, nofun⟩
  · rw [sent, openedPaths_resetEpoll]
    exact ⟨noted, nofun⟩

theorem asked_sendData [Overlapping] (conf : Config) (outcomes : Outcomes) (more : Bool)
    (conn middle : Connection) (calls : List Call) (asked : Asked conf conn)
    (log : middle.log = conn.log ++ calls)
    (opens : ∀ path ∈ openedPaths calls, ∃ req, conn.req = some req ∧ path = conf.root.text ++ req.uri)
    (same : ∀ req, middle.req = some req → ∃ other, conn.req = some other ∧ req.uri = other.uri) :
    Asked conf (sendData outcomes more middle) := by
  have front : conn.log <+: (sendData outcomes more middle).log := by
    have sent := log_sendData outcomes more middle
    rw [log, List.append_assoc] at sent
    exact (List.prefix_append _ _).trans sent
  have sends := sendData_opens outcomes more middle
  constructor
  · intro req there
    rcases same req (sends.2 req there) with ⟨other, held, uri⟩
    rw [uri]
    exact (asked.req other held).mono front
  · intro path opened
    rw [sends.1, log, openedPaths_append] at opened
    rcases List.mem_append.mp opened with old | new
    · rcases asked.opened path old with ⟨uri, named, path_⟩
      exact ⟨uri, named.mono front, path_⟩
    · rcases opens path new with ⟨req, held, path_⟩
      exact ⟨req.uri, (asked.req req held).mono front, path_⟩

theorem asked_goes [Overlapping] (conf : Config) (outcomes : Outcomes) (more : Bool)
    (conn middle : Connection)
    (calls : List Call) (asked : Asked conf conn) (log : middle.log = conn.log ++ calls)
    (silent : openedPaths calls = []) (same : middle.req = conn.req) :
    Asked conf (sendData outcomes more middle) := by
  apply asked_sendData conf outcomes more conn middle calls asked log
  · intro path opened
    rw [silent] at opened
    exact absurd opened List.not_mem_nil
  · intro req held
    exact ⟨req, same.symm.trans held, rfl⟩

theorem asked_begins [Overlapping] (conf : Config) (outcomes : Outcomes) (more : Bool)
    (conn middle : Connection)
    (req asking : HttpReq) (calls : List Call) (asked : Asked conf conn)
    (there : conn.req = some req) (asks : middle.req = some asking) (uri : asking.uri = req.uri)
    (log : middle.log = conn.log ++ calls)
    (opens : ∀ path ∈ openedPaths calls, path = conf.root.text ++ req.uri) :
    Asked conf (sendData outcomes more middle) := by
  apply asked_sendData conf outcomes more conn middle calls asked log
  · intro path opened
    exact ⟨req, there, opens path opened⟩
  · intro other found
    rw [← Option.some.inj (asks.symm.trans found)]
    exact ⟨req, there, uri⟩

theorem openedPaths_answered {path other : Bytes} {fd : Option Nat} {header : HttpRespHeader}
    (opened : other ∈ openedPaths ([.opened path fd] ++ [.answered header])) : other = path := by
  rw [openedPaths_append] at opened
  exact openedPaths_opened ((List.mem_append.mp opened).resolve_right List.not_mem_nil)

theorem OutStep.asked [Overlapping] {conf : Config} {outcomes : Outcomes} {conn next : Connection}
    (step : OutStep conf outcomes conn next) (asked : Asked conf conn) : Asked conf next := by
  cases step with
  | pending buf held =>
      exact asked_goes conf outcomes false conn conn [] asked (List.append_nil _).symm rfl rfl
  | found req fd held free there fine opened =>
      apply asked_begins conf outcomes true conn _ req req ([.opened (conf.root.text ++ req.uri)
        outcomes.opened] ++ [.answered (foundHeader outcomes.fileSize req)]) asked there
      · exact there
      · rfl
      · exact List.append_assoc _ _ _
      · exact fun _ => openedPaths_answered
  | missing req held free there fine opened =>
      apply asked_begins conf outcomes false conn _ req { req with errorCode := ERR_NOT_FOUND }
        ([.opened (conf.root.text ++ req.uri) outcomes.opened] ++
          [.answered (errHeader { req with errorCode := ERR_NOT_FOUND })]) asked there
      · rfl
      · rfl
      · exact List.append_assoc _ _ _
      · exact fun _ => openedPaths_answered
  | refused req held free there wrong =>
      apply asked_begins conf outcomes false conn _ req req [.answered (errHeader req)] asked there
      · rfl
      · rfl
      · rfl
      · exact fun _ opened => absurd opened List.not_mem_nil
  | failed held busy data =>
      exact asked_goes conf outcomes true conn _ [.read conn.readfd outcomes.read] asked rfl rfl rfl
  | data bytes held busy data nonempty =>
      exact asked_goes conf outcomes true conn _ [.read conn.readfd outcomes.read] asked rfl rfl rfl
  | trailer req text held busy data there appends posted =>
      exact asked_goes conf outcomes false conn _ [.read conn.readfd outcomes.read] asked rfl rfl rfl
  | ended req held busy data there ends =>
      have front : conn.log <+:
          (resetEpoll outcomes.now (conn.note [.read conn.readfd outcomes.read])).log :=
        (List.prefix_append _ _).trans (log_resetEpoll _ (conn.note _))
      constructor
      · intro other found
        cases found
      · intro path opened
        rw [openedPaths_resetEpoll, note_log, openedPaths_append] at opened
        have old := (List.mem_append.mp opened).resolve_right List.not_mem_nil
        rcases asked.opened path old with ⟨uri, named, path_⟩
        exact ⟨uri, named.mono front, path_⟩

theorem asked_step [Overlapping] (conf : Config) (conn : Connection) (readiness : Readiness)
    (next : Connection)
    (asked : Asked conf conn) (stepped : step conf conn readiness = some next) : Asked conf next := by
  cases moved_of_step stepped with
  | input outcome waits handled =>
      have log := log_handleIn conf outcome conn next handled
      have front : conn.log <+: next.log := by
        rw [log]
        exact List.prefix_append _ _
      constructor
      · intro req there
        rcases handleIn_cases conf outcome conn next handled with
          same | ⟨bytes, behind, parsed, received, parses, same⟩
        · rw [same] at there
          exact (asked.req req there).mono front
        · rw [same] at there
          have member : .received (.received bytes behind) ∈ next.log := by
            rw [log, received]
            exact List.mem_append_right _ List.mem_cons_self
          rw [← Option.some.inj there]
          exact ⟨bytes, behind, parsed, member, parses, rfl⟩
      · intro path opened
        rw [log, openedPaths_append] at opened
        have old := (List.mem_append.mp opened).resolve_right List.not_mem_nil
        rcases asked.opened path old with ⟨uri, named, path_⟩
        exact ⟨uri, named.mono front, path_⟩
  | output outcomes answers handled => exact handled.asked asked
  | ignored _ other same =>
      rw [same]
      exact asked

theorem asked_run [Overlapping] (conf : Config) (events : List Readiness) (conn : Connection)
    (reached : run conf fresh events = some conn) : Asked conf conn :=
  Runs.run_invariant (step conf) (Asked conf) (asked_step conf) fresh conn events
    ⟨nofun, nofun⟩ reached

end Connection

/-- The URIs that do not lead out of the root. One without a leading slash continues the
last component of the root. -/
def StaysInRoot (root uri : Bytes) : Prop :=
  if Absolute uri then root ≠ [] ∧ StaysBelow root uri else StaysAround root uri

instance (root uri : Bytes) : Decidable (StaysInRoot root uri) :=
  inferInstanceAs (Decidable
    (if Absolute uri then root ≠ [] ∧ StaysBelow root uri else StaysAround root uri))

theorem inside_root_iff (root uri : Bytes) :
    Inside (resolve root) (resolve (root ++ uri)) ↔ StaysInRoot root uri := by
  by_cases slash : Absolute uri
  · rw [StaysInRoot, if_pos slash]
    obtain ⟨behind, rfl⟩ := List.head?_eq_some_iff.mp slash
    by_cases empty : root = []
    · subst empty
      simp only [ne_eq, not_true_eq_false, false_and, iff_false]
      exact id
    · rw [inside_of_slash root behind empty]
      exact ⟨fun stays => ⟨empty, stays⟩, fun stays => stays.2⟩
  · rw [StaysInRoot, if_neg slash]
    apply inside_of_text
    by_cases empty : root = []
    · rw [empty, List.nil_append]
      exact iff_of_false slash (by decide)
    · exact absolute_append root uri empty

/-- A file that is opened is the URI of a request behind the root, and lies in it when
the URI does not lead out. -/
theorem document_root [Overlapping] (conf : Config) (events : List Readiness) (conn : Connection)
    (reached : Connection.run conf Connection.fresh events = some conn) (path : Bytes)
    (opened : path ∈ openedPaths conn.log) :
    ∃ (bytes : Segment) (behind : Bytes) (req : ParsedReq), .received (.received bytes behind) ∈ conn.log ∧
      parseHttpReq conf (receivedText bytes behind) = some req ∧
      path = conf.root.text ++ req.uri ∧
      (Inside (resolve conf.root.text) (resolve path) ↔ StaysInRoot conf.root.text req.uri) := by
  rcases (Connection.asked_run conf events conn reached).opened path opened with
    ⟨uri, ⟨bytes, behind, req, member, parsed, same⟩, path_⟩
  rw [← same] at path_
  refine ⟨bytes, behind, req, member, parsed, path_, ?_⟩
  rw [path_]
  exact inside_root_iff conf.root.text req.uri

/-- A request for a path, and the event at which its file is opened. -/
def sampleOpening (request : Segment) : List Readiness :=
  [.readable (.received request []), .writable Connection.sampleOpened]

attribute [local instance] Letters.forward

theorem document_root_request :
    ∃ conn, Connection.run sampleConfig Connection.fresh
        (sampleOpening ⟨ascii "GET /a/../f.html HTTP/1.1\r\n\r\n", by decide⟩) = some conn ∧
      openedPaths conn.log = [ascii "/www/a/../f.html"] ∧
      Inside (resolve sampleConfig.root.text) (resolve (ascii "/www/a/../f.html")) := by
  have opens : (Connection.run sampleConfig Connection.fresh
      (sampleOpening ⟨ascii "GET /a/../f.html HTTP/1.1\r\n\r\n", by decide⟩)).map
        (fun conn => openedPaths conn.log) = some [ascii "/www/a/../f.html"] := by
    decide +kernel
  obtain ⟨conn, reached, paths⟩ := Option.map_eq_some_iff.mp opens
  have member : ascii "/www/a/../f.html" ∈ openedPaths conn.log := by
    rw [paths]
    exact List.mem_singleton_self _
  rcases document_root sampleConfig _ conn reached _ member with
    ⟨bytes, behind, req, -, -, path, inside⟩
  have uri : ascii "/a/../f.html" = req.uri :=
    List.append_cancel_left (show sampleConfig.root.text ++ ascii "/a/../f.html" = _ from path)
  rw [← uri] at inside
  exact ⟨conn, reached, paths, inside.mpr (by decide)⟩

/-- A step upwards, and a URI without a slash in front. -/
theorem document_root_left :
    (∃ conn, Connection.run sampleConfig Connection.fresh
        (sampleOpening ⟨ascii "GET /../f.html HTTP/1.1\r\n\r\n", by decide⟩) = some conn ∧
      openedPaths conn.log = [ascii "/www/../f.html"] ∧
      ¬ Inside (resolve sampleConfig.root.text) (resolve (ascii "/www/../f.html"))) ∧
    ∃ conn, Connection.run sampleConfig Connection.fresh
        (sampleOpening ⟨ascii "GET 2/f.html HTTP/1.1\r\n\r\n", by decide⟩) = some conn ∧
      openedPaths conn.log = [ascii "/www2/f.html"] ∧
      ¬ Inside (resolve sampleConfig.root.text) (resolve (ascii "/www2/f.html")) := by
  constructor
  · have opens : (Connection.run sampleConfig Connection.fresh
        (sampleOpening ⟨ascii "GET /../f.html HTTP/1.1\r\n\r\n", by decide⟩)).map
          (fun conn => openedPaths conn.log) = some [ascii "/www/../f.html"] := by
      decide +kernel
    obtain ⟨conn, reached, paths⟩ := Option.map_eq_some_iff.mp opens
    exact ⟨conn, reached, paths, by decide⟩
  · have opens : (Connection.run sampleConfig Connection.fresh
        (sampleOpening ⟨ascii "GET 2/f.html HTTP/1.1\r\n\r\n", by decide⟩)).map
          (fun conn => openedPaths conn.log) = some [ascii "/www2/f.html"] := by
      decide +kernel
    obtain ⟨conn, reached, paths⟩ := Option.map_eq_some_iff.mp opens
    exact ⟨conn, reached, paths, by decide⟩

end NetworkSystem.Http
