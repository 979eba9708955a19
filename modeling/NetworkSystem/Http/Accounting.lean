import NetworkSystem.Http.Machine
import Mathlib.Data.List.Count

/-! The event loop of the HTTP server and its count of events, next to the number of
connections that are in use. -/

namespace NetworkSystem.Http

open Bytes

def EPOLL_SIZE_MAX : Nat := 1024

/-- What `accept` returns: a descriptor, or a -1 for no client or for an error. -/
inductive AcceptOutcome where
  | accepted
  | again
  | error
  deriving DecidableEq

/-- `events_count` and the registered connections. -/
structure Server where
  eventsCount : Nat
  conns : List Connection

inductive ServerEvent where
  | listening (outcome : AcceptOutcome)
  | ready (i : Nat) (readiness : Readiness)

namespace Server

/-- The server with nothing but the listening socket registered. -/
def initial : Server where
  eventsCount := 1
  conns := []

def handleAccept (outcome : AcceptOutcome) (server : Server) : Server :=
  match outcome with
  | .accepted =>
      { server with
        eventsCount := server.eventsCount + 1
        conns := server.conns ++ [Connection.fresh] }
  | _ => server

/-- The loop body of `main`. -/
def step [Overlapping] (conf : Config) (server : Server) : ServerEvent → Option Server
  | .listening outcome =>
      if server.eventsCount ≥ EPOLL_SIZE_MAX then some server
      else some (server.handleAccept outcome)
  | .ready i readiness =>
      match server.conns[i]? with
      | none => some server
      | some conn =>
          (conn.step conf readiness).map (fun next =>
            { server with conns := server.conns.set i next })

def run [Overlapping] (conf : Config) : Server → List ServerEvent → Option Server :=
  Runs.run (step conf)

end Server

/-- Whether the peer is gone, the response being sent, and the last one that has come to
its end. -/
structure Usage where
  gone : Bool
  current : Option HttpRespHeader
  last : Option HttpRespHeader

def Usage.ended (usage : Usage) : Usage := { usage with last := usage.current }

def Usage.after (usage : Usage) : Call → Usage
  | .received .closed => { usage with gone := true }
  | .received .error => { usage with gone := true }
  | .answered header => { usage with current := some header }
  | .waiting => usage.ended
  | _ => usage

def usage (log : List Call) : Usage :=
  log.foldl Usage.after { gone := false, current := none, last := none }

theorem usage_append (first second : List Call) :
    usage (first ++ second) = second.foldl Usage.after (usage first) := List.foldl_append

namespace Connection

/-- The peer has not closed, and has not been told that the server does. -/
def InUse (conn : Connection) : Prop :=
  (usage conn.log).gone = false ∧ ∀ header, (usage conn.log).last = some header → header.keepAlive ≠ 0

instance : DecidablePred InUse := fun conn =>
  match last : (usage conn.log).last with
  | none => decidable_of_iff ((usage conn.log).gone = false) (by simp [InUse, last])
  | some header =>
      decidable_of_iff ((usage conn.log).gone = false ∧ header.keepAlive ≠ 0) (by simp [InUse, last])

/-- Whether `handle_out` will have more to send behind what it sends now. -/
def hasMore (outcomes : Outcomes) (conn : Connection) : Bool :=
  conn.buf.isNone &&
    (if conn.readfd = 0 then
      conn.req.any (fun req => req.errorCode = 0) && outcomes.opened.isSome
    else decide (outcomes.read ≠ some []))

/-- Whether `handle_out` finds the end of the file and has nothing to send. -/
def nothingLeft (outcomes : Outcomes) (conn : Connection) : Bool :=
  conn.buf.isNone && decide (conn.readfd ≠ 0) && decide (outcomes.read = some []) &&
    !conn.req.any HttpReq.appends

/-- The end of `send_data` in a call of `reset_epoll`. -/
def Finishes (outcomes : Outcomes) (more : Bool) : Prop :=
  outcomes.sent = .error ∨ (outcomes.sent ≠ .again ∧ more = false)

def Ends (outcomes : Outcomes) (conn : Connection) : Prop :=
  nothingLeft outcomes conn = true ∨ Finishes outcomes (hasMore outcomes conn)

def Answered (conn : Connection) : Prop := ∀ req, conn.req = some req →
  ∃ header, (usage conn.log).current = some header ∧ header.keepAlive = req.keepAlive

/-- A response that has begun is answered. -/
def Told (conn : Connection) : Prop := conn.buf ≠ none ∨ conn.readfd ≠ 0 → Answered conn

theorem told_idle {conn : Connection} (buf : conn.buf = none) (readfd : conn.readfd = 0) :
    Told conn := by
  intro busy
  rcases busy with held | open_
  · exact absurd buf held
  · exact absurd readfd open_

theorem usage_resetEpoll (now : Nat) (conn : Connection) :
    usage (resetEpoll now conn).log = (usage conn.log).ended := by
  rw [log_resetEpoll_eq, usage_append, resetCalls]
  split_ifs <;> rfl

theorem sendData_usage (outcomes : Outcomes) (more : Bool) (conn : Connection)
    (answered : Answered conn) :
    let next := sendData outcomes more conn
    Told next ∧ (Finishes outcomes more → usage next.log = (usage conn.log).ended) ∧
      (¬ Finishes outcomes more → usage next.log = usage conn.log) := by
  have noted : usage (conn.log ++ [.sent (conn.buf.getD []) conn.size outcomes.sent]) =
      usage conn.log := usage_append _ _
  have stays : Answered (conn.note [.sent (conn.buf.getD []) conn.size outcomes.sent]) := by
    intro req asked
    rw [note_log, noted]
    exact answered req asked
  simp only
  rcases sendData_cases outcomes more conn with
    ⟨count, room, last, sent⟩ | ⟨room, sent⟩ | ⟨count, room, last, sent⟩ | ⟨room, sent⟩
  · have goes : ¬ Finishes outcomes more := by simp [Finishes, room, last]
    rw [sent]
    exact ⟨fun _ => stays, fun finishes => absurd finishes goes, fun _ => noted⟩
  · have goes : ¬ Finishes outcomes more := by simp [Finishes, room]
    rw [sent]
    exact ⟨fun _ => stays, fun finishes => absurd finishes goes, fun _ => noted⟩
  · have finishes : Finishes outcomes more := by simp [Finishes, room, last]
    have ended := usage_resetEpoll outcomes.now
      { conn.note [.sent (conn.buf.getD []) conn.size outcomes.sent] with buf := none }
    rw [note_log, noted] at ended
    rw [sent]
    exact ⟨told_idle rfl rfl, fun _ => ended, fun goes => absurd finishes goes⟩
  · have finishes : Finishes outcomes more := by simp [Finishes, room]
    have ended := usage_resetEpoll outcomes.now
      { conn.note [.sent (conn.buf.getD []) conn.size outcomes.sent] with keepaliveTime := 0 }
    rw [note_log, noted] at ended
    rw [sent]
    exact ⟨told_idle rfl rfl, fun _ => ended, fun goes => absurd finishes goes⟩

/-- What an event of EPOLLOUT does to the usage. -/
structure Accounts (outcomes : Outcomes) (conn next : Connection) : Prop where
  told : Told next
  gone : (usage next.log).gone = (usage conn.log).gone
  ends : Ends outcomes conn → ∀ req, conn.req = some req →
    ∃ header, (usage next.log).last = some header ∧ header.keepAlive = req.keepAlive
  goes : ¬ Ends outcomes conn → (usage next.log).last = (usage conn.log).last

theorem accounts_sendData (outcomes : Outcomes) (more : Bool) (conn middle : Connection)
    (answered : Answered middle) (gone : (usage middle.log).gone = (usage conn.log).gone)
    (last : (usage middle.log).last = (usage conn.log).last)
    (same : ∀ req, conn.req = some req →
      ∃ asked, middle.req = some asked ∧ asked.keepAlive = req.keepAlive)
    (ends : Ends outcomes conn ↔ Finishes outcomes more) :
    Accounts outcomes conn (sendData outcomes more middle) := by
  rcases sendData_usage outcomes more middle answered with ⟨told, finishes, goes⟩
  constructor
  · exact told
  · by_cases done : Finishes outcomes more
    · rw [finishes done]
      exact gone
    · rw [goes done]
      exact gone
  · intro done req asked
    rcases same req asked with ⟨asking, there, alive⟩
    rcases answered asking there with ⟨header, current, told⟩
    rw [finishes (ends.mp done)]
    exact ⟨header, current, told.trans alive⟩
  · intro on
    rw [goes (fun done => on (ends.mpr done))]
    exact last

theorem accounts_goes (outcomes : Outcomes) (more : Bool) (conn middle : Connection)
    (answered : Answered conn) (silent : usage middle.log = usage conn.log)
    (same : middle.req = conn.req) (ends : Ends outcomes conn ↔ Finishes outcomes more) :
    Accounts outcomes conn (sendData outcomes more middle) := by
  apply accounts_sendData outcomes more conn middle
  · intro req asked
    rw [silent]
    exact answered req (same.symm.trans asked)
  · rw [silent]
  · rw [silent]
  · intro req asked
    exact ⟨req, same.trans asked, rfl⟩
  · exact ends

theorem accounts_begins (outcomes : Outcomes) (more : Bool) (conn middle : Connection)
    (header : HttpRespHeader) (req asking : HttpReq)
    (begun : usage middle.log = { usage conn.log with current := some header })
    (asked : conn.req = some req) (asks : middle.req = some asking)
    (alive : header.keepAlive = req.keepAlive) (same : asking.keepAlive = req.keepAlive)
    (ends : Ends outcomes conn ↔ Finishes outcomes more) :
    Accounts outcomes conn (sendData outcomes more middle) := by
  apply accounts_sendData outcomes more conn middle
  · intro other there
    rw [begun, ← Option.some.inj (asks.symm.trans there)]
    exact ⟨header, rfl, alive.trans same.symm⟩
  · rw [begun]
  · rw [begun]
  · intro other there
    rw [← Option.some.inj (asked.symm.trans there)]
    exact ⟨asking, asks, same⟩
  · exact ends

theorem usage_begins (log : List Call) (path : Bytes) (fd : Option Nat) (header : HttpRespHeader) :
    usage (log ++ [.answered header]) = { usage log with current := some header } ∧
      usage (log ++ [.opened path fd] ++ [.answered header]) =
        { usage log with current := some header } := by
  constructor
  · rw [usage_append]
    rfl
  · rw [usage_append, usage_append]
    rfl

theorem OutStep.accounts {conf : Config} {outcomes : Outcomes} {conn next : Connection}
    (step : OutStep conf outcomes conn next) (told : Told conn) : Accounts outcomes conn next := by
  have read : usage (conn.log ++ [.read conn.readfd outcomes.read]) = usage conn.log :=
    usage_append _ _
  -- One case for each way through `handle_out`.
  cases step with
  | pending buf held =>
      have busy : conn.buf ≠ none := by
        rw [held]
        exact Option.some_ne_none buf
      apply accounts_goes outcomes false conn conn (told (Or.inl busy)) rfl rfl
      simp [Ends, hasMore, nothingLeft, held]
  | found req fd held free asked fine opened =>
      have begun := usage_begins conn.log (conf.root.text ++ req.uri) outcomes.opened
        (foundHeader outcomes.fileSize req)
      apply accounts_begins outcomes true conn _ (foundHeader outcomes.fileSize req) req req
      · exact begun.2
      · exact asked
      · exact asked
      · rfl
      · rfl
      · simp [Ends, hasMore, nothingLeft, held, free, asked, fine, opened]
  | missing req held free asked fine opened =>
      have begun := usage_begins conn.log (conf.root.text ++ req.uri) outcomes.opened
        (errHeader { req with errorCode := ERR_NOT_FOUND })
      apply accounts_begins outcomes false conn _ (errHeader { req with errorCode := ERR_NOT_FOUND })
        req { req with errorCode := ERR_NOT_FOUND }
      · exact begun.2
      · exact asked
      · rfl
      · rfl
      · rfl
      · simp [Ends, hasMore, nothingLeft, held, free, asked, fine, opened]
  | refused req held free asked wrong =>
      have begun := usage_begins conn.log [] none (errHeader req)
      apply accounts_begins outcomes false conn _ (errHeader req) req req
      · exact begun.1
      · exact asked
      · rfl
      · rfl
      · rfl
      · simp [Ends, hasMore, nothingLeft, held, free, asked, wrong]
  | failed held busy data =>
      apply accounts_goes outcomes true conn
      · exact told (Or.inr busy)
      · exact read
      · rfl
      · simp [Ends, hasMore, nothingLeft, held, busy, data]
  | data bytes held busy data nonempty =>
      have some_ : bytes ≠ [] := List.ne_nil_of_length_pos nonempty
      apply accounts_goes outcomes true conn
      · exact told (Or.inr busy)
      · exact read
      · rfl
      · simp [Ends, hasMore, nothingLeft, held, busy, data, some_]
  | trailer req text held busy data asked appends posted =>
      apply accounts_goes outcomes false conn
      · exact told (Or.inr busy)
      · exact read
      · rfl
      · simp [Ends, hasMore, nothingLeft, held, busy, data, asked, appends]
  | ended req held busy data asked ends =>
      have done : Ends outcomes conn := by
        left
        simp [nothingLeft, held, busy, data, asked, ends]
      have afterwards := usage_resetEpoll outcomes.now (conn.note [.read conn.readfd outcomes.read])
      rw [note_log, read] at afterwards
      constructor
      · exact told_idle rfl rfl
      · rw [afterwards]
        rfl
      · intro _ other there
        rw [afterwards]
        exact told (Or.inr busy) other there
      · intro on
        exact absurd done on

/-- The events that leave a connection in use: the peer does not close, and no response
ends that said so. -/
def KeepsOpen (conn : Connection) : Readiness → Prop
  | .readable outcome => conn.events = .EPOLLIN → outcome ≠ .closed ∧ outcome ≠ .error
  | .writable outcomes => conn.events = .EPOLLOUT → Ends outcomes conn →
      ∀ req, conn.req = some req → req.keepAlive ≠ 0

theorem told_handleIn [Overlapping] (conf : Config) (outcome : RecvOutcome) (conn next : Connection)
    (buf : conn.buf = none) (readfd : conn.readfd = 0)
    (handled : handleIn conf outcome conn = some next) :
    Told next ∧ usage next.log = (usage conn.log).after (.received outcome) := by
  constructor
  · rcases handleIn_cases conf outcome conn next handled with same | ⟨bytes, behind, req, -, -, same⟩
    · rw [same]
      exact told_idle buf readfd
    · rw [same]
      exact told_idle buf readfd
  · rw [log_handleIn conf outcome conn next handled]
    exact usage_append _ _

theorem told_step [Overlapping] (conf : Config) (conn : Connection) (readiness : Readiness)
    (next : Connection)
    (tidy : Tidy conn) (told : Told conn) (stepped : step conf conn readiness = some next) :
    Told next := by
  cases moved_of_step stepped with
  | input outcome waits handled =>
      rcases tidy.waiting waits with ⟨buf, -, readfd⟩
      exact (told_handleIn conf outcome conn next buf readfd handled).1
  | output outcomes answers handled => exact (handled.accounts told).told
  | ignored _ other same =>
      rw [same]
      exact told

/-- A connection in use stays in use exactly at the events that keep it open. -/
theorem inUse_step [Overlapping] (conf : Config) (conn : Connection) (readiness : Readiness)
    (next : Connection)
    (tidy : Tidy conn) (told : Told conn) (inUse : InUse conn)
    (stepped : step conf conn readiness = some next) : InUse next ↔ KeepsOpen conn readiness := by
  cases moved_of_step stepped with
  | input outcome waits handled =>
      rcases tidy.waiting waits with ⟨buf, -, readfd⟩
      have received := (told_handleIn conf outcome conn next buf readfd handled).2
      rw [InUse, received]
      cases outcome with
      | received bytes behind => exact iff_of_true inUse (fun _ => by simp)
      | closed => simp [Usage.after, KeepsOpen, waits]
      | again => exact iff_of_true inUse (fun _ => by simp)
      | error => simp [Usage.after, KeepsOpen, waits]
  | output outcomes answers handled =>
      have accounts := handled.accounts told
      rw [InUse, accounts.gone]
      by_cases ends : Ends outcomes conn
      · obtain ⟨req, asked⟩ := Option.ne_none_iff_exists'.mp (tidy.answering answers)
        rcases accounts.ends ends req asked with ⟨header, last, alive⟩
        constructor
        · intro used _ _ other there
          rw [← Option.some.inj (asked.symm.trans there), ← alive]
          exact used.2 header last
        · intro keeps
          refine ⟨inUse.1, fun other there => ?_⟩
          rw [← Option.some.inj (last.symm.trans there), alive]
          exact keeps answers ends req asked
      · rw [accounts.goes ends]
        exact ⟨fun _ _ done => absurd done ends, fun _ => inUse⟩
  | ignored _ other same =>
      rw [same]
      cases readiness with
      | readable outcome => exact iff_of_true inUse (fun waits => absurd waits other)
      | writable outcomes => exact iff_of_true inUse (fun answers => absurd answers other)

end Connection

namespace Server

def inUse (server : Server) : Nat := server.conns.countP (fun conn => decide conn.InUse)

/-- The count of events is that of the connections in use, and none of a new client's
refusals comes earlier than at a full house of them. -/
structure Accounted (server : Server) : Prop where
  count : server.eventsCount = server.inUse + 1
  refusal : server.eventsCount ≥ EPOLL_SIZE_MAX → server.inUse ≥ EPOLL_SIZE_MAX - 1

/-- What holds in any case: a connection that has been accepted counts forever. -/
structure Sound (server : Server) : Prop where
  count : server.eventsCount = server.conns.length + 1
  tidy : ∀ conn ∈ server.conns, conn.Tidy
  told : ∀ conn ∈ server.conns, conn.Told

theorem Sound.accounted_iff {server : Server} (sound : Sound server) :
    Accounted server ↔ ∀ conn ∈ server.conns, conn.InUse := by
  have all : server.inUse = server.conns.length ↔ ∀ conn ∈ server.conns, conn.InUse := by
    simp only [inUse, List.countP_eq_length, decide_eq_true_eq]
  have count := sound.count
  rw [← all]
  constructor
  · intro accounted
    have used := accounted.count
    omega
  · intro same
    exact ⟨by omega, fun full => by omega⟩

/-- The events that leave all connections in use. -/
def Keeps (server : Server) : ServerEvent → Prop
  | .listening _ => True
  | .ready i readiness => ∀ conn, server.conns[i]? = some conn → conn.KeepsOpen readiness

theorem sound_initial : Sound initial where
  count := rfl
  tidy _ member := absurd member List.not_mem_nil
  told _ member := absurd member List.not_mem_nil

theorem told_fresh : Connection.fresh.Told := Connection.told_idle rfl rfl

theorem sound_step [Overlapping] (conf : Config) (server : Server) (event : ServerEvent)
    (next : Server)
    (sound : Sound server) (stepped : step conf server event = some next) : Sound next := by
  cases event with
  | listening outcome =>
      simp only [step] at stepped
      split at stepped
      · rw [← Option.some.inj stepped]
        exact sound
      · rw [← Option.some.inj stepped]
        cases outcome with
        | accepted =>
            refine ⟨?_, ?_, ?_⟩
            · simp only [handleAccept, List.length_append, List.length_singleton, sound.count]
            · simp only [handleAccept, List.forall_mem_append, List.forall_mem_singleton]
              exact ⟨sound.tidy, Connection.tidy_fresh⟩
            · simp only [handleAccept, List.forall_mem_append, List.forall_mem_singleton]
              exact ⟨sound.told, told_fresh⟩
        | again => exact sound
        | error => exact sound
  | ready i readiness =>
      simp only [step] at stepped
      split at stepped
      · rw [← Option.some.inj stepped]
        exact sound
      · rename_i conn found
        obtain ⟨moved, step_, rfl⟩ := Option.map_eq_some_iff.mp stepped
        have member := List.mem_of_getElem? found
        have tidy := Connection.tidy_step conf conn readiness moved (sound.tidy conn member) step_
        have told := Connection.told_step conf conn readiness moved (sound.tidy conn member)
          (sound.told conn member) step_
        refine ⟨?_, ?_, ?_⟩
        · simp only [List.length_set, sound.count]
        · intro other present
          rcases List.mem_or_eq_of_mem_set present with old | same
          · exact sound.tidy other old
          · rw [same]
            exact tidy
        · intro other present
          rcases List.mem_or_eq_of_mem_set present with old | same
          · exact sound.told other old
          · rw [same]
            exact told

theorem accounted_step [Overlapping] (conf : Config) (server : Server) (event : ServerEvent)
    (next : Server)
    (sound : Sound server) (accounted : Accounted server)
    (stepped : step conf server event = some next) : Accounted next ↔ Keeps server event := by
  rw [(sound_step conf server event next sound stepped).accounted_iff]
  have used := sound.accounted_iff.mp accounted
  cases event with
  | listening outcome =>
      simp only [step] at stepped
      simp only [Keeps, iff_true]
      split at stepped
      · rw [← Option.some.inj stepped]
        exact used
      · rw [← Option.some.inj stepped]
        cases outcome with
        | accepted =>
            simp only [handleAccept, List.forall_mem_append, List.forall_mem_singleton]
            exact ⟨used, by decide⟩
        | again => exact used
        | error => exact used
  | ready i readiness =>
      simp only [step] at stepped
      split at stepped
      · rename_i absent
        rw [← Option.some.inj stepped]
        refine ⟨fun _ conn found => ?_, fun _ => used⟩
        rw [absent] at found
        cases found
      · rename_i conn found
        obtain ⟨moved, step_, rfl⟩ := Option.map_eq_some_iff.mp stepped
        have member := List.mem_of_getElem? found
        have moves := Connection.inUse_step conf conn readiness moved (sound.tidy conn member)
          (sound.told conn member) (used conn member) step_
        simp only [Keeps, found, Option.some.injEq, forall_eq', ← moves]
        constructor
        · intro all
          have inside : i < server.conns.length := (List.getElem?_eq_some_iff.mp found).1
          exact all moved (List.mem_set inside moved)
        · intro stays other present
          rcases List.mem_or_eq_of_mem_set present with old | same
          · exact used other old
          · rw [same]
            exact stays

/-- The count of events is right in every state of a run exactly when the run never takes
a connection out of use. -/
theorem connection_accounting [Overlapping] (conf : Config) (events : List ServerEvent)
    (last : Server)
    (reached : run conf initial events = some last) :
    (∀ front server, front <+: events → run conf initial front = some server →
      Accounted server) ↔
    ∀ front event server, front ++ [event] <+: events → run conf initial front = some server →
      Keeps server event :=
  Runs.run_throughout (step conf) Sound Accounted Keeps (sound_step conf) (accounted_step conf)
    initial last events sound_initial ⟨rfl, fun full => absurd full (by decide)⟩ reached

attribute [local instance] Letters.forward

/-- A client that connects and stays. -/
theorem connection_accounting_client :
    run sampleConfig initial [.listening .accepted] =
        some { eventsCount := 2, conns := [Connection.fresh] } ∧
      ∀ front server, front <+: [ServerEvent.listening .accepted] →
        run sampleConfig initial front = some server → Accounted server := by
  have exact_ := connection_accounting sampleConfig [.listening .accepted]
    { eventsCount := 2, conns := [Connection.fresh] } rfl
  refine ⟨rfl, exact_.mpr ?_⟩
  intro front event server inside here
  cases front with
  | nil =>
      rw [(List.cons_prefix_cons.mp inside).1]
      trivial
  | cons first rest =>
      have size := inside.length_le
      simp at size

/-- A client that connects and goes away still counts. -/
theorem connection_accounting_gone :
    ∃ server, run sampleConfig initial
        [.listening .accepted, .ready 0 (.readable .closed)] = some server ∧
      server.eventsCount = 2 ∧ server.inUse = 0 ∧ ¬ Accounted server := by
  refine ⟨_, rfl, rfl, rfl, fun accounted => ?_⟩
  exact absurd accounted.count (by decide)

end Server

end NetworkSystem.Http
