import NetworkSystem.Lib.Descriptors
import NetworkSystem.Http.Accounting

/-! The descriptors of the HTTP server: one table for the sockets of all connections and the
files that they send, under every order of events. -/

namespace NetworkSystem.Http

open Bytes Descriptors

/-- The file that a connection holds behind a call; `none` for a file that is lost or closed
twice. -/
def Call.holds (readfd : Nat) : Call → Option Nat
  | .opened _ (some fd) => if readfd = 0 ∧ fd ≠ 0 then some fd else none
  | .closed fd => if fd = readfd ∧ readfd ≠ 0 then some 0 else none
  | _ => some readfd

namespace Connection

/-- From one connection to the other by calls that account for `readfd`. -/
def Leads (conn next : Connection) : Prop :=
  ∃ calls, next.log = conn.log ++ calls ∧ calls.foldlM Call.holds conn.readfd = some next.readfd

theorem Leads.trans {conn middle next : Connection} (front : Leads conn middle)
    (back : Leads middle next) : Leads conn next := by
  obtain ⟨calls, log, holds⟩ := front
  obtain ⟨later, log', holds'⟩ := back
  refine ⟨calls ++ later, ?_, ?_⟩
  · rw [log', log, List.append_assoc]
  · rw [List.foldlM_append, holds]
    exact holds'

theorem Leads.refl (conn : Connection) : Leads conn conn :=
  ⟨[], (List.append_nil _).symm, rfl⟩

theorem leads_note (call : Call) (conn next : Connection)
    (keeps : call.holds conn.readfd = some conn.readfd) (log : next.log = conn.log ++ [call])
    (same : next.readfd = conn.readfd) : Leads conn next := by
  refine ⟨[call], log, ?_⟩
  rw [List.foldlM_cons, keeps, same]
  rfl

theorem leads_resetEpoll (now : Nat) (conn : Connection) : Leads conn (resetEpoll now conn) := by
  refine ⟨resetCalls conn.readfd, log_resetEpoll_eq now conn, ?_⟩
  have none_ : (resetEpoll now conn).readfd = 0 := rfl
  rw [none_, resetCalls]
  by_cases free : conn.readfd = 0
  · rw [if_pos free, free]
    rfl
  · rw [if_neg free]
    simp [Call.holds, free]

theorem leads_sendData (outcomes : Outcomes) (more : Bool) (conn : Connection) :
    Leads conn (sendData outcomes more conn) := by
  have noted : ∀ next : Connection,
      next.log = conn.log ++ [.sent (conn.buf.getD []) conn.size outcomes.sent] →
      next.readfd = conn.readfd → Leads conn next := by
    intro next log same
    exact leads_note _ conn next rfl log same
  rcases sendData_cases outcomes more conn with ⟨_, -, -, sent⟩ | ⟨-, sent⟩ | ⟨_, -, -, sent⟩ |
    ⟨-, sent⟩
  · rw [sent]
    exact noted _ rfl rfl
  · rw [sent]
    exact noted _ rfl rfl
  · rw [sent]
    exact (noted { conn.note _ with buf := none } rfl rfl).trans (leads_resetEpoll _ _)
  · rw [sent]
    exact (noted { conn.note _ with keepaliveTime := 0 } rfl rfl).trans (leads_resetEpoll _ _)

theorem leads_answerFound (outcomes : Outcomes) (fd : Nat) (path : Bytes) (req : HttpReq)
    (conn : Connection) (free : conn.readfd = 0) (positive : fd ≠ 0) :
    Leads conn (answerFound outcomes fd req (conn.note [.opened path (some fd)])) := by
  apply Leads.trans _ (leads_sendData outcomes true _)
  refine ⟨[.opened path (some fd), .answered (foundHeader outcomes.fileSize req)], ?_, ?_⟩
  · exact List.append_assoc _ _ _
  · have held : Call.holds 0 (.opened path (some fd)) = some fd := if_pos ⟨rfl, positive⟩
    rw [free, List.foldlM_cons, held]
    rfl

theorem leads_answerError (outcomes : Outcomes) (req : HttpReq) (conn : Connection) :
    Leads conn (answerError outcomes req conn) := by
  apply Leads.trans _ (leads_sendData outcomes false _)
  exact leads_note (.answered (errHeader req)) conn _ rfl rfl rfl

theorem OutStep.leads {conf : Config} {outcomes : Outcomes} {conn next : Connection}
    (step : OutStep conf outcomes conn next) : Leads conn next := by
  have read : Leads conn (conn.note [.read conn.readfd outcomes.read]) :=
    leads_note _ conn _ rfl rfl rfl
  cases step with
  | pending buf held => exact leads_sendData outcomes false conn
  | found req fd held free asked fine opened =>
      have positive : fd ≠ 0 := by
        intro zero
        rw [zero] at opened
        exact outcomes.opened_pos opened
      rw [opened]
      exact leads_answerFound outcomes fd _ req conn free positive
  | missing req held free asked fine opened =>
      apply Leads.trans _ (leads_answerError outcomes _ _)
      rw [opened]
      exact leads_note _ conn _ rfl rfl rfl
  | refused req held free asked wrong => exact leads_answerError outcomes req conn
  | failed held busy data => exact read.trans (leads_sendData outcomes true _)
  | data bytes held busy data some_ => exact read.trans (leads_sendData outcomes true _)
  | trailer req text held busy data asked appends posted =>
      exact read.trans (leads_sendData outcomes false _)
  | ended req held busy data asked ends => exact read.trans (leads_resetEpoll _ _)

theorem leads_step [Overlapping] {conf : Config} {conn next : Connection} {event : Readiness}
    (stepped : step conf conn event = some next) : Leads conn next := by
  cases moved_of_step stepped with
  | input outcome waits handled =>
      have same : next.readfd = conn.readfd := by
        rcases handleIn_cases conf outcome conn next handled with same | ⟨_, _, _, -, -, same⟩
        · rw [same, note_readfd]
        · rw [same, note_readfd]
      exact leads_note (.received outcome) conn next rfl (log_handleIn conf outcome conn next handled)
        same
  | output outcomes answers handled => exact handled.leads
  | ignored _ other same =>
      rw [same]
      exact Leads.refl conn

end Connection

/-- The descriptors, the event loop, and the sockets of its connections. -/
structure Process where
  table : Table
  server : Server
  connfds : List Int

/-- What `accept` returns, or an event of a connection. -/
inductive ProcessEvent where
  | listening (connfd : Option Int)
  | ready (i : Nat) (readiness : Readiness)

/-- What a call of a connection does to the table; `open` gives a descriptor that is not in
use. -/
def Call.turn (table : Table) : Call → Option Table
  | .opened _ (some fd) => if table.Free fd then some (table.opened fd) else none
  | .closed fd => some (table.close fd)
  | _ => some table

namespace Process

/-- In front of the loop of `main`, with the descriptors that are there by then. -/
def initial (base : Table) : Process := ⟨base, .initial, []⟩

/-- `main` goes through one event, with the calls it makes. -/
def step [Overlapping] (conf : Config) (process : Process) : ProcessEvent → Option Process
  | .listening connfd =>
      if process.server.eventsCount ≥ EPOLL_SIZE_MAX then some process
      else
        match connfd with
        | none => some process
        | some fd =>
            if process.table.Free fd then
              some ⟨process.table.opened fd, process.server.handleAccept .accepted,
                process.connfds ++ [fd]⟩
            else none
  | .ready i readiness =>
      match process.server.conns[i]? with
      | none => some process
      | some conn =>
          (conn.step conf readiness).bind (fun next =>
            ((next.log.drop conn.log.length).foldlM Call.turn process.table).map (fun table =>
              { process with
                table := table
                server := { process.server with conns := process.server.conns.set i next } }))

def run [Overlapping] (conf : Config) : Process → List ProcessEvent → Option Process :=
  Runs.run (step conf)

/-- The loop of `main` without its descriptors sees the same events. -/
def serverEvent : ProcessEvent → ServerEvent
  | .listening none => .listening .again
  | .listening (some _) => .listening .accepted
  | .ready i readiness => .ready i readiness

theorem step_server [Overlapping] {conf : Config} {process next : Process} {event : ProcessEvent}
    (stepped : step conf process event = some next) :
    Server.step conf process.server (serverEvent event) = some next.server := by
  cases event with
  | listening connfd =>
      simp only [step] at stepped
      by_cases full : process.server.eventsCount ≥ EPOLL_SIZE_MAX
      · rw [if_pos full] at stepped
        rw [← Option.some.inj stepped]
        cases connfd <;> exact if_pos full
      · rw [if_neg full] at stepped
        cases connfd with
        | none =>
            rw [← Option.some.inj stepped]
            exact if_neg full
        | some fd =>
            dsimp only at stepped
            split_ifs at stepped
            rw [← Option.some.inj stepped]
            exact if_neg full
  | ready i readiness =>
      simp only [step] at stepped
      simp only [serverEvent, Server.step]
      cases here : process.server.conns[i]? with
      | none =>
          simp only [here] at stepped
          rw [← Option.some.inj stepped]
      | some conn =>
          simp only [here] at stepped
          obtain ⟨moved, step_, turned⟩ := Option.bind_eq_some_iff.mp stepped
          obtain ⟨table, -, rfl⟩ := Option.map_eq_some_iff.mp turned
          simp only [step_, Option.map_some]

def fileOf (readfd : Nat) : List Int := if readfd = 0 then [] else [(readfd : Int)]

def files (process : Process) : List Int :=
  process.server.conns.flatMap (fun conn => fileOf conn.readfd)

theorem turn_balanced {table table' : Table} {others : List Int} {readfd readfd' : Nat} {call : Call}
    (sound : table.Sound) (open_ : table.openFds.Perm (others ++ fileOf readfd))
    (holds : call.holds readfd = some readfd') (turned : call.turn table = some table') :
    table'.Sound ∧ table'.openFds.Perm (others ++ fileOf readfd') := by
  have silent : readfd' = readfd → table' = table →
      table'.Sound ∧ table'.openFds.Perm (others ++ fileOf readfd') := by
    intro same same'
    rw [same, same']
    exact ⟨sound, open_⟩
  cases call with
  | opened path fd =>
      cases fd with
      | none => exact silent (Option.some.inj holds).symm (Option.some.inj turned).symm
      | some fd =>
          simp only [Call.holds] at holds
          simp only [Call.turn] at turned
          split_ifs at holds with free
          split_ifs at turned with unused
          rw [free.1] at open_
          rw [← Option.some.inj holds, ← Option.some.inj turned, Table.openFds_opened, fileOf,
            if_neg free.2]
          apply And.intro (sound.opened unused)
          rw [fileOf, if_pos rfl, List.append_nil] at open_
          exact open_.append_right _
  | closed fd =>
      simp only [Call.holds] at holds
      split_ifs at holds with own
      rcases own with ⟨rfl, busy⟩
      rw [← Option.some.inj holds, ← Option.some.inj turned]
      have member : (fd : Int) ∈ table.openFds := by
        apply open_.mem_iff.mpr
        rw [fileOf, if_neg busy]
        exact List.mem_append_right _ List.mem_cons_self
      obtain ⟨object, refers⟩ := Table.exists_refers_of_mem member
      apply And.intro (sound.close refers)
      have shrinks := Table.openFds_close sound member
      rw [fileOf, if_neg busy] at open_
      rw [fileOf, if_pos rfl, List.append_nil]
      exact (shrinks.symm.trans (open_.trans (List.perm_append_singleton _ _))).cons_inv
  | received outcome => exact silent (Option.some.inj holds).symm (Option.some.inj turned).symm
  | answered header => exact silent (Option.some.inj holds).symm (Option.some.inj turned).symm
  | read fd data => exact silent (Option.some.inj holds).symm (Option.some.inj turned).symm
  | sent buf size outcome => exact silent (Option.some.inj holds).symm (Option.some.inj turned).symm
  | waiting => exact silent (Option.some.inj holds).symm (Option.some.inj turned).symm

theorem turns_balanced {table table' : Table} {others : List Int} {readfd readfd' : Nat}
    {calls : List Call} (sound : table.Sound)
    (open_ : table.openFds.Perm (others ++ fileOf readfd))
    (holds : calls.foldlM Call.holds readfd = some readfd')
    (turned : calls.foldlM Call.turn table = some table') :
    table'.Sound ∧ table'.openFds.Perm (others ++ fileOf readfd') := by
  induction calls generalizing table readfd with
  | nil =>
      rw [← Option.some.inj holds, ← Option.some.inj turned]
      exact ⟨sound, open_⟩
  | cons call rest ih =>
      obtain ⟨middle, here, later⟩ := Option.bind_eq_some_iff.mp holds
      obtain ⟨between, here', later'⟩ := Option.bind_eq_some_iff.mp turned
      rcases turn_balanced sound open_ here here' with ⟨sound', open'⟩
      exact ih sound' open' later later'

theorem files_set (conns : List Connection) (i : Nat) (conn moved : Connection)
    (here : conns[i]? = some conn) :
    let others := (conns.eraseIdx i).flatMap (fun conn => fileOf conn.readfd)
    (conns.flatMap (fun conn => fileOf conn.readfd)).Perm (others ++ fileOf conn.readfd) ∧
      ((conns.set i moved).flatMap (fun conn => fileOf conn.readfd)).Perm
        (others ++ fileOf moved.readfd) := by
  obtain ⟨inside, value⟩ := List.getElem?_eq_some_iff.mp here
  have before := (List.getElem_cons_eraseIdx_perm inside).symm.flatMap_right
    (fun conn => fileOf conn.readfd)
  have behind := (List.set_perm_cons_eraseIdx inside moved).flatMap_right
    (fun conn => fileOf conn.readfd)
  rw [value, List.flatMap_cons] at before
  rw [List.flatMap_cons] at behind
  exact ⟨before.trans List.perm_append_comm, behind.trans List.perm_append_comm⟩

/-- The descriptors in use are those that were there before, the sockets of all connections,
and one file for each connection that sends one. -/
structure Balanced (base : Table) (process : Process) : Prop where
  sound : process.table.Sound
  server : process.server.Sound
  sockets : process.connfds.length = process.server.conns.length
  open_ : process.table.openFds.Perm (base.openFds ++ process.connfds ++ process.files)

theorem balanced_initial {base : Table} (sound : base.Sound) : Balanced base (initial base) where
  sound := sound
  server := Server.sound_initial
  sockets := rfl
  open_ := by
    simp only [initial, files, Server.initial, List.flatMap_nil, List.append_nil]
    exact List.Perm.refl _

theorem balanced_step [Overlapping] {base : Table} (conf : Config) (process : Process)
    (event : ProcessEvent)
    (next : Process) (balanced : Balanced base process)
    (stepped : step conf process event = some next) : Balanced base next := by
  have server := Server.sound_step conf process.server _ next.server balanced.server
    (step_server stepped)
  cases event with
  | listening connfd =>
      simp only [step] at stepped
      split_ifs at stepped with full
      · rw [← Option.some.inj stepped]
        exact balanced
      · cases connfd with
        | none =>
            rw [← Option.some.inj stepped]
            exact balanced
        | some fd =>
            dsimp only at stepped
            split_ifs at stepped with free
            obtain rfl := Option.some.inj stepped
            constructor
            · exact balanced.sound.opened free
            · exact server
            · simp only [Server.handleAccept, List.length_append, List.length_singleton,
                balanced.sockets]
            · have same : files ⟨process.table.opened fd, process.server.handleAccept .accepted,
                  process.connfds ++ [fd]⟩ = process.files := by
                simp only [files, Server.handleAccept, List.flatMap_append, List.flatMap_singleton]
                exact List.append_nil _
              rw [same, Table.openFds_opened]
              have last := balanced.open_.append_right [fd]
              rw [List.append_assoc (base.openFds ++ process.connfds)] at last
              have first := (@List.perm_append_comm _ process.files [fd]).append_left
                (base.openFds ++ process.connfds)
              simp only [List.append_assoc] at last first ⊢
              exact last.trans first
  | ready i readiness =>
      simp only [step] at stepped
      cases here : process.server.conns[i]? with
      | none =>
          simp only [here] at stepped
          rw [← Option.some.inj stepped]
          exact balanced
      | some conn =>
          simp only [here] at stepped
          obtain ⟨moved, step_, turned⟩ := Option.bind_eq_some_iff.mp stepped
          obtain ⟨table, turns, rfl⟩ := Option.map_eq_some_iff.mp turned
          obtain ⟨calls, log, holds⟩ := Connection.leads_step step_
          rw [log, List.drop_left] at turns
          rcases files_set process.server.conns i conn moved here with ⟨before, behind⟩
          have open_ : process.table.openFds.Perm
              (base.openFds ++ process.connfds ++
                (process.server.conns.eraseIdx i).flatMap (fun conn => fileOf conn.readfd) ++
                  fileOf conn.readfd) := by
            rw [List.append_assoc (base.openFds ++ process.connfds)]
            exact balanced.open_.trans (before.append_left _)
          rcases turns_balanced balanced.sound open_ holds turns with ⟨sound, open'⟩
          constructor
          · exact sound
          · exact server
          · simp only [List.length_set, balanced.sockets]
          · rw [List.append_assoc (base.openFds ++ process.connfds)] at open'
            exact open'.trans (behind.symm.append_left _)

/-- In every state of the server the descriptors in use are those it began with, one socket
for each connection accepted so far, whether its peer is still there or not, and one file for
each response that is being sent; no two connections share one, and none is closed twice. -/
theorem descriptors_held [Overlapping] (conf : Config) (base : Table) (sound : base.Sound)
    (events : List ProcessEvent) (process : Process)
    (reached : run conf (initial base) events = some process) :
    process.table.openFds.Perm (base.openFds ++ process.connfds ++ process.files) ∧
      (base.openFds ++ process.connfds ++ process.files).Nodup ∧
      process.table.openCount =
        base.openCount + process.server.conns.length + process.files.length ∧
      ∀ object, process.table.closings.count object ≤ 1 := by
  have balanced := Runs.run_invariant (step conf) (Balanced base) (balanced_step conf)
    (initial base) process events (balanced_initial sound) reached
  have open_ := balanced.open_
  constructor
  · exact open_
  · constructor
    · exact open_.nodup_iff.mp balanced.sound.nodup_openFds
    · constructor
      · have size := open_.length_eq
        rw [List.length_append, List.length_append, Table.length_openFds, Table.length_openFds,
          balanced.sockets] at size
        exact size
      · intro object
        rw [balanced.sound.closed object]
        split_ifs <;> omega

/-- Standard input, output and error, the listening socket and the epoll instance. -/
def sampleBase : Table := .fresh [0, 1, 2, 3, 4]

/-- Two connections that ask for a file each, the second one before the first is served. -/
def sampleProcess : List ProcessEvent :=
  [.listening (some 5), .listening (some 6),
    .ready 0 (.readable (.received Connection.sampleSegment [])),
    .ready 1 (.readable (.received Connection.otherSegment [])),
    .ready 0 (.writable (Connection.sampleReturns (some 7) [])),
    .ready 1 (.writable (Connection.sampleReturns (some 8) [])),
    .ready 0 (.writable (Connection.sampleReturns none [1, 2, 3])),
    .ready 0 (.writable (Connection.sampleReturns none []))]

attribute [local instance] Letters.forward

theorem descriptors_held_overlapping :
    ∃ process, run sampleConfig (initial sampleBase) sampleProcess = some process ∧
      process.files = [8] ∧ process.table.openFds.Perm [0, 1, 2, 3, 4, 5, 6, 8] := by
  have returns : (run sampleConfig (initial sampleBase) sampleProcess).isSome = true := by
    decide +kernel
  obtain ⟨process, reached⟩ := Option.isSome_iff_exists.mp returns
  have facts : (run sampleConfig (initial sampleBase) sampleProcess).map (fun process =>
      (process.connfds, process.files)) = some ([5, 6], [8]) := by
    decide +kernel
  rw [reached, Option.map_some, Option.some.injEq, Prod.mk.injEq] at facts
  have held := descriptors_held sampleConfig sampleBase (Table.sound_fresh (by decide) (by decide))
    sampleProcess process reached
  rw [facts.1, facts.2] at held
  exact ⟨process, reached, facts.2, held.1⟩

end Process

end NetworkSystem.Http
