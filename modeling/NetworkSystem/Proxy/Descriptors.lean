import NetworkSystem.Lib.Runs
import NetworkSystem.Proxy.Buffers
import NetworkSystem.Proxy.Handler

/-! The sockets of the proxy over runs with any number of connections: `main`, the handlers
that it starts, and what they have closed when they have returned. -/

namespace NetworkSystem.Proxy

open Bytes Descriptors

/-- The process: its descriptors and the handlers that have been started. -/
structure Process where
  table : Table
  handlers : List Handler

inductive Event where
  /-- `accept` and `pthread_create`, with what lies on the stack of the new thread. -/
  | accepting (fd : Option Int) (stack : Stack) (started : Bool)
  | call (i : Nat) (reply : Reply)

namespace Process

/-- Behind `open_listenfd`. -/
def initial (listenfd : Nat) : Process := ⟨⟨[some (listenfd : Int)], []⟩, []⟩

/-- The loop of `main` and the threads. A -1 of `accept` goes to a thread as well, and
`pthread_create` has positive errors, so that `main` goes on without a thread. -/
def step (process : Process) : Event → Option Process
  | .accepting none stack started =>
      let handler : Handler := ⟨-1, stack, .reading, none, none⟩
      some { process with
        handlers := if started then process.handlers ++ [handler] else process.handlers }
  | .accepting (some fd) stack started =>
      if process.table.Free fd then
        let handler : Handler := ⟨fd, stack, .reading, some process.table.objects.length, none⟩
        some { table := process.table.opened fd
               handlers := if started then process.handlers ++ [handler] else process.handlers }
      else none
  | .call i reply =>
      match process.handlers[i]? with
      | none => none
      | some handler =>
          (handler.step process.table reply).map (fun (table, next) =>
            { table, handlers := process.handlers.set i next })

def run : Process → List Event → Option Process := Runs.run step

/-- The sockets of a handler that has not returned, as far as they are open. -/
def inUse (process : Process) (handler : Handler) : Nat :=
  if handler.at_.isReturned then 0 else handler.sockets.countP process.table.isOpen

/-- The sockets of every handler that has returned have been closed once, and the open
sockets are the listening one and those of the handlers that run. -/
structure Accounted (process : Process) : Prop where
  released : ∀ handler ∈ process.handlers, handler.at_.isReturned = true →
    ∀ socket ∈ handler.sockets, process.table.closings.count socket = 1
  listening : process.table.isOpen 0 = true
  counted : process.table.openCount = 1 + (process.handlers.map process.inUse).sum

end Process

/-- The outcomes that lose no socket: every accepted socket gets a thread, and the calls of the
handlers lose none. -/
def Process.Releases (process : Process) : Event → Prop
  | .accepting fd _ started => fd = none ∨ started = true
  | .call i reply => ∀ handler ∈ process.handlers[i]?, handler.Releases reply

theorem getElem?_set_cases {α : Type} {l : List α} {i j : Nat} {a b : α}
    (found : (l.set i a)[j]? = some b) : j = i ∧ b = a ∨ j ≠ i ∧ l[j]? = some b := by
  by_cases same : j = i
  · rw [same, List.getElem?_set] at found
    rw [if_pos rfl] at found
    split_ifs at found
    exact Or.inl ⟨same, (Option.some.inj found).symm⟩
  · rw [List.getElem?_set_ne (Ne.symm same)] at found
    exact Or.inr ⟨same, found⟩

theorem sum_map_set {α : Type} (f : α → Nat) (l : List α) (i : Nat) (a b : α)
    (here : l[i]? = some a) : ((l.set i b).map f).sum + f a = (l.map f).sum + f b := by
  induction l generalizing i with
  | nil => cases here
  | cons first rest ih =>
      cases i with
      | zero =>
          rw [← Option.some.inj here, List.set_cons_zero]
          simp only [List.map_cons, List.sum_cons]
          omega
      | succ i =>
          have later := ih i here
          rw [List.set_cons_succ]
          simp only [List.map_cons, List.sum_cons]
          omega

namespace Process

variable {process next : Process}

def held (process : Process) : Nat := (process.handlers.map Handler.held).sum

/-- Every open socket but the listening one is named by a variable. -/
def Matched (process : Process) : Prop := process.table.openCount = 1 + process.held

def Tight (process : Process) : Prop :=
  ∀ handler ∈ process.handlers, handler.Tight process.table

/-- What every step keeps, also one that loses a socket. -/
structure Keeping (process : Process) : Prop where
  sound : process.table.Sound
  listening : process.table.isOpen 0 = true
  holding : ∀ handler ∈ process.handlers, handler.Holding process.table
  apart : ∀ (i j : Nat) (one two : Handler) (socket : Nat), process.handlers[i]? = some one →
    process.handlers[j]? = some two → socket ∈ one.sockets → socket ∈ two.sockets → i = j

theorem Keeping.positive (keeping : process.Keeping) : 0 < process.table.objects.length := by
  by_contra empty
  have open_ := keeping.listening
  rw [Table.isOpen, List.getElem?_eq_none (by omega)] at open_
  cases open_

theorem Keeping.opened (keeping : process.Keeping) {fd : Int} (free : process.table.Free fd) :
    Keeping { process with table := process.table.opened fd } where
  sound := keeping.sound.opened free
  listening := by
    rw [Table.isOpen, Table.objects_opened keeping.positive]
    exact keeping.listening
  holding := by
    intro handler member
    have holding := keeping.holding handler member
    apply holding.frame
    · exact Nat.le_of_lt (Table.lt_of_refers Table.refers_opened)
    · exact fun socket own => Table.objects_opened (holding.known socket own).2
  apart := keeping.apart

theorem tight_opened (keeping : process.Keeping) {fd : Int} (tight : process.Tight) :
    Process.Tight { process with table := process.table.opened fd } := by
  intro handler member
  have holding := keeping.holding handler member
  exact (tight handler member).frame
    (fun socket own => Table.objects_opened (holding.known socket own).2)

theorem Keeping.start (keeping : process.Keeping) {handler : Handler}
    (holding : handler.Holding process.table)
    (fresh : ∀ other ∈ process.handlers, ∀ socket ∈ handler.sockets, socket ∉ other.sockets) :
    Keeping { process with handlers := process.handlers ++ [handler] } where
  sound := keeping.sound
  listening := keeping.listening
  holding := by
    intro other member
    rcases List.mem_append.mp member with old | new
    · exact keeping.holding other old
    · rw [List.mem_singleton.mp new]
      exact holding
  apart := by
    intro i j one two socket first second own own'
    have cases_ : ∀ (k : Nat) (found : Handler), (process.handlers ++ [handler])[k]? = some found →
        process.handlers[k]? = some found ∨ k = process.handlers.length ∧ found = handler := by
      intro k found here
      by_cases old : k < process.handlers.length
      · rw [List.getElem?_append_left old] at here
        exact Or.inl here
      · obtain ⟨inside, value⟩ := List.getElem?_eq_some_iff.mp here
        rw [List.length_append, List.length_singleton] at inside
        have last : k = process.handlers.length := by omega
        rw [last, List.getElem?_concat_length] at here
        exact Or.inr ⟨last, (Option.some.inj here).symm⟩
    rcases cases_ i one first with old | ⟨last, rfl⟩
    · rcases cases_ j two second with old' | ⟨-, rfl⟩
      · exact keeping.apart i j one two socket old old' own own'
      · exact absurd own (fresh one (List.mem_of_getElem? old) socket own')
    · rcases cases_ j two second with old' | ⟨last', -⟩
      · exact absurd own' (fresh two (List.mem_of_getElem? old') socket own)
      · rw [last, last']

section call

variable {i : Nat} {handler moved : Handler} {table : Table} {ok : Bool}
  (keeping : process.Keeping) (here : process.handlers[i]? = some handler)
  (moves : Moves process.table handler ok table moved)

include keeping here moves

/-- A call of one handler changes no socket of another. -/
theorem same_for_others {j : Nat} {other : Handler} (different : j ≠ i)
    (there : process.handlers[j]? = some other) :
    ∀ socket ∈ other.sockets, table.objects[socket]? = process.table.objects[socket]? := by
  intro socket own
  have holding := keeping.holding handler (List.mem_of_getElem? here)
  have known := (keeping.holding other (List.mem_of_getElem? there)).known socket own
  apply (Handler.moves_table keeping.sound holding moves).2.2 socket known.2
  intro shared
  exact different (keeping.apart j i other handler socket there here own shared)

theorem Keeping.called : Keeping ⟨table, process.handlers.set i moved⟩ := by
  have holding := keeping.holding handler (List.mem_of_getElem? here)
  have changes := Handler.moves_table keeping.sound holding moves
  have grown := Handler.moves_sockets moves
  refine ⟨changes.1, ?_, ?_, ?_⟩
  · have foreign : 0 ∉ handler.sockets := by
      intro own
      have known := holding.known 0 own
      omega
    rw [Table.isOpen, changes.2.2 0 keeping.positive foreign]
    exact keeping.listening
  · intro other member
    obtain ⟨j, inside, value⟩ := List.mem_iff_getElem.mp member
    rcases getElem?_set_cases ((List.getElem?_eq_getElem inside).trans (congrArg some value)) with
      ⟨-, rfl⟩ | ⟨different, there⟩
    · exact Handler.moves_holding keeping.sound holding keeping.positive moves
    · have before := keeping.holding other (List.mem_of_getElem? there)
      exact before.frame changes.2.1 (same_for_others keeping here moves different there)
  · -- a socket of the handler that moved is an old one of it, or it is new to all
    have alone : ∀ (j : Nat) (other : Handler) (socket : Nat), j ≠ i →
        process.handlers[j]? = some other → socket ∈ moved.sockets → socket ∉ other.sockets := by
      intro j other socket different there own own'
      have known := (keeping.holding other (List.mem_of_getElem? there)).known socket own'
      rcases grown socket own with old | new
      · exact different (keeping.apart j i other handler socket there here own' old)
      · omega
    intro j k one two socket first second own own'
    rcases getElem?_set_cases first with ⟨rfl, rfl⟩ | ⟨different, old⟩
    · rcases getElem?_set_cases second with ⟨rfl, -⟩ | ⟨different, old⟩
      · rfl
      · exact absurd own' (alone k two socket different old own)
    · rcases getElem?_set_cases second with ⟨rfl, rfl⟩ | ⟨-, old'⟩
      · exact absurd own (alone j one socket different old own')
      · exact keeping.apart j k one two socket old old' own own'

theorem count_called :
    table.openCount + process.held = process.table.openCount +
      Process.held ⟨table, process.handlers.set i moved⟩ + (if ok then 0 else 1) := by
  have holding := keeping.holding handler (List.mem_of_getElem? here)
  have one := Handler.moves_count keeping.sound holding moves
  have all := sum_map_set Handler.held process.handlers i handler moved here
  simp only [Process.held]
  omega

theorem tight_called (kept : ok = true) (tight : process.Tight) :
    Process.Tight ⟨table, process.handlers.set i moved⟩ := by
  intro other member
  obtain ⟨j, inside, value⟩ := List.mem_iff_getElem.mp member
  rcases getElem?_set_cases ((List.getElem?_eq_getElem inside).trans (congrArg some value)) with
    ⟨-, rfl⟩ | ⟨different, there⟩
  · have holding := keeping.holding handler (List.mem_of_getElem? here)
    exact Handler.moves_tight keeping.sound holding moves kept
      (tight handler (List.mem_of_getElem? here))
  · exact (tight other (List.mem_of_getElem? there)).frame
      (same_for_others keeping here moves different there)

end call

section start

variable (process : Process) (fd : Int) (stack : Stack) (accepted : Option Nat)

/-- The handler that `main` starts. -/
def started : Handler := ⟨fd, stack, .reading, accepted, none⟩

theorem held_started :
    Process.held { process with handlers := process.handlers ++ [started fd stack accepted] } =
      process.held + Handler.weight fd := by
  have one : (started fd stack accepted).held = Handler.weight fd :=
    Handler.held_eq (started fd stack accepted) rfl
  rw [held, held, List.map_append, List.sum_append, List.map_singleton, List.sum_singleton, one]

theorem tight_started (tight : process.Tight) :
    Process.Tight { process with
      handlers := process.handlers ++ [started fd stack accepted] } := by
  intro handler member
  rcases List.mem_append.mp member with old | new
  · exact tight handler old
  · rw [List.mem_singleton.mp new]
    exact ⟨nofun, nofun⟩

theorem holding_started {table : Table}
    (conn : fd < 0 ∧ accepted = none ∨
      ∃ socket, accepted = some socket ∧ 0 < socket ∧ table.Refers fd socket) :
    (started fd stack accepted).Holding table where
  known := by
    intro socket member
    rcases conn with ⟨-, none_⟩ | ⟨own, given, some_, refers⟩
    · rw [Handler.sockets, started, none_] at member
      cases member
    · rw [Handler.sockets, started, given] at member
      rw [List.mem_singleton.mp member]
      exact ⟨some_, Table.lt_of_refers refers⟩
  nodup := by
    cases accepted with
    | none => exact List.nodup_nil
    | some socket => exact List.nodup_singleton socket
  conn := by
    intro _
    rcases conn with none_ | ⟨own, given, -, refers⟩
    · exact Or.inl none_
    · exact Or.inr ⟨own, given, refers⟩
  proxy := nofun
  looking := nofun
  early := fun _ => rfl

end start

theorem start_nothing (keeping : process.Keeping) (stack : Stack) :
    Keeping { process with handlers := process.handlers ++ [started (-1) stack none] } ∧
      Process.held { process with handlers := process.handlers ++ [started (-1) stack none] } =
        process.held := by
  have holding := @holding_started (-1) stack none process.table (Or.inl ⟨by decide, rfl⟩)
  constructor
  · exact keeping.start holding (fun _ _ => nofun)
  · exact held_started process (-1) stack none

theorem start_opened (keeping : process.Keeping) {fd : Int} (free : process.table.Free fd)
    (stack : Stack) :
    Keeping ⟨process.table.opened fd,
        process.handlers ++ [started fd stack (some process.table.objects.length)]⟩ ∧
      Process.held ⟨process.table.opened fd,
        process.handlers ++ [started fd stack (some process.table.objects.length)]⟩ =
        process.held + 1 := by
  have opened := keeping.opened free
  have refers : (process.table.opened fd).Refers fd process.table.objects.length :=
    Table.refers_opened
  have holding := @holding_started fd stack (some process.table.objects.length)
    (process.table.opened fd) (Or.inr ⟨_, rfl, keeping.positive, refers⟩)
  have fresh : ∀ other ∈ process.handlers,
      ∀ socket ∈ (started fd stack (some process.table.objects.length)).sockets,
        socket ∉ other.sockets := by
    intro other member socket new old
    have known := (keeping.holding other member).known socket old
    rw [List.mem_singleton.mp new] at known
    omega
  constructor
  · exact opened.start holding fresh
  · have one : Handler.weight fd = 1 := if_pos free.1
    have all := held_started ⟨process.table.opened fd, process.handlers⟩ fd stack
      (some process.table.objects.length)
    rwa [one] at all

/-- A step keeps what every step keeps; if it loses no socket the sockets stay matched, and
otherwise there is one more than the variables name. -/
theorem step_keeps {event : Event} (keeping : process.Keeping)
    (stepped : process.step event = some next) :
    next.Keeping ∧ ∃ ok, (ok = true ↔ process.Releases event) ∧
      next.table.openCount + process.held =
        process.table.openCount + next.held + (if ok then 0 else 1) ∧
      (ok = true → process.Tight → next.Tight) := by
  cases event with
  | call i reply =>
      simp only [step] at stepped
      cases here : process.handlers[i]? with
      | none =>
          rw [here] at stepped
          cases stepped
      | some handler =>
          rw [here] at stepped
          obtain ⟨⟨table, moved⟩, called, rfl⟩ := Option.map_eq_some_iff.mp stepped
          rcases Handler.step_moves called with ⟨ok, moves, releases⟩
          refine ⟨keeping.called here moves, ok, ?_, count_called keeping here moves,
            tight_called keeping here moves⟩
          simp only [Releases, here, Option.mem_some_iff, forall_eq', releases]
  | accepting fd stack start =>
      cases fd with
      | none =>
          rw [← Option.some.inj stepped]
          cases start with
          | false =>
              exact ⟨keeping, true, ⟨fun _ => Or.inl rfl, fun _ => rfl⟩, rfl, fun _ tight => tight⟩
          | true =>
              rcases start_nothing keeping stack with ⟨kept, named⟩
              refine ⟨kept, true, ⟨fun _ => Or.inl rfl, fun _ => rfl⟩, ?_,
                fun _ tight => tight_started process (-1) stack none tight⟩
              exact congrArg (process.table.openCount + ·) named.symm
      | some fd =>
          simp only [step] at stepped
          -- `accept` gives a free descriptor only; without a thread nothing will close it.
          by_cases free : process.table.Free fd
          · rw [if_pos free] at stepped
            rw [← Option.some.inj stepped]
            have more := @Table.openCount_opened process.table fd
            cases start with
            | false =>
                refine ⟨keeping.opened free, false, ?_, ?_, nofun⟩
                · simp [Releases]
                · change (process.table.opened fd).openCount + process.held =
                    process.table.openCount + process.held + 1
                  omega
            | true =>
                rcases start_opened keeping free stack with ⟨kept, named⟩
                refine ⟨kept, true, ⟨fun _ => Or.inr rfl, fun _ => rfl⟩, ?_, ?_⟩
                · calc (process.table.opened fd).openCount + process.held
                      = process.table.openCount + 1 + process.held := by rw [more]
                    _ = process.table.openCount + (process.held + 1) := by omega
                    _ = _ := congrArg (process.table.openCount + ·) named.symm
                · intro _ tight
                  exact tight_started ⟨process.table.opened fd, process.handlers⟩ fd stack _
                    (tight_opened keeping tight)
          · rw [if_neg free] at stepped
            cases stepped

theorem inUse_eq_held (keeping : process.Keeping) (tight : process.Tight) {handler : Handler}
    (member : handler ∈ process.handlers) : process.inUse handler = handler.held := by
  have holding := keeping.holding handler member
  have tight := tight handler member
  rw [inUse]
  by_cases returned : handler.at_.isReturned = true
  · rw [if_pos returned, Handler.held_returned handler (Position.eq_returned returned)]
  · rw [if_neg returned]
    rw [Bool.not_eq_true] at returned
    have conn : handler.accepted.toList.countP process.table.isOpen =
        Handler.weight handler.connfd := by
      rcases holding.conn returned with ⟨negative, none_⟩ | ⟨socket, accepted, refers⟩
      · have zero : Handler.weight handler.connfd = 0 := if_neg (by omega)
        rw [none_, zero]
        rfl
      · have one : Handler.weight handler.connfd = 1 :=
          if_pos (keeping.sound.nonneg socket _ refers)
        rw [accepted, one, Option.toList_some, List.countP_singleton,
          if_pos (Table.isOpen_of_refers refers)]
    have proxy : handler.created.toList.countP process.table.isOpen =
        handler.at_.proxyfd.elim 0 Handler.weight := by
      cases created : handler.created with
      | none =>
          cases named : handler.at_.proxyfd with
          | none => rfl
          | some fd =>
              rcases holding.proxy fd named with negative | ⟨socket, created', -⟩
              · exact (if_neg (by omega) : Handler.weight fd = 0).symm
              · rw [created] at created'
                cases created'
      | some socket =>
          rw [Option.toList_some, List.countP_singleton]
          rcases tight.proxy socket created with closed | ⟨fd, named, refers⟩
          · rw [Table.isOpen_of_closed closed, if_neg Bool.false_ne_true]
            cases named : handler.at_.proxyfd with
            | none => rfl
            | some fd =>
                rcases holding.proxy fd named with negative | ⟨other, created', refers⟩
                · exact (if_neg (by omega) : Handler.weight fd = 0).symm
                · have same : other = socket := Option.some.inj (created'.symm.trans created)
                  rw [same] at refers
                  cases refers.symm.trans closed
          · have one : Handler.weight fd = 1 := if_pos (keeping.sound.nonneg socket fd refers)
            rw [Table.isOpen_of_refers refers, if_pos rfl, named, Option.elim_some, one]
    rw [Handler.sockets, List.countP_append, conn, proxy, Handler.held_eq handler returned]

theorem accounted_of_matched (keeping : process.Keeping) (matched : process.Matched)
    (tight : process.Tight) : process.Accounted where
  released := by
    intro handler member returned socket own
    have tight := tight handler member
    have closed : process.table.Closed socket := by
      rcases List.mem_append.mp own with accepted | created
      · exact tight.conn returned socket (Option.mem_toList.mp accepted)
      · rcases tight.proxy socket (Option.mem_toList.mp created) with closed | ⟨fd, named, -⟩
        · exact closed
        · rw [Position.eq_returned returned] at named
          cases named
    exact keeping.sound.count_of_closed closed
  listening := keeping.listening
  counted := by
    have same : process.handlers.map process.inUse = process.handlers.map Handler.held :=
      List.map_congr_left (fun handler member => inUse_eq_held keeping tight member)
    rw [same]
    exact matched

theorem matched_of_accounted (accounted : process.Accounted)
    (returned : ∀ handler ∈ process.handlers, handler.at_.isReturned = true) :
    process.Matched := by
  have same : process.handlers.map process.inUse = process.handlers.map Handler.held := by
    apply List.map_congr_left
    intro handler member
    rw [inUse, if_pos (returned handler member),
      Handler.held_returned handler (Position.eq_returned (returned handler member))]
  have counted := accounted.counted
  rw [same] at counted
  exact counted

/-- What every step keeps, with no more variables than sockets. -/
def Enough (process : Process) : Prop :=
  process.Keeping ∧ 1 + process.held ≤ process.table.openCount

theorem initial_refers {listenfd object : Nat} {fd : Int}
    (refers : (initial listenfd).table.Refers fd object) : object = 0 ∧ fd = listenfd := by
  have here : [some (listenfd : Int)][object]? = some (some fd) := refers
  rw [List.getElem?_singleton] at here
  split_ifs at here with first
  exact ⟨first, (Option.some.inj (Option.some.inj here)).symm⟩

theorem initial_keeping (listenfd : Nat) : (initial listenfd).Keeping where
  sound := by
    refine ⟨?_, ?_, ?_⟩
    · intro first second fd one two
      rw [(initial_refers one).1, (initial_refers two).1]
    · intro object fd refers
      rw [(initial_refers refers).2]
      exact Int.natCast_nonneg listenfd
    · intro object
      have open_ : [some (listenfd : Int)][object]? ≠ some none := by
        rw [List.getElem?_singleton]
        split_ifs <;> simp
      exact (if_neg open_).symm
  listening := rfl
  holding := by
    intro handler member
    cases member
  apart := by
    intro i j one two socket first
    cases first

theorem step_enough (process next : Process) (event : Event) (enough : process.Enough)
    (stepped : process.step event = some next) : next.Enough := by
  rcases step_keeps enough.1 stepped with ⟨keeping, ok, -, count, -⟩
  have before := enough.2
  exact ⟨keeping, by omega⟩

theorem matched_step (process next : Process) (event : Event) (enough : process.Enough)
    (stepped : process.step event = some next) (releases : process.Releases event)
    (before : process.Matched ∧ process.Tight) : next.Matched ∧ next.Tight := by
  rcases step_keeps enough.1 stepped with ⟨-, ok, met, count, tight⟩
  have kept := met.mpr releases
  rw [if_pos kept] at count
  have matched := before.1
  rw [Matched] at matched ⊢
  exact ⟨by omega, tight kept before.2⟩

theorem matched_back (process next : Process) (event : Event) (enough : process.Enough)
    (stepped : process.step event = some next) (matched : next.Matched) :
    process.Matched ∧ process.Releases event := by
  rcases step_keeps enough.1 stepped with ⟨-, ok, met, count, -⟩
  have before := enough.2
  rw [Matched] at matched ⊢
  cases ok with
  | true =>
      rw [if_pos rfl] at count
      exact ⟨by omega, met.mp rfl⟩
  | false =>
      rw [if_neg Bool.false_ne_true] at count
      omega

end Process

/-- In a run in which every accepted socket gets a thread and every handler an address, a host
and a connection, all sockets are accounted for in every state; and a run at whose end all
handlers have returned leaves them accounted for only if it is such a run. -/
theorem descriptors_released (listenfd : Nat) (events : List Event) (last : Process)
    (reached : (Process.initial listenfd).run events = some last) :
    ((∀ front event middle, front ++ [event] <+: events →
        (Process.initial listenfd).run front = some middle → middle.Releases event) →
      ∀ front state, front <+: events →
        (Process.initial listenfd).run front = some state → state.Accounted) ∧
    ((∀ handler ∈ last.handlers, handler.at_.isReturned = true) → last.Accounted →
      ∀ front event middle, front ++ [event] <+: events →
        (Process.initial listenfd).run front = some middle → middle.Releases event) := by
  have start : (Process.initial listenfd).Enough :=
    ⟨Process.initial_keeping listenfd, Nat.le_refl 1⟩
  constructor
  · intro releases front state inside here
    have states := (Runs.run_throughout Process.step Process.Enough
      (fun process => process.Matched ∧ process.Tight) Process.Releases
      (fun process event next enough => Process.step_enough process next event enough)
      (by
        intro process event next enough before stepped
        constructor
        · intro both
          exact (Process.matched_back process next event enough stepped both.1).2
        · intro releases
          exact Process.matched_step process next event enough stepped releases before)
      (Process.initial listenfd) last events start ⟨rfl, by intro handler member; cases member⟩
      reached).mpr releases
    have enough := Runs.run_invariant Process.step Process.Enough
      (fun process event next enough => Process.step_enough process next event enough)
      (Process.initial listenfd) state front start here
    rcases states front state inside here with ⟨matched, tight⟩
    exact Process.accounted_of_matched enough.1 matched tight
  · intro returned accounted
    have back := Runs.steps_of_last Process.step Process.Enough Process.Matched Process.Releases
      (fun process event next enough => Process.step_enough process next event enough)
      (fun process event next enough => Process.matched_back process next event enough)
      (Process.initial listenfd) last events start reached
      (Process.matched_of_accounted accounted returned)
    exact back.2

def firstRun : List Event :=
  [.accepting (some 4) freshStack true, .call 0 (.received (some shortRequest))]

theorem descriptors_released_first :
    ∃ last, (Process.initial 3).run firstRun = some last ∧ last.Accounted := by
  have ended : freshStack.buf[shortRequest.length]? = some 0 := freshStack_ended (by decide)
  have words : requestWords shortRequest =
      ascii "GET" :: ascii "http://h/p" :: ascii "HTTP/1.0" :: [] := by decide +kernel
  have parsed : parseAddress (ascii "http://h/p") = some ⟨ascii "h", 80, ascii "p"⟩ := by
    decide +kernel
  have received := readRequest_get ended words (by decide) parsed
  have supported : freshStack.Supported (some shortRequest) := by
    rcases readRequest_cases freshStack (some shortRequest) with overrun | ⟨⟨sent, refused⟩, -⟩ |
      ⟨-, supported⟩
    · cases received.symm.trans overrun
    · cases received.symm.trans refused
    · exact supported
  let waiting : Process :=
    ⟨(Process.initial 3).table.opened 4, [Process.started 4 freshStack (some 1)]⟩
  have first : (Process.initial 3).step (.accepting (some 4) freshStack true) = some waiting :=
    rfl
  have second : ∃ last, waiting.step (.call 0 (.received (some shortRequest))) = some last := by
    have called : ∃ moved, (Process.started 4 freshStack (some 1)).step waiting.table
        (.received (some shortRequest)) = some moved := by
      simp only [Handler.step, Process.started, received]
      exact ⟨_, rfl⟩
    rcases called with ⟨moved, called⟩
    refine ⟨⟨moved.1, [moved.2]⟩, ?_⟩
    exact congrArg (Option.map (fun found => (⟨found.1, [found.2]⟩ : Process))) called
  rcases second with ⟨last, second⟩
  have reached : (Process.initial 3).run firstRun = some last := by
    rw [Process.run, firstRun, Runs.run_cons, first, Option.bind_some, Runs.run_cons, second]
    rfl
  refine ⟨last, reached, ?_⟩
  have steps : ∀ front event middle, front ++ [event] <+: firstRun →
      (Process.initial 3).run front = some middle → middle.Releases event := by
    rw [firstRun]
    refine (Runs.steps_cons Process.step _ first).mpr ⟨Or.inr rfl, ?_⟩
    refine (Runs.steps_cons Process.step _ second).mpr ⟨?_, ?_⟩
    · intro handler here
      rw [← Option.some.inj here]
      exact Or.inr supported
    · intro front event middle inside
      have none_ := List.eq_nil_of_prefix_nil inside
      simp at none_
  exact (descriptors_released 3 firstRun last reached).1 steps firstRun last
    List.prefix_rfl reached

/-- A client that connects and leaves without a request costs a descriptor. -/
theorem descriptors_lost :
    ∃ last, (Process.initial 3).run
        [.accepting (some 4) freshStack true, .call 0 (.received (some []))] = some last ∧
      (∀ handler ∈ last.handlers, handler.at_.isReturned = true) ∧ ¬ last.Accounted := by
  refine ⟨⟨(Process.initial 3).table.opened 4,
    [{ Process.started 4 freshStack (some 1) with at_ := .returned }]⟩, ?_, ?_, ?_⟩
  · rfl
  · intro handler member
    rw [List.mem_singleton.mp member]
    rfl
  · intro accounted
    have once := accounted.released _ List.mem_cons_self rfl 1 List.mem_cons_self
    exact absurd once (by decide)

end NetworkSystem.Proxy
