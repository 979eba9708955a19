import NetworkSystem.Lib.Descriptors
import NetworkSystem.Proxy.Request

/-! `connection_handler` from call to call: which sockets it is given, which it closes, and
which of its variables name them. -/

namespace NetworkSystem.Proxy

open Bytes Descriptors

/-- What `read_request` stores for `connection_handler`. -/
structure Request where
  target : Target
  uri : Bytes
  version : Bytes

/-- The call that a handler has come to, with the variables that are used from there on. -/
inductive Position where
  | reading
  | creating (request : Request)
  | lookup (request : Request) (clientfd : Int)
  | connecting (request : Request) (clientfd : Int)
  | requesting (request : Request) (proxyfd : Int)
  | relaying (request : Request) (proxyfd : Int) (totalSize : Int)
  | logging (request : Request) (proxyfd : Int) (totalSize : Int)
  | closing (proxyfd : Int)
  | closingConn
  | returned

namespace Position

def proxyfd : Position → Option Int
  | .lookup _ fd => some fd
  | .connecting _ fd => some fd
  | .requesting _ fd => some fd
  | .relaying _ fd _ => some fd
  | .logging _ fd _ => some fd
  | .closing fd => some fd
  | _ => none

def isReturned : Position → Bool
  | .returned => true
  | _ => false

/-- In `open_clientfd`, behind the call of `socket`. -/
def looking : Position → Bool
  | .lookup _ _ => true
  | .connecting _ _ => true
  | _ => false

def early : Position → Bool
  | .reading => true
  | .creating _ => true
  | _ => false

theorem running_of_looking {at_ : Position} (looking : at_.looking = true) :
    at_.isReturned = false := by
  cases at_ <;> first | rfl | cases looking

theorem eq_returned {at_ : Position} (returned : at_.isReturned = true) : at_ = .returned := by
  cases at_ <;> first | rfl | cases returned

end Position

/-- A call of `connection_handler`. `accepted` and `created` are not variables of it: they
are the sockets that `accept` and `socket` have given. -/
structure Handler where
  connfd : Int
  stack : Stack
  at_ : Position
  accepted : Option Nat
  created : Option Nat

inductive Reply where
  | received (data : Option Bytes)
  | socket (fd : Option Int)
  | found (found : Bool)
  | connected (connected : Bool)
  | sent
  | block (n : Nat)
  | ended
  | logged (logString date : Bytes) (peer : Option UInt32)
  | closed

namespace Handler

/-- `connection_handler` from one call to the next; `none` for a reply that the call cannot
have and for an access past the end of an array. `recv` gives nothing on a descriptor that
is not open. -/
def step (table : Table) (handler : Handler) (reply : Reply) : Option (Table × Handler) :=
  match handler.at_, reply with
  | .reading, .received data =>
      if handler.connfd < 0 ∧ data.isSome then none
      else
        match readRequest handler.stack data with
        | .overrun => none
        | .refused _ => some (table, { handler with at_ := .returned })
        | .accepted target uri version =>
            some (table, { handler with at_ := .creating ⟨target, cstr uri, cstr version⟩ })
  | .creating request, .socket none =>
      some (table, { handler with at_ := .requesting request (-1) })
  | .creating request, .socket (some fd) =>
      if table.Free fd then
        some (table.opened fd, { handler with
          at_ := .lookup request fd
          created := some table.objects.length })
      else none
  | .lookup request clientfd, .found found =>
      some (table, { handler with
        at_ := if found then .connecting request clientfd else .requesting request (-2) })
  | .connecting request clientfd, .connected connected =>
      some (table, { handler with
        at_ := .requesting request (if connected then clientfd else -1) })
  | .requesting request proxyfd, .sent =>
      match sendRequest request.target.address request.target.path request.version with
      | none => none
      | some _ => some (table, { handler with at_ := .relaying request proxyfd 0 })
  | .relaying request proxyfd totalSize, .block n =>
      if 0 < n ∧ 0 ≤ proxyfd then
        some (table, { handler with
          at_ := .relaying request proxyfd ((totalSize + n).bmod (2 ^ 32)) })
      else none
  | .relaying request proxyfd totalSize, .ended =>
      some (table, { handler with at_ := .logging request proxyfd totalSize })
  | .logging request proxyfd totalSize, .logged logString date peer =>
      match formatLogEntry logString date peer request.uri totalSize with
      | none => none
      | some _ => some (table, { handler with at_ := .closing proxyfd })
  | .closing proxyfd, .closed =>
      some (table.close proxyfd, { handler with at_ := .closingConn })
  | .closingConn, .closed =>
      some (table.close handler.connfd, { handler with at_ := .returned })
  | _, _ => none

def sockets (handler : Handler) : List Nat := handler.accepted.toList ++ handler.created.toList

end Handler

/-- `buf` behind the call of `recv`. -/
def Stack.received (stack : Stack) : Option Bytes → Bytes
  | none => stack.buf
  | some data => data ++ stack.buf.drop data.length

/-- Something has been received, the method is GET and the address can be parsed. -/
def Stack.Supported (stack : Stack) (data : Option Bytes) : Prop :=
  data ≠ some [] ∧ lower (methodOf stack (stack.received data)) = ascii "get" ∧
    parseAddress (uriOf stack (stack.received data)) ≠ none

/-- A request is supported, if it came over a socket; the host is found; the connection is
made. -/
def Handler.Releases (handler : Handler) (reply : Reply) : Prop :=
  match handler.at_, reply with
  | .reading, .received data => handler.connfd < 0 ∨ handler.stack.Supported data
  | .lookup _ _, .found found => found = true
  | .connecting _ _, .connected connected => connected = true
  | _, _ => True

theorem readRequest_cases (stack : Stack) (data : Option Bytes) :
    readRequest stack data = .overrun ∨
      (∃ sent, readRequest stack data = .refused sent) ∧ ¬ stack.Supported data ∨
      (∃ target uri version, readRequest stack data = .accepted target uri version) ∧
        stack.Supported data := by
  by_cases empty : data = some []
  · right
    left
    rw [empty]
    exact ⟨⟨[], rfl⟩, fun supported => supported.1 rfl⟩
  · have parsed : readRequest stack data = parseRequest stack (stack.received data) := by
      cases data with
      | none => rfl
      | some data =>
          have some_ : ¬ data.length = 0 := by
            intro zero
            exact empty (congrArg some (List.eq_nil_of_length_eq_zero zero))
          rw [readRequest, if_neg some_, Stack.received]
    rw [parsed, parseRequest_eq]
    by_cases open_ : 0 ∉ stack.received data ∧ (scanWords 3 (cstr (stack.received data))).2 = []
    · exact Or.inl (if_pos open_)
    · rw [if_neg open_, outcomeOf_request]
      by_cases get : lower (methodOf stack (stack.received data)) = ascii "get"
      · rw [if_neg (not_not.mpr get)]
        cases address : parseAddress (uriOf stack (stack.received data)) with
        | none => exact Or.inr (Or.inl ⟨⟨_, rfl⟩, fun supported => supported.2.2 address⟩)
        | some target =>
            dsimp only
            split_ifs
            · have parses : parseAddress (uriOf stack (stack.received data)) ≠ none := by
                rw [address]
                exact Option.some_ne_none target
              exact Or.inr (Or.inr ⟨⟨_, _, _, rfl⟩, empty, get, parses⟩)
            · exact Or.inl rfl
      · exact Or.inr (Or.inl ⟨⟨_, if_pos get⟩, fun supported => get supported.2.1⟩)

/-- What a call can do to the descriptors and to the variables that name them; the flag
tells whether it loses no socket. -/
inductive Moves (table : Table) (handler : Handler) : Bool → Table → Handler → Prop where
  | stays (next : Position) (here : handler.at_.isReturned = false)
      (there : next.isReturned = false) (same : next.proxyfd = handler.at_.proxyfd)
      (early : next.early = true → handler.at_.early = true)
      (looking : next.looking = true → handler.at_.looking = true) :
      Moves table handler true table { handler with at_ := next }
  | refuses (reading : handler.at_ = .reading) :
      Moves table handler (handler.connfd < 0) table { handler with at_ := .returned }
  | fails (request : Request) (here : handler.at_ = .creating request) :
      Moves table handler true table { handler with at_ := .requesting request (-1) }
  | opens (request : Request) (fd : Int) (here : handler.at_ = .creating request)
      (free : table.Free fd) :
      Moves table handler true (table.opened fd)
        { handler with at_ := .lookup request fd, created := some table.objects.length }
  | loses (request : Request) (fd bad : Int)
      (looking : handler.at_.looking = true) (named : handler.at_.proxyfd = some fd)
      (negative : bad < 0) :
      Moves table handler false table { handler with at_ := .requesting request bad }
  | closes (fd : Int) (here : handler.at_ = .closing fd) :
      Moves table handler true (table.close fd) { handler with at_ := .closingConn }
  | closesConn (here : handler.at_ = .closingConn) :
      Moves table handler true (table.close handler.connfd) { handler with at_ := .returned }

/-- A call leaves the descriptors alone, or it opens or closes one, or it lets one go. -/
theorem Handler.step_moves {table table' : Table} {handler next : Handler} {reply : Reply}
    (stepped : handler.step table reply = some (table', next)) :
    ∃ ok, Moves table handler ok table' next ∧ (ok = true ↔ handler.Releases reply) := by
  rcases handler with ⟨connfd, stack, at_, accepted, created⟩
  have always : ∀ {releases : Prop}, releases → (true = true ↔ releases) :=
    fun holds => ⟨fun _ => holds, fun _ => rfl⟩
  cases at_ with
  | reading =>
      cases reply with
      | received data =>
          simp only [step] at stepped
          split_ifs at stepped
          rcases readRequest_cases stack data with overrun | ⟨⟨sent, refused⟩, unsupported⟩ |
            ⟨⟨target, uri, version, accepted_⟩, supported⟩
          · rw [overrun] at stepped
            cases stepped
          · rw [refused] at stepped
            obtain ⟨rfl, rfl⟩ := Prod.mk.inj (Option.some.inj stepped)
            refine ⟨_, Moves.refuses rfl, ?_⟩
            change decide (connfd < 0) = true ↔ connfd < 0 ∨ stack.Supported data
            simp only [unsupported, or_false, decide_eq_true_eq]
          · rw [accepted_] at stepped
            obtain ⟨rfl, rfl⟩ := Prod.mk.inj (Option.some.inj stepped)
            exact ⟨true, Moves.stays _ rfl rfl rfl (fun _ => rfl) nofun, always (Or.inr supported)⟩
      | _ => cases stepped
  | creating request =>
      cases reply with
      | socket fd =>
          cases fd with
          | none =>
              obtain ⟨rfl, rfl⟩ := Prod.mk.inj (Option.some.inj stepped)
              exact ⟨true, Moves.fails request rfl, always trivial⟩
          | some fd =>
              simp only [step] at stepped
              split_ifs at stepped with free
              obtain ⟨rfl, rfl⟩ := Prod.mk.inj (Option.some.inj stepped)
              exact ⟨true, Moves.opens request fd rfl free, always trivial⟩
      | _ => cases stepped
  | lookup request clientfd =>
      cases reply with
      | found found =>
          obtain ⟨rfl, rfl⟩ := Prod.mk.inj (Option.some.inj stepped)
          cases found with
          | true => exact ⟨true, Moves.stays _ rfl rfl rfl nofun (fun _ => rfl), always rfl⟩
          | false =>
              exact ⟨false, Moves.loses request clientfd (-2) rfl rfl (by decide), Iff.rfl⟩
      | _ => cases stepped
  | connecting request clientfd =>
      cases reply with
      | connected connected =>
          obtain ⟨rfl, rfl⟩ := Prod.mk.inj (Option.some.inj stepped)
          cases connected with
          | true => exact ⟨true, Moves.stays _ rfl rfl rfl nofun (fun _ => rfl), always rfl⟩
          | false =>
              exact ⟨false, Moves.loses request clientfd (-1) rfl rfl (by decide), Iff.rfl⟩
      | _ => cases stepped
  | requesting request proxyfd =>
      cases reply with
      | sent =>
          simp only [step] at stepped
          split at stepped
          · cases stepped
          · obtain ⟨rfl, rfl⟩ := Prod.mk.inj (Option.some.inj stepped)
            exact ⟨true, Moves.stays _ rfl rfl rfl nofun nofun, always trivial⟩
      | _ => cases stepped
  | relaying request proxyfd totalSize =>
      cases reply with
      | block n =>
          simp only [step] at stepped
          split_ifs at stepped
          obtain ⟨rfl, rfl⟩ := Prod.mk.inj (Option.some.inj stepped)
          exact ⟨true, Moves.stays _ rfl rfl rfl nofun nofun, always trivial⟩
      | ended =>
          obtain ⟨rfl, rfl⟩ := Prod.mk.inj (Option.some.inj stepped)
          exact ⟨true, Moves.stays _ rfl rfl rfl nofun nofun, always trivial⟩
      | _ => cases stepped
  | logging request proxyfd totalSize =>
      cases reply with
      | logged logString date peer =>
          simp only [step] at stepped
          split at stepped
          · cases stepped
          · obtain ⟨rfl, rfl⟩ := Prod.mk.inj (Option.some.inj stepped)
            exact ⟨true, Moves.stays _ rfl rfl rfl nofun nofun, always trivial⟩
      | _ => cases stepped
  | closing proxyfd =>
      cases reply with
      | closed =>
          obtain ⟨rfl, rfl⟩ := Prod.mk.inj (Option.some.inj stepped)
          exact ⟨true, Moves.closes proxyfd rfl, always trivial⟩
      | _ => cases stepped
  | closingConn =>
      cases reply with
      | closed =>
          obtain ⟨rfl, rfl⟩ := Prod.mk.inj (Option.some.inj stepped)
          exact ⟨true, Moves.closesConn rfl, always trivial⟩
      | _ => cases stepped
  | returned => cases reply <;> cases stepped

/-! What the variables of a handler name. -/

namespace Handler

variable {table table' : Table} {handler next : Handler} {ok : Bool}

def fds (handler : Handler) : List Int :=
  (if handler.at_.isReturned then [] else [handler.connfd]) ++ handler.at_.proxyfd.toList

def held (handler : Handler) : Nat := handler.fds.countP (fun fd => 0 ≤ fd)

def weight (fd : Int) : Nat := if 0 ≤ fd then 1 else 0

theorem held_eq (handler : Handler) (running : handler.at_.isReturned = false) :
    handler.held = weight handler.connfd + handler.at_.proxyfd.elim 0 weight := by
  have alone : ∀ fd : Int, [fd].countP (fun fd => 0 ≤ fd) = weight fd := by
    intro fd
    rw [List.countP_singleton, weight]
    simp only [decide_eq_true_eq]
  rw [held, fds, running, List.countP_append]
  simp only [Bool.false_eq_true, ↓reduceIte, alone]
  cases handler.at_.proxyfd with
  | none => rfl
  | some fd => rw [Option.toList_some, alone, Option.elim_some]

theorem held_returned (handler : Handler) (returned : handler.at_ = .returned) :
    handler.held = 0 := by
  rw [held, fds, returned]
  rfl

/-- A variable with a descriptor names the socket that was opened for it. -/
structure Holding (table : Table) (handler : Handler) : Prop where
  known : ∀ socket ∈ handler.sockets, 0 < socket ∧ socket < table.objects.length
  nodup : handler.sockets.Nodup
  conn : handler.at_.isReturned = false → handler.connfd < 0 ∧ handler.accepted = none ∨
    ∃ socket, handler.accepted = some socket ∧ table.Refers handler.connfd socket
  proxy : ∀ fd, handler.at_.proxyfd = some fd → fd < 0 ∨
    ∃ socket, handler.created = some socket ∧ table.Refers fd socket
  looking : handler.at_.looking = true → ∀ fd, handler.at_.proxyfd = some fd → 0 ≤ fd
  early : handler.at_.early = true → handler.created = none

/-- No socket is open without such a variable. -/
structure Tight (table : Table) (handler : Handler) : Prop where
  conn : handler.at_.isReturned = true → ∀ socket ∈ handler.accepted, table.Closed socket
  proxy : ∀ socket ∈ handler.created, table.Closed socket ∨
    ∃ fd, handler.at_.proxyfd = some fd ∧ table.Refers fd socket

theorem mem_accepted {socket : Nat} (accepted : handler.accepted = some socket) :
    socket ∈ handler.sockets := by
  rw [sockets, accepted]
  exact List.mem_cons_self

theorem mem_created {socket : Nat} (created : handler.created = some socket) :
    socket ∈ handler.sockets := by
  rw [sockets, created]
  exact List.mem_append_right _ List.mem_cons_self

theorem Holding.frame (holding : Holding table handler)
    (grows : table.objects.length ≤ table'.objects.length)
    (same : ∀ socket ∈ handler.sockets, table'.objects[socket]? = table.objects[socket]?) :
    Holding table' handler where
  known := by
    intro socket member
    have known := holding.known socket member
    omega
  nodup := holding.nodup
  conn := by
    intro running
    rcases holding.conn running with none_ | ⟨socket, accepted, refers⟩
    · exact Or.inl none_
    · refine Or.inr ⟨socket, accepted, ?_⟩
      rwa [Table.Refers, same socket (mem_accepted accepted)]
  proxy := by
    intro fd named
    rcases holding.proxy fd named with negative | ⟨socket, created, refers⟩
    · exact Or.inl negative
    · refine Or.inr ⟨socket, created, ?_⟩
      rwa [Table.Refers, same socket (mem_created created)]
  looking := holding.looking
  early := holding.early

theorem Tight.frame (tight : Tight table handler)
    (same : ∀ socket ∈ handler.sockets, table'.objects[socket]? = table.objects[socket]?) :
    Tight table' handler where
  conn := by
    intro returned socket accepted
    rw [Table.Closed, same socket (mem_accepted accepted)]
    exact tight.conn returned socket accepted
  proxy := by
    intro socket created
    rw [Table.Closed, same socket (mem_created created)]
    rcases tight.proxy socket created with closed | ⟨fd, named, refers⟩
    · exact Or.inl closed
    · refine Or.inr ⟨fd, named, ?_⟩
      rwa [Table.Refers, same socket (mem_created created)]

theorem moves_sockets (moves : Moves table handler ok table' next) :
    ∀ socket ∈ next.sockets, socket ∈ handler.sockets ∨ socket = table.objects.length := by
  intro socket member
  cases moves with
  | opens request fd here free =>
      rcases List.mem_append.mp member with accepted | created
      · exact Or.inl (List.mem_append_left _ accepted)
      · exact Or.inr (List.mem_singleton.mp created)
  | _ => exact Or.inl member

theorem named_of_closing {fd : Int} (here : handler.at_ = .closing fd) :
    handler.at_.proxyfd = some fd := by
  rw [here]
  rfl

theorem accepted_ne_created (holding : Holding table handler) {one two : Nat}
    (accepted : handler.accepted = some one) (created : handler.created = some two) :
    one ≠ two := by
  have nodup := holding.nodup
  rw [sockets, accepted, created] at nodup
  intro same
  simp [same] at nodup

theorem holding_opened (holding : Holding table handler) (listening : 0 < table.objects.length)
    (none_ : handler.created = none) (running : handler.at_.isReturned = false)
    (request : Request) (fd : Int) (free : table.Free fd) :
    Holding (table.opened fd)
      { handler with at_ := .lookup request fd, created := some table.objects.length } where
  known := by
    intro socket member
    rcases List.mem_append.mp member with accepted | created
    · have known := holding.known socket (List.mem_append_left _ accepted)
      rw [Table.opened, List.length_append]
      omega
    · rw [List.mem_singleton.mp created]
      exact ⟨listening, Table.lt_of_refers Table.refers_opened⟩
  nodup := by
    have nodup := holding.nodup
    rw [sockets, none_, Option.toList_none, List.append_nil] at nodup
    have apart : ∀ one ∈ handler.accepted.toList, ∀ two ∈ [table.objects.length], one ≠ two := by
      intro one member two last same
      have known := holding.known one (List.mem_append_left _ member)
      have new := List.mem_singleton.mp last
      omega
    exact List.nodup_append.mpr ⟨nodup, List.nodup_singleton _, apart⟩
  conn := by
    intro _
    rcases holding.conn running with nothing | ⟨socket, accepted, refers⟩
    · exact Or.inl nothing
    · have old := (holding.known socket (mem_accepted accepted)).2
      refine Or.inr ⟨socket, accepted, ?_⟩
      rwa [Table.Refers, Table.objects_opened old]
  proxy := by
    intro other named
    rw [← Option.some.inj named]
    exact Or.inr ⟨_, rfl, Table.refers_opened⟩
  looking := by
    intro _ other named
    rw [← Option.some.inj named]
    exact free.1
  early := nofun

section moves

variable (sound : table.Sound) (holding : Holding table handler)

include sound holding

/-- A variable of the handler can be closed: it names nothing, or a socket of the handler. -/
theorem close_proxy {fd : Int} (named : handler.at_.proxyfd = some fd) :
    fd < 0 ∧ table.close fd = table ∨
      0 ≤ fd ∧ ∃ socket, handler.created = some socket ∧ table.Refers fd socket := by
  rcases holding.proxy fd named with negative | ⟨socket, created, refers⟩
  · exact Or.inl ⟨negative, Table.close_of_negative sound negative⟩
  · exact Or.inr ⟨sound.nonneg socket fd refers, socket, created, refers⟩

theorem close_conn (running : handler.at_.isReturned = false) :
    handler.connfd < 0 ∧ handler.accepted = none ∧ table.close handler.connfd = table ∨
      0 ≤ handler.connfd ∧
        ∃ socket, handler.accepted = some socket ∧ table.Refers handler.connfd socket := by
  rcases holding.conn running with ⟨negative, none_⟩ | ⟨socket, accepted, refers⟩
  · exact Or.inl ⟨negative, none_, Table.close_of_negative sound negative⟩
  · exact Or.inr ⟨sound.nonneg socket _ refers, socket, accepted, refers⟩

/-- The table stays sound, and only what belongs to the handler or is new changes in it. -/
theorem moves_table (moves : Moves table handler ok table' next) :
    table'.Sound ∧ table.objects.length ≤ table'.objects.length ∧
      ∀ socket < table.objects.length, socket ∉ handler.sockets →
        table'.objects[socket]? = table.objects[socket]? := by
  have unchanged : table.Sound ∧ table.objects.length ≤ table.objects.length ∧
      ∀ socket < table.objects.length, socket ∉ handler.sockets →
        table.objects[socket]? = table.objects[socket]? :=
    ⟨sound, Nat.le_refl _, fun _ _ _ => rfl⟩
  have closed : ∀ fd socket, socket ∈ handler.sockets → table.Refers fd socket →
      (table.close fd).Sound ∧ table.objects.length ≤ (table.close fd).objects.length ∧
        ∀ other < table.objects.length, other ∉ handler.sockets →
          (table.close fd).objects[other]? = table.objects[other]? := by
    intro fd socket own refers
    refine ⟨sound.close refers, (Table.length_close sound refers).ge, ?_⟩
    intro other _ foreign
    exact Table.objects_close sound refers (fun same => foreign (same ▸ own))
  cases moves with
  | stays => exact unchanged
  | refuses => exact unchanged
  | fails => exact unchanged
  | opens request fd here free =>
      refine ⟨sound.opened free, ?_, fun socket old _ => Table.objects_opened old⟩
      rw [Table.opened, List.length_append]
      exact Nat.le_add_right _ _
  | loses => exact unchanged
  | closes fd here =>
      have mine := named_of_closing here
      rcases close_proxy sound holding mine with ⟨-, same⟩ | ⟨-, socket, created, refers⟩
      · rw [same]
        exact unchanged
      · exact closed fd socket (mem_created created) refers
  | closesConn here =>
      rcases close_conn sound holding (by rw [here]; rfl) with
        ⟨-, -, same⟩ | ⟨-, socket, accepted, refers⟩
      · rw [same]
        exact unchanged
      · exact closed _ socket (mem_accepted accepted) refers

theorem holding_closed {fd : Int} (here : handler.at_ = .closing fd)
    (grows : table.objects.length ≤ (table.close fd).objects.length) :
    Holding (table.close fd) { handler with at_ := .closingConn } where
  known := by
    intro socket member
    have before := holding.known socket member
    exact ⟨before.1, by omega⟩
  nodup := holding.nodup
  conn := by
    intro _
    rcases holding.conn (by rw [here]; rfl) with nothing | ⟨socket, accepted, refers⟩
    · exact Or.inl nothing
    · refine Or.inr ⟨socket, accepted, ?_⟩
      rcases close_proxy sound holding (named_of_closing here) with
        ⟨-, same⟩ | ⟨-, other, created, named⟩
      · rw [same]
        exact refers
      · have apart := accepted_ne_created holding accepted created
        rwa [Table.Refers, Table.objects_close sound named apart]
  proxy := nofun
  looking := nofun
  early := nofun

theorem moves_holding (listening : 0 < table.objects.length)
    (moves : Moves table handler ok table' next) : Holding table' next := by
  have changes := moves_table sound holding moves
  cases moves with
  | stays next here there same early looking =>
      refine ⟨holding.known, holding.nodup, fun _ => holding.conn here, ?_, ?_, ?_⟩
      · intro fd named
        exact holding.proxy fd (same ▸ named)
      · intro looks fd named
        exact holding.looking (looking looks) fd (same ▸ named)
      · exact fun before => holding.early (early before)
  | refuses reading => exact ⟨holding.known, holding.nodup, nofun, nofun, nofun, nofun⟩
  | fails request here =>
      refine ⟨holding.known, holding.nodup, fun _ => holding.conn (by rw [here]; rfl), ?_, nofun,
        nofun⟩
      intro fd named
      rw [← Option.some.inj named]
      exact Or.inl (by decide)
  | opens request fd here free =>
      have none_ : handler.created = none := holding.early (by rw [here]; rfl)
      exact holding_opened holding listening none_ (by rw [here]; rfl) request fd free
  | loses request fd bad looking named negative =>
      have running := Position.running_of_looking looking
      refine ⟨holding.known, holding.nodup, fun _ => holding.conn running, ?_,
        nofun, nofun⟩
      intro other named
      rw [← Option.some.inj named]
      exact Or.inl negative
  | closes fd here =>
      exact holding_closed sound holding here changes.2.1
  | closesConn here =>
      refine ⟨?_, holding.nodup, nofun, nofun, nofun, nofun⟩
      intro socket member
      have before := holding.known socket member
      have grows := changes.2.1
      exact ⟨before.1, by omega⟩

theorem tight_closed {fd : Int} (here : handler.at_ = .closing fd) (tight : Tight table handler) :
    Tight (table.close fd) { handler with at_ := .closingConn } where
  conn := nofun
  proxy := by
    intro socket created
    left
    have mine := named_of_closing here
    rcases close_proxy sound holding mine with ⟨negative, same⟩ | ⟨-, other, created', refers⟩
    · rw [same]
      rcases tight.proxy socket created with closed | ⟨other, named, refers⟩
      · exact closed
      · have nonneg := sound.nonneg socket other refers
        rw [mine] at named
        have equal := Option.some.inj named
        omega
    · have same : other = socket := Option.some.inj (created'.symm.trans created)
      exact Table.closed_close sound (same ▸ refers)

theorem tight_closedConn (here : handler.at_ = .closingConn) (tight : Tight table handler) :
    Tight (table.close handler.connfd) { handler with at_ := .returned } := by
  have running : handler.at_.isReturned = false := by
    rw [here]
    rfl
  have before : ∀ socket ∈ handler.created, table.Closed socket := by
    intro socket created
    rcases tight.proxy socket created with closed | ⟨other, named, -⟩
    · exact closed
    · rw [here] at named
      cases named
  rcases close_conn sound holding running with ⟨-, none_, same⟩ | ⟨-, own, accepted, refers⟩
  · rw [same]
    constructor
    · intro _ socket accepted
      rw [none_] at accepted
      cases accepted
    · intro socket created
      exact Or.inl (before socket created)
  · constructor
    · intro _ socket accepted'
      have same : own = socket := Option.some.inj (accepted.symm.trans accepted')
      exact Table.closed_close sound (same ▸ refers)
    · intro socket created
      left
      have apart := accepted_ne_created holding accepted created
      rw [Table.Closed, Table.objects_close sound refers apart.symm]
      exact before socket created

/-- A call that loses no socket leaves none open that no variable names. -/
theorem moves_tight (moves : Moves table handler ok table' next) (kept : ok = true)
    (tight : Tight table handler) : Tight table' next := by
  cases moves with
  | stays next here there same early looking =>
      constructor
      · intro returned
        rw [there] at returned
        cases returned
      · rw [same]
        exact tight.proxy
  | refuses reading =>
      have negative := of_decide_eq_true kept
      have none_ : handler.created = none := holding.early (by rw [reading]; rfl)
      constructor
      · intro _ socket accepted
        rcases holding.conn (by rw [reading]; rfl) with ⟨-, nothing⟩ | ⟨other, -, refers⟩
        · rw [nothing] at accepted
          cases accepted
        · have nonneg := sound.nonneg other _ refers
          omega
      · intro socket created
        rw [none_] at created
        cases created
  | fails request here =>
      have none_ : handler.created = none := holding.early (by rw [here]; rfl)
      refine ⟨nofun, ?_⟩
      intro socket created
      rw [none_] at created
      cases created
  | opens request fd here free =>
      refine ⟨nofun, ?_⟩
      intro socket created
      rw [← Option.some.inj created]
      exact Or.inr ⟨fd, rfl, Table.refers_opened⟩
  | loses => cases kept
  | closes fd here => exact tight_closed sound holding here tight
  | closesConn here => exact tight_closedConn sound holding here tight

theorem moves_count (moves : Moves table handler ok table' next) :
    table'.openCount + handler.held = table.openCount + next.held + (if ok then 0 else 1) := by
  cases moves with
  | stays next here there same early looking =>
      rw [held_eq handler here, held_eq { handler with at_ := next } there]
      simp only [same, ↓reduceIte]
      rfl
  | refuses reading =>
      rw [held_eq handler (by rw [reading]; rfl), reading, weight,
        held_returned { handler with at_ := .returned } rfl]
      by_cases negative : handler.connfd < 0
      · have other : ¬ 0 ≤ handler.connfd := by omega
        simp [negative, other, Position.proxyfd]
      · have other : 0 ≤ handler.connfd := by omega
        simp [negative, other, Position.proxyfd]
  | fails request here =>
      have zero : weight (-1) = 0 := rfl
      rw [held_eq handler (by rw [here]; rfl), here,
        held_eq { handler with at_ := .requesting request (-1) } rfl]
      simp only [Position.proxyfd, Option.elim_none, Option.elim_some, zero, ↓reduceIte]
      rfl
  | opens request fd here free =>
      have one : weight fd = 1 := if_pos free.1
      rw [Table.openCount_opened, held_eq handler (by rw [here]; rfl), here]
      rw [held_eq { handler with
        at_ := .lookup request fd
        created := some table.objects.length } rfl]
      simp only [Position.proxyfd, Option.elim_none, Option.elim_some, one, ↓reduceIte]
      omega
  | loses request fd bad looking named negative =>
      have one : weight fd = 1 := if_pos (holding.looking looking fd named)
      have zero : weight bad = 0 := if_neg (by omega)
      rw [held_eq handler (Position.running_of_looking looking), named,
        held_eq { handler with at_ := .requesting request bad } rfl]
      simp only [Position.proxyfd, Option.elim_some, one, zero, Bool.false_eq_true, ↓reduceIte]
      omega
  | closes fd here =>
      have mine := named_of_closing here
      rw [held_eq handler (by rw [here]; rfl), mine,
        held_eq { handler with at_ := .closingConn } rfl]
      simp only [Position.proxyfd, Option.elim_some, Option.elim_none, ↓reduceIte]
      rcases close_proxy sound holding mine with ⟨negative, same⟩ | ⟨nonneg, other, -, refers⟩
      · have zero : weight fd = 0 := if_neg (by omega)
        rw [same, zero]
        rfl
      · have one : weight fd = 1 := if_pos nonneg
        have fewer := Table.openCount_close sound refers
        omega
  | closesConn here =>
      have running : handler.at_.isReturned = false := by
        rw [here]
        rfl
      rw [held_eq handler running, here, held_returned { handler with at_ := .returned } rfl]
      simp only [Position.proxyfd, Option.elim_none, ↓reduceIte]
      rcases close_conn sound holding running with
        ⟨negative, -, same⟩ | ⟨nonneg, own, -, refers⟩
      · have zero : weight handler.connfd = 0 := if_neg (by omega)
        rw [same, zero]
      · have one : weight handler.connfd = 1 := if_pos nonneg
        have fewer := Table.openCount_close sound refers
        omega

end moves

end Handler

end NetworkSystem.Proxy
