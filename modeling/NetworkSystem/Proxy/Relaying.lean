import NetworkSystem.Proxy.Descriptors

/-! The bytes on the sockets of the proxy: every `recv` and `send` of the handlers, in any
order of the threads, and what comes from it for the clients and the servers. -/

namespace NetworkSystem.Proxy

open Bytes Descriptors

/-- What the call of `recv` or `send` in a handler does not decide. -/
def Reply.isSilent : Reply → Bool
  | .received _ => false
  | .sent => false
  | .block _ => false
  | _ => true

/-- What is still to be sent to the client when `read_request` has come to an end. -/
def Outcome.refusal : Outcome → Option Bytes
  | .refused (byte :: text) => some (byte :: text)
  | _ => none

/-- The history of a socket: what every `recv` has given and every `send` has taken. -/
structure Seen where
  received : List Bytes
  sent : List Bytes
  deriving DecidableEq

def Seen.hear (data : List Bytes) (seen : Seen) : Seen :=
  { seen with received := seen.received ++ data }

def Seen.tell (front : Bytes) (seen : Seen) : Seen := { seen with sent := seen.sent ++ [front] }

/-- The process and the histories of its sockets. `outgoing` is what a thread is about to send
to its client. -/
structure Relay where
  process : Process
  seen : Nat → Seen
  outgoing : Nat → Option Bytes

/-- One call of the process. A `send` takes a front of what it is given. -/
inductive Transfer where
  | accepting (fd : Option Int) (stack : Stack) (started : Bool)
  | call (i : Nat) (reply : Reply)
  | ask (i : Nat) (data : Option Bytes)
  | request (i : Nat) (taken : Nat)
  | block (i : Nat) (data : Bytes)
  | pass (i : Nat) (taken : Nat)

namespace Relay

def initial (listenfd : Nat) : Relay :=
  ⟨Process.initial listenfd, fun _ => ⟨[], []⟩, fun _ => none⟩

def called (relay : Relay) (i : Nat) (reply : Reply) : Option Process :=
  if relay.outgoing i = none then relay.process.step (.call i reply) else none

/-- One call; a descriptor that names no socket gives no bytes, and takes none. -/
def step (relay : Relay) : Transfer → Option Relay
  | .accepting fd stack started =>
      (relay.process.step (.accepting fd stack started)).map fun process => { relay with process }
  | .call i reply =>
      if reply.isSilent then
        (relay.called i reply).map fun process => { relay with process }
      else none
  | .ask i data =>
      match relay.process.handlers[i]? with
      | none => none
      | some handler =>
          let socket := relay.process.table.find handler.connfd
          if ∀ bytes ∈ data, socket.isSome ∧ bytes.length ≤ MAXBUF then
            (relay.called i (.received data)).map fun process =>
              { process
                seen := noted relay.seen (Seen.hear data.toList) socket
                outgoing := Function.update relay.outgoing i
                  (readRequest handler.stack data).refusal }
          else none
  | .request i taken =>
      match relay.process.handlers[i]? with
      | none => none
      | some handler =>
          match handler.at_ with
          | .requesting request proxyfd =>
              let socket := relay.process.table.find proxyfd
              (sendRequest request.target.address request.target.path request.version).bind
                fun text => (relay.called i .sent).map fun process =>
                  { relay with
                    process
                    seen := noted relay.seen (Seen.tell (text.take taken)) socket }
          | _ => none
  | .block i data =>
      match relay.process.handlers[i]? with
      | none => none
      | some handler =>
          match handler.at_ with
          | .relaying _ proxyfd _ =>
              let socket := relay.process.table.find proxyfd
              if socket.isSome ∧ data.length ≤ MAXBUF then
                (relay.called i (.block data.length)).map fun process =>
                  { process
                    seen := noted relay.seen (Seen.hear [data]) socket
                    outgoing := Function.update relay.outgoing i (some data) }
              else none
          | _ => none
  | .pass i taken =>
      match relay.process.handlers[i]?, relay.outgoing i with
      | some handler, some text =>
          some { relay with
            seen := noted relay.seen (Seen.tell (text.take taken))
              (relay.process.table.find handler.connfd)
            outgoing := Function.update relay.outgoing i none }
      | _, _ => none

def run : Relay → List Transfer → Option Relay := Runs.run step

def client (relay : Relay) (handler : Handler) : Option Seen := handler.accepted.map relay.seen

/-- The history of the socket to the server, before it is created an empty one. -/
def server (relay : Relay) (handler : Handler) : Seen :=
  (handler.created.map relay.seen).getD ⟨[], []⟩

end Relay

/-- The request that a handler has read. -/
def Handler.Reads (handler : Handler) (data : Option Bytes) (request : Request) : Prop :=
  ∃ uri version, readRequest handler.stack data = .accepted request.target uri version ∧
    request.uri = cstr uri ∧ request.version = cstr version

section took

-- what holds of the bytes that a `send` takes and those that it is given
variable (took : Bytes → Bytes → Prop)

/-- The texts for a client have been sent to it in their order, but for the last one when that
is on its way. -/
def Passed (outgoing : Option Bytes) (texts sent : List Bytes) : Prop :=
  ∃ passed, texts = passed ++ outgoing.toList ∧ List.Forall₂ took sent passed

/-- A server has got the request, and nothing else. -/
def Asked (request : Request) (server : Seen) : Prop :=
  ∃ text front,
    sendRequest request.target.address request.target.path request.version = some text ∧
      server.sent = [front] ∧ took front text

variable (client : Option Seen) (server : Seen)

/-- How many bytes a server has sent, in an `int`. -/
def size : Int := (server.received.flatten.length : Int).bmod (2 ^ 32)

/-- How far a handler has come with a request. -/
def Position.Progress (at_ : Position) (request : Request) : Prop :=
  match at_ with
  | .reading => False
  | .creating here => here = request ∧ server = ⟨[], []⟩
  | .lookup here _ => here = request ∧ server = ⟨[], []⟩
  | .connecting here _ => here = request ∧ server = ⟨[], []⟩
  | .requesting here _ => here = request ∧ server = ⟨[], []⟩
  | .relaying here proxyfd totalSize =>
      here = request ∧ totalSize = size server ∧ (0 ≤ proxyfd → Asked took request server)
  | .logging here _ totalSize => here = request ∧ totalSize = size server
  | _ => True

/-- What has gone over the sockets of a handler: nothing while it waits for a request; the
message that refuses it; or the request to the server, once, and to the client what the server
has sent. -/
inductive Traffic (outgoing : Option Bytes) (handler : Handler) : Prop where
  | waiting (here : handler.at_ = .reading) (idle : outgoing = none)
      (silent : ∀ seen ∈ client, seen = ⟨[], []⟩) (alone : server = ⟨[], []⟩)
  | refused (data : Option Bytes) (text : Bytes)
      (outcome : readRequest handler.stack data = .refused text)
      (here : handler.at_ = .returned) (alone : server = ⟨[], []⟩)
      (answer : ∀ seen ∈ client, seen.received = data.toList ∧
        Passed took outgoing (Outcome.refused text).refusal.toList seen.sent)
  | serving (data : Option Bytes) (request : Request) (reads : handler.Reads data request)
      (progress : handler.at_.Progress took server request)
      (asked : server = ⟨[], []⟩ ∨ Asked took request server)
      (relayed : ∀ seen ∈ client, seen.received = data.toList ∧
        Passed took outgoing server.received seen.sent)

end took

theorem size_nil (sent : List Bytes) : size ⟨[], sent⟩ = 0 := Int.zero_bmod

theorem size_hear (server : Seen) (data : Bytes) :
    (size server + data.length).bmod (2 ^ 32) = size (server.hear [data]) := by
  have length : ((server.received ++ [data]).flatten.length : Int) =
      server.received.flatten.length + data.length := by
    rw [List.flatten_append, List.flatten_singleton, List.length_append, Int.natCast_add]
  calc (size server + data.length).bmod (2 ^ 32)
      = ((server.received.flatten.length : Int) + data.length).bmod (2 ^ 32) := Int.bmod_add_bmod
    _ = size (server.hear [data]) := congrArg (Int.bmod · (2 ^ 32)) length.symm

theorem moves_fields {table table' : Table} {handler next : Handler} {ok : Bool}
    (moves : Moves table handler ok table' next) :
    next.connfd = handler.connfd ∧ next.stack = handler.stack ∧
      next.accepted = handler.accepted ∧ (next.created = handler.created ∨
        handler.at_.early = true ∧ next.created = some table.objects.length) := by
  cases moves with
  | opens request fd here free => exact ⟨rfl, rfl, rfl, Or.inr ⟨by rw [here]; rfl, rfl⟩⟩
  | _ => exact ⟨rfl, rfl, rfl, Or.inl rfl⟩

theorem table_of_step {table table' : Table} {handler next : Handler} {reply : Reply}
    (loud : reply.isSilent = false) (stepped : handler.step table reply = some (table', next)) :
    table' = table := by
  rcases handler with ⟨connfd, stack, at_, accepted, created⟩
  cases reply with
  | received data =>
      cases at_ with
      | reading =>
          simp only [Handler.step] at stepped
          split_ifs at stepped
          split at stepped
          · cases stepped
          · exact (Prod.mk.inj (Option.some.inj stepped)).1.symm
          · exact (Prod.mk.inj (Option.some.inj stepped)).1.symm
      | _ => cases stepped
  | sent =>
      cases at_ with
      | requesting request proxyfd =>
          simp only [Handler.step] at stepped
          split at stepped
          · cases stepped
          · exact (Prod.mk.inj (Option.some.inj stepped)).1.symm
      | _ => cases stepped
  | block n =>
      cases at_ with
      | relaying request proxyfd totalSize =>
          simp only [Handler.step] at stepped
          split_ifs at stepped
          exact (Prod.mk.inj (Option.some.inj stepped)).1.symm
      | _ => cases stepped
  | _ => cases loud

theorem running_of_step {table table' : Table} {handler next : Handler} {reply : Reply}
    (stepped : handler.step table reply = some (table', next)) :
    handler.at_.isReturned = false := by
  rcases handler with ⟨connfd, stack, at_, accepted, created⟩
  cases at_ with
  | returned => cases reply <;> cases stepped
  | _ => rfl

section handler

variable {took : Bytes → Bytes → Prop} {client : Option Seen} {server : Seen}
  {outgoing : Option Bytes} {table table' : Table} {handler next : Handler} {reply : Reply}

theorem Position.Progress.called {request : Request}
    (progress : handler.at_.Progress took server request) (silent : reply.isSilent = true)
    (stepped : handler.step table reply = some (table', next)) :
    next.at_.Progress took server request := by
  rcases handler with ⟨connfd, stack, at_, accepted, created⟩
  cases at_ with
  | reading => exact progress.elim
  | creating here =>
      cases reply with
      | socket fd =>
          cases fd with
          | none =>
              obtain ⟨rfl, rfl⟩ := Prod.mk.inj (Option.some.inj stepped)
              exact progress
          | some fd =>
              simp only [Handler.step] at stepped
              split_ifs at stepped
              obtain ⟨rfl, rfl⟩ := Prod.mk.inj (Option.some.inj stepped)
              exact progress
      | _ => cases stepped
  | lookup here clientfd =>
      cases reply with
      | found found =>
          obtain ⟨rfl, rfl⟩ := Prod.mk.inj (Option.some.inj stepped)
          cases found <;> exact progress
      | _ => cases stepped
  | connecting here clientfd =>
      cases reply with
      | connected connected =>
          obtain ⟨rfl, rfl⟩ := Prod.mk.inj (Option.some.inj stepped)
          exact progress
      | _ => cases stepped
  | requesting here proxyfd =>
      cases reply with
      | sent => cases silent
      | _ => cases stepped
  | relaying here proxyfd totalSize =>
      cases reply with
      | block n => cases silent
      | ended =>
          obtain ⟨rfl, rfl⟩ := Prod.mk.inj (Option.some.inj stepped)
          exact ⟨progress.1, progress.2.1⟩
      | _ => cases stepped
  | logging here proxyfd totalSize =>
      cases reply with
      | logged logString date peer =>
          simp only [Handler.step] at stepped
          split at stepped
          · cases stepped
          · obtain ⟨rfl, rfl⟩ := Prod.mk.inj (Option.some.inj stepped)
            trivial
      | _ => cases stepped
  | closing proxyfd =>
      cases reply with
      | closed =>
          obtain ⟨rfl, rfl⟩ := Prod.mk.inj (Option.some.inj stepped)
          trivial
      | _ => cases stepped
  | closingConn =>
      cases reply with
      | closed =>
          obtain ⟨rfl, rfl⟩ := Prod.mk.inj (Option.some.inj stepped)
          trivial
      | _ => cases stepped
  | returned => cases reply <;> cases stepped

theorem Traffic.called (traffic : Traffic took client server none handler)
    (silent : reply.isSilent = true) (stepped : handler.step table reply = some (table', next)) :
    Traffic took client server none next := by
  rcases Handler.step_moves stepped with ⟨ok, moves, -⟩
  have stack := (moves_fields moves).2.1
  cases traffic with
  | waiting here =>
      rcases handler with ⟨connfd, stack, at_, accepted, created⟩
      simp only at here
      subst here
      cases reply with
      | received data => cases silent
      | _ => cases stepped
  | refused data text outcome here =>
      rcases handler with ⟨connfd, stack, at_, accepted, created⟩
      simp only at here
      subst here
      cases reply <;> cases stepped
  | serving data request reads progress asked relayed =>
      rw [Handler.Reads, ← stack] at reads
      exact Traffic.serving data request reads (progress.called silent stepped) asked relayed

theorem Traffic.asks {data : Option Bytes} (traffic : Traffic took client server outgoing handler)
    (stepped : handler.step table (.received data) = some (table', next)) :
    Traffic took (client.map (Seen.hear data.toList)) server
      (readRequest handler.stack data).refusal next := by
  rcases handler with ⟨connfd, stack, at_, accepted, created⟩
  have reading : at_ = .reading := by
    cases at_ with
    | reading => rfl
    | _ => cases stepped
  subst reading
  have quiet : (∀ seen ∈ client, seen = ⟨[], []⟩) ∧ server = ⟨[], []⟩ := by
    cases traffic with
    | waiting here idle silent alone => exact ⟨silent, alone⟩
    | refused data text outcome here => cases here
    | serving data request reads progress => exact progress.elim
  rcases quiet with ⟨silent, alone⟩
  have heard : ∀ seen ∈ client.map (Seen.hear data.toList), seen = ⟨data.toList, []⟩ := by
    intro seen member
    obtain ⟨before, found, rfl⟩ := Option.map_eq_some_iff.mp member
    rw [silent before found]
    rfl
  simp only [Handler.step] at stepped
  split_ifs at stepped
  cases outcome : readRequest stack data with
  | overrun =>
      rw [outcome] at stepped
      cases stepped
  | refused text =>
      rw [outcome] at stepped
      obtain ⟨rfl, rfl⟩ := Prod.mk.inj (Option.some.inj stepped)
      apply Traffic.refused data text outcome rfl alone
      intro seen member
      rw [heard seen member]
      exact ⟨rfl, [], rfl, List.Forall₂.nil⟩
  | accepted target uri version =>
      rw [outcome] at stepped
      obtain ⟨rfl, rfl⟩ := Prod.mk.inj (Option.some.inj stepped)
      have progress : Position.Progress took server (.creating ⟨target, cstr uri, cstr version⟩)
          ⟨target, cstr uri, cstr version⟩ := ⟨rfl, alone⟩
      apply Traffic.serving data _ ⟨uri, version, outcome, rfl, rfl⟩ progress (Or.inl alone)
      intro seen member
      rw [heard seen member, alone]
      exact ⟨rfl, [], rfl, List.Forall₂.nil⟩

theorem Traffic.requests {request : Request} {proxyfd : Int} {after : Seen}
    (traffic : Traffic took client server outgoing handler)
    (here : handler.at_ = .requesting request proxyfd)
    (stepped : handler.step table .sent = some (table', next))
    (went : proxyfd < 0 ∧ after = server ∨ ∃ text front,
      sendRequest request.target.address request.target.path request.version = some text ∧
        after = server.tell front ∧ took front text) :
    Traffic took client after outgoing next := by
  rcases handler with ⟨connfd, stack, at_, accepted, created⟩
  simp only at here
  subst here
  simp only [Handler.step] at stepped
  split at stepped
  · cases stepped
  obtain ⟨rfl, rfl⟩ := Prod.mk.inj (Option.some.inj stepped)
  cases traffic with
  | waiting here => cases here
  | refused data text outcome here => cases here
  | serving data other reads progress asked relayed =>
      rcases progress with ⟨rfl, silent⟩
      subst silent
      rcases went with ⟨negative, rfl⟩ | ⟨text, front, built, rfl, taken⟩
      · have progress : Position.Progress took ⟨[], []⟩ (.relaying request proxyfd 0) request :=
          ⟨rfl, (size_nil []).symm, fun nonneg => by omega⟩
        exact Traffic.serving data request reads progress asked relayed
      · have gone : Asked took request (Seen.tell front ⟨[], []⟩) :=
          ⟨text, front, built, rfl, taken⟩
        have progress : Position.Progress took (Seen.tell front ⟨[], []⟩)
            (.relaying request proxyfd 0) request :=
          ⟨rfl, (size_nil [front]).symm, fun _ => gone⟩
        exact Traffic.serving data request reads progress (Or.inr gone) relayed

theorem Traffic.receives {request : Request} {proxyfd totalSize : Int} {data : Bytes}
    (traffic : Traffic took client server none handler)
    (here : handler.at_ = .relaying request proxyfd totalSize)
    (stepped : handler.step table (.block data.length) = some (table', next)) :
    Traffic took client (server.hear [data]) (some data) next := by
  rcases handler with ⟨connfd, stack, at_, accepted, created⟩
  simp only at here
  subst here
  simp only [Handler.step] at stepped
  split_ifs at stepped with checks
  obtain ⟨rfl, rfl⟩ := Prod.mk.inj (Option.some.inj stepped)
  cases traffic with
  | waiting here => cases here
  | refused data text outcome here => cases here
  | serving data' other reads progress asked relayed =>
      rcases progress with ⟨rfl, total, gone⟩
      have asked_ : Asked took request (server.hear [data]) := gone checks.2
      have progress : Position.Progress took (server.hear [data])
          (.relaying request proxyfd ((totalSize + data.length).bmod (2 ^ 32))) request := by
        refine ⟨rfl, ?_, fun _ => asked_⟩
        rw [total, size_hear]
      refine Traffic.serving data' request ?_ progress (Or.inr asked_) ?_
      · exact reads
      intro seen member
      rcases relayed seen member with ⟨read, passed, same, front⟩
      rw [Option.toList_none, List.append_nil] at same
      exact ⟨read, passed, congrArg (· ++ [data]) same, front⟩

theorem Traffic.passes {text front : Bytes}
    (traffic : Traffic took client server (some text) handler) (taken : took front text) :
    Traffic took (client.map (Seen.tell front)) server none handler := by
  have passes : ∀ (texts sent : List Bytes), Passed took (some text) texts sent →
      Passed took none texts (sent ++ [front]) := by
    intro texts sent before
    rcases before with ⟨passed, same, fronts⟩
    refine ⟨passed ++ [text], ?_, ?_⟩
    · rw [same, Option.toList_none, List.append_nil]
      rfl
    · exact List.rel_append fronts (List.Forall₂.cons taken List.Forall₂.nil)
  cases traffic with
  | waiting here idle => cases idle
  | refused data text' outcome here alone answer =>
      apply Traffic.refused data text' outcome here alone
      intro seen member
      obtain ⟨before, found, rfl⟩ := Option.map_eq_some_iff.mp member
      rcases answer before found with ⟨read, passed⟩
      exact ⟨read, passes _ _ passed⟩
  | serving data request reads progress asked relayed =>
      apply Traffic.serving data request reads progress asked
      intro seen member
      obtain ⟨before, found, rfl⟩ := Option.map_eq_some_iff.mp member
      rcases relayed before found with ⟨read, passed⟩
      exact ⟨read, passes _ _ passed⟩

end handler

end NetworkSystem.Proxy
