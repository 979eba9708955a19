import NetworkSystem.Proxy.Relaying

/-! The sockets of the proxy over all runs: every client has been sent what its own server has
sent, however the threads take turns and descriptors are used again. -/

namespace NetworkSystem.Proxy

open Bytes Descriptors

/-- `connfd` names the socket to the client. -/
def Handler.Aimed (table : Table) (handler : Handler) : Prop :=
  handler.connfd < 0 ∧ handler.accepted = none ∨
    ∃ socket, handler.accepted = some socket ∧ table.Refers handler.connfd socket

/-- What `send_request` sends. -/
def Position.text : Position → Option Bytes
  | .requesting request _ =>
      sendRequest request.target.address request.target.path request.version
  | _ => none

/-- What `took` says of a call: it holds of the bytes that a `send` takes. -/
def Relay.Takes (took : Bytes → Bytes → Prop) (relay : Relay) : Transfer → Prop
  | .request i taken => ∀ handler ∈ relay.process.handlers[i]?, ∀ text ∈ handler.at_.text,
      took (text.take taken) text
  | .pass i taken => ∀ text ∈ relay.outgoing i, took (text.take taken) text
  | _ => True

instance (took : Bytes → Bytes → Prop) [∀ front text, Decidable (took front text)]
    (relay : Relay) (transfer : Transfer) : Decidable (relay.Takes took transfer) :=
  match transfer with
  | .request i _ => inferInstanceAs (Decidable (∀ handler ∈ relay.process.handlers[i]?, _))
  | .pass i _ => inferInstanceAs (Decidable (∀ text ∈ relay.outgoing i, _))
  | .accepting _ _ _ => inferInstanceAs (Decidable True)
  | .call _ _ => inferInstanceAs (Decidable True)
  | .ask _ _ => inferInstanceAs (Decidable True)
  | .block _ _ => inferInstanceAs (Decidable True)

/-- What holds between two calls. -/
structure Relay.Keeps (took : Bytes → Bytes → Prop) (relay : Relay) : Prop where
  keeping : relay.process.Keeping
  aimed : ∀ i handler, relay.process.handlers[i]? = some handler →
    (relay.outgoing i).isSome = true → handler.Aimed relay.process.table
  traffic : ∀ i handler, relay.process.handlers[i]? = some handler →
    Traffic took (relay.client handler) (relay.server handler) (relay.outgoing i) handler
  silent : ∀ socket, (∀ handler ∈ relay.process.handlers, socket ∉ handler.sockets) →
    relay.seen socket = ⟨[], []⟩
  idle : ∀ i, relay.process.handlers.length ≤ i → relay.outgoing i = none

section find

variable {table : Table} {handler : Handler} (sound : table.Sound)

include sound

theorem find_conn (aimed : handler.Aimed table) : table.find handler.connfd = handler.accepted := by
  rcases aimed with ⟨negative, none_⟩ | ⟨socket, accepted, refers⟩
  · rw [none_]
    exact Table.find_of_negative sound negative
  · rw [accepted]
    exact Table.find_of_refers sound refers

theorem find_proxy (holding : Handler.Holding table handler) {fd : Int}
    (named : handler.at_.proxyfd = some fd) :
    fd < 0 ∧ table.find fd = none ∨
      ∃ socket, handler.created = some socket ∧ table.find fd = some socket := by
  rcases holding.proxy fd named with negative | ⟨socket, created, refers⟩
  · exact Or.inl ⟨negative, Table.find_of_negative sound negative⟩
  · exact Or.inr ⟨socket, created, Table.find_of_refers sound refers⟩

end find

namespace Relay

variable {took : Bytes → Bytes → Prop} {relay next : Relay} {i : Nat} {handler moved : Handler}

theorem views_same (same : ∀ socket ∈ handler.sockets, next.seen socket = relay.seen socket) :
    next.client handler = relay.client handler ∧ next.server handler = relay.server handler := by
  constructor
  · rw [client, client]
    cases accepted : handler.accepted with
    | none => rfl
    | some socket => exact congrArg some (same socket (Handler.mem_accepted accepted))
  · rw [server, server]
    cases created : handler.created with
    | none => rfl
    | some socket => exact same socket (Handler.mem_created created)

section named

variable (holding : Handler.Holding relay.process.table handler) {change : Seen → Seen}

include holding

theorem views_client (seen : next.seen = noted relay.seen change handler.accepted) :
    next.client handler = (relay.client handler).map change ∧
      next.server handler = relay.server handler := by
  constructor
  · rw [client, client, seen, map_noted]
  · rw [server, server]
    cases created : handler.created with
    | none => rfl
    | some socket =>
        have apart : handler.accepted ≠ some socket := fun accepted =>
          Handler.accepted_ne_created holding accepted created rfl
        rw [Option.map_some, Option.map_some, seen, noted_of_ne relay.seen change apart]

theorem views_server {socket : Nat} (created : handler.created = some socket)
    (seen : next.seen = noted relay.seen change (some socket)) :
    next.client handler = relay.client handler ∧
      next.server handler = change (relay.server handler) := by
  constructor
  · rw [client, client]
    cases accepted : handler.accepted with
    | none => rfl
    | some other =>
        have apart : some socket ≠ some other := fun same =>
          Handler.accepted_ne_created holding accepted created (Option.some.inj same).symm
        rw [Option.map_some, Option.map_some, seen, noted_of_ne relay.seen change apart]
  · rw [server, server, created, Option.map_some, Option.map_some, seen, noted_self]
    rfl

end named

theorem quiet_noted {named : Option Nat} {change : Seen → Seen}
    (own : ∀ socket ∈ named, socket ∈ handler.sockets) (socket : Nat)
    (foreign : socket ∉ handler.sockets) : noted relay.seen change named socket = relay.seen socket :=
  noted_of_ne relay.seen change (fun same => foreign (own socket same))

theorem Keeps.changed (keeps : relay.Keeps took) (here : relay.process.handlers[i]? = some handler)
    (handlers : next.process.handlers = relay.process.handlers.set i moved)
    (keeping : next.process.Keeping)
    (grown : ∀ socket ∈ handler.sockets, socket ∈ moved.sockets)
    (untouched : ∀ j other, j ≠ i → relay.process.handlers[j]? = some other →
      ∀ socket ∈ other.sockets,
        next.process.table.objects[socket]? = relay.process.table.objects[socket]?)
    (quiet : ∀ socket ∉ handler.sockets, next.seen socket = relay.seen socket)
    (others : ∀ j ≠ i, next.outgoing j = relay.outgoing j)
    (aimed : (next.outgoing i).isSome = true → moved.Aimed next.process.table)
    (traffic : Traffic took (next.client moved) (next.server moved) (next.outgoing i) moved) :
    next.Keeps took where
  keeping := keeping
  aimed := by
    intro j other there some_
    rw [handlers] at there
    rcases getElem?_set_cases there with ⟨rfl, rfl⟩ | ⟨different, old⟩
    · exact aimed some_
    · rw [others j different] at some_
      rcases keeps.aimed j other old some_ with none_ | ⟨socket, accepted, refers⟩
      · exact Or.inl none_
      · refine Or.inr ⟨socket, accepted, ?_⟩
        rwa [Table.Refers, untouched j other different old socket (Handler.mem_accepted accepted)]
  traffic := by
    intro j other there
    rw [handlers] at there
    rcases getElem?_set_cases there with ⟨rfl, rfl⟩ | ⟨different, old⟩
    · exact traffic
    · have same : ∀ socket ∈ other.sockets, next.seen socket = relay.seen socket := by
        intro socket own
        apply quiet
        intro shared
        exact different (keeps.keeping.apart j i other handler socket old here own shared)
      rw [(views_same same).1, (views_same same).2, others j different]
      exact keeps.traffic j other old
  silent := by
    intro socket foreign
    rw [handlers] at foreign
    have bound := (List.getElem?_eq_some_iff.mp here).1
    have own := foreign moved (List.mem_set bound moved)
    have before : socket ∉ handler.sockets := fun member => own (grown socket member)
    rw [quiet socket before]
    apply keeps.silent
    intro other member shared
    obtain ⟨j, there⟩ := List.mem_iff_getElem?.mp member
    by_cases same : j = i
    · rw [same] at there
      rw [Option.some.inj (here.symm.trans there)] at before
      exact before shared
    · rw [← List.getElem?_set_ne (Ne.symm same) (a := moved)] at there
      exact foreign other (List.mem_of_getElem? there) shared
  idle := by
    intro j beyond
    rw [handlers, List.length_set] at beyond
    have bound := (List.getElem?_eq_some_iff.mp here).1
    rw [others j (by omega)]
    exact keeps.idle j beyond

theorem called_eq_some {reply : Reply} {process : Process}
    (called : relay.called i reply = some process) : relay.outgoing i = none ∧
      ∃ handler table moved, relay.process.handlers[i]? = some handler ∧
        handler.step relay.process.table reply = some (table, moved) ∧
        process = ⟨table, relay.process.handlers.set i moved⟩ := by
  rw [Relay.called] at called
  split_ifs at called with idle
  rw [Process.step] at called
  cases here : relay.process.handlers[i]? with
  | none =>
      rw [here] at called
      cases called
  | some handler =>
      rw [here] at called
      obtain ⟨⟨table, moved⟩, stepped, rfl⟩ := Option.map_eq_some_iff.mp called
      exact ⟨idle, handler, table, moved, rfl, stepped, rfl⟩

theorem Keeps.foreign (keeps : relay.Keeps took) :
    ∀ handler ∈ relay.process.handlers, relay.process.table.objects.length ∉ handler.sockets := by
  intro handler member own
  have known := ((keeps.keeping.holding handler member).known _ own).2
  omega

/-- What a call of a handler does to the other handlers, when it changes no other histories. -/
theorem Keeps.called (keeps : relay.Keeps took) (here : relay.process.handlers[i]? = some handler)
    {reply : Reply} {table : Table}
    (stepped : handler.step relay.process.table reply = some (table, moved))
    (process : next.process = ⟨table, relay.process.handlers.set i moved⟩)
    (quiet : ∀ socket ∉ handler.sockets, next.seen socket = relay.seen socket)
    (others : ∀ j ≠ i, next.outgoing j = relay.outgoing j)
    (aimed : (next.outgoing i).isSome = true → moved.Aimed table)
    (traffic : Traffic took (next.client handler) (next.server handler) (next.outgoing i) moved) :
    next.Keeps took := by
  have holding := keeps.keeping.holding handler (List.mem_of_getElem? here)
  rcases Handler.step_moves stepped with ⟨ok, moves, -⟩
  rcases moves_fields moves with ⟨connfd, -, accepted, created⟩
  have fresh : next.seen relay.process.table.objects.length = ⟨[], []⟩ := by
    rw [quiet _ (keeps.foreign handler (List.mem_of_getElem? here))]
    exact keeps.silent _ keeps.foreign
  refine keeps.changed here (congrArg Process.handlers process) ?_ ?_ ?_ quiet others ?_ ?_
  · rw [process]
    exact keeps.keeping.called here moves
  · intro socket own
    rw [Handler.sockets, accepted]
    rcases created with same | ⟨early, -⟩
    · rwa [same]
    · rw [Handler.sockets, holding.early early, Option.toList_none, List.append_nil] at own
      exact List.mem_append_left _ own
  · intro j other different there socket own
    rw [process]
    exact Process.same_for_others keeps.keeping here moves different there socket own
  · rw [process]
    exact aimed
  · have client : next.client moved = next.client handler := congrArg (Option.map _) accepted
    have server : next.server moved = next.server handler := by
      rcases created with same | ⟨early, new⟩
      · rw [Relay.server, Relay.server, same]
      · rw [Relay.server, Relay.server, new, holding.early early]
        exact fresh
    rw [client, server]
    exact traffic

theorem Keeps.call (keeps : relay.Keeps took) {reply : Reply}
    (stepped : relay.step (.call i reply) = some next) : next.Keeps took := by
  simp only [step] at stepped
  split_ifs at stepped with silent
  obtain ⟨process, called, rfl⟩ := Option.map_eq_some_iff.mp stepped
  rcases called_eq_some called with ⟨idle, handler, table, moved, here, step, rfl⟩
  have traffic := keeps.traffic i handler here
  rw [idle] at traffic
  refine keeps.called here step rfl (fun _ _ => rfl) (fun _ _ => rfl) ?_ ?_
  · intro some_
    simp [idle] at some_
  · simp only [idle]
    exact traffic.called silent step

/-- Before a call that moves bytes and behind it `connfd` names the socket to the client. -/
theorem Keeps.aimed_called (keeps : relay.Keeps took)
    (here : relay.process.handlers[i]? = some handler) {reply : Reply} {table : Table}
    (loud : reply.isSilent = false)
    (stepped : handler.step relay.process.table reply = some (table, moved)) :
    handler.Aimed relay.process.table ∧ moved.Aimed table := by
  have holding := keeps.keeping.holding handler (List.mem_of_getElem? here)
  have aimed : handler.Aimed relay.process.table := holding.conn (running_of_step stepped)
  rcases Handler.step_moves stepped with ⟨ok, moves, -⟩
  rcases moves_fields moves with ⟨connfd, -, accepted, -⟩
  refine ⟨aimed, ?_⟩
  rw [table_of_step loud stepped, Handler.Aimed, connfd, accepted]
  exact aimed

theorem Keeps.ask (keeps : relay.Keeps took) {data : Option Bytes}
    (stepped : relay.step (.ask i data) = some next) : next.Keeps took := by
  simp only [step] at stepped
  cases here : relay.process.handlers[i]? with
  | none =>
      rw [here] at stepped
      cases stepped
  | some handler =>
      rw [here] at stepped
      simp only at stepped
      split_ifs at stepped
      obtain ⟨process, called, same⟩ := Option.map_eq_some_iff.mp stepped
      rcases called_eq_some called with ⟨idle, other, table, moved, here', step, rfl⟩
      obtain rfl := Option.some.inj (here.symm.trans here')
      have holding := keeps.keeping.holding handler (List.mem_of_getElem? here)
      rcases keeps.aimed_called here rfl step with ⟨aimed, after⟩
      have seen : next.seen = noted relay.seen (Seen.hear data.toList) handler.accepted := by
        rw [← same, find_conn keeps.keeping.sound aimed]
      have outgoing : next.outgoing = Function.update relay.outgoing i
          (readRequest handler.stack data).refusal := by
        rw [← same]
      refine keeps.called here step (by rw [← same]) ?_ ?_ (fun _ => after) ?_
      · rw [seen]
        exact quiet_noted fun socket own => Handler.mem_accepted own
      · rw [outgoing]
        exact fun j different => Function.update_of_ne different _ _
      · rcases views_client holding seen with ⟨client, server⟩
        rw [client, server, outgoing, Function.update_self]
        exact (keeps.traffic i handler here).asks step

theorem Keeps.request (keeps : relay.Keeps took) {taken : Nat}
    (takes : relay.Takes took (.request i taken))
    (stepped : relay.step (.request i taken) = some next) : next.Keeps took := by
  simp only [step] at stepped
  cases here : relay.process.handlers[i]? with
  | none =>
      rw [here] at stepped
      cases stepped
  | some handler =>
      rw [here] at stepped
      simp only at stepped
      split at stepped
      case h_2 => cases stepped
      case h_1 request proxyfd at_ =>
        obtain ⟨text, built, stepped⟩ := Option.bind_eq_some_iff.mp stepped
        obtain ⟨process, called, same⟩ := Option.map_eq_some_iff.mp stepped
        rcases called_eq_some called with ⟨idle, other, table, moved, here', step, rfl⟩
        obtain rfl := Option.some.inj (here.symm.trans here')
        have holding := keeps.keeping.holding handler (List.mem_of_getElem? here)
        have outgoing : next.outgoing = relay.outgoing := by
          rw [← same]
        have traffic := keeps.traffic i handler here
        have after := (keeps.aimed_called here rfl step).2
        have named : handler.at_.proxyfd = some proxyfd := by
          rw [at_]
          rfl
        rcases find_proxy keeps.keeping.sound holding named with
          ⟨negative, unknown⟩ | ⟨socket, created, found⟩
        · have seen : next.seen = relay.seen := by
            rw [← same, unknown]
            rfl
          have client : next.client handler = relay.client handler := by
            rw [Relay.client, seen, Relay.client]
          have server : next.server handler = relay.server handler := by
            rw [Relay.server, seen, Relay.server]
          refine keeps.called here step (by rw [← same]) ?_ ?_ (fun _ => after) ?_
          · exact fun socket _ => congrFun seen socket
          · exact fun j _ => congrFun outgoing j
          · rw [outgoing, client, server]
            exact traffic.requests at_ step (Or.inl ⟨negative, rfl⟩)
        · have seen : next.seen = noted relay.seen (Seen.tell (text.take taken)) (some socket) := by
            rw [← same, found]
          rcases views_server holding created seen with ⟨client, server⟩
          refine keeps.called here step (by rw [← same]) ?_ ?_ (fun _ => after) ?_
          · rw [seen]
            apply quiet_noted
            intro own member
            rw [← Option.some.inj member]
            exact Handler.mem_created created
          · exact fun j _ => congrFun outgoing j
          · rw [outgoing, client, server]
            exact traffic.requests at_ step (Or.inr ⟨text, _, built, rfl,
              takes handler here text (by rw [at_]; exact built)⟩)

theorem Keeps.block (keeps : relay.Keeps took) {data : Bytes}
    (stepped : relay.step (.block i data) = some next) : next.Keeps took := by
  simp only [step] at stepped
  cases here : relay.process.handlers[i]? with
  | none =>
      rw [here] at stepped
      cases stepped
  | some handler =>
      rw [here] at stepped
      simp only at stepped
      split at stepped
      case h_2 => cases stepped
      case h_1 request proxyfd totalSize at_ =>
        split_ifs at stepped with gives
        obtain ⟨process, called, same⟩ := Option.map_eq_some_iff.mp stepped
        rcases called_eq_some called with ⟨idle, other, table, moved, here', step, rfl⟩
        obtain rfl := Option.some.inj (here.symm.trans here')
        have holding := keeps.keeping.holding handler (List.mem_of_getElem? here)
        have outgoing : next.outgoing = Function.update relay.outgoing i (some data) := by
          rw [← same]
        have after := (keeps.aimed_called here rfl step).2
        have traffic := keeps.traffic i handler here
        rw [idle] at traffic
        have named : handler.at_.proxyfd = some proxyfd := by
          rw [at_]
          rfl
        rcases find_proxy keeps.keeping.sound holding named with
          ⟨-, unknown⟩ | ⟨socket, created, found⟩
        · rw [unknown] at gives
          cases gives.1
        · have seen : next.seen = noted relay.seen (Seen.hear [data]) (some socket) := by
            rw [← same, found]
          rcases views_server holding created seen with ⟨client, server⟩
          refine keeps.called here step (by rw [← same]) ?_ ?_ (fun _ => after) ?_
          · rw [seen]
            apply quiet_noted
            intro own member
            rw [← Option.some.inj member]
            exact Handler.mem_created created
          · rw [outgoing]
            exact fun j different => Function.update_of_ne different _ _
          · rw [outgoing, Function.update_self, client, server]
            exact traffic.receives at_ step

theorem Keeps.pass (keeps : relay.Keeps took) {taken : Nat}
    (takes : relay.Takes took (.pass i taken))
    (stepped : relay.step (.pass i taken) = some next) : next.Keeps took := by
  simp only [step] at stepped
  split at stepped
  case h_2 => cases stepped
  case h_1 handler text here going =>
    have same := Option.some.inj stepped
    have process : next.process = relay.process := by
      rw [← same]
    have holding := keeps.keeping.holding handler (List.mem_of_getElem? here)
    have aimed := keeps.aimed i handler here (by rw [going]; rfl)
    have seen : next.seen =
        noted relay.seen (Seen.tell (text.take taken)) handler.accepted := by
      rw [← same, find_conn keeps.keeping.sound aimed]
    have outgoing : next.outgoing = Function.update relay.outgoing i none := by
      rw [← same]
    have traffic := keeps.traffic i handler here
    rw [going] at traffic
    have handlers : next.process.handlers = relay.process.handlers.set i handler := by
      obtain ⟨inside, value⟩ := List.getElem?_eq_some_iff.mp here
      rw [process, ← value, List.set_getElem_self]
    refine keeps.changed here handlers (by rw [process]; exact keeps.keeping) (fun _ own => own)
      ?_ ?_ ?_ ?_ ?_
    · intro j other _ _ socket _
      rw [process]
    · rw [seen]
      exact quiet_noted fun socket own => Handler.mem_accepted own
    · rw [outgoing]
      exact fun j different => Function.update_of_ne different _ _
    · rw [process]
      exact fun _ => aimed
    · rcases views_client holding seen with ⟨client, server⟩
      rw [outgoing, Function.update_self, client, server]
      exact traffic.passes (takes text going)

theorem getElem?_concat_cases {α : Type} {l : List α} {a b : α} {j : Nat}
    (found : (l ++ [a])[j]? = some b) : l[j]? = some b ∨ j = l.length ∧ b = a := by
  by_cases old : j < l.length
  · rw [List.getElem?_append_left old] at found
    exact Or.inl found
  · have inside := (List.getElem?_eq_some_iff.mp found).1
    rw [List.length_append, List.length_singleton] at inside
    have last : j = l.length := by omega
    rw [last, List.getElem?_concat_length] at found
    exact Or.inr ⟨last, (Option.some.inj found).symm⟩

theorem accepting_eq_some {fd : Option Int} {stack : Stack} {started : Bool}
    {process after : Process} (stepped : process.step (.accepting fd stack started) = some after) :
    (∀ socket < process.table.objects.length,
      after.table.objects[socket]? = process.table.objects[socket]?) ∧
    (after.handlers = process.handlers ∨ ∃ connfd accepted,
      (∀ socket ∈ accepted, socket = process.table.objects.length) ∧
        after.handlers = process.handlers ++ [Process.started connfd stack accepted]) := by
  cases fd with
  | none =>
      rw [← Option.some.inj stepped]
      refine ⟨fun _ _ => rfl, ?_⟩
      cases started with
      | false => exact Or.inl rfl
      | true => exact Or.inr ⟨-1, none, nofun, rfl⟩
  | some fd =>
      simp only [Process.step] at stepped
      split_ifs at stepped
      · rw [← Option.some.inj stepped]
        refine ⟨fun _ old => Table.objects_opened old, ?_⟩
        refine Or.inr ⟨fd, some process.table.objects.length, ?_, rfl⟩
        exact fun socket member => (Option.some.inj member).symm
      · rw [← Option.some.inj stepped]
        exact ⟨fun _ old => Table.objects_opened old, Or.inl rfl⟩

theorem Keeps.accepting (keeps : relay.Keeps took) {fd : Option Int} {stack : Stack}
    {started : Bool} (stepped : relay.step (.accepting fd stack started) = some next) :
    next.Keeps took := by
  obtain ⟨process, accepting, rfl⟩ := Option.map_eq_some_iff.mp stepped
  rcases accepting_eq_some accepting with ⟨objects, handlers⟩
  have old : ∀ i handler, relay.process.handlers[i]? = some handler →
      (relay.outgoing i).isSome = true → handler.Aimed process.table := by
    intro i handler here some_
    have known := (keeps.keeping.holding handler (List.mem_of_getElem? here)).known
    rcases keeps.aimed i handler here some_ with none_ | ⟨socket, accepted, refers⟩
    · exact Or.inl none_
    · refine Or.inr ⟨socket, accepted, ?_⟩
      rwa [Table.Refers, objects socket (known socket (Handler.mem_accepted accepted)).2]
  have cases_ : ∀ i handler, process.handlers[i]? = some handler →
      relay.process.handlers[i]? = some handler ∨ relay.outgoing i = none ∧
        ∃ connfd accepted, handler = Process.started connfd stack accepted ∧
          ∀ socket ∈ accepted, relay.seen socket = ⟨[], []⟩ := by
    intro i handler here
    rcases handlers with same | ⟨connfd, accepted, new, more⟩
    · rw [same] at here
      exact Or.inl here
    · rw [more] at here
      rcases getElem?_concat_cases here with before | ⟨last, rfl⟩
      · exact Or.inl before
      · refine Or.inr ⟨keeps.idle i last.ge, connfd, accepted, rfl, ?_⟩
        intro socket own
        rw [new socket own]
        exact keeps.silent _ keeps.foreign
  constructor
  · exact (Process.step_keeps keeps.keeping accepting).1
  · intro i handler here some_
    rcases cases_ i handler here with before | ⟨idle, -⟩
    · exact old i handler before some_
    · simp [idle] at some_
  · intro i handler here
    rcases cases_ i handler here with before | ⟨idle, connfd, accepted, rfl, silent⟩
    · exact keeps.traffic i handler before
    · apply Traffic.waiting rfl idle
      · intro seen member
        obtain ⟨socket, own, rfl⟩ := Option.map_eq_some_iff.mp member
        exact silent socket own
      · rfl
  · intro socket foreign
    apply keeps.silent
    intro handler member
    apply foreign
    rcases handlers with same | ⟨connfd, accepted, -, more⟩
    · rwa [same]
    · rw [more]
      exact List.mem_append_left _ member
  · intro i beyond
    apply keeps.idle
    rcases handlers with same | ⟨connfd, accepted, -, more⟩
    · rwa [same] at beyond
    · rw [more, List.length_append] at beyond
      omega

theorem Keeps.step (keeps : relay.Keeps took) (transfer : Transfer)
    (takes : relay.Takes took transfer) (stepped : relay.step transfer = some next) :
    next.Keeps took := by
  cases transfer with
  | accepting fd stack started => exact keeps.accepting stepped
  | call i reply => exact keeps.call stepped
  | ask i data => exact keeps.ask stepped
  | request i taken => exact keeps.request takes stepped
  | block i data => exact keeps.block stepped
  | pass i taken => exact keeps.pass takes stepped

theorem initial_keeps (took : Bytes → Bytes → Prop) (listenfd : Nat) :
    (initial listenfd).Keeps took where
  keeping := Process.initial_keeping listenfd
  aimed _ _ here := by cases here
  traffic _ _ here := by cases here
  silent _ _ := rfl
  idle _ _ := rfl

theorem keeps_run (took : Bytes → Bytes → Prop) (listenfd : Nat) (transfers : List Transfer)
    (last : Relay) (reached : (initial listenfd).run transfers = some last)
    (takes : ∀ front transfer middle, front ++ [transfer] <+: transfers →
      (initial listenfd).run front = some middle → middle.Takes took transfer) :
    last.Keeps took := by
  apply Runs.run_along Relay.step (Keeps took) (Takes took) _ (initial listenfd) last transfers
    (initial_keeps took listenfd) takes reached
  intro relay transfer next keeps takes stepped
  exact keeps.step transfer takes stepped

end Relay

/-- The proxy relays, and mixes nothing up: in every run of it, with any number of connections
and any order of the threads, a client has been sent the blocks of the server that was asked
for it, in their order, a server the request of its client once, and no socket belongs to two
handlers. `took` tells what is known of every `send`: the bytes that it takes are a front of its
text, or all of it. -/
theorem traffic_apart (took : Bytes → Bytes → Prop) (listenfd : Nat) (transfers : List Transfer)
    (last : Relay) (reached : (Relay.initial listenfd).run transfers = some last)
    (takes : ∀ front transfer middle, front ++ [transfer] <+: transfers →
      (Relay.initial listenfd).run front = some middle → middle.Takes took transfer) :
    (∀ i handler, last.process.handlers[i]? = some handler →
      Traffic took (last.client handler) (last.server handler) (last.outgoing i) handler) ∧
    (∀ (i j : Nat) (one two : Handler) (socket : Nat), last.process.handlers[i]? = some one →
      last.process.handlers[j]? = some two → socket ∈ one.sockets → socket ∈ two.sockets → i = j) ∧
    ∀ socket, (∀ handler ∈ last.process.handlers, socket ∉ handler.sockets) →
      last.seen socket = ⟨[], []⟩ := by
  have keeps := Relay.keeps_run took listenfd transfers last reached takes
  exact ⟨keeps.traffic, keeps.keeping.apart, keeps.silent⟩

def secondRequest : Bytes := ascii "GET http://g/q HTTP/1.0\r\n\r\n"

def sampleTransfers : List Transfer :=
  [.accepting (some 4) freshStack true, .ask 0 (some shortRequest),
    .accepting (some 5) freshStack true, .ask 1 (some secondRequest), .call 0 (.socket (some 6)),
    .call 0 (.found true), .call 0 (.connected true), .request 0 4096, .block 0 [1, 2],
    .pass 0 2, .call 0 .ended, .call 0 (.logged [] [] none), .call 0 .closed,
    .call 1 (.socket (some 6)), .call 0 .closed, .call 1 (.found true), .call 1 (.connected true),
    .request 1 4096, .block 1 [3], .pass 1 1, .block 1 [4]]

theorem traffic_apart_two :
    ∃ last, (Relay.initial 3).run sampleTransfers = some last ∧
      [1, 2, 3, 4].map last.seen =
        [⟨[shortRequest], [[1, 2]]⟩, ⟨[secondRequest], [[3]]⟩,
          ⟨[[1, 2]], [ascii "GET /p HTTP/1.0\r\nHost: h\r\n\r\n"]⟩,
          ⟨[[3], [4]], [ascii "GET /q HTTP/1.0\r\nHost: g\r\n\r\n"]⟩] ∧
      ∀ i handler, last.process.handlers[i]? = some handler →
        Traffic (· <+: ·) (last.client handler) (last.server handler) (last.outgoing i)
          handler := by
  have histories : ((Relay.initial 3).run sampleTransfers).map
      (fun last => [1, 2, 3, 4].map last.seen) =
        some [⟨[shortRequest], [[1, 2]]⟩, ⟨[secondRequest], [[3]]⟩,
          ⟨[[1, 2]], [ascii "GET /p HTTP/1.0\r\nHost: h\r\n\r\n"]⟩,
          ⟨[[3], [4]], [ascii "GET /q HTTP/1.0\r\nHost: g\r\n\r\n"]⟩] := by
    decide +kernel
  obtain ⟨last, reached, seen⟩ := Option.map_eq_some_iff.mp histories
  have fronts : Runs.Along Relay.step (Relay.Takes (· <+: ·)) (Relay.initial 3)
      sampleTransfers := by
    decide +kernel
  have apart := traffic_apart (· <+: ·) 3 sampleTransfers last reached
    (Runs.steps_of_along Relay.step fronts)
  exact ⟨last, reached, seen, apart.1⟩

end NetworkSystem.Proxy
