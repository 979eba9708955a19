import NetworkSystem.Dfc.Failover
import NetworkSystem.Dfc.Footprints

/-! The rounds of the client do not depend on the order in which their threads run: the
threads of a round have no socket together, and no file that one of them writes. -/

namespace NetworkSystem.Dfc

open Bytes Store Calls

/-- What the threads of a round leave: their sockets, the directory and what they return. -/
structure Round where
  conns : Nat → Conn
  disk : Disk
  results : Nat → Result

namespace Round

open Interleave Running

variable (programs : Nat → Handler.Program Result)

def config (round : Round) (waiting : List Nat) : Config Nat Running Disk where
  locals i := ⟨round.conns i, .program (if i ∈ waiting then programs i else .ret (round.results i))⟩
  shared := round.disk

def ran (round : Round) (i : Nat) (result : Result) (world : World) : Round where
  conns := Function.update round.conns i world.conn
  disk := world.disk
  results := Function.update round.results i result

def inTurn : List Nat → Round → Option Round
  | [], round => some round
  | i :: rest, round =>
      match Prog.run respond (programs i) ⟨round.conns i, round.disk⟩ with
      | none => none
      | some (result, world) => inTurn rest (round.ran i result world)

theorem config_ran {i : Nat} {rest : List Nat} (first : i ∉ rest) (round : Round)
    (result : Result) (world : World) :
    (round.config programs (i :: rest)).put i ⟨world.conn, .program (.ret result)⟩ world.disk =
      (round.ran i result world).config programs rest := by
  rw [Config.put, config, config, Config.mk.injEq]
  constructor
  · funext j
    by_cases same : j = i
    · subst same
      simp only [ran, Function.update_self, first, ↓reduceIte]
    · simp only [ran, Function.update_of_ne same, List.mem_cons, same, false_or]
  · rfl

variable {programs}

theorem run_inTurn {hosts : List Nat} (once : hosts.Nodup) {round last : Round}
    (ended : inTurn programs hosts round = some last) :
    ∃ order, run step (round.config programs hosts) order = some (last.config programs []) := by
  induction hosts generalizing round with
  | nil =>
      rw [← Option.some.inj ended]
      exact ⟨[], rfl⟩
  | cons i rest ih =>
      rw [List.nodup_cons] at once
      simp only [inTurn] at ended
      cases ran : Prog.run respond (programs i) ⟨round.conns i, round.disk⟩ with
      | none =>
          rw [ran] at ended
          cases ended
      | some both =>
          rw [ran] at ended
          rcases both with ⟨result, world⟩
          have here : ((round.config programs (i :: rest)).locals i, round.disk) =
              (⟨round.conns i, .program (programs i)⟩, round.disk) := by
            simp only [config, List.mem_cons, true_or, ↓reduceIte]
          rcases run_alone step (alone_program ran) here with ⟨front, first⟩
          rw [config_ran programs once.1] at first
          rcases ih once.2 ended with ⟨back, later⟩
          exact ⟨front ++ back, run_append_eq_some step first later⟩

/-- Every thread has returned. -/
def Ended (config : Config Nat Running Disk) : Prop :=
  ∀ i, ∃ result, (config.locals i).doing = .program (.ret result)

theorem Ended.quiet {config : Config Nat Running Disk} (ended : Ended config) :
    Quiet step config := by
  intro i
  rcases ended i with ⟨result, returned⟩
  rw [move, step, returned]
  rfl

variable (programs) in
theorem ended_config (round : Round) : Ended (round.config programs []) := by
  intro i
  simp only [config, List.not_mem_nil, ↓reduceIte]
  exact ⟨round.results i, rfl⟩

theorem stuck_stays {thread : Running} (stuck : thread.Stuck) {i : Nat}
    {config last : Config Nat Running Disk} {order : List Nat} (here : config.locals i = thread)
    (reached : run step config order = some last) : last.locals i = thread := by
  apply Runs.run_invariant (move step) (fun config => config.locals i = thread) _ _ _ _ here reached
  intro config j next here moved
  obtain ⟨l, s, stepped, rfl⟩ := (move_eq_some step).mp moved
  by_cases same : i = j
  · rw [← same, here, stuck.1] at stepped
    cases stepped
  · rw [Config.put_of_ne _ same]
    exact here

section apart

variable {files : Nat → Footprint} {hosts : List Nat}
  (owns : ∀ i ∈ hosts, Handler.Owns (files i) (programs i))
  (apart : ∀ i j, i ≠ j → (files i).Apart (files j))

include owns in
theorem owned_config (round : Round) :
    ∀ i, ((round.config programs hosts).locals i).Owned (files i) := by
  intro i
  by_cases member : i ∈ hosts
  · simp only [config, Owned, member, ↓reduceIte]
    exact owns i member
  · simp only [config, Owned, member, ↓reduceIte]
    exact Handler.Owns.ret _

include owns apart

/-- Where the threads one after the other come to an end, so they do in any order. -/
theorem any_order (once : hosts.Nodup) {round last : Round}
    (ended : inTurn programs hosts round = some last) {order : List Nat}
    {middle : Config Nat Running Disk}
    (behind : run step (round.config programs hosts) order = some middle) :
    (∃ rest, run step middle rest = some (last.config programs [])) ∧
      (Quiet step middle → middle = last.config programs []) := by
  rcases run_inTurn once ended with ⟨turns, reached⟩
  have owned := owned_config owns round
  have commutes := commuting files apart
  have quiet := (ended_config programs last).quiet
  constructor
  · rcases commutes.run_confluent owned reached quiet behind with ⟨rest, there, -⟩
    exact ⟨rest, there⟩
  · intro still
    exact (commutes.run_unique owned reached quiet behind still).1

theorem no_order (once : hosts.Nodup) {round : Round}
    (waits : inTurn programs hosts round = none) {order : List Nat}
    {last : Config Nat Running Disk}
    (reached : run step (round.config programs hosts) order = some last) : ¬ Ended last := by
  intro ended
  induction hosts generalizing round order with
  | nil => cases waits
  | cons i rest ih =>
      have owned := owned_config owns round
      have commutes := commuting files apart
      have here : ((round.config programs (i :: rest)).locals i, round.disk) =
          (⟨round.conns i, .program (programs i)⟩, round.disk) := by
        simp only [config, List.mem_cons, true_or, ↓reduceIte]
      rw [List.nodup_cons] at once
      cases ran : Prog.run respond (programs i) ⟨round.conns i, round.disk⟩ with
      | none =>
          -- A thread that waits forever in its turn waits forever in any order.
          rcases stuck_program ran with ⟨thread, after, alone, stuck⟩
          rcases run_alone step alone here with ⟨front, first⟩
          rcases commutes.run_confluent owned reached ended.quiet first with ⟨back, there, -⟩
          have stays := stuck_stays stuck (Config.put_self _ i thread after) there
          rcases ended i with ⟨result, returned⟩
          rw [stays] at returned
          exact stuck.2 result returned
      | some both =>
          rcases both with ⟨result, world⟩
          simp only [inTurn, ran] at waits
          rcases run_alone step (alone_program ran) here with ⟨front, first⟩
          rw [config_ran programs once.1] at first
          rcases commutes.run_confluent owned reached ended.quiet first with ⟨back, there, -⟩
          exact ih (fun j member => owns j (List.mem_cons_of_mem _ member)) once.2 waits there

end apart

end Round

/-- The program of every host's thread, for the list of the threads that are started. -/
def roundPrograms (password : Bytes) (nh : Nat) (path filename pkt : Bytes)
    (stack : Nat → Bytes) (threads : List (Nat × (Int × Int))) (i : Nat) :
    Handler.Program Result :=
  match threads.lookup i with
  | none => .ret (.code 0)
  | some parts => Handler.connectionHandler password nh ⟨parts, path, filename, pkt⟩ (stack i)

def roundFiles (path filename pkt : Bytes) (threads : List (Nat × (Int × Int))) (i : Nat) :
    Footprint :=
  match threads.lookup i with
  | none => ⟨fun _ => False, fun _ => False⟩
  | some parts => ThreadParam.files ⟨parts, path, filename, pkt⟩

theorem owns_round (password : Bytes) (nh : Nat) (path filename pkt : Bytes)
    (stack : Nat → Bytes) (threads : List (Nat × (Int × Int))) (i : Nat) :
    Handler.Owns (roundFiles path filename pkt threads i)
      (roundPrograms password nh path filename pkt stack threads i) := by
  rw [roundFiles, roundPrograms]
  cases threads.lookup i with
  | none => exact Handler.Owns.ret _
  | some parts => exact Handler.owns_connectionHandler password nh _ _

theorem mem_of_lookup {threads : List (Nat × (Int × Int))} {i : Nat} {parts : Int × Int}
    (found : threads.lookup i = some parts) : (i, parts) ∈ threads := by
  obtain ⟨front, back, rfl, -⟩ := List.lookup_eq_some_iff.mp found
  exact List.mem_append_right _ List.mem_cons_self

theorem asks_iff {parts : Int × Int} {part : Nat} :
    Asks parts part ↔ (part : Int) ∈ [parts.1, parts.2] := by
  simp only [Asks, List.mem_cons, List.not_mem_nil, or_false, eq_comm]

/-- The threads of a round have no file together that one of them writes. -/
theorem apart_round (cmdType : UInt8) (msg : Option Bytes) (conf : Option Credentials)
    (path filename : Bytes) (available : Nat → Bool) {h nh : Nat} (hash : h < nh) (i j : Nat)
    (other : i ≠ j) :
    let files := roundFiles path filename (buildMsgPacket cmdType 0 msg conf)
      (schedule cmdType available h nh)
    (files i).Apart (files j) := by
  intro files written writes
  simp only [files, roundFiles] at writes ⊢
  cases first : (schedule cmdType available h nh).lookup i with
  | none =>
      rw [first] at writes
      exact writes.elim
  | some parts =>
      rw [first] at writes
      obtain ⟨get, part, inside, asked, rfl⟩ := writes
      rw [msgType_build] at get
      subst get
      cases second : (schedule CMD_GET available h nh).lookup j with
      | none => exact ⟨id, id⟩
      | some others =>
          have member := mem_of_lookup first
          have member' := mem_of_lookup second
          constructor
          · exact setPartitionName_ne_filename filename part
          · rintro ⟨-, part', inside', asked', same⟩
            obtain ⟨n, -, rfl⟩ :=
              (schedule_valid _ _ _ _ hash i parts member part inside).resolve_left asked
            obtain ⟨m, -, rfl⟩ :=
              (schedule_valid _ _ _ _ hash j others member' part' inside').resolve_left asked'
            rw [← setPartitionName_injective filename n m same] at inside'
            apply other
            exact asked_once available h nh hash n i j parts others member member'
              (asks_iff.mpr inside) (asks_iff.mpr inside')

/-- The threads that `main` starts for a command, in any order of their calls: when they
come to an end one after the other, every order can be continued to the same end and an
order that stops is there; when one of them waits forever, no order ends. -/
theorem round_any_order (cmdType : UInt8) (msg : Option Bytes) (conf : Credentials)
    (path filename : Bytes) (stack : Nat → Bytes) (available : Nat → Bool) {h nh : Nat}
    (hash : h < nh) (round : Round) :
    let pkt := buildMsgPacket cmdType 0 msg (some conf)
    let threads := schedule cmdType available h nh
    let programs := roundPrograms conf.password nh path filename pkt stack threads
    let hosts := threads.map Prod.fst
    (∀ last, Round.inTurn programs hosts round = some last → ∀ order middle,
      Interleave.run Running.step (round.config programs hosts) order = some middle →
        (∃ rest, Interleave.run Running.step middle rest = some (last.config programs [])) ∧
        (Interleave.Quiet Running.step middle → middle = last.config programs [])) ∧
    (Round.inTurn programs hosts round = none → ∀ order last,
      Interleave.run Running.step (round.config programs hosts) order = some last →
        ¬ Round.Ended last) := by
  intro pkt threads programs hosts
  have once : hosts.Nodup := schedule_nodup cmdType available h nh
  have owns : ∀ i ∈ hosts, Handler.Owns (roundFiles path filename pkt threads i) (programs i) :=
    fun i _ => owns_round conf.password nh path filename pkt stack threads i
  have apart : ∀ i j, i ≠ j → (roundFiles path filename pkt threads i).Apart
      (roundFiles path filename pkt threads j) :=
    fun i j other => apart_round cmdType msg (some conf) path filename available hash i j other
  constructor
  · intro last ended order middle behind
    exact Round.any_order owns apart once ended behind
  · intro waits order last reached
    exact Round.no_order owns apart once waits reached

/-- A file of three bytes, in front of a PUT of it to two hosts. -/
def sampleRound : Round := ⟨fun _ => sampleConn, sampleDisk.save [102] [1, 2, 3], fun _ => .code 0⟩

def sampleOrder : List Nat := [0, 1, 1, 0, 0, 1, 0, 1]

theorem round_any_order_put :
    let threads := schedule CMD_PUT (fun _ => true) 0 2
    let programs := roundPrograms sampleUser.password 2 [] [102]
      (buildMsgPacket CMD_PUT 0 none (some sampleUser)) (fun _ => []) threads
    ∃ last middle, Round.inTurn programs (threads.map Prod.fst) sampleRound = some last ∧
      Interleave.run Running.step (sampleRound.config programs (threads.map Prod.fst))
        sampleOrder = some middle ∧
      ∃ rest, Interleave.run Running.step middle rest = some (last.config programs []) := by
  intro threads programs
  have ends : (Round.inTurn programs (threads.map Prod.fst) sampleRound).isSome = true := by
    decide +kernel
  have begins : (Interleave.run Running.step (sampleRound.config programs (threads.map Prod.fst))
      sampleOrder).isSome = true := by
    decide +kernel
  obtain ⟨last, ended⟩ := Option.isSome_iff_exists.mp ends
  obtain ⟨middle, behind⟩ := Option.isSome_iff_exists.mp begins
  have any := round_any_order CMD_PUT none sampleUser [] [102] (fun _ => []) (fun _ => true)
    (show 0 < 2 by decide) sampleRound
  exact ⟨last, middle, ended, behind, (any.1 last ended sampleOrder middle behind).1⟩

def transferHandler (req : Request) (cmdType : UInt8) : ThreadParam → Thread → Option Thread :=
  if cmdType = CMD_PUT then handlePut req.conf.password req.nh else handleGet req.conf.password

def Client.round (client : Client) : Round := ⟨client.conns, client.disk, fun _ => .code 0⟩

theorem run_transfer (req : Request) {cmdType : UInt8}
    (transfer : cmdType = CMD_PUT ∨ cmdType = CMD_GET) (tp : ThreadParam) (thread : Thread)
    (type : msgType tp.pkt = cmdType) (copied : thread.outpkt = tp.pkt)
    (clear : thread.retval = 0) :
    Prog.run respond (Handler.connectionHandler req.conf.password req.nh tp thread.buffer)
        thread.world =
      (transferHandler req cmdType tp thread).map (fun after =>
        (.code after.retval, after.world)) := by
  rcases transfer with rfl | rfl
  · rw [Handler.connectionHandler, type, if_neg (by decide), if_pos rfl]
    exact run_handlePut req.conf.password tp req.nh thread copied clear
  · rw [Handler.connectionHandler, type, if_neg (by decide), if_neg (by decide), if_pos rfl]
    exact run_handleGet req.conf.password tp thread copied clear

theorem runThreads_inTurn (req : Request) {cmdType : UInt8}
    (transfer : cmdType = CMD_PUT ∨ cmdType = CMD_GET) {pkt : Bytes} (type : msgType pkt = cmdType)
    (stack : Nat → Bytes) (programs : Nat → Handler.Program Result)
    (threads : List (Nat × (Int × Int)))
    (own : ∀ i parts, (i, parts) ∈ threads → programs i =
      Handler.connectionHandler req.conf.password req.nh ⟨parts, req.path, req.filename, pkt⟩
        (stack i)) (client : Client) (ends : Nat → Option Thread) :
    Round.inTurn programs (threads.map Prod.fst)
        ⟨client.conns, client.disk, fun i => .code (retval ends i)⟩ =
      (runThreads (transferHandler req cmdType) req pkt stack threads (client, ends)).map
        (fun (joined, ends) => ⟨joined.conns, joined.disk, fun i => .code (retval ends i)⟩) := by
  induction threads generalizing client ends with
  | nil => rfl
  | cons head rest ih =>
      rcases head with ⟨i, parts⟩
      let tp : ThreadParam := ⟨parts, req.path, req.filename, pkt⟩
      let thread : Thread := ⟨client.conns i, client.disk, pkt, stack i, 0, [], client.got⟩
      have ran := run_transfer req transfer tp thread type rfl rfl
      have program : programs i = Handler.connectionHandler req.conf.password req.nh tp (stack i) :=
        own i parts List.mem_cons_self
      simp only [Thread.world, thread, ← program] at ran
      rw [List.map_cons, Round.inTurn, ran, runThreads]
      cases done : transferHandler req cmdType tp thread with
      | none => rfl
      | some after =>
          simp only [Option.map_some, Round.ran]
          rw [← ih (fun j other member => own j other (List.mem_cons_of_mem _ member))]
          congr 2
          funext j
          by_cases same : j = i
          · subst same
            simp only [Function.update_self, retval]
          · simp only [Function.update_of_ne same, retval]

theorem lookup_schedule {cmdType : UInt8} {available : Nat → Bool} {h nh i : Nat}
    {parts : Int × Int} (member : (i, parts) ∈ schedule cmdType available h nh) :
    (schedule cmdType available h nh).lookup i = some parts := by
  cases found : (schedule cmdType available h nh).lookup i with
  | none =>
      have absent := List.lookup_eq_none_iff.mp found (i, parts) member
      rw [bne_self_eq_false] at absent
      cases absent
  | some others =>
      obtain ⟨-, -, here⟩ := (mem_schedule _ _ _ _ _ _).mp member
      obtain ⟨-, -, there⟩ := (mem_schedule _ _ _ _ _ _).mp (mem_of_lookup found)
      rw [here, there]

/-- The threads of one round of a transfer before any of them has run. -/
def Client.started (req : Request) (cmdType : UInt8) (stack : Nat → Bytes) (client : Client) :
    Interleave.Config Nat Running Disk :=
  let pkt := buildMsgPacket cmdType 0 req.msg (some req.conf)
  let threads := schedule cmdType client.available req.hash req.nh
  let programs :=
    roundPrograms req.conf.password req.nh req.path req.filename pkt stack threads
  client.round.config programs (threads.map Prod.fst)

def Client.returned (joined : Client) (ends : Nat → Option Thread) :
    Interleave.Config Nat Running Disk :=
  ⟨fun i => ⟨joined.conns i, .program (.ret (.code (retval ends i)))⟩, joined.disk⟩

/-- A round of a PUT or a GET that is computed thread after thread is the round in every
order of the calls: what `main` finds behind `pthread_join` does not depend on the order,
and neither does whether it comes there. -/
theorem runRound_any_order (req : Request) (cmdType : UInt8)
    (transfer : cmdType = CMD_PUT ∨ cmdType = CMD_GET) (stack : Nat → Bytes) (client : Client) :
    (∀ joined ends, runRound cmdType (transferHandler req cmdType) req stack client =
        some (joined, ends) → ∀ order middle,
      Interleave.run Running.step (client.started req cmdType stack) order = some middle →
        (∃ rest, Interleave.run Running.step middle rest = some (joined.returned ends)) ∧
        (Interleave.Quiet Running.step middle → middle = joined.returned ends)) ∧
    (runRound cmdType (transferHandler req cmdType) req stack client = none → ∀ order last,
      Interleave.run Running.step (client.started req cmdType stack) order = some last →
        ¬ Round.Ended last) := by
  let pkt := buildMsgPacket cmdType 0 req.msg (some req.conf)
  let threads := schedule cmdType client.available req.hash req.nh
  let programs := roundPrograms req.conf.password req.nh req.path req.filename pkt stack threads
  have once : (threads.map Prod.fst).Nodup := schedule_nodup _ _ _ _
  have own : ∀ i parts, (i, parts) ∈ threads → programs i = Handler.connectionHandler
      req.conf.password req.nh ⟨parts, req.path, req.filename, pkt⟩ (stack i) := by
    intro i parts member
    simp only [programs, roundPrograms, threads, lookup_schedule member]
  have turns := runThreads_inTurn req transfer (msgType_build cmdType 0 req.msg (some req.conf))
    stack programs threads own client (fun _ => none)
  have owns := fun i (_ : i ∈ threads.map Prod.fst) =>
    owns_round req.conf.password req.nh req.path req.filename pkt stack threads i
  have apart := apart_round cmdType req.msg (some req.conf) req.path req.filename
    client.available req.hash_lt
  constructor
  · intro joined ends ran order middle behind
    rw [runRound] at ran
    rw [ran] at turns
    exact Round.any_order owns apart once turns behind
  · intro waits order last reached
    rw [runRound] at waits
    rw [waits] at turns
    exact Round.no_order owns apart once turns reached

theorem runRound_any_order_put :
    ∃ joined ends middle, runRound CMD_PUT (transferHandler sampleRequest CMD_PUT) sampleRequest
        (fun _ => []) (sampleClient [1, 2, 3]) = some (joined, ends) ∧
      Interleave.run Running.step
        ((sampleClient [1, 2, 3]).started sampleRequest CMD_PUT (fun _ => [])) sampleOrder =
          some middle ∧
      ∃ rest, Interleave.run Running.step middle rest = some (joined.returned ends) := by
  rcases putCommand_done sampleRequest (fun _ => []) [1, 2, 3] (sampleClient [1, 2, 3])
    (by decide) (fun _ _ _ => sample_putting) with ⟨stored, put, -⟩
  rw [putCommand, Option.map_eq_some_iff] at put
  rcases put with ⟨⟨joined, ends⟩, ran, -⟩
  have begins : (Interleave.run Running.step
      ((sampleClient [1, 2, 3]).started sampleRequest CMD_PUT (fun _ => []))
      sampleOrder).isSome = true := by
    decide +kernel
  obtain ⟨middle, behind⟩ := Option.isSome_iff_exists.mp begins
  have any := runRound_any_order sampleRequest CMD_PUT (Or.inl rfl) (fun _ => [])
    (sampleClient [1, 2, 3])
  exact ⟨joined, ends, middle, ran, behind, (any.1 joined ends ran sampleOrder middle behind).1⟩

end NetworkSystem.Dfc
