import NetworkSystem.Dfc.Schedule
import NetworkSystem.Dfc.Server

/-! The client: its connections to the servers, the threads that put and get
partitions, and the rounds of `main`. What it prints is left out. -/

namespace NetworkSystem.Dfc

open Bytes Store

/-- A connection as the client sees it: the server at the other end, what the server
has sent and the client has not read yet, how many socket calls of the client still
succeed (`none` for no limit), and what `recv` reports when they do not. -/
structure Conn where
  users : Users
  server : Server
  inbox : List Bytes
  life : Option Nat
  fault : Fault

/-- Whether the `k`-th of the coming socket calls succeeds. -/
def lives (life : Option Nat) (k : Nat) : Bool :=
  match life with
  | none => true
  | some left => decide (k < left)

def spend (life : Option Nat) (calls : Nat) : Option Nat := life.map (· - calls)

namespace Conn

/-- Successful sends: the server takes every packet and sends its answers. -/
def deliver (conn : Conn) (packets : List Bytes) : Conn :=
  let (server, answers) := serverRun conn.users (fun _ _ => true) conn.server packets
  { conn with
    server
    inbox := conn.inbox ++ answers
    life := spend conn.life packets.length }

/-- `none` when the call reports an error. -/
def send (conn : Conn) (pkt : Bytes) : Option Conn :=
  if lives conn.life 0 then some (conn.deliver [pkt]) else none

def sendFile (conn : Conn) (fp : FILE) (offset n : Int) (key : Option Bytes) : FILE × Conn :=
  let result := Dfc.sendFile (lives conn.life) fp offset n key
  (result.fp, conn.deliver result.sent)

/-- What the calls of `recv` will return from now on. -/
def arriving (conn : Conn) : Inbox :=
  match conn.life with
  | none => ⟨conn.inbox, none⟩
  | some left =>
      ⟨conn.inbox.take left, if left ≤ conn.inbox.length then some conn.fault else none⟩

def receiveFile (conn : Conn) (fp : FILE) (key : Option Bytes) : Option Int × FILE × Conn :=
  let result := Dfc.receiveFile fp conn.arriving key
  let taken := conn.arriving.packets.length - result.inbox.packets.length
  (result.code, result.fp,
    { conn with inbox := conn.inbox.drop taken, life := spend conn.life taken })

end Conn

structure ThreadParam where
  parts : Int × Int
  path : Bytes
  filename : Bytes
  pkt : Bytes

/-- The variables of a thread, with the directory all threads share. `heard` and `got`
are histories that the source does not keep: the error numbers of the replies, and
the partitions that a GET has received up to their last packet. -/
structure Thread where
  conn : Conn
  disk : Disk
  outpkt : Bytes
  buffer : Bytes
  retval : Nat
  heard : List UInt8
  got : List Int

/-- `recv` into the reply buffer, with the test for a negative result; `none` while it
waits. -/
def recvReply (thread : Thread) : Option (Bool × Thread) :=
  if lives thread.conn.life 0 then
    match thread.conn.inbox with
    | [] => none
    | bytes :: rest =>
        some (true, { thread with
          conn := { thread.conn with inbox := rest, life := spend thread.conn.life 1 }
          buffer := recvInto thread.buffer bytes })
  else
    match thread.conn.fault with
    | .closed => some (true, thread)
    | .error => some (false, thread)

/-- The body of the `handle_put` loop, with the stream of the local file. A failed call
sets `retval` and changes nothing else. -/
def putPart (password : Bytes) (size : Nat) (tp : ThreadParam) (part : Int)
    (state : Thread × FILE) : Option (Thread × FILE) :=
  let (thread, fp) := state
  let text := setPath tp.path (setPartitionName tp.filename part)
  let thread := { thread with outpkt := setMsg thread.outpkt text }
  let thread :=
    match thread.conn.send thread.outpkt with
    | none => { thread with retval := 1 }
    | some conn => { thread with conn }
  match recvReply { thread with buffer := zeros PACKET_SIZE } with
  | none => none
  | some (received, thread) =>
      let thread := if received then thread else { thread with retval := 1 }
      if msgErrno thread.buffer = 0 then
        let (fp, conn) := thread.conn.sendFile fp (size * part) size (some password)
        some ({ thread with conn }, fp)
      else some (thread, fp)

def putParts (password : Bytes) (size : Nat) (tp : ThreadParam) :
    List Int → Thread × FILE → Option (Thread × FILE)
  | [], state => some state
  | part :: rest, state =>
      match putPart password size tp part state with
      | none => none
      | some state => putParts password size tp rest state

def handlePut (password : Bytes) (nh : Nat) (tp : ThreadParam) (thread : Thread) :
    Option Thread :=
  match thread.disk.fopenRead tp.filename with
  | none => some thread
  | some fp =>
      (putParts password (psize fp.sizeOfFp nh) tp [tp.parts.1, tp.parts.2] (thread, fp)).map
        Prod.fst

/-- The body of the `handle_get` loop; `false` for a `break`. The stream is not closed
when the transfer fails. -/
def getPart (password : Bytes) (tp : ThreadParam) (part : Int) (thread : Thread) :
    Option (Bool × Thread) :=
  if part ≠ -1 then
    let filename := setPartitionName tp.filename part
    let thread := { thread with outpkt := setMsg thread.outpkt (setPath tp.path filename) }
    match thread.conn.send thread.outpkt with
    | none => some (false, { thread with retval := 1 })
    | some conn =>
        match recvReply { thread with conn } with
        | none => none
        | some (false, thread) => some (false, { thread with retval := 1 })
        | some (true, thread) =>
            let thread := { thread with heard := thread.heard ++ [msgErrno thread.buffer] }
            if msgErrno thread.buffer = 0 then
              match thread.disk.fopenWrite filename with
              | none => some (false, { thread with retval := 0 })
              | some (fp, disk) =>
                  match thread.conn.receiveFile fp (some password) with
                  | (none, _, _) => none
                  | (some code, fp, conn) =>
                      if code < 0 then
                        some (false,
                          { thread with conn, disk := disk.leave filename fp, retval := 1 })
                      else
                        some (true, { thread with
                          conn
                          disk := disk.close filename fp
                          got := part :: thread.got })
            else some (false, { thread with retval := 2 })
  else some (true, thread)

def getParts (password : Bytes) (tp : ThreadParam) : List Int → Thread → Option Thread
  | [], thread => some thread
  | part :: rest, thread =>
      match getPart password tp part thread with
      | none => none
      | some (false, thread) => some thread
      | some (true, thread) => getParts password tp rest thread

def handleGet (password : Bytes) (tp : ThreadParam) (thread : Thread) : Option Thread :=
  getParts password tp [tp.parts.1, tp.parts.2] thread

/-- The names of the partitions fit `pname`, and their paths `path` of the server. -/
def Fits (username : Bytes) (nh : Nat) (filename path : Bytes) : Prop :=
  ∀ part < nh, (setPartitionName filename part).length < PNAME_SIZE ∧
    (setPath username (setPath path (setPartitionName filename part))).length < PATH_SIZE

instance (username : Bytes) (nh : Nat) (filename path : Bytes) :
    Decidable (Fits username nh filename path) :=
  inferInstanceAs (Decidable (∀ part < nh, _ ∧ _))

theorem Fits.packet {username filename path : Bytes} {nh : Nat}
    (fits : Fits username nh filename path) {part : Nat} (bound : part < nh) :
    36 + (setPath path (setPartitionName filename part)).length < PACKET_SIZE := by
  have stored := (fits part bound).2
  rw [setPath, List.length_cons, List.length_cons, List.length_append, List.length_cons,
    PATH_SIZE] at stored
  rw [PACKET_SIZE]
  omega

/-- A GET or PUT line of the user, with the client configuration. `hash` is
`md5_mod(filename, nh)`, `msg` what an earlier command has left in that variable. -/
structure Request where
  conf : Credentials
  nh : Nat
  filename : Bytes
  path : Bytes
  hash : Nat
  msg : Option Bytes
  hosts : 0 < nh
  hash_lt : hash < nh
  filename_clean : 0 ∉ filename
  path_clean : 0 ∉ path
  fits : Fits conf.username nh filename path

/-- `got` is the history of the running GET. -/
structure Client where
  available : Nat → Bool
  conns : Nat → Conn
  disk : Disk
  got : List Int

/-- `pthread_create` and `pthread_join` of the threads of a round, with what every host's
thread ends in. They share no socket and no partition, so they are run one after the
other. `stack` is what their reply buffers hold before the first `recv`. -/
def runThreads (handler : ThreadParam → Thread → Option Thread) (req : Request) (pkt : Bytes)
    (stack : Nat → Bytes) : List (Nat × (Int × Int)) → Client × (Nat → Option Thread) →
      Option (Client × (Nat → Option Thread))
  | [], state => some state
  | (i, parts) :: rest, (client, ends) =>
      match handler ⟨parts, req.path, req.filename, pkt⟩
          ⟨client.conns i, client.disk, pkt, stack i, 0, [], client.got⟩ with
      | none => none
      | some thread =>
          runThreads handler req pkt stack rest
            ({ client with
                conns := Function.update client.conns i thread.conn
                disk := thread.disk
                got := thread.got },
              Function.update ends i (some thread))

/-- The client behind the `pthread_join` of a host's thread. -/
def Client.join (client : Client) (i : Nat) (thread : Thread) : Client :=
  { client with
    conns := Function.update client.conns i thread.conn
    disk := thread.disk
    got := thread.got }

@[simp] theorem Client.join_self (client : Client) (i : Nat) (thread : Thread) :
    (client.join i thread).conns i = thread.conn := by
  simp only [Client.join, Function.update_self]

theorem Client.join_of_ne (client : Client) (thread : Thread) {i j : Nat} (other : j ≠ i) :
    (client.join i thread).conns j = client.conns j := by
  simp only [Client.join, Function.update_of_ne other]

theorem runThreads_cons {handler : ThreadParam → Thread → Option Thread} {req : Request}
    {pkt : Bytes} {stack : Nat → Bytes} {i : Nat} {parts : Int × Int} {client : Client}
    {thread : Thread} (rest : List (Nat × (Int × Int))) (ends : Nat → Option Thread)
    (run : handler ⟨parts, req.path, req.filename, pkt⟩
      ⟨client.conns i, client.disk, pkt, stack i, 0, [], client.got⟩ = some thread) :
    runThreads handler req pkt stack ((i, parts) :: rest) (client, ends) =
      runThreads handler req pkt stack rest
        (client.join i thread, Function.update ends i (some thread)) := by
  rw [runThreads, run]
  rfl

theorem forall_thread_cons {about : Nat → Int × Int → Prop} (i : Nat) (parts : Int × Int)
    (rest : List (Nat × (Int × Int))) :
    (∀ j other, (j, other) ∈ (i, parts) :: rest → about j other) ↔
      about i parts ∧ ∀ j other, (j, other) ∈ rest → about j other := by
  constructor
  · intro all
    exact ⟨all i parts List.mem_cons_self,
      fun j other member => all j other (List.mem_cons_of_mem _ member)⟩
  · intro both j other member
    rcases List.mem_cons.mp member with head | tail
    · obtain ⟨rfl, rfl⟩ := Prod.mk.inj head
      exact both.1
    · exact both.2 j other tail

theorem host_ne {i : Nat} {parts : Int × Int} {rest : List (Nat × (Int × Int))}
    (hosts : (((i, parts) :: rest).map Prod.fst).Nodup) (j : Nat) (other : Int × Int)
    (member : (j, other) ∈ rest) : j ≠ i := by
  intro same
  have inside : j ∈ rest.map Prod.fst := List.mem_map_of_mem (f := Prod.fst) member
  rw [same] at inside
  exact (List.nodup_cons.mp hosts).1 inside

def runRound (cmdType : UInt8) (handler : ThreadParam → Thread → Option Thread) (req : Request)
    (stack : Nat → Bytes) (client : Client) : Option (Client × (Nat → Option Thread)) :=
  runThreads handler req (buildMsgPacket cmdType 0 req.msg (some req.conf)) stack
    (schedule cmdType client.available req.hash req.nh) (client, fun _ => none)

/-- `retval[i]`, zero for a host without a thread. -/
def retval (ends : Nat → Option Thread) (i : Nat) : Nat :=
  match ends i with
  | none => 0
  | some thread => thread.retval

/-- A PUT takes one round; `main` does not look at its return values. -/
def putCommand (req : Request) (stack : Nat → Bytes) (client : Client) : Option Client :=
  (runRound CMD_PUT (handlePut req.conf.password req.nh) req stack client).map Prod.fst

/-- The end of a GET: the client before the last round and after its threads, how these
ended, whether the partitions were merged, and the client afterwards. -/
structure GetEnd where
  before : Client
  joined : Client
  ends : Nat → Option Thread
  merged : Bool
  client : Client

/-- One run of the `while (retry)` loop for a GET; it returns `none` when a thread never
ends. -/
def getBody (req : Request) (stack : Nat → Bytes) (client : Client) : Client ⊕ Option GetEnd :=
  match runRound CMD_GET (handleGet req.conf.password) req stack client with
  | none => .inr none
  | some (joined, ends) =>
      let marked : Client := { joined with
        available := fun i => if i < req.nh ∧ retval ends i = 1 then false else joined.available i }
      let retry := (List.range req.nh).any (fun i => retval ends i = 1)
      let flag := (List.range req.nh).any (fun i => retval ends i = 2)
      if retry then .inl marked
      else if flag then .inr (some ⟨client, joined, ends, false, marked⟩)
      else
        let disk := (mergePartitions req.filename req.nh joined.disk).2
        .inr (some ⟨client, joined, ends, true,
          { marked with disk := deletePartitions req.filename req.nh disk }⟩)

/-- The `while (retry)` loop, cut off after `rounds` rounds. -/
def getCommand (rounds : Nat) (req : Request) (stack : Nat → Bytes) (client : Client) :
    Option (Option GetEnd) :=
  Loop.iterate (getBody req stack) rounds { client with got := [] }

end NetworkSystem.Dfc
