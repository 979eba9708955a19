import NetworkSystem.Dfc.Get

/-! What a PUT does when nothing fails during it: every available server stores its
partitions, under the names a GET asks for. -/

namespace NetworkSystem.Dfc

open Bytes Store

theorem storedPath_injective {req : Request} {first second : Nat}
    (same : storedPath req first = storedPath req second) : first = second :=
  partName_injective (setPath_injective _ _ _ (setPath_injective _ _ _ same))

/-- What a PUT leaves as it is at the other end of a connection. -/
structure Extends (made : Bytes → Prop) (before after : Conn) : Prop where
  users : after.users = before.users
  makes : Makes made before.server.disk after.server.disk
  fault : after.fault = before.fault
  life : after.life = before.life

theorem Extends.trans {made : Bytes → Prop} {first second third : Conn}
    (early : Extends made first second) (late : Extends made second third) :
    Extends made first third :=
  ⟨late.users.trans early.users, early.makes.trans late.makes,
    late.fault.trans early.fault, late.life.trans early.life⟩

theorem deliver_put (conf : Credentials) (conn : Conn) (pkt : Bytes) (fp : FILE)
    (offset : Nat) (n : Int) (content : Bytes) (settled : Settled conf conn)
    (immortal : conn.life = none) (carries : Carries conf CMD_PUT pkt) (named : msgText pkt ≠ [])
    (creatable : conn.server.disk.creatable (setPath conf.username (msgText pkt)) = true)
    (source : segment fp.content offset n = content) (short : content.length < 2 ^ 32) :
    ∃ reply, reply.length = PACKET_SIZE ∧ msgErrno reply = 0 ∧
      (conn.deliver [pkt]).inbox = [reply] ∧ (conn.deliver [pkt]).life = none ∧
      let asked : Conn := { conn.deliver [pkt] with inbox := [] }
      let sent := asked.sendFile fp offset n (some conf.password)
      Settled conf sent.2 ∧ Extends (Home conf) conn sent.2 ∧ sent.1.content = fp.content ∧
        sent.2.server.disk.files = Function.update conn.server.disk.files
          (setPath conf.username (msgText pkt)) (some (encrypted conf.password content)) := by
  rcases conn with ⟨users, ⟨disk, mode, served⟩, inbox, life, fault⟩
  rcases settled with ⟨idle, drained, admits⟩
  simp only at idle drained admits immortal creatable
  subst idle drained immortal
  rcases serverStep_put served admits carries named rfl creatable with ⟨reply, size, errno, step⟩
  let path := setPath conf.username (msgText pkt)
  let home := (createDir disk conf.username).2
  have asked : Conn.deliver ⟨users, ⟨disk, .idle, served⟩, [], none, fault⟩ [pkt] =
      ⟨users, ⟨home.leave path (FILE.opened []), .receiving path (Receiver.start (FILE.opened [])),
        served + 1⟩, [reply], none, fault⟩ := by
    simp only [Conn.deliver, serverRun, step, List.append_nil, List.nil_append]
    rfl
  rcases upload_stores conf.password content fp offset n [] none source short with
      ⟨-, code, rest, stored⟩
  rw [List.append_nil] at code rest stored
  have finish : serverRun users (fun _ _ => true) ⟨home.leave path (FILE.opened []),
      .receiving path (Receiver.start (FILE.opened [])), served + 1⟩
      (sendFile (fun _ => true) fp offset n (some conf.password)).sent =
        (⟨home.save path (encrypted conf.password content), .idle, served + 1⟩, []) := by
    rcases serverRun_receiving users (fun _ _ => true) none home path
        (Receiver.start (FILE.opened [])) (served + 1)
        (sendFile (fun _ => true) fp offset n (some conf.password)).sent with
      ⟨-, -, run⟩ | ⟨waits, -⟩
    · simp only [receiveFile] at rest stored
      rw [rest] at run
      apply run.trans
      simp only [serverRun, Disk.close, stored]
    · simp only [receiveFile] at code
      rw [code] at waits
      cases waits
  have alive : lives none = fun _ => true := rfl
  rw [asked]
  refine ⟨reply, size, errno, rfl, rfl, ?_⟩
  simp only [Conn.sendFile, Conn.deliver, alive, finish, List.append_nil]
  refine ⟨⟨rfl, rfl, admits_save admits path _⟩, ⟨rfl, (createDir_makes _ _).save _ _, rfl, rfl⟩,
    sendFile_content _ _ _ _ _, ?_⟩
  simp only [Disk.save, home, createDir_files, path]

/-- The files of a server after a PUT of the partitions `asked`. -/
def Stored (req : Request) (content : Bytes) (asked : Nat → Prop)
    (before after : Bytes → Option Bytes) : Prop :=
  (∀ part, asked part → after (storedPath req part) =
    some (encrypted req.conf.password (partition content req.nh part))) ∧
  ∀ path, (∀ part, asked part → path ≠ storedPath req part) → after path = before path

/-- The thread is able to put: nothing fails and the partitions are not too long. -/
structure Putting (req : Request) (content : Bytes) (conn : Conn) : Prop where
  settled : Settled req.conf conn
  immortal : conn.life = none
  creatable : ∀ part < req.nh, conn.server.disk.creatable (storedPath req part) = true
  short : ∀ part < req.nh, (partition content req.nh part).length < 2 ^ 32

theorem putPart_outcome (req : Request) (parts : Int × Int) (pkt content : Bytes) (part : Nat)
    (bound : part < req.nh) (thread : Thread) (fp : FILE) (source : fp.content = content)
    (putting : Putting req content thread.conn)
    (carries : Carries req.conf CMD_PUT thread.outpkt) :
    ∃ after last, putPart req.conf.password (psize content.length req.nh)
        ⟨parts, req.path, req.filename, pkt⟩ part (thread, fp) = some (after, last) ∧
      last.content = content ∧ after.disk = thread.disk ∧ after.got = thread.got ∧
      Carries req.conf CMD_PUT after.outpkt ∧ Settled req.conf after.conn ∧
      Extends (Home req.conf) thread.conn after.conn ∧ Stored req content (· = part)
        thread.conn.server.disk.files after.conn.server.disk.files := by
  rcases putting with ⟨settled, immortal, creatable, short⟩
  have named : setPartitionName req.filename (part : Int) = partName req part := rfl
  have text := text_fits req part bound thread.outpkt
  have size : ((psize content.length req.nh : Nat) : Int) ≠ -1 := by omega
  have cut : segment fp.content (psize content.length req.nh * part)
      (psize content.length req.nh : Nat) = partition content req.nh part := by
    rw [segment, if_neg size, Int.toNat_natCast, source, partition]
  rcases deliver_put req.conf thread.conn
    (setMsg thread.outpkt (setPath req.path (partName req part))) fp _ _ _ settled immortal
    (carries.setMsg _) (text_named req part bound _) (by rw [text]; exact creatable part bound)
    cut (short part bound) with ⟨reply, whole, errno, inbox, life, sent⟩
  have alive : lives none 0 = true := rfl
  have offset : (psize content.length req.nh : Int) * (part : Int) =
      ((psize content.length req.nh * part : Nat) : Int) := (Int.natCast_mul _ _).symm
  simp only [putPart, named, Conn.send, immortal, alive, ↓reduceIte, recvReply, life, inbox,
    msgErrno_recvInto _ _ whole, errno, offset]
  simp only [life] at sent
  rcases sent with ⟨settled, extends_, kept, files⟩
  rw [text] at files
  refine ⟨_, _, rfl, kept.trans source, rfl, rfl, carries.setMsg _, settled, extends_, ?_, ?_⟩
  · intro other same
    rcases same with rfl
    exact (congrFun files _).trans (Function.update_self _ _ _)
  · intro path other
    exact (congrFun files path).trans (Function.update_of_ne (other part rfl) _ _)

theorem Stored.trans {req : Request} {content : Bytes} {first second touched : Nat → Prop}
    {start middle last : Bytes → Option Bytes} (early : Stored req content first start middle)
    (late : Stored req content second middle last)
    (either : ∀ part, touched part ↔ first part ∨ second part) :
    Stored req content touched start last := by
  refine ⟨fun part member => ?_, fun path other => ?_⟩
  · by_cases again : second part
    · exact late.1 part again
    · have apart : ∀ next, second next → storedPath req part ≠ storedPath req next := by
        intro next inLate named
        rw [storedPath_injective named] at again
        exact again inLate
      calc
        last (storedPath req part) = middle (storedPath req part) := late.2 _ apart
        _ = some (encrypted req.conf.password (partition content req.nh part)) :=
          early.1 part (((either part).mp member).resolve_right again)
  · calc
      last path = middle path :=
        late.2 path (fun part member => other part ((either part).mpr (Or.inr member)))
      _ = start path :=
        early.2 path (fun part member => other part ((either part).mpr (Or.inl member)))

theorem Putting.extends {req : Request} {content : Bytes} {before after : Conn}
    (putting : Putting req content before) (extends_ : Extends (Home req.conf) before after)
    (settled : Settled req.conf after) : Putting req content after := by
  refine ⟨settled, extends_.life.trans putting.immortal, ?_, putting.short⟩
  intro part bound
  rw [extends_.makes.creatable (storedPath_not_home req part)]
  exact putting.creatable part bound

theorem putParts_outcome (req : Request) (parts : Int × Int) (pkt content : Bytes)
    (asked : List Int) (valid : ∀ index ∈ asked, ∃ part < req.nh, index = (part : Nat))
    (thread : Thread) (fp : FILE) (source : fp.content = content)
    (putting : Putting req content thread.conn)
    (carries : Carries req.conf CMD_PUT thread.outpkt) :
    ∃ after last, putParts req.conf.password (psize content.length req.nh)
        ⟨parts, req.path, req.filename, pkt⟩ asked (thread, fp) = some (after, last) ∧
      after.disk = thread.disk ∧ after.got = thread.got ∧ Settled req.conf after.conn ∧
      Extends (Home req.conf) thread.conn after.conn ∧
        Stored req content (fun part => (part : Int) ∈ asked)
          thread.conn.server.disk.files after.conn.server.disk.files := by
  induction asked generalizing thread fp with
  | nil =>
      refine ⟨thread, fp, rfl, rfl, rfl, putting.settled,
        ⟨rfl, Makes.refl _ _, rfl, rfl⟩, ?_, ?_⟩
      · intro part member
        cases member
      · intro path _
        rfl
  | cons index rest ih =>
      rcases valid index List.mem_cons_self with ⟨part, bound, rfl⟩
      rcases putPart_outcome req parts pkt content part bound thread fp source putting carries with
          ⟨middle, next, run, kept, disk, got, carried, settled, extends_, stored⟩
      rcases ih (fun other member => valid other (List.mem_cons_of_mem _ member)) middle next kept
          (putting.extends extends_ settled) carried with
          ⟨after, last, tail, sameDisk, sameGot, settledAfter, more, storedAfter⟩
      refine ⟨after, last, ?_, sameDisk.trans disk, sameGot.trans got, settledAfter,
        extends_.trans more, stored.trans storedAfter ?_⟩
      · rw [putParts, run]
        exact tail
      · intro other
        simp only [List.mem_cons, Int.natCast_inj]

theorem handlePut_outcome (req : Request) (parts : Int × Int) (pkt content : Bytes)
    (valid : ∀ index ∈ [parts.1, parts.2], ∃ part < req.nh, index = (part : Nat))
    (thread : Thread) (source : thread.disk.files req.filename = some content)
    (putting : Putting req content thread.conn)
    (carries : Carries req.conf CMD_PUT thread.outpkt) :
    ∃ after, handlePut req.conf.password req.nh ⟨parts, req.path, req.filename, pkt⟩ thread =
        some after ∧ after.disk = thread.disk ∧ after.got = thread.got ∧
      Settled req.conf after.conn ∧ Extends (Home req.conf) thread.conn after.conn ∧
      Stored req content (Asks parts) thread.conn.server.disk.files
        after.conn.server.disk.files := by
  rcases putParts_outcome req parts pkt content _ valid thread
    (FILE.opened content) rfl putting carries with ⟨after, last, run, facts⟩
  have asked : (fun part : Nat => (part : Int) ∈ [parts.1, parts.2]) = Asks parts := by
    funext part
    simp only [List.mem_cons, List.not_mem_nil, or_false, Asks, eq_comm (a := (part : Int))]
  rw [asked] at facts
  refine ⟨after, ?_, facts⟩
  have size : (FILE.opened content).sizeOfFp = content.length := rfl
  simp only [handlePut, Disk.fopenRead, source, Option.map_some, size, run]

structure PutEnd (req : Request) (content : Bytes) (threads : List (Nat × (Int × Int)))
    (client after : Client) : Prop where
  available : after.available = client.available
  disk : after.disk = client.disk
  got : after.got = client.got
  others : ∀ i, (∀ parts, (i, parts) ∉ threads) → after.conns i = client.conns i
  hosts : ∀ i parts, (i, parts) ∈ threads →
    Settled req.conf (after.conns i) ∧ Extends (Home req.conf) (client.conns i) (after.conns i) ∧
      Stored req content (Asks parts) (client.conns i).server.disk.files
        (after.conns i).server.disk.files

theorem putThreads_outcome (req : Request) (pkt content : Bytes) (stack : Nat → Bytes)
    (carries : Carries req.conf CMD_PUT pkt) (threads : List (Nat × (Int × Int)))
    (distinct : (threads.map Prod.fst).Nodup)
    (valid : ∀ i parts, (i, parts) ∈ threads → ∀ index ∈ [parts.1, parts.2],
      ∃ part < req.nh, index = (part : Nat))
    (client : Client) (ends : Nat → Option Thread)
    (source : client.disk.files req.filename = some content)
    (ready : ∀ i parts, (i, parts) ∈ threads → Putting req content (client.conns i)) :
    ∃ after last, runThreads (handlePut req.conf.password req.nh) req pkt stack threads
      (client, ends) = some (after, last) ∧ PutEnd req content threads client after := by
  -- Induction over the threads: a thread leaves the connections of the later ones alone.
  induction threads generalizing client ends with
  | nil =>
      refine ⟨client, ends, rfl, ⟨rfl, rfl, rfl, fun _ _ => rfl, ?_⟩⟩
      intro i parts member
      cases member
  | cons head rest ih =>
      rcases head with ⟨i, parts⟩
      obtain ⟨readyHead, readyRest⟩ := (forall_thread_cons i parts rest).mp ready
      obtain ⟨validHead, validRest⟩ := (forall_thread_cons i parts rest).mp valid
      have apart := host_ne distinct
      rcases handlePut_outcome req parts pkt content validHead
        ⟨client.conns i, client.disk, pkt, stack i, 0, [], client.got⟩ source readyHead carries with
          ⟨thread, run, disk, got, settled, extends_, stored⟩
      have readyThen : ∀ j other, (j, other) ∈ rest →
          Putting req content ((client.join i thread).conns j) := by
        intro j other member
        rw [client.join_of_ne thread (apart j other member)]
        exact readyRest j other member
      rcases ih (List.nodup_cons.mp distinct).2 validRest (client.join i thread)
        (Function.update ends i (some thread))
        ((congrArg (fun disk => disk.files req.filename) disk).trans source) readyThen with
          ⟨after, last, tail, facts⟩
      refine ⟨after, last, (runThreads_cons rest ends run).trans tail,
        ⟨facts.available, facts.disk.trans disk, facts.got.trans got, ?_, ?_⟩⟩
      · intro j outside
        have different : j ≠ i := by
          intro same
          rw [same] at outside
          exact outside parts List.mem_cons_self
        rw [facts.others j (fun second member => outside second (List.mem_cons_of_mem _ member))]
        exact client.join_of_ne thread different
      · have same := facts.others i (fun other member => apart i other member rfl)
        rw [Client.join_self] at same
        rw [forall_thread_cons, same]
        refine ⟨⟨settled, extends_, stored⟩, fun j second member => ?_⟩
        rw [← client.join_of_ne thread (apart j second member)]
        exact facts.hosts j second member

/-- After a PUT every available host has its partitions, and nothing else has changed. -/
structure PutDone (req : Request) (content : Bytes) (client after : Client) : Prop where
  available : after.available = client.available
  disk : after.disk = client.disk
  others : ∀ i, ¬ (i < req.nh ∧ client.available i = true) → after.conns i = client.conns i
  hosts : ∀ i < req.nh, client.available i = true →
    Settled req.conf (after.conns i) ∧ Extends (Home req.conf) (client.conns i) (after.conns i) ∧
      Stored req content (Keeper req i) (client.conns i).server.disk.files
        (after.conns i).server.disk.files

theorem putCommand_done (req : Request) (stack : Nat → Bytes) (content : Bytes) (client : Client)
    (source : client.disk.files req.filename = some content)
    (ready : ∀ i < req.nh, client.available i = true → Putting req content (client.conns i)) :
    ∃ after, putCommand req stack client = some after ∧ PutDone req content client after := by
  have members := mem_schedule CMD_PUT client.available req.hash req.nh
  rcases putThreads_outcome req
    (buildMsgPacket CMD_PUT 0 req.msg (some req.conf)) content stack
    (carries_build CMD_PUT 0 req.msg req.conf) (schedule CMD_PUT client.available req.hash req.nh)
    (schedule_nodup _ _ _ _)
    (fun i parts member => schedule_put_valid _ _ _ req.hash_lt i parts member) client
    (fun _ => none) source
    (fun i parts member => by
      obtain ⟨host, up, -⟩ := (members i parts).mp member
      exact ready i host up) with ⟨after, last, run, facts⟩
  refine ⟨after, by rw [putCommand, runRound, run]; rfl,
    ⟨facts.available, facts.disk, fun i outside => facts.others i (fun parts member => ?_), ?_⟩⟩
  · obtain ⟨host, up, -⟩ := (members i parts).mp member
    exact outside ⟨host, up⟩
  · intro i host up
    obtain ⟨settled, extends_, stored⟩ := facts.hosts i _ ((members i _).mpr ⟨host, up, rfl⟩)
    have same : ∀ part, Asks (threadParts CMD_PUT (!client.available (before req.nh i)) i req.hash
        req.nh) part ↔ Keeper req i part := by
      intro part
      constructor
      · intro asks
        have bound := asks_lt _ _ _ _ req.hash_lt i part _ ((members i _).mpr ⟨host, up, rfl⟩) asks
        exact ⟨bound, (asks_put_iff req.hash_lt _ host bound).mp asks⟩
      · intro keeps
        rcases keeps with ⟨bound, place⟩
        exact (asks_put_iff req.hash_lt _ host bound).mpr place
    exact ⟨settled, extends_, by simpa only [Stored, same] using stored⟩

end NetworkSystem.Dfc
