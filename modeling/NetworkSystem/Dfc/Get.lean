import NetworkSystem.Dfc.Client

/-! What a thread of a GET does when its server waits for a command: the outcomes of
one partition, of a thread, and of a round, for every point at which the connection
fails. -/

namespace NetworkSystem.Dfc

open Bytes Store

theorem mortal_of_lives {life : Option Nat} {calls : Nat} (failed : lives life calls = false) :
    life ≠ none := by
  intro same
  rcases same with rfl
  cases failed

/-- The server waits for a command of a user it admits, and the client has read all
that was sent. -/
structure Settled (conf : Credentials) (conn : Conn) : Prop where
  idle : conn.server.mode = .idle
  drained : conn.inbox = []
  admits : Admits conn.users conn.server.disk conf

/-- The directory that every request of a user is answered from. -/
def Home (conf : Credentials) (path : Bytes) : Prop := path = conf.username

/-- What a GET leaves as it is at the other end of a connection. -/
structure Keeps (made : Bytes → Prop) (before after : Conn) : Prop where
  users : after.users = before.users
  files : after.server.disk.files = before.server.disk.files
  makes : Makes made before.server.disk after.server.disk
  fault : after.fault = before.fault
  life : before.life = none → after.life = none

theorem Keeps.refl (made : Bytes → Prop) (conn : Conn) : Keeps made conn conn :=
  ⟨rfl, rfl, Makes.refl _ _, rfl, id⟩

theorem Keeps.trans {made : Bytes → Prop} {first second third : Conn}
    (early : Keeps made first second) (late : Keeps made second third) : Keeps made first third :=
  ⟨late.users.trans early.users, late.files.trans early.files, early.makes.trans late.makes,
    late.fault.trans early.fault, fun immortal => late.life (early.life immortal)⟩

theorem spend_none {life : Option Nat} (calls : Nat) (immortal : life = none) :
    spend life calls = none := by
  rw [immortal]
  rfl

/-- The client's half of a download: the whole file, unless the connection fails before
its last packet. -/
theorem receiveFile_download (made : Bytes → Prop) (conn : Conn) (password content : Bytes)
    (waiting : conn.inbox = (sendFile (fun _ => true) (FILE.opened content) 0 (-1) none).sent)
    (short : content.length < 2 ^ 32) :
    (lives conn.life (conn.inbox.length - 1) = true ∧ ∃ fp : FILE,
      fp.content = encrypted password content ∧
      conn.receiveFile (FILE.opened []) (some password) =
        (some 0, fp, { conn with inbox := [], life := spend conn.life conn.inbox.length })) ∨
    (lives conn.life (conn.inbox.length - 1) = false ∧ ∃ fp after, Keeps made conn after ∧
      conn.receiveFile (FILE.opened []) (some password) = (some (-1), fp, after)) := by
  rcases sendFile_sent none (FILE.opened content) 0 (-1) with ⟨-, chunks, blocked, -, sent⟩
  simp only [Int.ofNat_zero] at sent
  have packets : conn.inbox = dataLayout.dataPackets none 0 chunks ++ [dataLayout.eofPacket] :=
    waiting.trans sent
  have size : conn.inbox.length = (dataLayout.dataPackets none 0 chunks).length + 1 := by
    rw [packets, List.length_append, List.length_singleton]
  by_cases alive : lives conn.life (conn.inbox.length - 1) = true
  · left
    have whole : ∃ ending, conn.arriving = ⟨conn.inbox, ending⟩ := by
      simp only [Conn.arriving]
      cases life : conn.life with
      | none => exact ⟨none, rfl⟩
      | some left =>
          simp only [life, lives, decide_eq_true_eq] at alive
          refine ⟨if left ≤ conn.inbox.length then some conn.fault else none, ?_⟩
          simp only [List.take_of_length_le (show conn.inbox.length ≤ left by omega)]
    rcases whole with ⟨ending, whole⟩
    rcases download_stores password content [] ending short with ⟨-, code, inbox, stored⟩
    rw [List.append_nil, ← waiting] at code inbox stored
    refine ⟨alive, _, stored, ?_⟩
    simp only [Conn.receiveFile, whole, code, inbox, List.length_nil, Nat.sub_zero,
      List.drop_length]
  · right
    have dead : lives conn.life (conn.inbox.length - 1) = false := by simpa using alive
    refine ⟨dead, ?_⟩
    cases life : conn.life with
    | none => exact absurd life (mortal_of_lives dead)
    | some left =>
        simp only [life, lives, decide_eq_false_iff_not] at dead
        have early : conn.inbox.take left = (dataLayout.dataPackets none 0 chunks).take left := by
          rw [packets, List.take_append_of_le_length (by omega)]
        have arriving : conn.arriving = ⟨(dataLayout.dataPackets none 0 chunks).take left ++ [],
            some conn.fault⟩ := by
          simp only [Conn.arriving, life, early, List.append_nil]
          rw [if_pos (by omega)]
        have facts := dataLayout.dataPackets_whole none 0 chunks blocked.le
        have code : (receiveFile (FILE.opened []) conn.arriving (some password)).code =
            some (-1) := by
          rw [arriving, receiveFile, receiveLoop_append _ _ _ _ _
            (fun pkt member => (facts pkt (List.mem_of_mem_take member)).1)
            (fun pkt member => (facts pkt (List.mem_of_mem_take member)).2)]
          rfl
        let download := conn.receiveFile (FILE.opened []) (some password)
        exact ⟨download.2.1, download.2.2,
          ⟨rfl, rfl, Makes.refl _ _, rfl, fun immortal => spend_none _ immortal⟩, Prod.ext code rfl⟩

theorem receiveFile_dead (made : Bytes → Prop) (conn : Conn) (dead : lives conn.life 0 = false) (fp : FILE)
    (key : Option Bytes) :
    ∃ stored after, Keeps made conn after ∧ conn.receiveFile fp key = (some (-1), stored, after) := by
  cases life : conn.life with
  | none => exact absurd life (mortal_of_lives dead)
  | some left =>
      simp only [life, lives, decide_eq_false_iff_not, Nat.not_lt, Nat.le_zero] at dead
      have arriving : conn.arriving = ⟨[], some conn.fault⟩ := by
        simp only [Conn.arriving, life, dead, List.take_zero, Nat.zero_le, ↓reduceIte]
      have code : (receiveFile fp conn.arriving key).code = some (-1) := by
        rw [arriving]
        rfl
      let download := conn.receiveFile fp key
      exact ⟨download.2.1, download.2.2,
        ⟨rfl, rfl, Makes.refl _ _, rfl, fun immortal => spend_none _ immortal⟩, Prod.ext code rfl⟩

/-- The client's request for a file: the answer is an error packet, or a packet without
error and the file. -/
theorem deliver_get (conf : Credentials) (conn : Conn) (pkt : Bytes)
    (settled : Settled conf conn) (carries : Carries conf CMD_GET pkt)
    (named : msgText pkt ≠ []) :
    let after := conn.deliver [pkt]
    let stored := conn.server.disk.files (setPath conf.username (msgText pkt))
    Keeps (Home conf) conn after ∧ after.server.mode = .idle ∧
      Admits after.users after.server.disk conf ∧
      after.life = spend conn.life 1 ∧ ∃ reply, reply.length = PACKET_SIZE ∧
        ((stored = none ∧ msgErrno reply = 1 ∧ after.inbox = [reply]) ∨
          ∃ content, stored = some content ∧ msgErrno reply = 0 ∧
            after.inbox =
              reply :: (sendFile (fun _ => true) (FILE.opened content) 0 (-1) none).sent) := by
  rcases conn with ⟨users, ⟨disk, mode, served⟩, inbox, life, fault⟩
  rcases settled with ⟨idle, drained, admits⟩
  simp only at idle drained admits
  subst idle drained
  cases stored : disk.files (setPath conf.username (msgText pkt)) with
  | none =>
      rcases serverStep_get_missing served admits carries named rfl stored with
          ⟨reply, size, errno, step⟩
      simp only [Conn.deliver, serverRun, step, List.append_nil, List.nil_append, List.length_cons,
        List.length_nil]
      refine ⟨⟨rfl, createDir_files _ _, createDir_makes _ _, rfl, spend_none _⟩, trivial,
        admits_home admits, trivial, reply, size, Or.inl ⟨trivial, errno, rfl⟩⟩
  | some content =>
      rcases serverStep_get_found served admits carries named rfl content stored with
          ⟨reply, size, errno, step⟩
      simp only [Conn.deliver, serverRun, step, List.append_nil, List.nil_append, List.length_cons,
        List.length_nil]
      refine ⟨⟨rfl, createDir_files _ _, createDir_makes _ _, rfl, spend_none _⟩, trivial,
        admits_home admits, trivial, reply, size, Or.inr ⟨content, rfl, errno, rfl⟩⟩

def partName (req : Request) (part : Nat) : Bytes := setPartitionName req.filename part

def storedPath (req : Request) (part : Nat) : Bytes :=
  setPath req.conf.username (setPath req.path (partName req part))

theorem storedPath_not_home (req : Request) (part : Nat) : ¬ Home req.conf (storedPath req part) :=
  setPath_ne _ _

def Conn.stored (conn : Conn) (req : Request) (part : Nat) : Option Bytes :=
  conn.server.disk.files (storedPath req part)

/-- No partition that the server is asked for has 2^32 bytes. -/
def Short (req : Request) (asked : Nat → Prop) (conn : Conn) : Prop :=
  ∀ part, asked part → ∀ content, conn.stored req part = some content → content.length < 2 ^ 32

/-- Outcomes of asking a settled server for a partition; `true` when the thread goes on. -/
inductive PartEnd (req : Request) (part : Nat) (thread after : Thread) : Bool → Prop where
  | got (content : Bytes) (stored : thread.conn.stored req part = some content)
      (settled : Settled req.conf after.conn)
      (kept : after.disk.files (partName req part) = some (encrypted req.conf.password content))
      (retval : after.retval = thread.retval) (listed : (part : Int) ∈ after.got) :
      PartEnd req part thread after true
  | failed (mortal : thread.conn.life ≠ none) (retval : after.retval = 1) :
      PartEnd req part thread after false
  | missing (stored : thread.conn.stored req part = none) (settled : Settled req.conf after.conn)
      (retval : after.retval = 2) : PartEnd req part thread after false
  | silent (closed : thread.conn.fault = .closed) (mortal : thread.conn.life ≠ none)
      (retval : after.retval = 2) : PartEnd req part thread after false
  | refused (creatable : thread.disk.creatable (partName req part) = false)
      (retval : after.retval = 0) : PartEnd req part thread after false

/-- What every outcome leaves alone. -/
structure Spares (req : Request) (touched : Nat → Prop) (thread after : Thread) : Prop where
  conn : Keeps (Home req.conf) thread.conn after.conn
  files : ∀ path, (∀ part, touched part → path ≠ partName req part) →
    after.disk.files path = thread.disk.files path
  creatable : after.disk.creatable = thread.disk.creatable
  outpkt : Carries req.conf CMD_GET thread.outpkt → Carries req.conf CMD_GET after.outpkt
  older : ∀ index ∈ thread.got, index ∈ after.got
  newer : ∀ index ∈ after.got, index ∈ thread.got ∨ ∃ part, touched part ∧ index = (part : Nat)

theorem text_fits (req : Request) (part : Nat) (bound : part < req.nh) (pkt : Bytes) :
    msgText (setMsg pkt (setPath req.path (partName req part))) =
      setPath req.path (partName req part) :=
  msgText_setMsg _ _
    (setPath_clean _ _ req.path_clean (setPartitionName_clean _ _ req.filename_clean))
    (req.fits.packet bound)

theorem text_named (req : Request) (part : Nat) (bound : part < req.nh) (pkt : Bytes) :
    msgText (setMsg pkt (setPath req.path (partName req part))) ≠ [] := by
  rw [text_fits req part bound pkt]
  exact List.cons_ne_nil _ _

section part

variable {req : Request} {parts : Int × Int} {pkt : Bytes} {part : Nat} {thread : Thread}
  (carries : Carries req.conf CMD_GET thread.outpkt)

include carries

theorem spares_part {disk : Disk} {conn : Conn} {buffer : Bytes} {retval : Nat} {heard : List UInt8}
    {got : List Int} (creatable : disk.creatable = thread.disk.creatable)
    (files : ∀ path, path ≠ partName req part → disk.files path = thread.disk.files path)
    (kept : Keeps (Home req.conf) thread.conn conn)
    (listed : got = thread.got ∨ got = (part : Int) :: thread.got) :
    Spares req (· = part) thread ⟨conn, disk,
      setMsg thread.outpkt (setPath req.path (partName req part)), buffer, retval, heard, got⟩ := by
  refine ⟨kept, fun path other => files path (other part rfl), creatable,
    fun _ => carries.setMsg _, ?_, ?_⟩
  · rcases listed with rfl | rfl
    · exact fun _ => id
    · exact fun _ member => List.mem_cons_of_mem _ member
  · rcases listed with rfl | rfl
    · exact fun _ member => Or.inl member
    · intro index member
      rcases List.mem_cons.mp member with rfl | old
      · exact Or.inr ⟨part, rfl, rfl⟩
      · exact Or.inl old

theorem spares_same {conn : Conn} {buffer : Bytes} {retval : Nat} {heard : List UInt8}
    (kept : Keeps (Home req.conf) thread.conn conn) :
    Spares req (· = part) thread ⟨conn, thread.disk,
      setMsg thread.outpkt (setPath req.path (partName req part)), buffer, retval, heard,
      thread.got⟩ :=
  spares_part carries rfl (fun _ _ => rfl) kept (Or.inl rfl)

theorem spares_saved {conn : Conn} {buffer : Bytes} {retval : Nat} {heard : List UInt8}
    {got : List Int} (content : Bytes) (kept : Keeps (Home req.conf) thread.conn conn)
    (listed : got = thread.got ∨ got = (part : Int) :: thread.got) :
    Spares req (· = part) thread
      ⟨conn, (thread.disk.save (partName req part) []).save (partName req part) content,
      setMsg thread.outpkt (setPath req.path (partName req part)), buffer, retval, heard, got⟩ := by
  refine spares_part carries rfl (fun path other => ?_) kept listed
  rw [Disk.save_save, Disk.save_files_of_ne _ _ _ _ other]

theorem getPart_silent {conn : Conn}
    (delivered : thread.conn.deliver [setMsg thread.outpkt (setPath req.path (partName req part))] =
      conn) (alive : lives thread.conn.life 0 = true) (silent : lives conn.life 0 = false)
    (keeps : Keeps (Home req.conf) thread.conn conn) :
    ∃ goes after, getPart req.conf.password ⟨parts, req.path, req.filename, pkt⟩ part thread =
      some (goes, after) ∧ Spares req (· = part) thread after ∧
        PartEnd req part thread after goes := by
  have real : (part : Int) ≠ -1 := by omega
  have named : setPartitionName req.filename (part : Int) = partName req part := rfl
  have mortal : thread.conn.life ≠ none := fun immortal =>
    mortal_of_lives silent (keeps.life immortal)
  rw [getPart, if_pos real]
  simp only [Conn.send, alive, ↓reduceIte, named, delivered]
  cases ending : conn.fault with
  | error =>
      simp only [recvReply, silent, Bool.false_eq_true, ↓reduceIte, ending]
      exact ⟨false, _, rfl, spares_same carries keeps, .failed mortal rfl⟩
  | closed =>
      simp only [recvReply, silent, Bool.false_eq_true, ↓reduceIte, ending]
      -- What the buffer held before the call passes for the reply.
      by_cases errno : msgErrno thread.buffer = 0
      · by_cases creatable : thread.disk.creatable (partName req part) = true
        · rcases receiveFile_dead (Home req.conf) conn silent (FILE.opened []) (some req.conf.password) with
              ⟨fp, after, kept, run⟩
          simp only [errno, Disk.fopenWrite, creatable, run, Int.reduceNeg, Int.reduceLT,
            ↓reduceIte]
          exact ⟨false, _, rfl, spares_saved carries _ (keeps.trans kept) (Or.inl rfl),
            .failed mortal rfl⟩
        · have refused : thread.disk.creatable (partName req part) = false := by
            simpa using creatable
          simp only [errno, Disk.fopenWrite, refused, Bool.false_eq_true, ↓reduceIte]
          exact ⟨false, _, rfl, spares_same carries keeps, .refused refused rfl⟩
      · simp only [errno, ↓reduceIte]
        exact ⟨false, _, rfl, spares_same carries keeps, .silent (keeps.fault ▸ ending) mortal rfl⟩

theorem getPart_heard {conn : Conn} {reply : Bytes}
    (delivered : thread.conn.deliver [setMsg thread.outpkt (setPath req.path (partName req part))] =
      conn) (alive : lives thread.conn.life 0 = true) (heard : lives conn.life 0 = true)
    (keeps : Keeps (Home req.conf) thread.conn conn) (idle : conn.server.mode = .idle)
    (admits : Admits conn.users conn.server.disk req.conf)
    (short : Short req (· = part) thread.conn) (size : reply.length = PACKET_SIZE)
    (answer : (thread.conn.stored req part = none ∧ msgErrno reply = 1 ∧ conn.inbox = [reply]) ∨
      ∃ content, thread.conn.stored req part = some content ∧ msgErrno reply = 0 ∧
        conn.inbox =
          reply :: (sendFile (fun _ => true) (FILE.opened content) 0 (-1) none).sent) :
    ∃ goes after, getPart req.conf.password ⟨parts, req.path, req.filename, pkt⟩ part thread =
      some (goes, after) ∧ Spares req (· = part) thread after ∧
        PartEnd req part thread after goes := by
  have real : (part : Int) ≠ -1 := by omega
  have named : setPartitionName req.filename (part : Int) = partName req part := rfl
  have read : ∀ inbox, Keeps (Home req.conf) thread.conn
      ⟨conn.users, conn.server, inbox, spend conn.life 1, conn.fault⟩ := fun inbox =>
    keeps.trans ⟨rfl, rfl, Makes.refl _ _, rfl, spend_none _⟩
  rw [getPart, if_pos real]
  simp only [Conn.send, alive, ↓reduceIte, named, delivered]
  rcases answer with ⟨stored, errno, inbox⟩ | ⟨content, stored, errno, inbox⟩
  · simp only [recvReply, heard, ↓reduceIte, inbox, msgErrno_recvInto _ _ size, errno]
    exact ⟨false, _, rfl, spares_same carries (read _), .missing stored ⟨idle, rfl, admits⟩ rfl⟩
  · simp only [recvReply, heard, ↓reduceIte, inbox, msgErrno_recvInto _ _ size, errno]
    by_cases creatable : thread.disk.creatable (partName req part) = true
    · simp only [Disk.fopenWrite, creatable, ↓reduceIte]
      rcases receiveFile_download (Home req.conf)
          ⟨conn.users, conn.server, _, spend conn.life 1, conn.fault⟩ req.conf.password content
          rfl (short part rfl content stored) with ⟨-, fp, received, run⟩ | ⟨dead, fp, after, kept, run⟩
      · simp only [run, Int.lt_irrefl, ↓reduceIte]
        refine ⟨true, _, rfl, spares_saved carries fp.content ?_ (Or.inr rfl),
          .got content stored ⟨idle, rfl, admits⟩ ?_ rfl List.mem_cons_self⟩
        · exact keeps.trans ⟨rfl, rfl, Makes.refl _ _, rfl,
            fun immortal => spend_none _ (spend_none _ immortal)⟩
        · exact (Disk.save_files_self _ _ _).trans (congrArg some received)
      · simp only [run, Int.reduceNeg, Int.reduceLT, ↓reduceIte]
        refine ⟨false, _, rfl, spares_saved carries _ ?_ (Or.inl rfl), .failed ?_ rfl⟩
        · exact keeps.trans ⟨kept.users, kept.files, kept.makes, kept.fault,
            fun immortal => kept.life (spend_none _ immortal)⟩
        · intro immortal
          exact mortal_of_lives dead (spend_none _ (keeps.life immortal))
    · have refused : thread.disk.creatable (partName req part) = false := by simpa using creatable
      simp only [Disk.fopenWrite, refused, Bool.false_eq_true, ↓reduceIte]
      exact ⟨false, _, rfl, spares_same carries (read _), .refused refused rfl⟩

end part

theorem getPart_outcome (req : Request) (parts : Int × Int) (pkt : Bytes) (part : Nat)
    (bound : part < req.nh) (thread : Thread) (settled : Settled req.conf thread.conn)
    (carries : Carries req.conf CMD_GET thread.outpkt)
    (short : Short req (· = part) thread.conn) :
    ∃ goes after, getPart req.conf.password ⟨parts, req.path, req.filename, pkt⟩ part thread =
      some (goes, after) ∧ Spares req (· = part) thread after ∧
        PartEnd req part thread after goes := by
  have text := text_fits req part bound thread.outpkt
  rcases deliver_get req.conf thread.conn (setMsg thread.outpkt (setPath req.path (partName req part)))
      settled (carries.setMsg _) (text_named req part bound _) with
      ⟨keeps, idle, admits, life, reply, size, answer⟩
  rw [text] at answer
  by_cases alive : lives thread.conn.life 0 = true
  · generalize delivered : thread.conn.deliver
      [setMsg thread.outpkt (setPath req.path (partName req part))] = conn
      at keeps idle admits answer
    by_cases heard : lives conn.life 0 = true
    · exact getPart_heard carries delivered alive heard keeps idle admits short size answer
    · exact getPart_silent carries delivered alive (by simpa using heard) keeps
  · have real : (part : Int) ≠ -1 := by omega
    have dead : lives thread.conn.life 0 = false := by simpa using alive
    rw [getPart, if_pos real]
    simp only [Conn.send, dead, Bool.false_eq_true, ↓reduceIte]
    exact ⟨false, _, rfl, spares_same carries (Keeps.refl _ _), .failed (mortal_of_lives dead) rfl⟩

/-- Outcomes of a thread of a GET, by the connection before and after it, the local files,
the list of received partitions and its return value. -/
inductive ThreadEnd (req : Request) (asked : Nat → Prop) (creatable : Bytes → Bool)
    (before : Conn) (files : Bytes → Option Bytes) (after : Conn) (got : List Int) : Nat → Prop where
  | got (settled : Settled req.conf after)
      (kept : ∀ part, asked part → ∃ content, before.stored req part = some content ∧
        files (partName req part) = some (encrypted req.conf.password content))
      (listed : ∀ part : Nat, asked part → (part : Int) ∈ got) :
      ThreadEnd req asked creatable before files after got 0
  | failed (mortal : before.life ≠ none) : ThreadEnd req asked creatable before files after got 1
  | missing (part : Nat) (member : asked part) (stored : before.stored req part = none)
      (settled : Settled req.conf after) : ThreadEnd req asked creatable before files after got 2
  | silent (closed : before.fault = .closed) (mortal : before.life ≠ none) :
      ThreadEnd req asked creatable before files after got 2
  | refused (part : Nat) (member : asked part) (blocked : creatable (partName req part) = false) :
      ThreadEnd req asked creatable before files after got 0

theorem partName_injective {req : Request} {first second : Nat}
    (same : partName req first = partName req second) : first = second :=
  setPartitionName_injective req.filename first second same

theorem Keeps.stored {made : Bytes → Prop} {before after : Conn} (keeps : Keeps made before after)
    (req : Request) (part : Nat) : after.stored req part = before.stored req part :=
  congrFun keeps.files (storedPath req part)

theorem Short.keeps {req : Request} {asked fewer : Nat → Prop} {made : Bytes → Prop} {before after : Conn}
    (short : Short req asked before) (keeps : Keeps made before after)
    (within : ∀ part, fewer part → asked part) : Short req fewer after := by
  intro part member content stored
  rw [keeps.stored] at stored
  exact short part (within part member) content stored

theorem Spares.trans {req : Request} {first second touched : Nat → Prop}
    {start middle last : Thread} (early : Spares req first start middle)
    (late : Spares req second middle last) (firstIn : ∀ part, first part → touched part)
    (secondIn : ∀ part, second part → touched part) : Spares req touched start last where
  conn := early.conn.trans late.conn
  files path other := by
    calc
      last.disk.files path = middle.disk.files path :=
        late.files path (fun part member => other part (secondIn part member))
      _ = start.disk.files path :=
        early.files path (fun part member => other part (firstIn part member))
  creatable := late.creatable.trans early.creatable
  outpkt carries := late.outpkt (early.outpkt carries)
  older index member := late.older index (early.older index member)
  newer index member := by
    rcases late.newer index member with before | ⟨part, inLate, same⟩
    · exact (early.newer index before).imp id
        (fun ⟨part, inEarly, same⟩ => ⟨part, firstIn part inEarly, same⟩)
    · exact Or.inr ⟨part, secondIn part inLate, same⟩

theorem Spares.mono {req : Request} {touched more : Nat → Prop} {start last : Thread}
    (spares : Spares req touched start last) (within : ∀ part, touched part → more part) :
    Spares req more start last where
  conn := spares.conn
  files path other := spares.files path (fun part member => other part (within part member))
  creatable := spares.creatable
  outpkt := spares.outpkt
  older := spares.older
  newer index member := (spares.newer index member).imp id
    (fun ⟨part, inside, same⟩ => ⟨part, within part inside, same⟩)

theorem ThreadEnd.cons {req : Request} {part : Nat} {rest : List Int} {content : Bytes}
    {thread middle after : Thread} (early : Spares req (· = part) thread middle)
    (stored : thread.conn.stored req part = some content)
    (kept : middle.disk.files (partName req part) =
      some (encrypted req.conf.password content))
    (listed : (part : Int) ∈ middle.got)
    (late : Spares req (fun other => (other : Int) ∈ rest) middle after)
    (outcome : ThreadEnd req (fun other => (other : Int) ∈ rest) middle.disk.creatable middle.conn
      after.disk.files after.conn after.got after.retval) :
    ThreadEnd req (fun other => (other : Int) ∈ (part : Int) :: rest) thread.disk.creatable
      thread.conn after.disk.files after.conn after.got after.retval := by
  rw [early.creatable] at outcome
  generalize after.retval = code at outcome ⊢
  cases outcome with
  | got settled others found =>
      have head : ∀ other : Nat, (other : Int) ∈ (part : Int) :: rest → (other : Int) ∉ rest →
          other = part := by
        intro other member outside
        rcases List.mem_cons.mp member with same | tail
        · omega
        · exact absurd tail outside
      refine .got settled (fun other member => ?_) (fun other member => ?_)
      swap
      · by_cases again : (other : Int) ∈ rest
        · exact found other again
        · rw [head other member again]
          exact late.older _ listed
      by_cases again : (other : Int) ∈ rest
      · rcases others other again with ⟨found, storedThere, file⟩
        rw [early.conn.stored] at storedThere
        exact ⟨found, storedThere, file⟩
      · have same := head other member again
        subst same
        refine ⟨content, stored, (late.files _ ?_).trans kept⟩
        intro next inRest named
        rw [partName_injective named] at again
        exact again inRest
  | failed mortal => exact .failed (fun immortal => mortal (early.conn.life immortal))
  | missing other member storedThere settled =>
      rw [early.conn.stored] at storedThere
      exact .missing other (List.mem_cons_of_mem _ member) storedThere settled
  | silent closed mortal =>
      exact .silent (early.conn.fault ▸ closed) (fun immortal => mortal (early.conn.life immortal))
  | refused other member blocked => exact .refused other (List.mem_cons_of_mem _ member) blocked

theorem getParts_outcome (req : Request) (parts : Int × Int) (pkt : Bytes) (asked : List Int)
    (valid : ∀ index ∈ asked, index = -1 ∨ ∃ part < req.nh, index = (part : Nat))
    (thread : Thread) (settled : Settled req.conf thread.conn)
    (carries : Carries req.conf CMD_GET thread.outpkt)
    (short : Short req (fun part => (part : Int) ∈ asked) thread.conn)
    (fresh : thread.retval = 0) :
    ∃ after, getParts req.conf.password ⟨parts, req.path, req.filename, pkt⟩ asked thread =
      some after ∧ Spares req (fun part => (part : Int) ∈ asked) thread after ∧
        ThreadEnd req (fun part => (part : Int) ∈ asked) thread.disk.creatable thread.conn
          after.disk.files after.conn after.got after.retval := by
  -- A `-1` is skipped; of the others only a partition that was fetched lets the loop go on.
  induction asked generalizing thread with
  | nil =>
      refine ⟨thread, rfl, ⟨Keeps.refl _ _, fun _ _ => rfl, rfl, id, fun _ => id,
        fun _ => Or.inl⟩, ?_⟩
      rw [fresh]
      exact .got settled (fun part member => absurd member List.not_mem_nil)
        (fun part member => absurd member List.not_mem_nil)
  | cons index rest ih =>
      have later := ih (fun other member => valid other (List.mem_cons_of_mem _ member))
      rcases valid index List.mem_cons_self with skipped | ⟨part, bound, rfl⟩
      · rcases later thread settled carries
          (short.keeps (Keeps.refl (Home req.conf) _)
            (fun part member => List.mem_cons_of_mem _ member)) fresh with
            ⟨after, run, spares, outcome⟩
        have same : ∀ part : Nat, (part : Int) ∈ index :: rest ↔ (part : Int) ∈ rest := by
          intro part
          have other : (part : Int) ≠ index := by omega
          simp only [List.mem_cons, other, false_or]
        have skip : getPart req.conf.password ⟨parts, req.path, req.filename, pkt⟩ index thread =
            some (true, thread) := by rw [getPart, if_neg (by omega)]
        refine ⟨after, ?_, ?_, ?_⟩
        · rw [getParts, skip]
          exact run
        · simpa only [same] using spares
        · simpa only [same] using outcome
      · rcases getPart_outcome req parts pkt part bound thread settled carries
            (short.keeps (Keeps.refl (Home req.conf) _) (by
              intro other same
              rcases same with rfl
              exact List.mem_cons_self)) with ⟨goes, middle, run, spares, outcome⟩
        have stop : Spares req (fun other => (other : Int) ∈ (part : Int) :: rest) thread middle :=
          spares.mono (by
            intro other same
            rcases same with rfl
            exact List.mem_cons_self)
        rw [getParts, run]
        cases outcome with
        | failed mortal code => exact ⟨middle, rfl, stop, code ▸ .failed mortal⟩
        | missing stored settled code =>
            exact ⟨middle, rfl, stop, code ▸ .missing part List.mem_cons_self stored settled⟩
        | silent closed mortal code => exact ⟨middle, rfl, stop, code ▸ .silent closed mortal⟩
        | refused blocked code =>
            exact ⟨middle, rfl, stop, code ▸ .refused part List.mem_cons_self blocked⟩
        | got content stored settled kept code listed =>
            rcases later middle settled (spares.outpkt carries)
              (short.keeps spares.conn (fun other member => List.mem_cons_of_mem _ member))
              (code.trans fresh) with ⟨after, tail, more, outcome⟩
            exact ⟨after, tail, stop.trans more (fun _ => id)
              (fun other member => List.mem_cons_of_mem _ member),
              ThreadEnd.cons spares stored kept listed more outcome⟩

theorem handleGet_outcome (req : Request) (parts : Int × Int) (pkt : Bytes)
    (valid : ∀ index ∈ [parts.1, parts.2], index = -1 ∨ ∃ part < req.nh, index = (part : Nat))
    (thread : Thread) (settled : Settled req.conf thread.conn)
    (carries : Carries req.conf CMD_GET thread.outpkt)
    (short : Short req (Asks parts) thread.conn) (fresh : thread.retval = 0) :
    ∃ after, handleGet req.conf.password ⟨parts, req.path, req.filename, pkt⟩ thread = some after ∧
      Spares req (Asks parts) thread after ∧ ThreadEnd req (Asks parts) thread.disk.creatable
        thread.conn after.disk.files after.conn after.got after.retval := by
  have asked : (fun part : Nat => (part : Int) ∈ [parts.1, parts.2]) = Asks parts := by
    funext part
    simp only [List.mem_cons, List.not_mem_nil, or_false, Asks, eq_comm (a := (part : Int))]
  rw [← asked] at short ⊢
  exact getParts_outcome req parts pkt _ valid thread settled carries short fresh

theorem ThreadEnd.later {req : Request} {asked : Nat → Prop} {creatable : Bytes → Bool}
    {before after : Conn} {early late : Bytes → Option Bytes} {got more : List Int} {code : Nat}
    (outcome : ThreadEnd req asked creatable before early after got code)
    (same : ∀ part, asked part → late (partName req part) = early (partName req part))
    (within : ∀ index ∈ got, index ∈ more) :
    ThreadEnd req asked creatable before late after more code := by
  cases outcome with
  | got settled kept listed =>
      refine .got settled (fun part member => ?_) (fun part member => within _ (listed part member))
      rcases kept part member with ⟨content, stored, file⟩
      exact ⟨content, stored, (same part member).trans file⟩
  | failed mortal => exact .failed mortal
  | missing part member stored settled => exact .missing part member stored settled
  | silent closed mortal => exact .silent closed mortal
  | refused part member blocked => exact .refused part member blocked

/-- What a list of threads does to the client. -/
structure RoundEnd (req : Request) (threads : List (Nat × (Int × Int))) (client : Client)
    (ends : Nat → Option Thread) (after : Client) (last : Nat → Option Thread) : Prop where
  available : after.available = client.available
  creatable : after.disk.creatable = client.disk.creatable
  files : ∀ path, (∀ i parts part, (i, parts) ∈ threads → Asks parts part →
    path ≠ partName req part) → after.disk.files path = client.disk.files path
  others : ∀ i, (∀ parts, (i, parts) ∉ threads) →
    after.conns i = client.conns i ∧ last i = ends i
  started : ∀ i parts, (i, parts) ∈ threads → ∃ thread, last i = some thread
  keeps : ∀ i parts, (i, parts) ∈ threads → Keeps (Home req.conf) (client.conns i) (after.conns i)
  older : ∀ index ∈ client.got, index ∈ after.got
  newer : ∀ index ∈ after.got, index ∈ client.got ∨
    ∃ i parts part, (i, parts) ∈ threads ∧ Asks parts part ∧ index = (part : Nat)
  outcome : ∀ i parts, (i, parts) ∈ threads → ThreadEnd req (Asks parts) client.disk.creatable
    (client.conns i) after.disk.files (after.conns i) after.got (retval last i)

theorem RoundEnd.cons {req : Request} {i : Nat} {parts : Int × Int} {pkt buffer : Bytes}
    {rest : List (Nat × (Int × Int))} {client after : Client} {ends last : Nat → Option Thread}
    {thread : Thread} (apart : ∀ j other, (j, other) ∈ rest → j ≠ i)
    (once : ∀ part j other, (j, other) ∈ rest → Asks parts part → ¬ Asks other part)
    (spares : Spares req (Asks parts)
      ⟨client.conns i, client.disk, pkt, buffer, 0, [], client.got⟩ thread)
    (outcome : ThreadEnd req (Asks parts) client.disk.creatable (client.conns i)
      thread.disk.files thread.conn thread.got thread.retval)
    (rounds : RoundEnd req rest (client.join i thread) (Function.update ends i (some thread))
      after last) :
    RoundEnd req ((i, parts) :: rest) client ends after last := by
  rcases rounds.others i (fun other member => apart i other member rfl) with ⟨sameConn, sameEnd⟩
  rw [Client.join_self] at sameConn
  rw [Function.update_self] at sameEnd
  constructor
  case available => exact rounds.available
  case creatable => exact rounds.creatable.trans spares.creatable
  case files =>
    intro path other
    rw [rounds.files path (fun j second part member =>
      other j second part (List.mem_cons_of_mem _ member))]
    exact spares.files path (fun part => other i parts part List.mem_cons_self)
  case others =>
    intro j outside
    have different : j ≠ i := by
      intro same
      rw [same] at outside
      exact outside parts List.mem_cons_self
    obtain ⟨conn, ending⟩ := rounds.others j
      (fun second member => outside second (List.mem_cons_of_mem _ member))
    rw [conn, ending, client.join_of_ne thread different, Function.update_of_ne different]
    exact ⟨rfl, rfl⟩
  case started => exact (forall_thread_cons i parts rest).mpr ⟨⟨thread, sameEnd⟩, rounds.started⟩
  case keeps =>
    rw [forall_thread_cons, sameConn]
    refine ⟨spares.conn, fun j second member => ?_⟩
    rw [← client.join_of_ne thread (apart j second member)]
    exact rounds.keeps j second member
  case older => exact fun index member => rounds.older index (spares.older index member)
  case newer =>
    intro index member
    rcases rounds.newer index member with before | ⟨j, second, part, inRest, asks, same⟩
    · exact (spares.newer index before).imp id
        (fun ⟨part, asks, same⟩ => ⟨i, parts, part, List.mem_cons_self, asks, same⟩)
    · exact Or.inr ⟨j, second, part, List.mem_cons_of_mem _ inRest, asks, same⟩
  case outcome =>
    have code : retval last i = thread.retval := by rw [retval, sameEnd]
    rw [forall_thread_cons, sameConn, code]
    constructor
    · refine outcome.later (fun part asks => rounds.files _ ?_) rounds.older
      intro j second other inRest alsoAsks named
      rw [← partName_injective named] at alsoAsks
      exact once part j second inRest asks alsoAsks
    · intro j second member
      rw [← client.join_of_ne thread (apart j second member), ← spares.creatable]
      exact rounds.outcome j second member

theorem runThreads_outcome (req : Request) (pkt : Bytes) (stack : Nat → Bytes)
    (carries : Carries req.conf CMD_GET pkt) (threads : List (Nat × (Int × Int)))
    (hosts : (threads.map Prod.fst).Nodup)
    (once : ∀ part i j first second, (i, first) ∈ threads → (j, second) ∈ threads →
      Asks first part → Asks second part → i = j)
    (valid : ∀ i parts, (i, parts) ∈ threads → ∀ index ∈ [parts.1, parts.2],
      index = -1 ∨ ∃ part < req.nh, index = (part : Nat))
    (client : Client) (ends : Nat → Option Thread)
    (ready : ∀ i parts, (i, parts) ∈ threads →
      Settled req.conf (client.conns i) ∧ Short req (Asks parts) (client.conns i)) :
    ∃ after last, runThreads (handleGet req.conf.password) req pkt stack threads (client, ends) =
      some (after, last) ∧ RoundEnd req threads client ends after last := by
  -- Induction over the threads: no later one has the host or the partitions of the first.
  induction threads generalizing client ends with
  | nil =>
      refine ⟨client, ends, rfl, ⟨rfl, rfl, fun _ _ => rfl, fun _ _ => ⟨rfl, rfl⟩, ?_, ?_,
        fun _ => id, fun _ => Or.inl, ?_⟩⟩
      all_goals
        intro i parts member
        cases member
  | cons head rest ih =>
      rcases head with ⟨i, parts⟩
      obtain ⟨⟨settled, short⟩, readyRest⟩ := (forall_thread_cons i parts rest).mp ready
      obtain ⟨validHead, validRest⟩ := (forall_thread_cons i parts rest).mp valid
      have apart := host_ne hosts
      obtain ⟨thread, run, spares, outcome⟩ := handleGet_outcome req parts pkt validHead
        ⟨client.conns i, client.disk, pkt, stack i, 0, [], client.got⟩ settled carries short rfl
      have onceRest : ∀ part j k first second, (j, first) ∈ rest → (k, second) ∈ rest →
          Asks first part → Asks second part → j = k := fun part j k first second inJ inK =>
        once part j k first second (List.mem_cons_of_mem _ inJ) (List.mem_cons_of_mem _ inK)
      have readyThen : ∀ j other, (j, other) ∈ rest → Settled req.conf ((client.join i thread).conns j) ∧
          Short req (Asks other) ((client.join i thread).conns j) := by
        intro j other member
        rw [client.join_of_ne thread (apart j other member)]
        exact readyRest j other member
      rcases ih (List.nodup_cons.mp hosts).2 onceRest validRest (client.join i thread)
        (Function.update ends i (some thread)) readyThen with ⟨after, last, tail, rounds⟩
      have alone : ∀ part j other, (j, other) ∈ rest → Asks parts part → ¬ Asks other part :=
        fun part j other member asks alsoAsks => apart j other member
          (once part j i other parts (List.mem_cons_of_mem _ member) List.mem_cons_self alsoAsks asks)
      exact ⟨after, last, (runThreads_cons rest ends run).trans tail,
        rounds.cons apart alone spares outcome⟩

/-- The hosts that keep a partition. -/
def Keeper (req : Request) (i part : Nat) : Prop :=
  part < req.nh ∧ (i = firstHost req.nh req.hash part ∨ i = secondHost req.nh req.hash part)

theorem keeper_of_asks {req : Request} {available : Nat → Bool} {i part : Nat}
    {parts : Int × Int} (member : (i, parts) ∈ schedule CMD_GET available req.hash req.nh)
    (asks : Asks parts part) : Keeper req i part := by
  have bound := asks_lt _ _ _ _ req.hash_lt i part parts member asks
  obtain ⟨-, place⟩ := (get_round_iff available req.hash req.nh req.hash_lt part i bound).mp
    ⟨parts, member, asks⟩
  exact ⟨bound, place.imp id And.left⟩

theorem getRound_outcome (req : Request) (stack : Nat → Bytes) (client : Client)
    (ready : ∀ i < req.nh, client.available i = true →
      Settled req.conf (client.conns i) ∧ Short req (Keeper req i) (client.conns i)) :
    ∃ after ends, runRound CMD_GET (handleGet req.conf.password) req stack client =
      some (after, ends) ∧ RoundEnd req (schedule CMD_GET client.available req.hash req.nh) client
        (fun _ => none) after ends := by
  refine runThreads_outcome req _ stack (carries_build CMD_GET 0 req.msg req.conf)
    (schedule CMD_GET client.available req.hash req.nh) (schedule_nodup _ _ _ _) ?_ ?_ client _ ?_
  · intro part i j first second memberI memberJ asksI asksJ
    exact asked_once client.available req.hash req.nh req.hash_lt part i j first second memberI
      memberJ asksI asksJ
  · intro i parts member
    exact schedule_valid _ _ _ _ req.hash_lt i parts member
  · intro i parts member
    obtain ⟨host, up, -⟩ := (mem_schedule _ _ _ _ _ _).mp member
    rcases ready i host up with ⟨settled, short⟩
    exact ⟨settled, short.keeps (Keeps.refl (Home req.conf) _)
      (fun part asks => keeper_of_asks member asks)⟩

end NetworkSystem.Dfc
