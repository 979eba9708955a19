import NetworkSystem.Dfc.Lockstep
import NetworkSystem.Dfc.MainLoop

/-! The rounds of `mkdir` and `list` on connections that do not fail: they come to an end,
no host is marked, and no file changes on either side. -/

namespace NetworkSystem.Dfc

open Bytes Store Calls

theorem createDir_keeps {disk : Disk} {dir : Bytes} (path : Bytes) (present : disk.dirs dir = true) :
    (createDir disk path).2.dirs dir = true := by
  simp only [createDir]
  split_ifs
  · exact present
  · exact present
  · by_cases same : dir = path
    · rw [same]
      exact Function.update_self _ _ _
    · exact (Function.update_of_ne same _ _).trans present
  · exact present

/-- The directory that a `mkdir` makes. -/
def MakesDir (pkt path : Bytes) : Prop :=
  msgType pkt = CMD_MKDIR ∧ path = setPath (msgUsername pkt) (msgText pkt)

/-- Commands other than the two that open a file leave the files and the user's directory
where they are. -/
theorem runCommand_message {disk : Disk} {pkt home : Bytes} (present : disk.dirs home = true)
    (notGet : msgType pkt ≠ CMD_GET) (notPut : msgType pkt ≠ CMD_PUT) :
    (runCommand disk pkt).disk.files = disk.files ∧
      Makes (MakesDir pkt) disk (runCommand disk pkt).disk ∧
      (runCommand disk pkt).disk.dirs home = true := by
  simp only [runCommand, if_neg notGet, if_neg notPut]
  split_ifs with mkdir
  · exact ⟨createDir_files _ _, (createDir_makes _ _).mono (fun _ same => ⟨mkdir, same⟩),
      createDir_keeps _ present⟩
  · exact ⟨createDir_files _ _, (createDir_makes _ _).mono (fun _ same => ⟨mkdir, same⟩),
      createDir_keeps _ present⟩
  · exact ⟨rfl, Makes.refl _ _, present⟩
  · exact ⟨rfl, Makes.refl _ _, present⟩

/-- The directories that the answer to a message may make. -/
def Made (conf : Credentials) (pkt path : Bytes) : Prop := Home conf path ∨ MakesDir pkt path

section message

variable {conf : Credentials} {conn : Conn} {type : UInt8} {pkt : Bytes}

/-- A message is answered by one packet, and behind it both sides are where they were. -/
theorem deliver_message (settled : Settled conf conn) (carries : Carries conf type pkt)
    (notGet : type ≠ CMD_GET) (notPut : type ≠ CMD_PUT) :
    ∃ reply, (conn.deliver [pkt]).inbox = [reply] ∧
      Settled conf { conn.deliver [pkt] with inbox := [] } ∧
      Keeps (Made conf pkt) conn { conn.deliver [pkt] with inbox := [] } := by
  rcases conn with ⟨users, ⟨disk, mode, served⟩, inbox, life, fault⟩
  rcases settled with ⟨idle, drained, admits⟩
  simp only at idle drained admits
  subst idle drained
  have kind := carries.kind
  have home := admits_home admits
  have made := createDir_dirs disk conf.username admits.home
  have verdict := handleRequest_admitted admits carries
  have streams := handleRequest_streams users disk pkt
  rw [← kind] at notGet notPut
  have none_ : (handleRequest users disk pkt).fp = none := by
    apply Option.not_isSome_iff_eq_none.mp
    intro opened
    exact (streams.mp opened).2.elim notGet notPut
  rcases runCommand_message made notGet notPut with ⟨files, makes, present⟩
  rw [← verdict] at files makes present
  have homely : Makes (Made conf pkt) disk (createDir disk conf.username).2 :=
    (createDir_makes disk conf.username).mono (fun _ same => Or.inl same)
  simp only [Conn.deliver, serverRun, serverStep, recvInto_whole pkt carries.size, answer, upload,
    none_, ite_self, ↓reduceIte, List.append_nil, List.nil_append]
  refine ⟨_, rfl, ⟨rfl, rfl, admits_of_dirs users home.known present⟩, ?_⟩
  exact ⟨rfl, files.trans (createDir_files _ _), homely.trans (makes.mono (fun _ => Or.inr)), rfl,
    fun immortal => spend_none _ immortal⟩

theorem run_answered {p : Handler.Program Result} {buffer : Bytes} {disk : Disk}
    {next : Option Fault × Bytes → Handler.Program Result} {other : Handler.Program Result}
    (asks : p = .call (.send pkt) fun sent =>
      if sent then Handler.recvBuffer buffer >>= next else other)
    (settled : Settled conf conn) (immortal : conn.life = none) (carries : Carries conf type pkt)
    (notGet : type ≠ CMD_GET) (notPut : type ≠ CMD_PUT) :
    ∃ reply after, Settled conf after ∧ Keeps (Made conf pkt) conn after ∧
      Prog.run respond p ⟨conn, disk⟩ =
        Prog.run respond (next (none, recvInto buffer reply)) ⟨after, disk⟩ := by
  rcases deliver_message settled carries notGet notPut with ⟨reply, inbox, behind, keeps⟩
  have alive : lives conn.life 0 = true := by
    rw [immortal]
    rfl
  have still : (conn.deliver [pkt]).life = none := keeps.life immortal
  refine ⟨reply, _, behind, keeps, ?_⟩
  simp only [asks, Prog.run_call, respond, Conn.send, alive, ↓reduceIte, Option.bind_some,
    Handler.recvBuffer, Handler.recv, Prog.perform_bind, Prog.call_bind, inbox, Prog.pure_eq,
    still, spend, Option.map_none]
  rfl

/-- A handler that sends `pkt` and returns, not with 1, on any connection that does not
fail. -/
def Handler.Returns (conf : Credentials) (pkt : Bytes) (p : Program Result) : Prop :=
  ∀ conn disk, Settled conf conn → conn.life = none → ∃ result after, result ≠ .code 1 ∧
    Settled conf after ∧ Keeps (Made conf pkt) conn after ∧
      Prog.run respond p ⟨conn, disk⟩ = some (result, ⟨after, disk⟩)

theorem returns_handleMkdir {tp : ThreadParam} (stack : Bytes)
    (carries : Carries conf CMD_MKDIR tp.pkt) :
    Handler.Returns conf tp.pkt (Handler.handleMkdir tp stack) := by
  intro conn disk settled immortal
  rcases run_answered (p := Handler.handleMkdir tp stack) rfl settled immortal
    carries (by decide) (by decide) with ⟨reply, after, behind, keeps, run⟩
  refine ⟨.code 0, after, by decide, behind, keeps, ?_⟩
  rw [run]
  rfl

theorem returns_handleLs {tp : ThreadParam} (stack : Bytes)
    (carries : Carries conf CMD_LS tp.pkt) :
    Handler.Returns conf tp.pkt (Handler.handleLs tp stack) := by
  intro conn disk settled immortal
  rcases run_answered (p := Handler.handleLs tp stack) rfl settled immortal
    carries (by decide) (by decide) with ⟨reply, after, behind, keeps, run⟩
  have text : ∃ listing, Prog.run respond (Handler.takeListing (recvInto stack reply))
      ⟨after, disk⟩ = some (.text listing, ⟨after, disk⟩) := by
    rw [Handler.takeListing]
    split_ifs
    · exact ⟨_, rfl⟩
    · exact ⟨_, rfl⟩
    · exact ⟨_, rfl⟩
  rcases text with ⟨listing, taken⟩
  refine ⟨.text listing, after, by simp, behind, keeps, ?_⟩
  rw [run, ← taken]
  rfl

theorem returns_connectionHandler {tp : ThreadParam} (nh : Nat) (stack : Bytes)
    (message : type = CMD_LS ∨ type = CMD_MKDIR) (carries : Carries conf type tp.pkt) :
    Handler.Returns conf tp.pkt (Handler.connectionHandler conf.password nh tp stack) := by
  rcases message with rfl | rfl
  · rw [Handler.connectionHandler, if_pos carries.kind]
    exact returns_handleLs stack carries
  · rw [Handler.connectionHandler, carries.kind, if_neg (by decide), if_neg (by decide),
      if_neg (by decide), if_pos rfl]
    exact returns_handleMkdir stack carries

end message

/-- What a round of messages leaves. -/
structure MessageEnd (conf : Credentials) (pkt : Bytes) (round last : Round) : Prop where
  disk : last.disk = round.disk
  keeps : ∀ i, Keeps (Made conf pkt) (round.conns i) (last.conns i)
  settled : ∀ i, Settled conf (round.conns i) → Settled conf (last.conns i)
  calm : ∀ i, round.results i ≠ .code 1 → last.results i ≠ .code 1

theorem MessageEnd.refl (conf : Credentials) (pkt : Bytes) (round : Round) :
    MessageEnd conf pkt round round :=
  ⟨rfl, fun _ => Keeps.refl _ _, fun _ => id, fun _ => id⟩

theorem MessageEnd.trans {conf : Credentials} {pkt : Bytes} {first second third : Round}
    (early : MessageEnd conf pkt first second) (late : MessageEnd conf pkt second third) :
    MessageEnd conf pkt first third where
  disk := late.disk.trans early.disk
  keeps i := (early.keeps i).trans (late.keeps i)
  settled i start := late.settled i (early.settled i start)
  calm i start := late.calm i (early.calm i start)

theorem messageEnd_ran {conf : Credentials} {pkt : Bytes} {round : Round} {i : Nat}
    {result : Result} {after : Conn} (calm : result ≠ .code 1) (settled : Settled conf after)
    (keeps : Keeps (Made conf pkt) (round.conns i) after) :
    MessageEnd conf pkt round (round.ran i result ⟨after, round.disk⟩) := by
  constructor
  · rfl
  · intro j
    by_cases here : j = i
    · subst here
      simp only [Round.ran, Function.update_self]
      exact keeps
    · simp only [Round.ran, Function.update_of_ne here]
      exact Keeps.refl _ _
  · intro j start
    by_cases here : j = i
    · subst here
      simp only [Round.ran, Function.update_self]
      exact settled
    · simp only [Round.ran, Function.update_of_ne here]
      exact start
  · intro j start
    by_cases here : j = i
    · subst here
      simp only [Round.ran, Function.update_self]
      exact calm
    · simp only [Round.ran, Function.update_of_ne here]
      exact start

theorem inTurn_messages {conf : Credentials} {pkt : Bytes}
    {programs : Nat → Handler.Program Result} {hosts : List Nat}
    (returns : ∀ i ∈ hosts, Handler.Returns conf pkt (programs i)) (round : Round)
    (ready : ∀ i ∈ hosts, Settled conf (round.conns i) ∧ (round.conns i).life = none) :
    ∃ last, Round.inTurn programs hosts round = some last ∧ MessageEnd conf pkt round last := by
  induction hosts generalizing round with
  | nil => exact ⟨round, rfl, MessageEnd.refl conf pkt round⟩
  | cons i rest ih =>
      rcases ready i List.mem_cons_self with ⟨settled, immortal⟩
      rcases returns i List.mem_cons_self (round.conns i) round.disk settled immortal with
        ⟨result, after, calm, behind, keeps, run⟩
      have first := messageEnd_ran calm behind keeps
      rcases ih (fun j member => returns j (List.mem_cons_of_mem _ member))
        (round.ran i result ⟨after, round.disk⟩) (by
          intro j member
          have start := ready j (List.mem_cons_of_mem _ member)
          exact ⟨first.settled j start.1, (first.keeps j).life start.2⟩) with ⟨last, tail, later⟩
      refine ⟨last, ?_, first.trans later⟩
      rw [Round.inTurn, run]
      exact tail

theorem messageRound_end (conf : Credentials) (nh : Nat) {cmdType : UInt8} (msg : Option Bytes)
    (stack : Nat → Bytes) (client : Client) (message : cmdType = CMD_LS ∨ cmdType = CMD_MKDIR)
    (ready : ∀ i < nh, Settled conf (client.conns i) ∧ (client.conns i).life = none) :
    ∃ last, messageRound conf nh cmdType msg stack client = some last ∧
      MessageEnd conf (buildMsgPacket cmdType 0 msg (some conf)) client.round last := by
  have hosts : ∀ i ∈ (schedule cmdType client.available 0 nh).map Prod.fst, ∃ parts,
      (i, parts) ∈ schedule cmdType client.available 0 nh := by
    intro i member
    obtain ⟨⟨j, parts⟩, inside, rfl⟩ := List.mem_map.mp member
    exact ⟨parts, inside⟩
  apply inTurn_messages
  · intro i member
    obtain ⟨parts, inside⟩ := hosts i member
    let tp : ThreadParam := ⟨parts, [], [], buildMsgPacket cmdType 0 msg (some conf)⟩
    have carries : Carries conf cmdType tp.pkt := carries_build cmdType 0 msg conf
    rw [roundPrograms, lookup_schedule inside]
    exact returns_connectionHandler nh (stack i) message carries
  · intro i member
    obtain ⟨parts, inside⟩ := hosts i member
    exact ready i ((mem_schedule _ _ _ _ _ _).mp inside).1

theorem MessageEnd.available {conf : Credentials} {pkt : Bytes} {client : Client} {last : Round}
    (ended : MessageEnd conf pkt client.round last) (cmdType : UInt8) (nh : Nat) :
    markFailed cmdType nh last.results client.available = client.available := by
  funext i
  have calm : last.results i ≠ .code 1 := ended.calm i (code_ne Nat.zero_ne_one)
  rw [markFailed, if_neg (fun failed => calm failed.2.2)]

end NetworkSystem.Dfc
