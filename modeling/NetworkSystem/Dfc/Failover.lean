import NetworkSystem.Dfc.Rounds

/-! A GET of a file that every server holds, with servers failing on the way. -/

namespace NetworkSystem.Dfc

open Bytes Store

/-- The invariant of the loop: the hosts still in use are in step and hold their
partitions. -/
structure Fetching (req : Request) (content : Bytes) (client : Client) : Prop where
  inStep : InStep req client
  stored : ∀ i < req.nh, client.available i = true → ∀ part, Keeper req i part →
    (client.conns i).stored req part =
      some (encrypted req.conf.password (partition content req.nh part))
  target : client.disk.creatable req.filename = true

section round

variable {req : Request} {content : Bytes} {client joined : Client}
  {ends : Nat → Option Thread} (fetching : Fetching req content client)
  (rounds : RoundEnd req (schedule CMD_GET client.available req.hash req.nh) client
    (fun _ => none) joined ends)

include fetching rounds in
theorem Fetching.thread_outcome (i : Nat) (parts : Int × Int)
    (member : (i, parts) ∈ schedule CMD_GET client.available req.hash req.nh) :
    retval ends i = 1 ∨ retval ends i = 0 ∧ ∀ part, Asks parts part →
      joined.disk.files (partName req part) = some (partition content req.nh part) := by
  obtain ⟨host, up, -⟩ := (mem_schedule _ _ _ _ _ _).mp member
  have stored := fetching.stored i host up
  rcases fetching.inStep.thread_outcome rounds i parts member with
    ⟨failed, -⟩ | ⟨-, ⟨fine, kept⟩ | ⟨-, part, asks, absent⟩⟩
  · exact Or.inl failed
  · refine Or.inr ⟨fine, fun part asks => ?_⟩
    rcases kept part asks with ⟨-, found, storedThere, file⟩
    rw [stored part (keeper_of_asks member asks)] at storedThere
    rw [file, ← Option.some.inj storedThere, encrypted_encrypted]
  · rw [stored part (keeper_of_asks member asks)] at absent
    cases absent

include fetching rounds in
theorem Fetching.retry : Fetching req content (marked req joined ends) := by
  refine ⟨fetching.inStep.retry rounds, ?_, (congrFun rounds.creatable _).trans fetching.target⟩
  intro i host up part keeper
  rcases rounds.still_up i host up with ⟨-, parts, member⟩
  have before := ((mem_schedule _ _ _ _ _ _).mp member).2.1
  calc
    (joined.conns i).stored req part = (client.conns i).stored req part :=
      (rounds.keeps i parts member).stored req part
    _ = some (encrypted req.conf.password (partition content req.nh part)) :=
      fetching.stored i host before part keeper

end round

/-- What a GET has achieved when every partition was asked for in its last round. -/
structure Fetched (req : Request) (content : Bytes) (result : GetEnd) : Prop where
  rewritten : ∀ part < req.nh, ∃ i parts thread,
    (i, parts) ∈ schedule CMD_GET result.before.available req.hash req.nh ∧ Asks parts part ∧
      result.ends i = some thread ∧ thread.retval = 0 ∧
      result.joined.disk.files (partName req part) = some (partition content req.nh part)
  merged : result.merged = true
  file : result.client.disk.files req.filename = some content

theorem Fetching.last {req : Request} {content : Bytes} {client joined : Client}
    {ends : Nat → Option Thread} {result : GetEnd} (fetching : Fetching req content client)
    (rounds : RoundEnd req (schedule CMD_GET client.available req.hash req.nh) client
      (fun _ => none) joined ends) (ended : Ends req client joined ends result)
    (connected : NoAdjacentOutage result.client.available req.nh) : Fetched req content result := by
  cases ended with
  | flagged calm flag =>
      rcases flag with ⟨i, host, code⟩
      rcases rounds.thread_of_retval i (by omega) with ⟨parts, member⟩
      rcases fetching.thread_outcome rounds i parts member with failed | ⟨fine, -⟩
      · exact absurd failed (calm i host)
      · omega
  | merged calm clear =>
      have available : (marked req joined ends).available = client.available :=
        (marked_available calm).trans rounds.available
      have asked := (all_asked_iff client.available req.hash req.nh req.hash_lt).mpr
        (available ▸ connected)
      have rewritten : ∀ part < req.nh, ∃ i parts thread,
          (i, parts) ∈ schedule CMD_GET client.available req.hash req.nh ∧ Asks parts part ∧
            ends i = some thread ∧ thread.retval = 0 ∧
            joined.disk.files (partName req part) = some (partition content req.nh part) := by
        intro part bound
        rcases asked part bound with ⟨i, parts, member, asks⟩
        obtain ⟨host, -, -⟩ := (mem_schedule _ _ _ _ _ _).mp member
        rcases rounds.started i parts member with ⟨thread, started⟩
        have outcome := fetching.thread_outcome rounds i parts member
        rcases outcome.resolve_left (calm i host) with ⟨code, kept⟩
        rw [retval, started] at code
        exact ⟨i, parts, thread, member, asks, started, code, kept part asks⟩
      refine ⟨rewritten, rfl, ?_⟩
      have present := joined_of_present joined.disk req.filename (List.range req.nh)
        (partition content req.nh) (fun part member => by
          obtain ⟨_, _, _, _, _, _, _, kept⟩ := rewritten part (List.mem_range.mp member)
          exact kept)
      have file := merged_file req joined.disk
        ((congrFun rounds.creatable _).trans fetching.target)
      rw [present, flatMap_partition content req.nh req.hosts] at file
      exact file

/-- The loop ends, whatever fails, and has fetched the file unless two neighbours are
down. -/
theorem Fetching.getCommand {req : Request} {content : Bytes} {client : Client}
    (stack : Nat → Bytes) (fetching : Fetching req content client) :
    ∃ result, Dfc.getCommand (req.nh + 1) req stack client = some (some result) ∧
      (NoAdjacentOutage result.client.available req.nh → Fetched req content result) := by
  rcases fetching with ⟨⟨settled, faults, short, creatable⟩, stored, target⟩
  apply getCommand_total req stack (Fetching req content) _ _ client
    ⟨⟨settled, faults, short, creatable⟩, stored, target⟩
  intro state holds
  rcases holds.inStep.round_outcome stack with ⟨joined, ends, run, rounds⟩
  exact ⟨joined, ends, run, fun _ => holds.retry rounds,
    fun result ended connected => holds.last rounds ended connected⟩

/-- A GET of a file that was put with all hosts available, by a client that may have
lost servers before and loses them on the way: at most `nh + 1` rounds, and the file,
unless two neighbours are down in the end. -/
theorem get_failover (req : Request) (putStack getStack : Nat → Bytes) (content : Bytes)
    (writer stored reader : Client) (leftover : Option Bytes)
    (source : writer.disk.files req.filename = some content)
    (allUp : ∀ i < req.nh, writer.available i = true)
    (putting : ∀ i < req.nh, Putting req content (writer.conns i))
    (put : putCommand req putStack writer = some stored)
    (_keyed : req.conf.password ≠ [])
    (settled : ∀ i < req.nh, reader.available i = true → Settled req.conf (reader.conns i))
    (unchanged : ∀ i < req.nh, reader.available i = true →
      (reader.conns i).server.disk.files = (stored.conns i).server.disk.files)
    (faults : ∀ i < req.nh, reader.available i = true → (reader.conns i).fault = .error)
    (creatable : ∀ part < req.nh, reader.disk.creatable (partName req part) = true)
    (target : reader.disk.creatable req.filename = true) :
    ∃ result, getCommand (req.nh + 1) { req with msg := leftover } getStack reader =
        some (some result) ∧
      (NoAdjacentOutage result.client.available req.nh →
        (∀ part < req.nh, ∃ i parts thread,
          (i, parts) ∈ schedule CMD_GET result.before.available req.hash req.nh ∧
            Asks parts part ∧ result.ends i = some thread ∧ thread.retval = 0 ∧
            result.joined.disk.files (partName req part) =
              some (partition content req.nh part)) ∧
        result.merged = true ∧ result.client.disk.files req.filename = some content) := by
  rcases putCommand_done req putStack content writer source (fun i host _ => putting i host) with
      ⟨after, run, done⟩
  rw [put] at run
  rw [Option.some.inj run] at unchanged
  have stored : ∀ i < req.nh, reader.available i = true → ∀ part, Keeper req i part →
      (reader.conns i).stored req part =
        some (encrypted req.conf.password (partition content req.nh part)) := by
    intro i host up part keeper
    rcases done.hosts i host (allUp i host) with ⟨-, -, kept⟩
    calc
      (reader.conns i).stored req part = (after.conns i).stored req part :=
        congrFun (unchanged i host up) (storedPath req part)
      _ = some (encrypted req.conf.password (partition content req.nh part)) := kept.1 part keeper
  -- What a server stores of a partition is as long as the partition.
  have short : ∀ i < req.nh, reader.available i = true →
      Short req (Keeper req i) (reader.conns i) := by
    intro i host up part keeper found storedThere
    rw [stored i host up part keeper] at storedThere
    rw [← Option.some.inj storedThere, encrypted, length_cipher]
    exact (putting 0 req.hosts).short part keeper.1
  have fetching : Fetching { req with msg := leftover } content reader :=
    ⟨⟨settled, fun i host up => Or.inl (faults i host up), short, creatable⟩, stored, target⟩
  rcases fetching.getCommand getStack with ⟨result, ended, fetched⟩
  refine ⟨result, ended, fun connected => ?_⟩
  rcases fetched connected with ⟨rewritten, merged, file⟩
  exact ⟨rewritten, merged, file⟩

def sampleRequest : Request where
  conf := sampleUser
  nh := 2
  filename := [102]
  path := []
  hash := 0
  msg := none
  hosts := by decide
  hash_lt := by decide
  filename_clean := by decide
  path_clean := by decide
  fits := by decide

def sampleConn : Conn := ⟨[([117], [112])], ⟨sampleDisk, .idle, 0⟩, [], none, .error⟩

def sampleClient (content : Bytes) : Client :=
  ⟨fun _ => true, fun _ => sampleConn, sampleDisk.save [102] content, []⟩

theorem sample_putting : Putting sampleRequest [1, 2, 3] sampleConn :=
  ⟨⟨rfl, rfl, by decide, by decide⟩, rfl, fun _ _ => rfl, by decide⟩

/-- Host 0 fails at the third socket call. -/
theorem get_failover_host_lost :
    ∃ stored, putCommand sampleRequest (fun _ => []) (sampleClient [1, 2, 3]) = some stored ∧
      ∃ result, getCommand 3 sampleRequest (fun _ => [])
          { stored with
            conns := fun i => { stored.conns i with life := if i = 0 then some 2 else none } } =
          some (some result) ∧
        (NoAdjacentOutage result.client.available 2 →
          result.client.disk.files [102] = some [1, 2, 3]) := by
  rcases putCommand_done sampleRequest (fun _ => []) [1, 2, 3]
    (sampleClient [1, 2, 3]) (by decide) (fun _ _ _ => sample_putting) with ⟨stored, put, done⟩
  have hosts : ∀ i < 2, Settled sampleUser (stored.conns i) ∧
      Extends (Home sampleUser) sampleConn (stored.conns i) := fun i host =>
    ⟨(done.hosts i host rfl).1, (done.hosts i host rfl).2.1⟩
  rcases get_failover sampleRequest (fun _ => []) (fun _ => [])
    [1, 2, 3] (sampleClient [1, 2, 3]) stored
    { stored with
      conns := fun i => { stored.conns i with life := if i = 0 then some 2 else none } }
    none (by decide) (fun _ _ => rfl) (fun _ _ => sample_putting) put (by decide)
    (fun i host _ => ⟨(hosts i host).1.idle, (hosts i host).1.drained, (hosts i host).1.admits⟩)
    (fun _ _ _ => rfl) (fun i host _ => (hosts i host).2.fault)
    (fun part _ => by rw [done.disk]; rfl) (by rw [done.disk]; rfl) with ⟨result, ended, fetched⟩
  exact ⟨stored, put, result, ended, fun connected => (fetched connected).2.2⟩

end NetworkSystem.Dfc
