import NetworkSystem.Dfc.Replication
import Mathlib.Data.List.Induction

/-! Runs of PUT and GET commands for one name, each with its own hosts available:
every host keeps the version of the last PUT it took part in, and a GET brings back
what the hosts it asks keep. -/

namespace NetworkSystem.Dfc

open Bytes Store

/-- A command of the run: the hosts available to it, and for a PUT what the local file
holds when it is given. -/
structure Event where
  available : Nat → Bool
  put : Option Bytes

def runEvent (req : Request) (stack : Nat → Bytes) (client : Client) (event : Event) :
    Option Client :=
  match event.put with
  | some content =>
      putCommand req stack { client with
        available := event.available
        disk := client.disk.save req.filename content }
  | none =>
      match getCommand (req.nh + 1) req stack { client with available := event.available } with
      | some (some result) => some result.client
      | _ => none

def runEvents (req : Request) (stack : Nat → Bytes) (client : Client) : List Event → Option Client
  | [] => some client
  | event :: rest =>
      match runEvent req stack client event with
      | none => none
      | some client => runEvents req stack client rest

/-- What the last PUT that a host took part in has put. -/
def lastPut (history : List Event) (i : Nat) : Option Bytes :=
  history.foldl (fun last event => if event.available i then event.put.or last else last) none

def mostRecentPut (history : List Event) : Option Bytes :=
  history.foldl (fun last event => event.put.or last) none

theorem lastPut_append (history : List Event) (event : Event) (i : Nat) :
    lastPut (history ++ [event]) i =
      if event.available i then event.put.or (lastPut history i) else lastPut history i := by
  simp only [lastPut, List.foldl_append, List.foldl_cons, List.foldl_nil]

theorem lastPut_get (history : List Event) {event : Event} (i : Nat) (isGet : event.put = none) :
    lastPut (history ++ [event]) i = lastPut history i := by
  rw [lastPut_append, isGet, Option.none_or, ite_self]

theorem lastPut_mem (history : List Event) (i : Nat) (content : Bytes)
    (last : lastPut history i = some content) : ∃ event ∈ history, event.put = some content := by
  induction history using List.reverseRecOn with
  | nil => cases last
  | append_singleton history event ih =>
      have earlier : lastPut history i = some content →
          ∃ other ∈ history ++ [event], other.put = some content := by
        intro before
        rcases ih before with ⟨other, member, put⟩
        exact ⟨other, List.mem_append_left _ member, put⟩
      cases put : event.put with
      | none =>
          rw [lastPut_get history i put] at last
          exact earlier last
      | some written =>
          rw [lastPut_append, put, Option.some_or] at last
          by_cases up : event.available i = true
          · rw [if_pos up] at last
            exact ⟨event, by simp, put.trans last⟩
          · rw [if_neg up] at last
            exact earlier last

/-- No partition of a file that is put has 2^32 bytes. -/
def Small (req : Request) (history : List Event) : Prop :=
  ∀ event ∈ history, ∀ content, event.put = some content →
    ∀ part < req.nh, (partition content req.nh part).length < 2 ^ 32

structure Versions (req : Request) (history : List Event) (client : Client) : Prop where
  settled : ∀ i < req.nh, Settled req.conf (client.conns i)
  immortal : ∀ i < req.nh, (client.conns i).life = none
  writable : ∀ i < req.nh, ∀ part < req.nh,
    (client.conns i).server.disk.creatable (storedPath req part) = true
  stored : ∀ i < req.nh, ∀ part, Keeper req i part → (client.conns i).stored req part =
    (lastPut history i).map (fun content =>
      encrypted req.conf.password (partition content req.nh part))
  creatable : ∀ part < req.nh, client.disk.creatable (partName req part) = true
  target : client.disk.creatable req.filename = true

section step

variable {req : Request} {history : List Event} {client : Client} {stack : Nat → Bytes}
  {event : Event} (versions : Versions req history client)

include versions in
theorem Versions.healthy (small : Small req history) (available : Nat → Bool) :
    Healthy req { client with available } := by
  refine ⟨⟨fun i host _ => versions.settled i host,
    fun i host _ => Or.inr (versions.immortal i host), ?_, versions.creatable⟩,
    fun i host _ => versions.immortal i host, versions.target⟩
  intro i host _ part keeper content stored
  rw [versions.stored i host part keeper] at stored
  obtain ⟨written, last, rfl⟩ := Option.map_eq_some_iff.mp stored
  rcases lastPut_mem history i written last with ⟨event, member, put⟩
  rw [encrypted, length_cipher]
  exact small event member written put part keeper.1

variable (stack event) in
include versions in
theorem Versions.put (content : Bytes) (put : event.put = some content)
    (small : ∀ part < req.nh, (partition content req.nh part).length < 2 ^ 32) :
    ∃ next, runEvent req stack client event = some next ∧
      Versions req (history ++ [event]) next := by
  rcases putCommand_done req stack content
    { client with
      available := event.available
      disk := client.disk.save req.filename content } (Disk.save_files_self _ _ _)
    (fun i host _ => ⟨versions.settled i host, versions.immortal i host,
      versions.writable i host, small⟩) with ⟨next, run, done⟩
  have hosts : ∀ i < req.nh, Settled req.conf (next.conns i) ∧
      Extends (Home req.conf) (client.conns i) (next.conns i) ∧ ∀ part, Keeper req i part →
        (next.conns i).stored req part = if event.available i then
          some (encrypted req.conf.password (partition content req.nh part))
        else (client.conns i).stored req part := by
    intro i host
    -- Only a host that is up takes part in the PUT.
    by_cases up : event.available i = true
    · rcases done.hosts i host up with ⟨settled, extends_, stored⟩
      refine ⟨settled, extends_, fun part keeper => ?_⟩
      rw [if_pos up]
      exact stored.1 part keeper
    · have same := done.others i (fun inUse => up inUse.2)
      rw [same]
      exact ⟨versions.settled i host, ⟨rfl, Makes.refl _ _, rfl, rfl⟩,
        fun part _ => (if_neg up).symm⟩
  refine ⟨next, by simp only [runEvent, put, run], fun i host => (hosts i host).1, ?_, ?_, ?_, ?_,
    ?_⟩
  · intro i host
    exact (hosts i host).2.1.life.trans (versions.immortal i host)
  · intro i host part bound
    rw [(hosts i host).2.1.makes.creatable (storedPath_not_home req part)]
    exact versions.writable i host part bound
  · intro i host part keeper
    rw [(hosts i host).2.2 part keeper, versions.stored i host part keeper, lastPut_append, put,
      Option.some_or]
    split <;> rfl
  · intro part bound
    rw [done.disk]
    exact versions.creatable part bound
  · rw [done.disk]
    exact versions.target

variable (stack) in
include versions in
theorem Versions.get (isGet : event.put = none) (small : Small req history)
    (connected : NoAdjacentOutage event.available req.nh) :
    ∃ next, runEvent req stack client event = some next ∧
      Versions req (history ++ [event]) next := by
  rcases (versions.healthy small event.available).getCommand stack connected with
      ⟨result, run, facts⟩
  have conns : ∀ i < req.nh, Keeps (Home req.conf) (client.conns i) (result.client.conns i) := facts.keeps
  refine ⟨result.client, by simp only [runEvent, isGet, run], ?_, ?_, ?_, ?_, ?_, ?_⟩
  · intro i host
    by_cases up : event.available i = true
    · exact facts.settled i host up
    · rw [facts.outside i (fun inUse => up inUse.2)]
      exact versions.settled i host
  · intro i host
    exact (conns i host).life (versions.immortal i host)
  · intro i host part bound
    rw [(conns i host).makes.creatable (storedPath_not_home req part)]
    exact versions.writable i host part bound
  · intro i host part keeper
    rw [(conns i host).stored, versions.stored i host part keeper, lastPut_get history i isGet]
  · intro part bound
    rw [facts.creatable]
    exact versions.creatable part bound
  · rw [facts.creatable]
    exact versions.target

end step

theorem Versions.run {req : Request} {stack : Nat → Bytes} (before history : List Event)
    (client : Client) (versions : Versions req before client)
    (small : Small req (before ++ history))
    (connected : ∀ event ∈ history, event.put = none → NoAdjacentOutage event.available req.nh) :
    ∃ last, runEvents req stack client history = some last ∧
      Versions req (before ++ history) last := by
  induction history generalizing before client with
  | nil => exact ⟨client, rfl, by rwa [List.append_nil]⟩
  | cons event rest ih =>
      have stepped : ∃ next, runEvent req stack client event = some next ∧
          Versions req (before ++ [event]) next := by
        cases put : event.put with
        | some content =>
            exact versions.put stack event content put (fun part bound => small event (by simp) content put
              part bound)
        | none =>
            exact versions.get stack put
              (fun other member => small other (List.mem_append_left _ member))
              (connected event List.mem_cons_self put)
      rcases stepped with ⟨next, run, kept⟩
      rcases ih (before ++ [event]) next kept (by simpa using small)
        (fun other member => connected other (List.mem_cons_of_mem _ member)) with
          ⟨last, tail, final⟩
      refine ⟨last, ?_, by simpa using final⟩
      simp only [runEvents, run, tail]

/-- A client and servers that have not seen the name yet. -/
structure Fresh (req : Request) (client : Client) : Prop where
  settled : ∀ i < req.nh, Settled req.conf (client.conns i)
  immortal : ∀ i < req.nh, (client.conns i).life = none
  writable : ∀ i < req.nh, ∀ part < req.nh,
    (client.conns i).server.disk.creatable (storedPath req part) = true
  nothing : ∀ i < req.nh, ∀ part, Keeper req i part → (client.conns i).stored req part = none
  creatable : ∀ part < req.nh, client.disk.creatable (partName req part) = true
  target : client.disk.creatable req.filename = true

theorem Fresh.versions {req : Request} {client : Client} (fresh : Fresh req client) :
    Versions req [] client :=
  ⟨fresh.settled, fresh.immortal, fresh.writable, fresh.nothing, fresh.creatable, fresh.target⟩

/-- A GET behind a run: it merges the versions that the asked hosts keep, or stops at a
host that has taken part in no PUT. -/
theorem Versions.read {req : Request} {history : List Event} {client : Client}
    (stack : Nat → Bytes) (versions : Versions req history client) (small : Small req history)
    (available : Nat → Bool) (connected : NoAdjacentOutage available req.nh) :
    ∃ result, getCommand (req.nh + 1) req stack { client with available } = some (some result) ∧
      ((result.merged = true ∧ ∃ version : Nat → Bytes,
          (∀ part < req.nh, lastPut history (askedHost req available part) = some (version part)) ∧
          result.client.disk.files req.filename = some ((List.range req.nh).flatMap
            (fun part => partition (version part) req.nh part))) ∨
        (result.merged = false ∧
          (∃ part < req.nh, lastPut history (askedHost req available part) = none) ∧
          result.client.disk.files req.filename = client.disk.files req.filename)) := by
  rcases (versions.healthy small available).getCommand stack connected with ⟨result, run, facts⟩
  have kept : ∀ part < req.nh, (client.conns (askedHost req available part)).stored req part =
      (lastPut history (askedHost req available part)).map (fun content =>
        encrypted req.conf.password (partition content req.nh part)) := by
    intro part bound
    rcases askedHost_started connected part bound with ⟨host, -, parts, member, asks⟩
    exact versions.stored _ host part (keeper_of_asks member asks)
  refine ⟨result, run, ?_⟩
  cases merged : result.merged with
  | true =>
      left
      refine ⟨rfl, fun part => (lastPut history (askedHost req available part)).getD [], ?_, ?_⟩
      · intro part bound
        rcases facts.merged merged part bound with ⟨content, stored, -⟩
        rw [kept part bound] at stored
        obtain ⟨version, last, -⟩ := Option.map_eq_some_iff.mp stored
        simp only [last, Option.getD_some]
      · rw [facts.file merged]
        congr 1
        apply joined_of_present
        intro part member
        obtain ⟨content, stored, file⟩ := facts.merged merged part (List.mem_range.mp member)
        rw [kept part (List.mem_range.mp member)] at stored
        obtain ⟨version, last, rfl⟩ := Option.map_eq_some_iff.mp stored
        rw [encrypted_encrypted] at file
        simp only [last, Option.getD_some]
        exact file
  | false =>
      right
      rcases facts.stopped merged with ⟨⟨part, bound, absent⟩, same⟩
      rw [kept part bound] at absent
      exact ⟨rfl, ⟨part, bound, Option.map_eq_none_iff.mp absent⟩, same⟩

theorem lastPut_recent (before later : List Event) (event : Event) (content : Bytes) (i : Nat)
    (put : event.put = some content) (up : event.available i = true)
    (quiet : ∀ other ∈ later, other.put = none) :
    lastPut (before ++ event :: later) i = some content := by
  induction later using List.reverseRecOn with
  | nil => rw [lastPut_append, if_pos up, put, Option.some_or]
  | append_singleton later other ih =>
      have earlier := ih (fun next member => quiet next (List.mem_append_left _ member))
      have still : other.put = none := quiet other (by simp)
      calc lastPut (before ++ event :: (later ++ [other])) i
          = lastPut (before ++ event :: later ++ [other]) i := by
            rw [← List.cons_append, ← List.append_assoc]
        _ = lastPut (before ++ event :: later) i := lastPut_get _ i still
        _ = some content := earlier

theorem flatMap_version (req : Request) (version : Nat → Bytes) (content : Bytes)
    (same : ∀ part < req.nh, version part = content) :
    (List.range req.nh).flatMap (fun part => partition (version part) req.nh part) = content := by
  have pieces : ∀ part ∈ List.range req.nh,
      partition (version part) req.nh part = partition content req.nh part :=
    fun part member => by rw [same part (List.mem_range.mp member)]
  rw [List.flatMap_def, List.map_congr_left pieces, ← List.flatMap_def,
    flatMap_partition content req.nh req.hosts]

theorem Fresh.run {req : Request} {start : Client} (fresh : Fresh req start)
    (stack : Nat → Bytes) (history : List Event) (small : Small req history)
    (connected : ∀ event ∈ history, NoAdjacentOutage event.available req.nh) :
    ∃ client, runEvents req stack start history = some client ∧ Versions req history client :=
  fresh.versions.run [] history start small (fun event member _ => connected event member)

/-- A GET behind any run of commands: every partition is the one of the last PUT in which
the server that is asked for it took part. The file is the one of the most recent PUT
when all these servers took part in that. -/
theorem get_reads_last_puts (req : Request) (stack : Nat → Bytes) (start : Client)
    (fresh : Fresh req start) (history : List Event) (small : Small req history)
    (connected : ∀ event ∈ history, NoAdjacentOutage event.available req.nh)
    (available : Nat → Bool) (now : NoAdjacentOutage available req.nh) :
    ∃ client result, runEvents req stack start history = some client ∧
      getCommand (req.nh + 1) req stack { client with available } = some (some result) ∧
      (result.merged = true → ∃ version : Nat → Bytes,
        (∀ part < req.nh, lastPut history (askedHost req available part) = some (version part)) ∧
        result.client.disk.files req.filename = some ((List.range req.nh).flatMap
          (fun part => partition (version part) req.nh part))) ∧
      (∀ before event later content, history = before ++ event :: later →
        event.put = some content → (∀ other ∈ later, other.put = none) →
        (∀ part < req.nh, event.available (askedHost req available part) = true) →
        result.merged = true ∧ result.client.disk.files req.filename = some content) := by
  rcases fresh.run stack history small connected with ⟨client, ran, versions⟩
  rcases versions.read stack small available now with ⟨result, run, outcome⟩
  refine ⟨client, result, ran, run, fun merged => ?_, ?_⟩
  · rcases outcome with ⟨-, facts⟩ | ⟨unmerged, -⟩
    · exact facts
    · rw [merged] at unmerged
      cases unmerged
  · intro before event later content same put quiet tookPart
    rcases same with rfl
    have recent : ∀ part < req.nh,
        lastPut (before ++ event :: later) (askedHost req available part) = some content :=
      fun part bound => lastPut_recent before later event content _ put (tookPart part bound) quiet
    rcases outcome with ⟨merged, version, last, file⟩ | ⟨-, ⟨part, bound, missing⟩, -⟩
    · refine ⟨merged, file.trans (congrArg some (flatMap_version req version content ?_))⟩
      intro part bound
      have same := last part bound
      rw [recent part bound] at same
      exact (Option.some.inj same).symm
    · rw [recent part bound] at missing
      cases missing

theorem sample_fresh : Fresh sampleRequest ⟨fun _ => true, fun _ => sampleConn, sampleDisk, []⟩ :=
  ⟨fun _ _ => sample_putting.settled, fun _ _ => rfl, fun _ _ _ _ => rfl, fun _ _ _ _ => rfl,
    fun _ _ => rfl, rfl⟩

def missedPut : List Event := [⟨fun _ => true, some [1, 2, 3]⟩, ⟨fun i => i = 0, some [4, 5, 6]⟩]

theorem missedPut_small : Small sampleRequest missedPut := by
  intro event member content put part bound
  simp only [missedPut, List.mem_cons, List.not_mem_nil, or_false] at member
  rcases member with rfl | rfl
  · rw [← Option.some.inj put]
    revert part
    decide
  · rw [← Option.some.inj put]
    revert part
    decide

theorem get_reads_last_puts_missed :
    ∃ client result, runEvents sampleRequest (fun _ => [])
        ⟨fun _ => true, fun _ => sampleConn, sampleDisk, []⟩ missedPut = some client ∧
      getCommand 3 sampleRequest (fun _ => []) { client with available := fun i => i = 0 } =
        some (some result) ∧ result.client.disk.files [102] = some [4, 5, 6] := by
  rcases get_reads_last_puts sampleRequest (fun _ => [])
    ⟨fun _ => true, fun _ => sampleConn, sampleDisk, []⟩ sample_fresh missedPut missedPut_small
    (fun event member => by
      simp only [missedPut, List.mem_cons, List.not_mem_nil, or_false] at member
      rcases member with rfl | rfl <;> decide)
    (fun i => i = 0) (by decide) with ⟨client, result, ran, run, -, recent⟩
  exact ⟨client, result, ran, run,
    (recent [⟨fun _ => true, some [1, 2, 3]⟩] ⟨fun i => i = 0, some [4, 5, 6]⟩ [] [4, 5, 6] rfl rfl
      (by decide) (by decide)).2⟩

/-- With all hosts back, the GET merges a partition of the first PUT with one of the
second. -/
theorem get_mixes_versions :
    (∀ event ∈ missedPut, NoAdjacentOutage event.available 2) ∧
      NoAdjacentOutage (fun _ => true) 2 ∧ mostRecentPut missedPut = some [4, 5, 6] ∧
      ∃ client result, runEvents sampleRequest (fun _ => [])
          ⟨fun _ => true, fun _ => sampleConn, sampleDisk, []⟩ missedPut = some client ∧
        getCommand 3 sampleRequest (fun _ => []) { client with available := fun _ => true } =
          some (some result) ∧
        result.merged = true ∧ result.client.disk.files [102] = some [1, 2, 6] := by
  have connected : ∀ event ∈ missedPut, NoAdjacentOutage event.available 2 := by
    intro event member
    simp only [missedPut, List.mem_cons, List.not_mem_nil, or_false] at member
    rcases member with rfl | rfl <;> decide
  refine ⟨connected, by decide, by decide, ?_⟩
  rcases sample_fresh.run (fun _ => []) missedPut missedPut_small connected with
      ⟨client, ran, versions⟩
  rcases versions.read (fun _ => []) missedPut_small (fun _ => true) (by decide) with
      ⟨result, run, outcome⟩
  have first : lastPut missedPut (askedHost sampleRequest (fun _ => true) 0) = some [1, 2, 3] := by
    decide
  have second : lastPut missedPut (askedHost sampleRequest (fun _ => true) 1) = some [4, 5, 6] := by
    decide
  refine ⟨client, result, ran, run, ?_⟩
  rcases outcome with ⟨merged, version, last, file⟩ | ⟨-, ⟨part, bound, missing⟩, -⟩
  · have old := Option.some.inj ((last 0 (by decide)).symm.trans first)
    have new := Option.some.inj ((last 1 (by decide)).symm.trans second)
    refine ⟨merged, file.trans ?_⟩
    have pieces : (List.range sampleRequest.nh).flatMap (fun part =>
        partition (version part) sampleRequest.nh part) =
          partition (version 0) 2 0 ++ (partition (version 1) 2 1 ++ []) := rfl
    rw [pieces, old, new]
    rfl
  · have cases_ : part = 0 ∨ part = 1 := by
      have two : part < 2 := bound
      omega
    rcases cases_ with rfl | rfl
    · rw [first] at missing
      cases missing
    · rw [second] at missing
      cases missing

/-- A partition that some host has stored and can deliver. -/
def Replicated (req : Request) (putAvailable getAvailable : Nat → Bool) (part : Nat) : Prop :=
  ∃ i, Keeper req i part ∧ putAvailable i = true ∧ getAvailable i = true

theorem Replicated.connected {req : Request} {putAvailable getAvailable : Nat → Bool}
    (replicated : ∀ part < req.nh, Replicated req putAvailable getAvailable part) :
    NoAdjacentOutage getAvailable req.nh := by
  intro outage
  rcases outage with ⟨i, host, down, next⟩
  rcases firstHost_onto req.hash_lt host with ⟨part, bound, first, second⟩
  rcases replicated part bound with ⟨j, ⟨-, place⟩, -, up⟩
  rcases place with rfl | rfl
  · rw [first, down] at up
    cases up
  · rw [second, next] at up
    cases up

instance (req : Request) (i part : Nat) : Decidable (Keeper req i part) :=
  inferInstanceAs (Decidable (_ ∧ _))

/-- The GET brings the file back when every host it asks took part in the PUT. When one
did not, its error stops the GET before the local file is touched. -/
theorem get_after_put (req : Request) (_two : 2 ≤ req.nh) (stack : Nat → Bytes) (start : Client)
    (fresh : Fresh req start) (content : Bytes)
    (small : ∀ part < req.nh, (partition content req.nh part).length < 2 ^ 32)
    (putAvailable getAvailable : Nat → Bool)
    (replicated : ∀ part < req.nh, Replicated req putAvailable getAvailable part)
    (directory : Disk)
    (creatable : ∀ part < req.nh, directory.creatable (partName req part) = true)
    (target : directory.creatable req.filename = true) :
    ∃ client result, runEvent req stack start ⟨putAvailable, some content⟩ = some client ∧
      getCommand (req.nh + 1) req stack
          { client with available := getAvailable, disk := directory } = some (some result) ∧
      ((∀ part < req.nh, putAvailable (askedHost req getAvailable part) = true) →
        result.merged = true ∧ result.client.disk.files req.filename = some content) ∧
      ((∃ part < req.nh, putAvailable (askedHost req getAvailable part) = false) →
        result.merged = false ∧
          result.client.disk.files req.filename = directory.files req.filename) := by
  rcases fresh.versions.put stack ⟨putAvailable, some content⟩ content rfl small with
      ⟨client, run, versions⟩
  have history : Small req [⟨putAvailable, some content⟩] := by
    intro event member written put
    rw [List.mem_singleton.mp member] at put
    rw [← Option.some.inj put]
    exact small
  have moved : Versions req [⟨putAvailable, some content⟩] { client with disk := directory } :=
    ⟨versions.settled, versions.immortal, versions.writable, versions.stored, creatable, target⟩
  rcases moved.read stack history getAvailable (Replicated.connected replicated) with
      ⟨result, ran, outcome⟩
  have last : ∀ i, lastPut [⟨putAvailable, some content⟩] i =
      if putAvailable i then some content else none := fun i => rfl
  refine ⟨client, result, run, ran, fun tookPart => ?_, ?_⟩
  · rcases outcome with ⟨merged, version, kept, file⟩ | ⟨-, ⟨part, bound, missing⟩, -⟩
    · refine ⟨merged, file.trans (congrArg some (flatMap_version req version content ?_))⟩
      intro part bound
      have found := kept part bound
      rw [last, if_pos (tookPart part bound)] at found
      exact (Option.some.inj found).symm
    · rw [last, if_pos (tookPart part bound)] at missing
      cases missing
  · intro missing
    rcases missing with ⟨part, bound, absent⟩
    rcases outcome with ⟨-, version, kept, -⟩ | ⟨unmerged, -, same⟩
    · have found := kept part bound
      rw [last, absent] at found
      cases found
    · exact ⟨unmerged, same⟩

theorem get_after_put_host_back :
    ∃ client result, runEvent sampleRequest (fun _ => [])
        ⟨fun _ => true, fun _ => sampleConn, sampleDisk, []⟩
        ⟨fun _ => true, some [1, 2, 3]⟩ = some client ∧
      getCommand 3 sampleRequest (fun _ => [])
        { client with available := fun i => i = 1, disk := sampleDisk } = some (some result) ∧
      result.client.disk.files [102] = some [1, 2, 3] := by
  rcases get_after_put sampleRequest (by decide)
    (fun _ => []) ⟨fun _ => true, fun _ => sampleConn, sampleDisk, []⟩ sample_fresh [1, 2, 3]
    (by decide) (fun _ => true) (fun i => i = 1)
    (fun part bound => ⟨1, by revert part; decide, rfl, rfl⟩) sampleDisk (fun _ _ => rfl) rfl with
      ⟨client, result, put, get, whole, -⟩
  exact ⟨client, result, put, get, (whole (fun _ _ => rfl)).2⟩

/-- Host 1 misses the PUT and is asked by the GET; host 0 holds everything. -/
theorem get_after_put_missed :
    (∀ part < 2, Replicated sampleRequest (fun i => i = 0) (fun _ => true) part) ∧
      ∃ client result, runEvent sampleRequest (fun _ => [])
          ⟨fun _ => true, fun _ => sampleConn, sampleDisk, []⟩
          ⟨fun i => i = 0, some [1, 2, 3]⟩ = some client ∧
        getCommand 3 sampleRequest (fun _ => [])
          { client with available := fun _ => true, disk := sampleDisk } = some (some result) ∧
        result.client.disk.files [102] ≠ some [1, 2, 3] := by
  have small : ∀ part < 2, (partition [1, 2, 3] 2 part).length < 2 ^ 32 := by decide
  have history : Small sampleRequest [⟨fun i => i = 0, some [1, 2, 3]⟩] := by
    intro event member written put
    rw [List.mem_singleton.mp member] at put
    rw [← Option.some.inj put]
    exact small
  refine ⟨fun part bound => ⟨0, by revert part; decide, rfl, rfl⟩, ?_⟩
  rcases sample_fresh.versions.put (fun _ => [])
    ⟨fun i => i = 0, some [1, 2, 3]⟩ [1, 2, 3] rfl small with ⟨client, run, versions⟩
  have moved : Versions sampleRequest [⟨fun i => i = 0, some [1, 2, 3]⟩]
      { client with disk := sampleDisk } :=
    ⟨versions.settled, versions.immortal, versions.writable, versions.stored, fun _ _ => rfl, rfl⟩
  rcases moved.read (fun _ => []) history (fun _ => true) (by decide) with ⟨result, ran, outcome⟩
  refine ⟨client, result, run, ran, ?_⟩
  rcases outcome with ⟨-, version, kept, -⟩ | ⟨-, -, same⟩
  · have found := kept 0 (by decide)
    have nothing : lastPut [⟨fun i => i = 0, some [1, 2, 3]⟩]
        (askedHost sampleRequest (fun _ => true) 0) = none := by decide
    rw [nothing] at found
    cases found
  · exact fun wrong => by
      have absent := same.symm.trans wrong
      cases absent

end NetworkSystem.Dfc
