import NetworkSystem.Dfc.Versions

/-! What the commands for one file leave alone: a PUT of a file that is not there, and the
client behind a GET without failures. -/

namespace NetworkSystem.Dfc

open Bytes Store

theorem runThreads_missing {req : Request} (pkt : Bytes) (stack : Nat → Bytes)
    (threads : List (Nat × (Int × Int))) {client : Client} (ends : Nat → Option Thread)
    (missing : client.disk.files req.filename = none) :
    ∃ last, runThreads (handlePut req.conf.password req.nh) req pkt stack threads (client, ends) =
      some (client, last) := by
  induction threads generalizing ends with
  | nil => exact ⟨ends, rfl⟩
  | cons head rest ih =>
      rcases head with ⟨i, parts⟩
      let thread : Thread := ⟨client.conns i, client.disk, pkt, stack i, 0, [], client.got⟩
      have absent : thread.disk.fopenRead req.filename = none := by
        simp only [Disk.fopenRead, thread, missing, Option.map_none]
      have run : handlePut req.conf.password req.nh ⟨parts, req.path, req.filename, pkt⟩ thread =
          some thread := by
        simp only [handlePut, absent]
      have same : client.join i thread = client := by
        simp only [Client.join, thread, Function.update_eq_self]
      rcases ih (Function.update ends i (some thread)) with ⟨last, tail⟩
      refine ⟨last, ?_⟩
      rw [runThreads_cons rest ends run, same]
      exact tail

theorem putCommand_missing {req : Request} (stack : Nat → Bytes) {client : Client}
    (missing : client.disk.files req.filename = none) :
    putCommand req stack client = some client := by
  rcases runThreads_missing (buildMsgPacket CMD_PUT 0 req.msg (some req.conf)) stack
    (schedule CMD_PUT client.available req.hash req.nh) (fun _ => none) missing with ⟨last, run⟩
  rw [putCommand, runRound, run]
  rfl

theorem deletePartitions_keeps {filename : Bytes} {n : Nat} {path : Bytes}
    (other : ∀ part < n, path ≠ setPartitionName filename part) (disk : Disk) :
    (deletePartitions filename n disk).files path = disk.files path := by
  have every : ∀ (indices : List Nat) (disk : Disk), (∀ i ∈ indices, i < n) →
      (indices.foldl (fun disk (i : Nat) => disk.unlink (setPartitionName filename i)) disk).files
        path = disk.files path := by
    intro indices
    induction indices with
    | nil => exact fun _ _ => rfl
    | cons i rest ih =>
        intro disk inside
        rw [List.foldl_cons, ih _ (fun j member => inside j (List.mem_cons_of_mem _ member)),
          Disk.unlink_files_of_ne _ _ _ (other i (inside i List.mem_cons_self))]
  exact every (List.range n) disk (fun i member => List.mem_range.mp member)

theorem mergePartitions_keeps {filename path : Bytes} (n : Nat) {disk : Disk}
    (creatable : disk.creatable filename = true) (other : path ≠ filename) :
    (mergePartitions filename n disk).2.files path = disk.files path := by
  rw [(mergePartitions_files filename n disk creatable).2]
  exact Disk.save_files_of_ne _ _ _ _ other

section healthy

variable {req : Request} {client joined : Client} {ends : Nat → Option Thread}
  (healthy : Healthy req client)
  (rounds : RoundEnd req (schedule CMD_GET client.available req.hash req.nh) client
    (fun _ => none) joined ends)

include healthy rounds in
theorem Healthy.calm : ∀ i < req.nh, retval ends i ≠ 1 := by
  intro i _ failed
  rcases rounds.thread_of_retval i (by omega) with ⟨parts, member⟩
  obtain ⟨host, up, -⟩ := (mem_schedule _ _ _ _ _ _).mp member
  rcases healthy.inStep.thread_outcome rounds i parts member with
    ⟨-, mortal⟩ | ⟨-, ⟨fine, -⟩ | ⟨missing, -⟩⟩
  · exact mortal (healthy.immortal i host up)
  · omega
  · omega

include rounds in
theorem RoundEnd.elsewhere {path : Bytes} (other : ∀ part < req.nh, path ≠ partName req part) :
    joined.disk.files path = client.disk.files path := by
  apply rounds.files path
  intro i parts part member asks
  exact other part (asks_lt _ _ _ _ req.hash_lt i part parts member asks)

end healthy

/-- Behind a GET without failures the same hosts are available, and no file of the client
has changed but the one that was asked for and those named after its partitions. -/
theorem Healthy.getCommand_client {req : Request} {client : Client} (stack : Nat → Bytes)
    (healthy : Healthy req client) :
    ∃ result, Dfc.getCommand (req.nh + 1) req stack client = some (some result) ∧
      result.client.available = client.available ∧
      ∀ path, path ≠ req.filename → (∀ part < req.nh, path ≠ partName req part) →
        result.client.disk.files path = client.disk.files path := by
  apply getCommand_total req stack (fun state => state = { client with got := [] })
  · intro state same
    subst same
    have start : Healthy req { client with got := [] } :=
      ⟨⟨healthy.inStep.settled, healthy.inStep.faults, healthy.inStep.short,
        healthy.inStep.creatable⟩, healthy.immortal, healthy.target⟩
    rcases start.inStep.round_outcome stack with ⟨joined, ends, run, rounds⟩
    have calm := start.calm rounds
    have target : joined.disk.creatable req.filename = true :=
      (congrFun rounds.creatable _).trans healthy.target
    refine ⟨joined, ends, run, ?_, ?_⟩
    · intro failed
      rcases failed with ⟨i, host, code⟩
      exact absurd code (calm i host)
    · intro result ended
      cases ended with
      | flagged _ flag =>
          constructor
          · exact (marked_available calm).trans rounds.available
          · intro path _ other
            exact rounds.elsewhere other
      | merged _ clear =>
          constructor
          · exact (marked_available calm).trans rounds.available
          · intro path different other
            calc
              (deletePartitions req.filename req.nh
                  (mergePartitions req.filename req.nh joined.disk).2).files path
                  = (mergePartitions req.filename req.nh joined.disk).2.files path :=
                deletePartitions_keeps other _
              _ = joined.disk.files path := mergePartitions_keeps req.nh target different
              _ = client.disk.files path := rounds.elsewhere other
  · rfl

theorem HealthyEnd.read {req : Request} {client : Client} {result : GetEnd}
    (ended : HealthyEnd req client result) {version : Nat → Option Bytes}
    (kept : ∀ part < req.nh, (client.conns (askedHost req client.available part)).stored req part =
      (version part).map fun content =>
        encrypted req.conf.password (partition content req.nh part)) :
    (result.merged = true → (∀ part < req.nh, (version part).isSome = true) ∧
      result.client.disk.files req.filename = some ((List.range req.nh).flatMap fun part =>
        partition ((version part).getD []) req.nh part)) ∧
    (result.merged = false → (∃ part < req.nh, version part = none) ∧
      result.client.disk.files req.filename = client.disk.files req.filename) := by
  constructor
  · intro merged
    have parts : ∀ part < req.nh, ∃ content, version part = some content ∧
        result.joined.disk.files (partName req part) = some (partition content req.nh part) := by
      intro part bound
      obtain ⟨stored, there, file⟩ := ended.merged merged part bound
      rw [kept part bound] at there
      obtain ⟨content, found, rfl⟩ := Option.map_eq_some_iff.mp there
      rw [encrypted_encrypted] at file
      exact ⟨content, found, file⟩
    constructor
    · intro part bound
      obtain ⟨content, found, -⟩ := parts part bound
      rw [found]
      rfl
    · rw [ended.file merged]
      apply congrArg some
      apply joined_of_present
      intro part member
      obtain ⟨content, found, file⟩ := parts part (List.mem_range.mp member)
      rw [found, Option.getD_some]
      exact file
  · intro stopped
    rcases ended.stopped stopped with ⟨⟨part, bound, absent⟩, same⟩
    rw [kept part bound] at absent
    exact ⟨⟨part, bound, Option.map_eq_none_iff.mp absent⟩, same⟩

end NetworkSystem.Dfc
