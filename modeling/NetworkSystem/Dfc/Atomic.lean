import NetworkSystem.Dfc.Versions

/-! What a GET does to the local file, for any connections: when the partitions are
merged although some of them have not arrived. -/

namespace NetworkSystem.Dfc

open Bytes Store

/-- A thread that has met no error yet. -/
def Calm (thread : Thread) : Prop := thread.retval = 0 ∧ ∀ errno ∈ thread.heard, errno = 0

/-- A return value of 2 tells of a reply with an error number. -/
def Told (thread : Thread) : Prop := thread.retval = 2 ↔ ∃ errno ∈ thread.heard, errno ≠ 0

theorem told_of_zeros {thread : Thread} (code : thread.retval ≠ 2)
    (zeros : ∀ errno ∈ thread.heard, errno = 0) : Told thread :=
  ⟨fun two => absurd two code, fun ⟨errno, member, error⟩ => absurd (zeros errno member) error⟩

theorem Calm.told {thread : Thread} (calm : Calm thread) : Told thread :=
  told_of_zeros (by rw [calm.1]; decide) calm.2

/-- The only local files a thread touches are those named after partitions. -/
structure Local (filename : Bytes) (before after : Disk) : Prop where
  files : ∀ path, (∀ n : Int, path ≠ setPartitionName filename n) →
    after.files path = before.files path
  creatable : after.creatable = before.creatable

theorem Local.refl (filename : Bytes) (disk : Disk) : Local filename disk disk :=
  ⟨fun _ _ => rfl, rfl⟩

theorem Local.trans {filename : Bytes} {first second third : Disk}
    (early : Local filename first second) (late : Local filename second third) :
    Local filename first third :=
  ⟨fun path other => (late.files path other).trans (early.files path other),
    late.creatable.trans early.creatable⟩

theorem Local.save (filename : Bytes) (disk : Disk) (n : Int) (content : Bytes) :
    Local filename disk (disk.save (setPartitionName filename n) content) :=
  ⟨fun _ other => Disk.save_files_of_ne _ _ _ _ (other n), rfl⟩

theorem recvReply_keeps (thread after : Thread) (received : Bool)
    (run : recvReply thread = some (received, after)) : after.disk = thread.disk ∧
      after.retval = thread.retval ∧ after.heard = thread.heard := by
  simp only [recvReply] at run
  split at run
  · split at run
    · cases run
    · obtain ⟨-, rfl⟩ := Prod.mk.inj (Option.some.inj run)
      exact ⟨rfl, rfl, rfl⟩
  · split at run <;>
    · obtain ⟨-, rfl⟩ := Prod.mk.inj (Option.some.inj run)
      exact ⟨rfl, rfl, rfl⟩

theorem getPart_local (password : Bytes) (tp : ThreadParam) (part : Int)
    (thread after : Thread) (goes : Bool) (calm : Calm thread)
    (run : getPart password tp part thread = some (goes, after)) :
    Local tp.filename thread.disk after.disk ∧ (goes = true → Calm after) ∧ Told after := by
  simp only [getPart] at run
  split at run
  case isFalse =>
    obtain ⟨rfl, rfl⟩ := Prod.mk.inj (Option.some.inj run)
    exact ⟨Local.refl _ _, fun _ => calm, calm.told⟩
  split at run
  · obtain ⟨rfl, rfl⟩ := Prod.mk.inj (Option.some.inj run)
    exact ⟨Local.refl _ _, fun no => absurd no Bool.false_ne_true,
      told_of_zeros (by decide : (1 : Nat) ≠ 2) calm.2⟩
  · split at run
    · cases run
    · rename_i replied reply
      rcases recvReply_keeps _ _ _ reply with ⟨disk, -, heard⟩
      obtain ⟨rfl, rfl⟩ := Prod.mk.inj (Option.some.inj run)
      refine ⟨disk ▸ Local.refl _ _, fun no => absurd no Bool.false_ne_true,
        told_of_zeros (by decide : (1 : Nat) ≠ 2) ?_⟩
      rw [heard]
      exact calm.2
    · rename_i replied reply
      rcases recvReply_keeps _ _ _ reply with ⟨disk, code, heard⟩
      by_cases errno : msgErrno replied.buffer = 0
      · have zeros : ∀ other ∈ replied.heard ++ [msgErrno replied.buffer], other = 0 := by
          intro other member
          rcases List.mem_append.mp member with early | last
          · rw [heard] at early
            exact calm.2 other early
          · rw [List.mem_singleton.mp last, errno]
        have unchanged : Local tp.filename thread.disk replied.disk := disk ▸ Local.refl _ _
        rw [if_pos errno] at run
        split at run
        · obtain ⟨rfl, rfl⟩ := Prod.mk.inj (Option.some.inj run)
          exact ⟨unchanged, fun no => absurd no Bool.false_ne_true,
            told_of_zeros (by decide : (0 : Nat) ≠ 2) zeros⟩
        · rename_i fp opened created
          have emptied : opened = replied.disk.save (setPartitionName tp.filename part) [] := by
            simp only [Disk.fopenWrite] at created
            split at created
            · exact (Prod.mk.inj (Option.some.inj created)).2.symm
            · cases created
          have written : ∀ content, Local tp.filename thread.disk
              (opened.save (setPartitionName tp.filename part) content) := fun content => by
            rw [emptied]
            exact (unchanged.trans (Local.save _ _ part [])).trans (Local.save _ _ part content)
          split at run
          · cases run
          · split at run
            · obtain ⟨rfl, rfl⟩ := Prod.mk.inj (Option.some.inj run)
              exact ⟨written _, fun no => absurd no Bool.false_ne_true,
                told_of_zeros (by decide : (1 : Nat) ≠ 2) zeros⟩
            · obtain ⟨rfl, rfl⟩ := Prod.mk.inj (Option.some.inj run)
              have fine : replied.retval = 0 := code.trans calm.1
              exact ⟨written _, fun _ => ⟨fine, zeros⟩,
                told_of_zeros (fun two => by rw [fine] at two; cases two) zeros⟩
      · rw [if_neg errno] at run
        obtain ⟨rfl, rfl⟩ := Prod.mk.inj (Option.some.inj run)
        refine ⟨disk ▸ Local.refl _ _, fun no => absurd no Bool.false_ne_true, fun _ => ?_,
          fun _ => rfl⟩
        exact ⟨msgErrno replied.buffer, by simp, errno⟩

theorem getParts_local (password : Bytes) (tp : ThreadParam) (parts : List Int)
    (thread after : Thread) (calm : Calm thread)
    (run : getParts password tp parts thread = some after) :
    Local tp.filename thread.disk after.disk ∧ Told after := by
  induction parts generalizing thread with
  | nil =>
      rw [← Option.some.inj run]
      exact ⟨Local.refl _ _, calm.told⟩
  | cons part rest ih =>
      rw [getParts] at run
      split at run
      · cases run
      · rename_i middle step
        rw [← Option.some.inj run]
        rcases getPart_local password tp part thread middle false calm step with ⟨local_, -, told⟩
        exact ⟨local_, told⟩
      · rename_i middle step
        rcases getPart_local password tp part thread middle true calm step with ⟨early, goes, -⟩
        rcases ih middle (goes rfl) run with ⟨late, told⟩
        exact ⟨early.trans late, told⟩

theorem runThreads_local (req : Request) (pkt : Bytes) (stack : Nat → Bytes)
    (threads : List (Nat × (Int × Int))) (client after : Client) (ends last : Nat → Option Thread)
    (told : ∀ i thread, ends i = some thread → Told thread)
    (run : runThreads (handleGet req.conf.password) req pkt stack threads (client, ends) =
      some (after, last)) :
    Local req.filename client.disk after.disk ∧ ∀ i thread, last i = some thread → Told thread := by
  induction threads generalizing client ends with
  | nil =>
      obtain ⟨rfl, rfl⟩ := Prod.mk.inj (Option.some.inj run)
      exact ⟨Local.refl _ _, told⟩
  | cons head rest ih =>
      rcases head with ⟨i, parts⟩
      simp only [runThreads] at run
      split at run
      · cases run
      · rename_i thread step
        rcases getParts_local _ _ _ _ thread
          ⟨rfl, fun errno member => absurd member List.not_mem_nil⟩ step with ⟨early, here⟩
        rcases ih _ _ (by
          intro j other ended
          by_cases same : j = i
          · rw [same, Function.update_self] at ended
            rw [← Option.some.inj ended]
            exact here
          · rw [Function.update_of_ne same] at ended
            exact told j other ended) run with ⟨late, rest⟩
        exact ⟨early.trans late, rest⟩

/-- A server asked in the last round has sent an error number. -/
def ErrorReply (req : Request) (result : GetEnd) : Prop :=
  ∃ i < req.nh, ∃ thread, result.ends i = some thread ∧ ∃ errno ∈ thread.heard, errno ≠ 0

theorem errorReply_iff {req : Request} {ends : Nat → Option Thread}
    (told : ∀ i thread, ends i = some thread → Told thread) :
    (∃ i < req.nh, ∃ thread, ends i = some thread ∧ ∃ errno ∈ thread.heard, errno ≠ 0) ↔
      ∃ i < req.nh, retval ends i = 2 := by
  constructor
  · intro replied
    rcases replied with ⟨i, host, thread, ended, error⟩
    exact ⟨i, host, by rw [retval, ended]; exact (told i thread ended).mpr error⟩
  · intro failed
    rcases failed with ⟨i, host, code⟩
    cases ended : ends i with
    | none =>
        rw [retval, ended] at code
        cases code
    | some thread =>
        rw [retval, ended] at code
        exact ⟨i, host, thread, ended, (told i thread ended).mp code⟩

theorem runRound_local {req : Request} {stack : Nat → Bytes} {client joined : Client}
    {ends : Nat → Option Thread}
    (run : runRound CMD_GET (handleGet req.conf.password) req stack client = some (joined, ends)) :
    Local req.filename client.disk joined.disk ∧ ∀ i thread, ends i = some thread → Told thread :=
  runThreads_local req _ stack _ client joined _ ends (fun _ _ none_ => by cases none_) run

/-- A GET stops at an error reply, and otherwise merges what lies in the directory. -/
structure GetDone (req : Request) (start : Disk) (result : GetEnd) : Prop where
  local_ : Local req.filename start result.joined.disk
  stopped : ErrorReply req result →
    result.client.disk.files req.filename = start.files req.filename
  merged : ¬ ErrorReply req result → result.client.disk.files req.filename =
    (mergePartitions req.filename req.nh result.joined.disk).2.files req.filename

theorem getCommand_done (req : Request) (stack : Nat → Bytes) (client : Client) (rounds : Nat)
    (result : GetEnd) (ended : getCommand rounds req stack client = some (some result)) :
    GetDone req client.disk result := by
  refine getCommand_invariant req stack (fun state => Local req.filename client.disk state.disk)
    (fun found => ∀ result, found = some result → GetDone req client.disk result)
    (fun _ _ _ _ none_ => by cases none_) ?_ rounds client (some result) (Local.refl _ _) ended
    result rfl
  intro state joined ends holds run
  rcases runRound_local run with ⟨here, told⟩
  have local_ := holds.trans here
  have same : joined.disk.files req.filename = client.disk.files req.filename :=
    local_.files _ (fun n => (setPartitionName_ne_filename _ n).symm)
  refine ⟨fun _ => local_, ?_⟩
  intro result last other found
  rw [← Option.some.inj found]
  cases last with
  | flagged calm flag =>
      exact ⟨local_, fun _ => same, fun quiet => absurd ((errorReply_iff told).mpr flag) quiet⟩
  | merged calm clear =>
      refine ⟨local_, fun error => ?_, fun _ => ?_⟩
      · obtain ⟨i, host, code⟩ := (errorReply_iff told).mp error
        exact absurd code (clear i host)
      · exact deletePartitions_files _ _ _ _ (fun i => (setPartitionName_ne_filename _ i).symm)

/-- In the state before the last round, a server that is asked for a partition stores
none. -/
def AskedInVain (req : Request) (before : Client) : Prop :=
  ∃ i parts part, (i, parts) ∈ schedule CMD_GET before.available req.hash req.nh ∧
    Asks parts part ∧ (before.conns i).stored req part = none

/-- In the state before the last round, a partition has been received or an available
server is asked for it. -/
def Reachable (req : Request) (before : Client) (part : Nat) : Prop :=
  (part : Int) ∈ before.got ∨
    ∃ i parts, (i, parts) ∈ schedule CMD_GET before.available req.hash req.nh ∧ Asks parts part

/-- On connections in step, the state before the last round decides whether an error
reply comes and which partitions are received in the end. -/
structure LastRound (req : Request) (result : GetEnd) : Prop where
  error : ErrorReply req result ↔ AskedInVain req result.before
  got : ¬ ErrorReply req result →
    ∀ part : Nat, (part : Int) ∈ result.client.got ↔ Reachable req result.before part

theorem InStep.last_round {req : Request} {client joined : Client} {ends : Nat → Option Thread}
    {result : GetEnd} (inStep : InStep req client)
    (rounds : RoundEnd req (schedule CMD_GET client.available req.hash req.nh) client
      (fun _ => none) joined ends) (told : ∀ i thread, ends i = some thread → Told thread)
    (ended : Ends req client joined ends result) : LastRound req result := by
  have vain : (∀ i < req.nh, retval ends i ≠ 1) →
      ((∃ i < req.nh, retval ends i = 2) ↔ AskedInVain req client) := by
    intro calm
    constructor
    · intro failed
      rcases failed with ⟨i, host, code⟩
      rcases rounds.thread_of_retval i (by omega) with ⟨parts, member⟩
      rcases inStep.thread_outcome rounds i parts member with
        ⟨failed, -⟩ | ⟨-, ⟨fine, -⟩ | ⟨-, part, asks, absent⟩⟩
      · omega
      · omega
      · exact ⟨i, parts, part, member, asks, absent⟩
    · intro missing
      rcases missing with ⟨i, parts, part, member, asks, absent⟩
      have host := ((mem_schedule _ _ _ _ _ _).mp member).1
      rcases inStep.thread_outcome rounds i parts member with
        ⟨failed, -⟩ | ⟨-, ⟨-, kept⟩ | ⟨code, -⟩⟩
      · exact absurd failed (calm i host)
      · rcases kept part asks with ⟨-, content, stored, -⟩
        rw [absent] at stored
        cases stored
      · exact ⟨i, host, code⟩
  cases ended with
  | flagged calm flag =>
      have error := (errorReply_iff told).mpr flag
      exact ⟨(errorReply_iff told).trans (vain calm), fun quiet => absurd error quiet⟩
  | merged calm clear =>
      refine ⟨(errorReply_iff told).trans (vain calm), fun _ part => ⟨fun member => ?_, ?_⟩⟩
      · rcases rounds.newer _ member with before | ⟨i, parts, other, thread, asks, same⟩
        · exact Or.inl before
        · rw [← Int.natCast_inj.mp same] at asks
          exact Or.inr ⟨i, parts, thread, asks⟩
      · intro either
        rcases either with before | ⟨i, parts, member, asks⟩
        · exact rounds.older _ before
        · have host := ((mem_schedule _ _ _ _ _ _).mp member).1
          rcases inStep.thread_outcome rounds i parts member with
            ⟨failed, -⟩ | ⟨-, ⟨-, kept⟩ | ⟨code, -⟩⟩
          · exact absurd failed (calm i host)
          · exact (kept part asks).1
          · exact absurd code (clear i host)

theorem InStep.getCommand {req : Request} {client : Client} (stack : Nat → Bytes)
    (inStep : InStep req client) (rounds : Nat) (result : GetEnd)
    (ended : Dfc.getCommand rounds req stack client = some (some result)) :
    LastRound req result := by
  rcases inStep with ⟨settled, faults, short, creatable⟩
  refine getCommand_invariant req stack (InStep req)
    (fun found => ∀ result, found = some result → LastRound req result)
    (fun _ _ _ _ none_ => by cases none_) ?_ rounds client (some result)
    ⟨settled, faults, short, creatable⟩ ended result rfl
  intro state joined ends holds run
  rcases holds.round_outcome stack with ⟨joined', ends', run', round⟩
  rw [run] at run'
  obtain ⟨rfl, rfl⟩ := Prod.mk.inj (Option.some.inj run')
  refine ⟨fun _ => holds.retry round, fun result last other found => ?_⟩
  rw [← Option.some.inj found]
  exact holds.last_round round (runRound_local run).2 last

/-- The local file of the requested name is the same before and after the GET. -/
def Survives (req : Request) (client : Client) (result : GetEnd) : Prop :=
  result.client.disk.files req.filename = client.disk.files req.filename

/-- A GET that has not received all partitions leaves the local file as it was. -/
def Atomic (req : Request) (client : Client) (result : GetEnd) : Prop :=
  (∃ part < req.nh, (part : Int) ∉ result.client.got) → Survives req client result

/-- The local file cannot be created, or the pieces in the directory make up its old
content. -/
def Harmless (req : Request) (client : Client) (result : GetEnd) : Prop :=
  client.disk.creatable req.filename = false ∨
    client.disk.files req.filename =
      some (joined result.joined.disk req.filename (List.range req.nh))

theorem GetDone.survives_iff {req : Request} {client : Client} {result : GetEnd}
    (done : GetDone req client.disk result) :
    Survives req client result ↔ ErrorReply req result ∨ Harmless req client result := by
  rcases done with ⟨local_, stopped, merged⟩
  have creatable : result.joined.disk.creatable = client.disk.creatable := local_.creatable
  by_cases error : ErrorReply req result
  · exact ⟨fun _ => Or.inl error, fun _ => stopped error⟩
  · cases allowed : client.disk.creatable req.filename with
    | true =>
        have file : result.client.disk.files req.filename =
            some (joined result.joined.disk req.filename (List.range req.nh)) := by
          rw [merged error, (mergePartitions_files _ _ _ (creatable ▸ allowed)).2,
            Disk.save_files_self]
        constructor
        · intro kept
          exact Or.inr (Or.inr (kept.symm.trans file))
        · intro spared
          rcases spared with reply | refused | lucky
          · exact absurd reply error
          · rw [allowed] at refused
            cases refused
          · exact file.trans lucky.symm
    | false =>
        have same : result.client.disk.files req.filename =
            client.disk.files req.filename := by
          rw [merged error, mergePartitions, Disk.fopenWrite, creatable, allowed]
          exact local_.files _ (fun n => (setPartitionName_ne_filename _ n).symm)
        exact ⟨fun _ => Or.inr (Or.inl allowed), fun _ => same⟩

/-- The client of the sample with a local file and no host available. -/
def strandedClient : Client :=
  ⟨fun _ => false, fun _ => sampleConn, sampleDisk.save [102] [9], []⟩

end NetworkSystem.Dfc
