import NetworkSystem.Dfc.Put

/-! The `while (retry)` loop of a GET: what one round can do, and why the loop ends. -/

namespace NetworkSystem.Dfc

open Bytes Store

theorem runThreads_frame (handler : ThreadParam → Thread → Option Thread) (req : Request)
    (pkt : Bytes) (stack : Nat → Bytes) (threads : List (Nat × (Int × Int)))
    (client after : Client) (ends last : Nat → Option Thread)
    (run : runThreads handler req pkt stack threads (client, ends) = some (after, last)) :
    after.available = client.available ∧
      ∀ i, (∀ parts, (i, parts) ∉ threads) → last i = ends i := by
  induction threads generalizing client ends with
  | nil =>
      obtain ⟨rfl, rfl⟩ := Prod.mk.inj (Option.some.inj run)
      exact ⟨rfl, fun _ _ => rfl⟩
  | cons head rest ih =>
      rcases head with ⟨i, parts⟩
      simp only [runThreads] at run
      split at run
      · cases run
      · rename_i thread _
        rcases ih _ _ run with ⟨available, others⟩
        refine ⟨available, fun j outside => ?_⟩
        have different : j ≠ i := by
          intro same
          rcases same with rfl
          exact outside parts List.mem_cons_self
        rw [others j (fun second member => outside second (List.mem_cons_of_mem _ member)),
          Function.update_of_ne different]

theorem available_of_retval (cmdType : UInt8)
    (handler : ThreadParam → Thread → Option Thread) (req : Request) (stack : Nat → Bytes)
    (client after : Client) (ends : Nat → Option Thread)
    (run : runRound cmdType handler req stack client = some (after, ends)) (i : Nat)
    (failed : retval ends i ≠ 0) : client.available i = true := by
  by_contra down
  have none_ := (runThreads_frame handler req _ stack _ client after _ ends run).2 i
    (fun parts member => down ((mem_schedule _ _ _ _ _ _).mp member).2.1)
  rw [retval, none_] at failed
  exact failed rfl

/-- The client after the return values of a round were looked at. -/
def marked (req : Request) (joined : Client) (ends : Nat → Option Thread) : Client :=
  { joined with
    available := fun i =>
      if i < req.nh ∧ retval ends i = 1 then false else joined.available i }

inductive Ends (req : Request) (client joined : Client) (ends : Nat → Option Thread) :
    GetEnd → Prop where
  | flagged (calm : ∀ i < req.nh, retval ends i ≠ 1) (flag : ∃ i < req.nh, retval ends i = 2) :
      Ends req client joined ends ⟨client, joined, ends, false, marked req joined ends⟩
  | merged (calm : ∀ i < req.nh, retval ends i ≠ 1) (clear : ∀ i < req.nh, retval ends i ≠ 2) :
      Ends req client joined ends ⟨client, joined, ends, true,
        { marked req joined ends with
          disk := deletePartitions req.filename req.nh
            (mergePartitions req.filename req.nh joined.disk).2 }⟩

theorem marked_available {req : Request} {joined : Client} {ends : Nat → Option Thread}
    (calm : ∀ i < req.nh, retval ends i ≠ 1) : (marked req joined ends).available =
      joined.available := by
  funext i
  exact if_neg (fun failed => calm i failed.1 failed.2)

theorem any_range_iff (n : Nat) (p : Nat → Prop) [DecidablePred p] :
    (List.range n).any (fun i => p i) = true ↔ ∃ i < n, p i := by
  simp only [List.any_eq_true, List.mem_range, decide_eq_true_eq]

theorem getBody_cases (req : Request) (stack : Nat → Bytes) (client : Client) :
    match runRound CMD_GET (handleGet req.conf.password) req stack client with
    | none => getBody req stack client = .inr none
    | some (joined, ends) =>
        (∃ i < req.nh, retval ends i = 1) ∧
            getBody req stack client = .inl (marked req joined ends) ∨
          ∃ result, Ends req client joined ends result ∧
            getBody req stack client = .inr (some result) := by
  cases run : runRound CMD_GET (handleGet req.conf.password) req stack client with
  | none => simp only [getBody, run]
  | some round =>
      rcases round with ⟨joined, ends⟩
      by_cases retry : ∃ i < req.nh, retval ends i = 1
      · have again := (any_range_iff req.nh (fun i => retval ends i = 1)).mpr retry
        exact Or.inl ⟨retry, by simp only [getBody, run, again, ↓reduceIte, marked]⟩
      · have done := mt (any_range_iff req.nh (fun i => retval ends i = 1)).mp retry
        have calm : ∀ i < req.nh, retval ends i ≠ 1 := fun i host code => retry ⟨i, host, code⟩
        by_cases flag : ∃ i < req.nh, retval ends i = 2
        · have stop := (any_range_iff req.nh (fun i => retval ends i = 2)).mpr flag
          exact Or.inr ⟨_, .flagged calm flag, by
            simp only [getBody, run, done, stop, Bool.false_eq_true, ↓reduceIte, marked]⟩
        · have go := mt (any_range_iff req.nh (fun i => retval ends i = 2)).mp flag
          have clear : ∀ i < req.nh, retval ends i ≠ 2 := fun i host code => flag ⟨i, host, code⟩
          exact Or.inr ⟨_, .merged calm clear, by
            simp only [getBody, run, done, go, Bool.false_eq_true, ↓reduceIte, marked]⟩

def hostsUp (req : Request) (client : Client) : Nat :=
  ((List.range req.nh).filter client.available).length

theorem filter_length_lt {p q : Nat → Bool} {l : List Nat}
    (within : ∀ i ∈ l, q i = true → p i = true) (lost : ∃ i ∈ l, p i = true ∧ q i = false) :
    (l.filter q).length < (l.filter p).length := by
  rcases lost with ⟨i, member, before, after⟩
  have twice : l.filter q = (l.filter p).filter q := by
    rw [List.filter_filter]
    apply List.filter_congr
    intro j inside
    cases kept : q j with
    | false => rfl
    | true => simp only [within j inside kept, Bool.and_self]
  rw [twice]
  apply List.length_filter_lt_length_iff_exists.mpr
  exact ⟨i, List.mem_filter.mpr ⟨member, before⟩, by simp [after]⟩

theorem getBody_decreases (req : Request) (stack : Nat → Bytes) (client next : Client)
    (continued : getBody req stack client = .inl next) : hostsUp req next < hostsUp req client := by
  have body := getBody_cases req stack client
  cases run : runRound CMD_GET (handleGet req.conf.password) req stack client with
  | none =>
      simp only [run] at body
      rw [body] at continued
      cases continued
  | some round =>
      rcases round with ⟨joined, ends⟩
      simp only [run] at body
      rcases body with ⟨⟨i, host, failed⟩, again⟩ | ⟨result, -, stopped⟩
      · rw [again] at continued
        rw [← Sum.inl.inj continued]
        have available := (runThreads_frame _ req _ stack _ client joined _ ends run).1
        have up := available_of_retval _ _ req stack client joined ends run i (by omega)
        apply filter_length_lt
        · intro j _ still
          simp only [marked, available] at still
          split at still
          · cases still
          · exact still
        · exact ⟨i, List.mem_range.mpr host, up, if_pos ⟨host, failed⟩⟩
      · rw [stopped] at continued
        cases continued

/-- The loop ends after at most one round more than there are hosts. -/
theorem getCommand_ends (req : Request) (stack : Nat → Bytes) (client : Client) :
    ∃ result, getCommand (req.nh + 1) req stack client = some result := by
  apply Option.isSome_iff_exists.mp
  apply Loop.iterate_of_measure (getBody req stack) (hostsUp req) (getBody_decreases req stack)
  have few := List.length_filter_le client.available (List.range req.nh)
  rw [List.length_range] at few
  exact Nat.lt_succ_of_le few

/-- The rule for a GET: an invariant that repeated rounds keep holds in the round that is
not repeated. -/
theorem getCommand_invariant (req : Request) (stack : Nat → Bytes) (invariant : Client → Prop)
    (post : Option GetEnd → Prop)
    (waits : ∀ client, invariant client →
      runRound CMD_GET (handleGet req.conf.password) req stack client = none → post none)
    (round : ∀ client joined ends, invariant client →
      runRound CMD_GET (handleGet req.conf.password) req stack client = some (joined, ends) →
      ((∃ i < req.nh, retval ends i = 1) → invariant (marked req joined ends)) ∧
        ∀ result, Ends req client joined ends result → post (some result))
    (rounds : Nat) (client : Client) (found : Option GetEnd)
    (start : invariant { client with got := [] })
    (ended : getCommand rounds req stack client = some found) : post found := by
  -- A round that is repeated keeps the invariant, and the one that is not gives the result.
  apply Loop.iterate_invariant (getBody req stack) invariant post _ _ rounds _ found start ended
  · intro state next holds continued
    have body := getBody_cases req stack state
    cases run : runRound CMD_GET (handleGet req.conf.password) req stack state with
    | none =>
        simp only [run] at body
        rw [body] at continued
        cases continued
    | some joining =>
        rcases joining with ⟨joined, ends⟩
        simp only [run] at body
        rcases body with ⟨retry, same⟩ | ⟨result, -, stopped⟩
        · rw [same] at continued
          rw [← Sum.inl.inj continued]
          exact (round state joined ends holds run).1 retry
        · rw [stopped] at continued
          cases continued
  · intro state found holds returned
    have body := getBody_cases req stack state
    cases run : runRound CMD_GET (handleGet req.conf.password) req stack state with
    | none =>
        simp only [run] at body
        rw [body] at returned
        rw [← Sum.inr.inj returned]
        exact waits state holds run
    | some joining =>
        rcases joining with ⟨joined, ends⟩
        simp only [run] at body
        rcases body with ⟨-, same⟩ | ⟨result, ended, stopped⟩
        · rw [same] at returned
          cases returned
        · rw [stopped] at returned
          rw [← Sum.inr.inj returned]
          exact (round state joined ends holds run).2 result ended

theorem getCommand_total (req : Request) (stack : Nat → Bytes) (invariant : Client → Prop)
    (post : GetEnd → Prop)
    (round : ∀ client, invariant client → ∃ joined ends,
      runRound CMD_GET (handleGet req.conf.password) req stack client = some (joined, ends) ∧
      ((∃ i < req.nh, retval ends i = 1) → invariant (marked req joined ends)) ∧
      ∀ result, Ends req client joined ends result → post result)
    (client : Client) (start : invariant { client with got := [] }) :
    ∃ result, getCommand (req.nh + 1) req stack client = some (some result) ∧ post result := by
  rcases getCommand_ends req stack client with ⟨found, ended⟩
  have conclude := getCommand_invariant req stack invariant
    (fun found => ∃ result, found = some result ∧ post result)
    (by
      intro state holds stuck
      rcases round state holds with ⟨joined, ends, run, -⟩
      rw [run] at stuck
      cases stuck)
    (by
      intro state joined ends holds run
      rcases round state holds with ⟨joined', ends', run', again, last⟩
      rw [run] at run'
      obtain ⟨rfl, rfl⟩ := Prod.mk.inj (Option.some.inj run')
      exact ⟨again, fun result ended => ⟨result, rfl, last result ended⟩⟩)
    (req.nh + 1) client found start ended
  rcases conclude with ⟨result, rfl, holds⟩
  exact ⟨result, ended, holds⟩

/-- The hosts in use wait for a command, their failures are reported as errors, and the
client can create its partition files. -/
structure InStep (req : Request) (client : Client) : Prop where
  settled : ∀ i < req.nh, client.available i = true → Settled req.conf (client.conns i)
  faults : ∀ i < req.nh, client.available i = true →
    (client.conns i).fault = .error ∨ (client.conns i).life = none
  short : ∀ i < req.nh, client.available i = true → Short req (Keeper req i) (client.conns i)
  creatable : ∀ part < req.nh, client.disk.creatable (partName req part) = true

section in_step

variable {req : Request} {stack : Nat → Bytes} {client joined : Client}
  {ends : Nat → Option Thread} (inStep : InStep req client)

variable (stack) in
include inStep in
theorem InStep.round_outcome :
    ∃ joined ends, runRound CMD_GET (handleGet req.conf.password) req stack client =
      some (joined, ends) ∧ RoundEnd req (schedule CMD_GET client.available req.hash req.nh) client
        (fun _ => none) joined ends :=
  getRound_outcome req stack client
    (fun i host up => ⟨inStep.settled i host up, inStep.short i host up⟩)

variable (rounds : RoundEnd req (schedule CMD_GET client.available req.hash req.nh) client
  (fun _ => none) joined ends)

include inStep rounds in
/-- A thread fetches its partitions, or its connection fails, or its server lacks one. -/
theorem InStep.thread_outcome (i : Nat) (parts : Int × Int)
    (member : (i, parts) ∈ schedule CMD_GET client.available req.hash req.nh) :
    (retval ends i = 1 ∧ (client.conns i).life ≠ none) ∨
      Settled req.conf (joined.conns i) ∧
      ((retval ends i = 0 ∧ ∀ part, Asks parts part → (part : Int) ∈ joined.got ∧
          ∃ content, (client.conns i).stored req part = some content ∧
            joined.disk.files (partName req part) = some (encrypted req.conf.password content)) ∨
        (retval ends i = 2 ∧
          ∃ part, Asks parts part ∧ (client.conns i).stored req part = none)) := by
  obtain ⟨host, up, -⟩ := (mem_schedule _ _ _ _ _ _).mp member
  have outcome := rounds.outcome i parts member
  generalize retval ends i = code at outcome ⊢
  cases outcome with
  | got settled kept listed =>
      exact Or.inr ⟨settled, Or.inl ⟨rfl, fun part asks => ⟨listed part asks, kept part asks⟩⟩⟩
  | failed mortal => exact Or.inl ⟨rfl, mortal⟩
  | missing part asks absent settled => exact Or.inr ⟨settled, Or.inr ⟨rfl, part, asks, absent⟩⟩
  | silent closed mortal =>
      rcases inStep.faults i host up with error | immortal
      · rw [error] at closed
        cases closed
      · exact absurd immortal mortal
  | refused part asks blocked =>
      rw [inStep.creatable part (keeper_of_asks member asks).1] at blocked
      cases blocked

include rounds in
theorem RoundEnd.idle (i : Nat) (outside : ¬ (i < req.nh ∧ client.available i = true)) :
    joined.conns i = client.conns i ∧ ends i = none := by
  apply rounds.others i
  intro parts member
  apply outside
  obtain ⟨host, up, -⟩ := (mem_schedule _ _ _ _ _ _).mp member
  exact ⟨host, up⟩

include rounds in
theorem RoundEnd.thread_of_retval (i : Nat) (code : retval ends i ≠ 0) :
    ∃ parts, (i, parts) ∈ schedule CMD_GET client.available req.hash req.nh := by
  by_contra none_
  have idle := (rounds.others i (fun parts member => none_ ⟨parts, member⟩)).2
  rw [retval, idle] at code
  exact code rfl

theorem started_of_available (req : Request) {available : Nat → Bool} (i : Nat) (host : i < req.nh)
    (up : available i = true) : ∃ parts, (i, parts) ∈ schedule CMD_GET available req.hash req.nh :=
  ⟨_, (mem_schedule _ _ _ _ _ _).mpr ⟨host, up, rfl⟩⟩

include rounds in
theorem RoundEnd.still_up (i : Nat) (host : i < req.nh)
    (up : (marked req joined ends).available i = true) :
    retval ends i ≠ 1 ∧ ∃ parts, (i, parts) ∈ schedule CMD_GET client.available req.hash req.nh := by
  simp only [marked, rounds.available] at up
  split at up
  · cases up
  · rename_i calm
    exact ⟨fun code => calm ⟨host, code⟩, started_of_available req i host up⟩

include inStep rounds in
theorem InStep.retry : InStep req (marked req joined ends) := by
  have before : ∀ i parts, (i, parts) ∈ schedule CMD_GET client.available req.hash req.nh →
      client.available i = true :=
    fun i parts member => ((mem_schedule _ _ _ _ _ _).mp member).2.1
  refine ⟨?_, ?_, ?_, fun part bound =>
    (congrFun rounds.creatable _).trans (inStep.creatable part bound)⟩
  all_goals
    intro i host up
    rcases rounds.still_up i host up with ⟨calm, parts, member⟩
  · exact ((inStep.thread_outcome rounds i parts member).resolve_left
      (fun failed => calm failed.1)).1
  · have keeps := rounds.keeps i parts member
    exact (inStep.faults i host (before i parts member)).imp keeps.fault.trans keeps.life
  · exact (inStep.short i host (before i parts member)).keeps (rounds.keeps i parts member)
      (fun _ => id)

end in_step

theorem deletePartitions_files (filename : Bytes) (n : Nat) (disk : Disk) (path : Bytes)
    (other : ∀ i : Nat, path ≠ setPartitionName filename i) :
    (deletePartitions filename n disk).files path = disk.files path := by
  have every : ∀ (indices : List Nat) (disk : Disk),
      (indices.foldl (fun disk (i : Nat) => disk.unlink (setPartitionName filename i)) disk).files
        path = disk.files path := by
    intro indices
    induction indices with
    | nil => intro disk; rfl
    | cons i rest ih =>
        intro disk
        rw [List.foldl_cons, ih, Disk.unlink_files_of_ne _ _ _ (other i)]
  exact every (List.range n) disk

theorem merged_creatable (filename : Bytes) (n : Nat) (disk : Disk) :
    (deletePartitions filename n (mergePartitions filename n disk).2).creatable =
      disk.creatable := by
  have delete : ∀ (indices : List Nat) (disk : Disk),
      (indices.foldl (fun disk (i : Nat) => disk.unlink (setPartitionName filename i))
        disk).creatable = disk.creatable := by
    intro indices
    induction indices with
    | nil => intro disk; rfl
    | cons i rest ih => exact fun disk => ih _
  have merge : (mergePartitions filename n disk).2.creatable = disk.creatable := by
    simp only [mergePartitions, Disk.fopenWrite]
    split_ifs <;> rfl
  calc
    (deletePartitions filename n (mergePartitions filename n disk).2).creatable =
        (mergePartitions filename n disk).2.creatable := delete (List.range n) _
    _ = disk.creatable := merge

theorem merged_file (req : Request) (disk : Disk)
    (creatable : disk.creatable req.filename = true) :
    (deletePartitions req.filename req.nh (mergePartitions req.filename req.nh disk).2).files
      req.filename = some (joined disk req.filename (List.range req.nh)) := by
  rw [deletePartitions_files _ _ _ _ (fun i => (setPartitionName_ne_filename _ _).symm),
    (mergePartitions_files _ _ _ creatable).2, Disk.save_files_self]

end NetworkSystem.Dfc
