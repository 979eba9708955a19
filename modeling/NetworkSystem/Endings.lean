import NetworkSystem.Dfc.Transfer
import NetworkSystem.Streams
import NetworkSystem.Udp.Transfer

/-! When the loops of both `send_file` come to their end, on a stream of any kind. -/

namespace NetworkSystem

open Bytes

namespace Dfc

/-- The variables of the `send_file` loop. -/
structure SendLoop (σ : Type) where
  fp : σ
  n : Int
  c : Nat
  sent : List Bytes

variable {σ : Type} (ops : StreamOps σ) (accepts : Nat → Bool) (key : Option Bytes)

def sendRound (state : SendLoop σ) : SendLoop σ ⊕ (Int × SendLoop σ) :=
  if ops.feof state.fp = false ∧ (state.n = -1 ∨ state.n > 0) then
    let (data, fp) := ops.fread state.fp (wanted state.n)
    let data := applyKey key data
    let outpkt := dataLayout.buildDataPacket state.c (some data) 0
    if accepts state.sent.length then
      .inl { fp
             n := if state.n ≠ -1 then state.n - data.length else state.n
             c := (state.c + data.length) % 2 ^ 32
             sent := state.sent ++ [outpkt] }
    else .inr (-1, { state with fp })
  else .inr (0, state)

/-- What `send_file` returns, the packets it has sent, and the stream. -/
structure Sending (σ : Type) where
  code : Int
  sent : List Bytes
  fp : σ

def sendEnd (ended : Int × SendLoop σ) : Sending σ :=
  let (code, state) := ended
  if code = 0 then
    let sent := if accepts state.sent.length then state.sent ++ [dataLayout.eofPacket]
      else state.sent
    ⟨0, sent, state.fp⟩
  else ⟨code, state.sent, state.fp⟩

/-- `send_file`, with its loop cut off after `rounds` rounds. -/
def sendFileOn (rounds : Nat) (fp : σ) (offset n : Int) : Option (Sending σ) :=
  (Loop.iterate (sendRound ops accepts key) rounds ⟨ops.fseek fp offset, n, 0, []⟩).map
    (sendEnd accepts)

def SendState.loop (state : SendState) : SendLoop FILE := ⟨state.fp, state.n, state.c, state.sent⟩

theorem sendRound_file (state : SendState) :
    sendRound FILE.ops accepts key state.loop =
      (sendBody accepts key state).map SendState.loop (Prod.map id SendState.loop) := by
  by_cases guard : state.fp.eof = false ∧ (state.n = -1 ∨ state.n > 0)
  · cases accepted : accepts state.sent.length with
    | true =>
        simp only [sendRound, sendBody, SendState.loop, FILE.ops, guard, accepted, ↓reduceIte,
          and_self]
        rfl
    | false =>
        simp only [sendRound, sendBody, SendState.loop, FILE.ops, guard, accepted, ↓reduceIte,
          and_self, Bool.false_eq_true]
        rfl
  · simp only [sendRound, sendBody, SendState.loop, FILE.ops, guard, ↓reduceIte]
    rfl

theorem sendFileOn_file (fp : FILE) (offset n : Int) :
    ∃ rounds, sendFileOn FILE.ops accepts key rounds fp offset n =
      let result := sendFile accepts fp offset n key
      some ⟨result.code, result.sent, result.fp⟩ := by
  have looped := Loop.iterate_run (sendBody accepts key) SendState.measure
    (sendBody_decreases accepts key) ⟨fp.fseek offset, n, 0, []⟩
  generalize SendState.measure ⟨fp.fseek offset, n, 0, []⟩ + 1 = rounds at looped
  have same := Loop.iterate_map (sendBody accepts key) (sendRound FILE.ops accepts key)
    SendState.loop (Prod.map id SendState.loop) (sendRound_file accepts key) rounds
    ⟨fp.fseek offset, n, 0, []⟩
  have start : SendState.loop ⟨fp.fseek offset, n, 0, []⟩ =
      ⟨FILE.ops.fseek fp offset, n, 0, []⟩ := rfl
  refine ⟨rounds, ?_⟩
  rw [sendFileOn, ← start, same, looped]
  simp only [Option.map_some, sendEnd, Prod.map, id_eq, SendState.loop, sendFile]
  split_ifs <;> rfl

def SendLoop.Finished (state : SendLoop Source) : Prop :=
  state.fp.eof = true ∨ (state.n ≠ -1 ∧ state.n ≤ 0)

/-- The reads before the `k`-th round have brought the loop to its end. -/
def EndedBy (fp : Source) (n : Int) (k : Nat) : Prop :=
  fp.eof = true ∨ (∃ i < k, fp.EndsAt DATA_SIZE_MAX (fp.reads + i)) ∨
    (n ≠ -1 ∧ n ≤ fp.gives DATA_SIZE_MAX k)

/-- The state before the `k`-th round. -/
structure SendLoop.At (fp : Source) (n : Int) (k : Nat) (state : SendLoop Source) : Prop where
  readings : state.fp.readings = fp.readings
  reads : state.fp.reads = fp.reads + k
  sent : state.sent.length = k
  left : state.n = if n = -1 then -1 else max 0 (n - fp.gives DATA_SIZE_MAX k)
  ended : state.Finished ↔ EndedBy fp n k

variable {accepts key} {fp : Source} {n : Int} {k : Nat} {state : SendLoop Source}

theorem SendLoop.guard_iff (state : SendLoop Source) :
    (Source.ops.feof state.fp = false ∧ (state.n = -1 ∨ state.n > 0)) ↔ ¬ state.Finished := by
  have tested : Source.ops.feof state.fp = state.fp.eof := rfl
  rw [tested, SendLoop.Finished, not_or, Bool.not_eq_true]
  apply and_congr_right
  intro _
  omega

def SendLoop.next (key : Option Bytes) (state : SendLoop Source) : SendLoop Source :=
  let (data, fp) := state.fp.fread (wanted state.n)
  let data := applyKey key data
  { fp
    n := if state.n ≠ -1 then state.n - data.length else state.n
    c := (state.c + data.length) % 2 ^ 32
    sent := state.sent ++ [dataLayout.buildDataPacket state.c (some data) 0] }

theorem sendRound_of_finished (finished : state.Finished) :
    sendRound Source.ops accepts key state = .inr (0, state) :=
  if_neg (mt (SendLoop.guard_iff state).mp (not_not.mpr finished))

theorem sendRound_of_running (running : ¬ state.Finished) :
    sendRound Source.ops accepts key state =
      if accepts state.sent.length then .inl (state.next key)
      else .inr (-1, { state with fp := (state.fp.fread (wanted state.n)).2 }) :=
  if_pos ((SendLoop.guard_iff state).mpr running)

theorem SendLoop.At.returns (at_ : SendLoop.At fp n k state)
    (ends : EndedBy fp n k ∨ accepts k = false) :
    ∃ result, sendRound Source.ops accepts key state = .inr result := by
  by_cases finished : state.Finished
  · exact ⟨_, sendRound_of_finished finished⟩
  · have refused : ¬ accepts state.sent.length = true := by
      rw [at_.sent, ends.resolve_left (mt at_.ended.mpr finished)]
      exact Bool.false_ne_true
    exact ⟨_, (sendRound_of_running finished).trans (if_neg refused)⟩

theorem SendLoop.At.continues (at_ : SendLoop.At fp n k state) (goes : ¬ EndedBy fp n k)
    (accepted : accepts k = true) :
    sendRound Source.ops accepts key state = .inl (state.next key) := by
  rw [sendRound_of_running (mt at_.ended.mp goes), at_.sent, if_pos accepted]

theorem endedBy_succ (goes : ¬ EndedBy fp n k) :
    EndedBy fp n (k + 1) ↔ fp.EndsAt DATA_SIZE_MAX (fp.reads + k) ∨
      (n ≠ -1 ∧ n ≤ fp.gives DATA_SIZE_MAX (k + 1)) := by
  simp only [EndedBy, not_or] at goes
  constructor
  · intro ends
    rcases ends with open_ | ⟨i, before, ends⟩ | given
    · exact absurd open_ goes.1
    · by_cases last : i = k
      · exact Or.inl (last ▸ ends)
      · exact absurd ⟨i, by omega, ends⟩ goes.2.1
    · exact Or.inr given
  · intro ends
    rcases ends with ends | given
    · exact Or.inr (Or.inl ⟨k, Nat.lt_succ_self k, ends⟩)
    · exact Or.inr (Or.inr given)

theorem SendLoop.next_n (key : Option Bytes) (state : SendLoop Source) :
    (state.next key).n = if state.n ≠ -1 then
      state.n - ((state.fp.fread (wanted state.n)).1.length : Int) else state.n := by
  simp only [next, length_applyKey]

theorem SendLoop.next_eof (key : Option Bytes) (state : SendLoop Source) :
    (state.next key).fp.eof = (state.fp.eof || ((state.fp.readings state.fp.reads).ended &&
      decide ((state.fp.fread (wanted state.n)).1.length < wanted state.n))) := rfl

theorem SendLoop.At.length_read (at_ : SendLoop.At fp n k state) :
    (state.fp.fread (wanted state.n)).1.length =
      min (wanted state.n) (fp.readings (fp.reads + k)).data.length := by
  simp only [Source.fread, at_.readings, at_.reads, List.length_take]

theorem wanted_of_pos {n : Int} (positive : 0 < n) :
    wanted n = (min n DATA_SIZE_MAX).toNat := by
  rw [wanted, if_pos (by omega)]

theorem SendLoop.At.left_next (key : Option Bytes) (at_ : SendLoop.At fp n k state)
    (running : ¬ state.Finished) :
    (state.next key).n = if n = -1 then -1 else max 0 (n - fp.gives DATA_SIZE_MAX (k + 1)) := by
  have left := at_.left
  have given : fp.gives DATA_SIZE_MAX (k + 1) = fp.gives DATA_SIZE_MAX k +
      min DATA_SIZE_MAX (fp.readings (fp.reads + k)).data.length := rfl
  simp only [SendLoop.Finished, not_or] at running
  rw [SendLoop.next_n, at_.length_read, given]
  by_cases whole : n = -1
  · rw [if_pos whole] at left
    rw [if_pos whole, left]
    rfl
  · rw [if_neg whole] at left
    have positive : 0 < state.n := by omega
    rw [if_neg whole, if_pos (by omega), wanted_of_pos positive]
    omega

theorem SendLoop.At.finished_next (key : Option Bytes) (at_ : SendLoop.At fp n k state)
    (running : ¬ state.Finished) :
    (state.next key).Finished ↔ fp.EndsAt DATA_SIZE_MAX (fp.reads + k) ∨
      (n ≠ -1 ∧ n ≤ fp.gives DATA_SIZE_MAX (k + 1)) := by
  have left := at_.left
  have counts := at_.left_next key running
  have given : fp.gives DATA_SIZE_MAX (k + 1) = fp.gives DATA_SIZE_MAX k +
      min DATA_SIZE_MAX (fp.readings (fp.reads + k)).data.length := rfl
  have eof := SendLoop.next_eof key state
  simp only [SendLoop.Finished, not_or, Bool.not_eq_true] at running
  rw [at_.length_read, at_.readings, at_.reads, running.1, Bool.false_or] at eof
  rw [SendLoop.Finished, eof, counts, Source.EndsAt, given, Bool.and_eq_true, decide_eq_true_eq]
  by_cases whole : n = -1
  · rw [if_pos whole] at left ⊢
    have asked : wanted state.n = DATA_SIZE_MAX := by rw [left]; rfl
    simp only [asked, whole, ne_eq, not_true_eq_false, false_and, or_false]
    apply and_congr_right
    intro _
    omega
  · rw [if_neg whole] at left ⊢
    have positive : 0 < state.n := by omega
    rw [wanted_of_pos positive]
    cases (fp.readings (fp.reads + k)).ended with
    | true =>
        simp only [true_and]
        omega
    | false =>
        simp only [Bool.false_eq_true, false_and, false_or]
        omega

theorem SendLoop.At.next (at_ : SendLoop.At fp n k state) (goes : ¬ EndedBy fp n k) :
    SendLoop.At fp n (k + 1) (state.next key) := by
  have running : ¬ state.Finished := mt at_.ended.mp goes
  refine ⟨at_.readings, ?_, ?_, at_.left_next key running, ?_⟩
  · change state.fp.reads + 1 = _
    rw [at_.reads]
    rfl
  · change (state.sent ++ [_]).length = _
    rw [List.length_append, at_.sent]
    rfl
  · rw [endedBy_succ goes]
    exact at_.finished_next key running

theorem SendLoop.at_start (fp : Source) (n : Int) (counted : n = -1 ∨ 0 ≤ n) :
    SendLoop.At fp n 0 ⟨fp, n, 0, []⟩ := by
  have nothing : fp.gives DATA_SIZE_MAX 0 = 0 := rfl
  refine ⟨rfl, rfl, rfl, ?_, ?_⟩
  · change n = _
    rw [nothing]
    split_ifs <;> omega
  · simp only [SendLoop.Finished, EndedBy, nothing]
    simp

/-- `send_file` returns when its reads bring the loop to its end, or a send fails. -/
theorem sendFileOn_returns_iff (accepts : Nat → Bool) (key : Option Bytes) (fp : Source)
    (offset n : Int) :
    (∃ rounds, (sendFileOn Source.ops accepts key rounds fp offset n).isSome = true) ↔
      ∃ k, EndedBy (fp.fseek offset) n k ∨ accepts k = false := by
  simp only [sendFileOn, Option.isSome_map]
  by_cases counted : n = -1 ∨ 0 ≤ n
  · have returns : ∀ k state, SendLoop.At (fp.fseek offset) n k state →
        EndedBy (fp.fseek offset) n k ∨ accepts k = false →
          ∃ result, sendRound Source.ops accepts key state = .inr result :=
      fun k state at_ ends => at_.returns ends
    have continues : ∀ k state, SendLoop.At (fp.fseek offset) n k state →
        ¬ (EndedBy (fp.fseek offset) n k ∨ accepts k = false) →
          ∃ next, sendRound Source.ops accepts key state = .inl next ∧
            SendLoop.At (fp.fseek offset) n (k + 1) next := by
      intro k state at_ goes
      rw [not_or, Bool.not_eq_false] at goes
      exact ⟨_, at_.continues goes.1 goes.2, at_.next goes.1⟩
    exact Loop.returns_iff_ends returns continues _ (SendLoop.at_start (fp.fseek offset) n counted)
  · have finished : SendLoop.Finished ⟨fp.fseek offset, n, 0, []⟩ := Or.inr (by
      change n ≠ -1 ∧ n ≤ 0
      omega)
    have returned : sendRound Source.ops accepts key ⟨fp.fseek offset, n, 0, []⟩ =
        .inr (0, ⟨fp.fseek offset, n, 0, []⟩) := sendRound_of_finished finished
    constructor
    · intro _
      refine ⟨0, Or.inl (Or.inr (Or.inr ?_))⟩
      change n ≠ -1 ∧ n ≤ 0
      omega
    · intro _
      exact ⟨1, by rw [Loop.iterate]; exact returned ▸ rfl⟩

end Dfc

namespace Udp

/-- The variables of one pass of `send_file` and the packets it has sent. -/
structure PassLoop (σ : Type) where
  fp : σ
  offset : Nat
  sent : List Bytes

section pass

variable {σ : Type} (ops : StreamOps σ)

/-- The body of the `feof` loop. -/
def passRound (state : PassLoop σ) : PassLoop σ ⊕ PassLoop σ :=
  if ops.feof state.fp = false then
    let (data, fp) := ops.fread state.fp DATA_SIZE_MAX
    .inl { fp
           offset := (state.offset + data.length) % 2 ^ 32
           sent := state.sent ++ [dataLayout.buildDataPacket state.offset (some data) 0] }
  else .inr state

/-- The `for` loop, with every pass cut off after `rounds` rounds. -/
def sendPassesOn (rounds : Nat) : Nat → σ → Option (List Bytes × σ)
  | 0, fp => some ([], fp)
  | passes + 1, fp =>
      (Loop.iterate (passRound ops) rounds ⟨ops.fseek fp 0, 0, []⟩).bind (fun pass =>
        (sendPassesOn rounds passes pass.fp).map (fun (later, last) => (pass.sent ++ later, last)))

def sendFileOn (rounds : Nat) (fp : σ) : Option (List Bytes × σ) :=
  (sendPassesOn ops rounds 3 fp).map (fun (packets, fp) => (packets ++ [dataLayout.eofPacket], fp))

theorem sendPassesOn_mono {rounds more passes : Nat} {fp : σ} {result : List Bytes × σ}
    (le : rounds ≤ more) (returned : sendPassesOn ops rounds passes fp = some result) :
    sendPassesOn ops more passes fp = some result := by
  induction passes generalizing fp result with
  | zero => exact returned
  | succ passes ih =>
      rw [sendPassesOn, Option.bind_eq_some_iff] at returned ⊢
      rcases returned with ⟨pass, looped, rest⟩
      obtain ⟨later, passed, same⟩ := Option.map_eq_some_iff.mp rest
      exact ⟨pass, Loop.iterate_mono _ _ _ _ _ looped le,
        Option.map_eq_some_iff.mpr ⟨later, ih passed, same⟩⟩

theorem sendPassesOn_succ {passes : Nat} {fp : σ} {result : List Bytes × σ} :
    (∃ rounds, sendPassesOn ops rounds (passes + 1) fp = some result) ↔
      ∃ pass later, (∃ rounds, Loop.iterate (passRound ops) rounds ⟨ops.fseek fp 0, 0, []⟩ = some pass) ∧
        (∃ rounds, sendPassesOn ops rounds passes pass.fp = some later) ∧
        (pass.sent ++ later.1, later.2) = result := by
  constructor
  · intro returned
    rcases returned with ⟨rounds, returned⟩
    rw [sendPassesOn, Option.bind_eq_some_iff] at returned
    rcases returned with ⟨pass, looped, rest⟩
    obtain ⟨later, passed, same⟩ := Option.map_eq_some_iff.mp rest
    exact ⟨pass, later, ⟨rounds, looped⟩, ⟨rounds, passed⟩, same⟩
  · intro parts
    rcases parts with ⟨pass, later, ⟨first, looped⟩, ⟨second, passed⟩, same⟩
    refine ⟨max first second, ?_⟩
    rw [sendPassesOn, Option.bind_eq_some_iff]
    exact ⟨pass, Loop.iterate_mono _ _ _ _ _ looped (Nat.le_max_left _ _),
      Option.map_eq_some_iff.mpr ⟨later, sendPassesOn_mono ops (Nat.le_max_right _ _) passed, same⟩⟩

theorem sendPassesOn_returns_iff {passes : Nat} {fp : σ} :
    (∃ rounds result, sendPassesOn ops rounds (passes + 1) fp = some result) ↔
      ∃ pass, (∃ rounds, Loop.iterate (passRound ops) rounds ⟨ops.fseek fp 0, 0, []⟩ = some pass) ∧
        ∃ rounds result, sendPassesOn ops rounds passes pass.fp = some result := by
  constructor
  · intro returned
    rcases returned with ⟨rounds, result, returned⟩
    obtain ⟨pass, later, looped, ⟨second, passed⟩, -⟩ := (sendPassesOn_succ ops).mp ⟨rounds, returned⟩
    exact ⟨pass, looped, second, later, passed⟩
  · intro parts
    rcases parts with ⟨pass, looped, second, later, passed⟩
    have returned : ∃ rounds, sendPassesOn ops rounds (passes + 1) fp =
        some (pass.sent ++ later.1, later.2) :=
      (sendPassesOn_succ ops).mpr ⟨pass, later, looped, ⟨second, passed⟩, rfl⟩
    rcases returned with ⟨rounds, returned⟩
    exact ⟨rounds, _, returned⟩

end pass

def PassState.loop (state : PassState) : PassLoop FILE := ⟨state.fp, state.offset, state.sent⟩

theorem passRound_file (state : PassState) :
    passRound FILE.ops state.loop = (passBody state).map PassState.loop PassState.loop := by
  cases open_ : state.fp.eof <;>
    simp only [passRound, passBody, PassState.loop, FILE.ops, open_, ↓reduceIte, reduceCtorEq] <;> rfl

theorem sendPassesOn_file (passes : Nat) (fp : FILE) :
    ∃ rounds, sendPassesOn FILE.ops rounds passes fp = some (sendPasses passes fp) := by
  induction passes generalizing fp with
  | zero => exact ⟨0, rfl⟩
  | succ passes ih =>
      have looped := Loop.iterate_run passBody PassState.measure passBody_decreases ⟨fp.fseek 0, 0, []⟩
      generalize PassState.measure ⟨fp.fseek 0, 0, []⟩ + 1 = rounds at looped
      have same := Loop.iterate_map passBody (passRound FILE.ops) PassState.loop PassState.loop
        passRound_file rounds ⟨fp.fseek 0, 0, []⟩
      rw [looped] at same
      exact (sendPassesOn_succ FILE.ops).mpr ⟨_, _, ⟨rounds, same⟩, ih (sendPass fp).fp, rfl⟩

theorem sendFileOn_file (fp : FILE) : ∃ rounds, sendFileOn FILE.ops rounds fp = some (sendFile fp) := by
  rcases sendPassesOn_file 3 fp with ⟨rounds, passed⟩
  exact ⟨rounds, by rw [sendFileOn, passed]; rfl⟩

/-- The reads before the `k`-th round of a pass have met the end of the file. -/
def PassEndedBy (fp : Source) (k : Nat) : Prop :=
  fp.eof = true ∨ ∃ i < k, fp.EndsAt DATA_SIZE_MAX (fp.reads + i)

/-- The state before the `k`-th round of a pass. -/
structure PassLoop.At (fp : Source) (k : Nat) (state : PassLoop Source) : Prop where
  readings : state.fp.readings = fp.readings
  seekable : state.fp.seekable = fp.seekable
  reads : state.fp.reads = fp.reads + k
  ended : state.fp.eof = true ↔ PassEndedBy fp k

namespace PassLoop.At

variable {fp : Source} {k : Nat} {state : PassLoop Source} (at_ : PassLoop.At fp k state)

include at_

theorem returns (ends : PassEndedBy fp k) : passRound Source.ops state = .inr state := by
  have closed : ¬ Source.ops.feof state.fp = false := by
    change ¬ state.fp.eof = false
    rw [at_.ended.mpr ends]
    exact Bool.noConfusion
  exact if_neg closed

theorem continues (goes : ¬ PassEndedBy fp k) :
    ∃ next, passRound Source.ops state = .inl next ∧ PassLoop.At fp (k + 1) next := by
  have open_ : state.fp.eof = false := by
    rw [← Bool.not_eq_true]
    exact mt at_.ended.mp goes
  have guard : Source.ops.feof state.fp = false := open_
  refine ⟨_, if_pos guard, at_.readings, at_.seekable, ?_, ?_⟩
  · change state.fp.reads + 1 = _
    rw [at_.reads]
    rfl
  · have ends : (state.fp.fread DATA_SIZE_MAX).2.eof = true ↔
        fp.EndsAt DATA_SIZE_MAX (fp.reads + k) := by
      simp only [Source.fread, open_, Bool.false_or, at_.readings, at_.reads, List.length_take,
        Bool.and_eq_true, decide_eq_true_eq, Source.EndsAt]
      apply and_congr_right
      intro _
      omega
    change (state.fp.fread DATA_SIZE_MAX).2.eof = true ↔ _
    rw [ends]
    simp only [PassEndedBy, not_or] at goes ⊢
    constructor
    · intro here
      exact Or.inr ⟨k, Nat.lt_succ_self k, here⟩
    · intro either
      rcases either with closed | ⟨i, before, there⟩
      · exact absurd closed goes.1
      · by_cases last : i = k
        · exact last ▸ there
        · exact absurd ⟨i, by omega, there⟩ goes.2

end PassLoop.At

theorem PassLoop.at_start (fp : Source) : PassLoop.At fp 0 ⟨fp, 0, []⟩ := by
  refine ⟨rfl, rfl, rfl, ?_⟩
  simp [PassEndedBy]

theorem pass_returns (fp : Source) (k : Nat) (state : PassLoop Source)
    (at_ : PassLoop.At fp k state) (ends : PassEndedBy fp k) :
    ∃ result, passRound Source.ops state = .inr result :=
  ⟨state, at_.returns ends⟩

theorem pass_continues (fp : Source) (k : Nat) (state : PassLoop Source)
    (at_ : PassLoop.At fp k state) (goes : ¬ PassEndedBy fp k) :
    ∃ next, passRound Source.ops state = .inl next ∧ PassLoop.At fp (k + 1) next :=
  at_.continues goes

theorem pass_returned {fp : Source} {rounds : Nat} {pass : PassLoop Source}
    (looped : Loop.iterate (passRound Source.ops) rounds ⟨fp, 0, []⟩ = some pass) :
    ∃ k, PassLoop.At fp k pass ∧ PassEndedBy fp k ∧ ∀ j < k, ¬ PassEndedBy fp j := by
  rcases Loop.last_of_returned (pass_returns fp) (pass_continues fp) rounds 0 _ pass
    (PassLoop.at_start fp) looped with ⟨k, last, there, ends, going, final⟩
  rw [Nat.zero_add] at there ends
  rw [there.returns ends] at final
  refine ⟨k, Sum.inr.inj final ▸ there, ends, ?_⟩
  intro j less
  have earlier := going j less
  rwa [Nat.zero_add] at earlier

theorem pass_returns_iff (fp : Source) :
    (∃ rounds pass, Loop.iterate (passRound Source.ops) rounds ⟨fp, 0, []⟩ = some pass) ↔
      ∃ k, PassEndedBy fp k := by
  rw [← Loop.returns_iff_ends (pass_returns fp) (pass_continues fp) _ (PassLoop.at_start fp)]
  simp only [Loop.Returns, Option.isSome_iff_exists]

theorem sendPassesOn_seekable (passes : Nat) (fp : Source) (seekable : fp.seekable = true) :
    (∃ rounds result, sendPassesOn Source.ops rounds passes fp = some result) ↔
      fp.EndsTimes DATA_SIZE_MAX passes fp.reads := by
  induction passes generalizing fp with
  | zero =>
      refine ⟨fun _ => trivial, fun _ => ⟨0, _, rfl⟩⟩
  | succ passes ih =>
      have back : fp.fseek 0 = { fp with eof := false } := if_pos ⟨seekable, Int.le_refl 0⟩
      have behind : ∀ k, PassEndedBy (fp.fseek 0) k ↔
          ∃ i < k, fp.EndsAt DATA_SIZE_MAX (fp.reads + i) := by
        intro k
        rw [back, PassEndedBy]
        simp [Source.EndsAt]
      -- the passes behind one of `k` rounds
      have rest : ∀ k pass, PassLoop.At (fp.fseek 0) k pass →
          ((∃ rounds result, sendPassesOn Source.ops rounds passes pass.fp = some result) ↔
            fp.EndsTimes DATA_SIZE_MAX passes (fp.reads + k)) := by
        intro k pass at_
        have same : pass.fp.readings = fp.readings := at_.readings.trans (fp.fseek_readings 0)
        have reads : pass.fp.reads = fp.reads + k := by rw [at_.reads, fp.fseek_reads]
        rw [ih pass.fp (at_.seekable.trans ((fp.fseek_seekable 0).trans seekable)), reads]
        exact Source.endsTimes_congr same DATA_SIZE_MAX passes (fp.reads + k)
      constructor
      · intro returned
        obtain ⟨pass, ⟨first, looped⟩, passed⟩ := (sendPassesOn_returns_iff Source.ops).mp returned
        rcases pass_returned looped with ⟨k, at_, ends, going⟩
        obtain ⟨i, before, here⟩ := (behind k).mp ends
        have last : i + 1 = k := by
          by_contra other
          exact going (i + 1) (by omega) ((behind (i + 1)).mpr ⟨i, Nat.lt_succ_self i, here⟩)
        refine ⟨fp.reads + i, Nat.le_add_right _ _, here, ?_⟩
        rw [Nat.add_assoc, last]
        exact (rest k pass at_).mp passed
      · intro ends
        rcases ends with ⟨m, from_, here, later⟩
        have place : fp.reads + (m - fp.reads) = m := by omega
        have ended : PassEndedBy (fp.fseek 0) (m - fp.reads + 1) :=
          (behind _).mpr ⟨m - fp.reads, Nat.lt_succ_self _, place.symm ▸ here⟩
        obtain ⟨first, pass, looped⟩ := (pass_returns_iff (fp.fseek 0)).mpr ⟨_, ended⟩
        rcases pass_returned looped with ⟨k, at_, -, going⟩
        have early : k ≤ m - fp.reads + 1 := by
          by_contra later_
          exact going _ (by omega) ended
        have passed := (rest k pass at_).mpr (later.mono (by omega))
        exact (sendPassesOn_returns_iff Source.ops).mpr ⟨pass, ⟨first, looped⟩, passed⟩

theorem sendPassesOn_closed (passes : Nat) (fp : Source) (fixed : fp.seekable = false)
    (closed : fp.eof = true) :
    ∃ rounds result, sendPassesOn Source.ops rounds passes fp = some result := by
  induction passes with
  | zero => exact ⟨0, _, rfl⟩
  | succ passes ih =>
      have back : fp.fseek 0 = fp := if_neg (by simp [fixed])
      have at_ := PassLoop.at_start fp
      have returned : Loop.iterate (passRound Source.ops) 1 ⟨fp.fseek 0, 0, []⟩ = some ⟨fp, 0, []⟩ := by
        rw [back, Loop.iterate, at_.returns (Or.inl closed)]
      exact (sendPassesOn_returns_iff Source.ops).mpr ⟨_, ⟨1, returned⟩, ih⟩

/-- On a stream that cannot be positioned the first end of the file is the end of all passes. -/
theorem sendPassesOn_unseekable (passes : Nat) (fp : Source) (fixed : fp.seekable = false) :
    (∃ rounds result, sendPassesOn Source.ops rounds (passes + 1) fp = some result) ↔
      fp.eof = true ∨ fp.EndsTimes DATA_SIZE_MAX 1 fp.reads := by
  have back : fp.fseek 0 = fp := if_neg (by simp [fixed])
  have once : (∃ k, PassEndedBy fp k) ↔ fp.eof = true ∨ fp.EndsTimes DATA_SIZE_MAX 1 fp.reads := by
    constructor
    · intro ended
      rcases ended with ⟨k, closed | ⟨i, -, here⟩⟩
      · exact Or.inl closed
      · exact Or.inr ⟨fp.reads + i, Nat.le_add_right _ _, here, trivial⟩
    · intro either
      rcases either with closed | ⟨m, from_, here, -⟩
      · exact ⟨0, Or.inl closed⟩
      · have place : fp.reads + (m - fp.reads) = m := by omega
        exact ⟨m - fp.reads + 1, Or.inr ⟨m - fp.reads, Nat.lt_succ_self _, place.symm ▸ here⟩⟩
  rw [← once, ← pass_returns_iff, sendPassesOn_returns_iff]
  change (∃ pass,
      (∃ rounds, Loop.iterate (passRound Source.ops) rounds ⟨fp.fseek 0, 0, []⟩ = some pass) ∧ _) ↔ _
  rw [back]
  constructor
  · intro returned
    rcases returned with ⟨pass, ⟨first, looped⟩, -⟩
    exact ⟨first, pass, looped⟩
  · intro returned
    rcases returned with ⟨first, pass, looped⟩
    rcases pass_returned looped with ⟨k, at_, ends, -⟩
    exact ⟨pass, ⟨first, looped⟩,
      sendPassesOn_closed passes pass.fp (at_.seekable.trans fixed) (at_.ended.mpr ends)⟩

/-- The three passes meet the end of the file, each for itself where they can go back. -/
def PassesEnd (fp : Source) : Prop :=
  if fp.seekable = true then fp.EndsTimes DATA_SIZE_MAX 3 fp.reads
  else fp.eof = true ∨ fp.EndsTimes DATA_SIZE_MAX 1 fp.reads

theorem sendFileOn_returns_iff (fp : Source) :
    (∃ rounds, (sendFileOn Source.ops rounds fp).isSome = true) ↔ PassesEnd fp := by
  simp only [sendFileOn, Option.isSome_map, Option.isSome_iff_exists, PassesEnd]
  split_ifs with seekable
  · exact sendPassesOn_seekable 3 fp seekable
  · exact sendPassesOn_unseekable 2 fp (by simpa using seekable)

end Udp

/-- Both `send_file` return exactly when their reads meet the end of the file, or give the
bytes that are asked for, or a send fails. -/
theorem send_file_returns_iff (fp : Source) :
    (∀ (accepts : Nat → Bool) (key : Option Key) (offset n : Int),
      let key := key.map Subtype.val
      (∃ rounds, (Dfc.sendFileOn Source.ops accepts key rounds fp offset n).isSome = true) ↔
        ∃ k, Dfc.EndedBy (fp.fseek offset) n k ∨ accepts k = false) ∧
    ((∃ rounds, (Udp.sendFileOn Source.ops rounds fp).isSome = true) ↔ Udp.PassesEnd fp) :=
  ⟨fun accepts _ offset n => Dfc.sendFileOn_returns_iff accepts _ fp offset n,
    Udp.sendFileOn_returns_iff fp⟩

def directorySource : Source := ⟨fun _ => ⟨[], false⟩, true, 0, false⟩

theorem not_endedBy_directory (offset n : Int) (counted : n = -1 ∨ 1 ≤ n) (k : Nat) :
    ¬ Dfc.EndedBy (directorySource.fseek offset) n k := by
  have open_ : (directorySource.fseek offset).eof = false := by
    simp only [Source.fseek]
    split <;> rfl
  have kept : (directorySource.fseek offset).readings = fun _ => ⟨[], false⟩ :=
    directorySource.fseek_readings offset
  have nothing : (directorySource.fseek offset).gives Dfc.DATA_SIZE_MAX k = 0 := by
    induction k with
    | zero => rfl
    | succ k ih => simp only [Source.gives, ih, kept, List.length_nil, Nat.min_zero, Nat.add_zero]
  simp only [Dfc.EndedBy, open_, nothing, Source.EndsAt, kept]
  simp
  omega

/-- Both programs send empty packets for ever. -/
theorem send_file_directory :
    directorySource.RunsDry ∧
    (∀ offset n : Int, n = -1 ∨ 1 ≤ n → ¬ ∃ rounds,
      (Dfc.sendFileOn Source.ops (fun _ => true) none rounds directorySource offset n).isSome = true) ∧
    ¬ ∃ rounds, (Udp.sendFileOn Source.ops rounds directorySource).isSome = true := by
  refine ⟨⟨0, fun k _ => rfl⟩, ?_, ?_⟩
  · intro offset n counted returned
    rcases (Dfc.sendFileOn_returns_iff _ _ _ _ _).mp returned with ⟨k, ended | refused⟩
    · exact not_endedBy_directory offset n counted k ended
    · cases refused
  · rw [Udp.sendFileOn_returns_iff]
    intro ends
    rcases ends with ⟨k, -, here, -⟩
    cases here.1

end NetworkSystem
