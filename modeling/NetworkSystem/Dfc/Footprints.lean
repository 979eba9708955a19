import NetworkSystem.Dfc.Restraint
import NetworkSystem.Dfc.Threads

/-! Which files a thread of the client reads and writes, and that its steps do the same
whatever happens to the other files. -/

namespace NetworkSystem.Dfc

open Bytes Store Calls

namespace Handler

variable {files : Footprint} {α β : Type}

def Owns (files : Footprint) (p : Program α) : Prop :=
  p.Meets (fun _ _ => True) (Call.Within files) (fun _ => True)

theorem Owns.ret (value : α) : Owns files (.ret value : Program α) := trivial

theorem owns_connectionHandler (password : Bytes) (nh : Nat) (tp : ThreadParam) (stack : Bytes) :
    Owns tp.files (connectionHandler password nh tp stack) :=
  (restrained_connectionHandler password nh tp stack).mono (fun _ own => own.1)

end Handler

/-- What a call does to the files: nothing, or one of them has a new content. -/
def Disk.touch : Option (Bytes × Bytes) → Disk → Disk
  | none, disk => disk
  | some (path, content), disk => disk.save path content

theorem Disk.touch_comm {one two : Option (Bytes × Bytes)}
    (apart : ∀ first ∈ one, ∀ second ∈ two, first.1 ≠ second.1) (disk : Disk) :
    Disk.touch one (Disk.touch two disk) = Disk.touch two (Disk.touch one disk) := by
  cases one with
  | none => rfl
  | some first =>
      cases two with
      | none => rfl
      | some second =>
          have other := apart first rfl second rfl
          simp only [touch, Disk.save, Function.update_comm other]

namespace Footprint

variable (files : Footprint)

/-- A directory in which a thread with these files sees the same. -/
structure SameView (disk other : Disk) : Prop where
  creatable : other.creatable = disk.creatable
  flushed : other.flushed = disk.flushed
  read : ∀ path, files.reads path → other.files path = disk.files path

/-- Two threads of which neither writes a file of the other one. -/
def Apart (one two : Footprint) : Prop :=
  ∀ path, one.writes path → ¬ two.reads path ∧ ¬ two.writes path

variable {files}

theorem SameView.touch {effect : Option (Bytes × Bytes)} (disk : Disk)
    (outside : ∀ written ∈ effect, ¬ files.reads written.1) :
    files.SameView disk (Disk.touch effect disk) := by
  cases effect with
  | none => exact ⟨rfl, rfl, fun _ _ => rfl⟩
  | some written =>
      constructor
      · rfl
      · rfl
      · intro path read
        apply Disk.save_files_of_ne
        intro same
        rw [same] at read
        exact outside written rfl read

end Footprint

namespace Running

open Interleave

variable {files : Footprint}

def Owned (files : Footprint) (thread : Running) : Prop :=
  match thread.doing with
  | .program p => Handler.Owns files p
  | .sending _ _ next => ∀ fp, Handler.Owns files (next fp)
  | .receiving path _ _ next => files.writes path ∧ ∀ result, Handler.Owns files (next result)

/-- A step from one state to another changes one of the files at most, and it is the same
step in every directory in which the thread sees the same. -/
def Local (files : Footprint) (thread next : Running) (disk after : Disk) : Prop :=
  next.Owned files ∧ ∃ effect, (∀ written ∈ effect, files.writes written.1) ∧
    after = Disk.touch effect disk ∧
    ∀ other, files.SameView disk other → step thread other = some (next, Disk.touch effect other)

theorem local_idle {thread next : Running} {disk : Disk} (owned : next.Owned files)
    (steps : ∀ other, files.SameView disk other → step thread other = some (next, other)) :
    Local files thread next disk disk :=
  ⟨owned, none, fun _ member => absurd member (Option.not_mem_none _), rfl, steps⟩

theorem local_save {thread next : Running} {disk : Disk} {path content : Bytes}
    (owned : next.Owned files) (own : files.writes path)
    (steps : ∀ other, files.SameView disk other →
      step thread other = some (next, other.save path content)) :
    Local files thread next disk (disk.save path content) := by
  refine ⟨owned, some (path, content), ?_, rfl, steps⟩
  intro written member
  rw [← Option.some.inj member]
  exact own

theorem local_conn {conn : Conn} {disk after : Disk} {c : Call}
    {next : Reply c → Handler.Program Result} {last : Running} (answer : Option (Reply c × Conn))
    (steps : ∀ disk, step ⟨conn, .program (.call c next)⟩ disk =
      answer.map (fun (reply, conn) => (⟨conn, .program (next reply)⟩, disk)))
    (owns : ∀ reply, Handler.Owns files (next reply))
    (stepped : step ⟨conn, .program (.call c next)⟩ disk = some (last, after)) :
    Local files ⟨conn, .program (.call c next)⟩ last disk after := by
  rw [steps] at stepped
  cases answer with
  | none => cases stepped
  | some both =>
      obtain ⟨rfl, rfl⟩ := Prod.mk.inj (Option.some.inj stepped)
      apply local_idle
      · exact owns both.1
      · intro other _
        exact steps other

theorem step_send (conn : Conn) (pkt : Bytes) (next : Bool → Handler.Program Result)
    (disk : Disk) : step ⟨conn, .program (.call (.send pkt) next)⟩ disk =
      (some ((conn.send pkt).isSome, (conn.send pkt).getD conn)).map (fun (reply, conn) =>
        (⟨conn, .program (next reply)⟩, disk)) := by
  cases sent : conn.send pkt with
  | none =>
      simp only [step, respond, sent]
      rfl
  | some conn' =>
      simp only [step, respond, sent]
      rfl

theorem step_recv (conn : Conn) (next : Except Fault Bytes → Handler.Program Result)
    (disk : Disk) : step ⟨conn, .program (.call .recv next)⟩ disk =
      (if lives conn.life 0 then conn.inbox.head?.map (fun bytes => (.ok bytes, conn.hear 1))
        else some (.error conn.fault, conn)).map (fun (reply, conn) =>
          (⟨conn, .program (next reply)⟩, disk)) := by
  by_cases alive : lives conn.life 0 = true
  · cases inbox : conn.inbox with
    | nil => simp only [step, respond, alive, inbox, ↓reduceIte, Option.map_none, List.head?_nil]
    | cons bytes rest =>
        simp only [step, respond, alive, inbox, ↓reduceIte, Option.map_some, List.head?_cons,
          Conn.hear, List.drop_one, List.tail_cons]
  · simp only [step, respond, alive, ↓reduceIte, Option.map_some, Bool.false_eq_true]

theorem local_fopenWrite {conn : Conn} {disk after : Disk} {path : Bytes}
    {next : Option FILE → Handler.Program Result} {last : Running} (own : files.writes path)
    (owns : ∀ reply, Handler.Owns files (next reply))
    (stepped : step ⟨conn, .program (.call (.fopenWrite path) next)⟩ disk = some (last, after)) :
    Local files ⟨conn, .program (.call (.fopenWrite path) next)⟩ last disk after := by
  by_cases creatable : disk.creatable path = true
  · simp only [step, respond, Disk.fopenWrite, creatable, ↓reduceIte, Option.map_some,
      Option.some.injEq, Prod.mk.injEq] at stepped
    obtain ⟨rfl, rfl⟩ := stepped
    apply local_save _ own
    · intro other same
      simp only [step, respond, Disk.fopenWrite, same.creatable, creatable, ↓reduceIte,
        Option.map_some]
    · exact owns _
  · simp only [step, respond, Disk.fopenWrite, creatable, ↓reduceIte, Option.map_some,
      Option.some.injEq, Prod.mk.injEq, Bool.false_eq_true] at stepped
    obtain ⟨rfl, rfl⟩ := stepped
    apply local_idle
    · exact owns none
    · intro other same
      simp only [step, respond, Disk.fopenWrite, same.creatable, creatable, ↓reduceIte,
        Option.map_some, Bool.false_eq_true]

theorem local_call {conn : Conn} {disk after : Disk} {c : Call}
    {next : Reply c → Handler.Program Result} {last : Running}
    (owned : Handler.Owns files (.call c next))
    (stepped : step ⟨conn, .program (.call c next)⟩ disk = some (last, after)) :
    Local files ⟨conn, .program (.call c next)⟩ last disk after := by
  rcases owned with ⟨within, later⟩
  have owns := fun reply => later reply trivial
  cases c with
  | send pkt => exact local_conn _ (step_send conn pkt next) owns stepped
  | recv => exact local_conn _ (step_recv conn next) owns stepped
  | readMsg => exact local_conn (some ((), conn)) (fun _ => rfl) owns stepped
  | readErrno => exact local_conn (some ((), conn)) (fun _ => rfl) owns stepped
  | fopenRead path =>
      obtain ⟨rfl, rfl⟩ := Prod.mk.inj (Option.some.inj stepped)
      apply local_idle
      · exact owns _
      · intro other same
        have found : other.fopenRead path = disk.fopenRead path := by
          rw [Disk.fopenRead, same.read path within, Disk.fopenRead]
        simp only [step, respond, Option.map_some, found]
  | fopenWrite path => exact local_fopenWrite within owns stepped
  | sendFile fp offset n key =>
      obtain ⟨rfl, rfl⟩ := Prod.mk.inj (Option.some.inj stepped)
      exact local_idle owns (fun _ _ => rfl)
  | receiveFile path fp key =>
      obtain ⟨rfl, rfl⟩ := Prod.mk.inj (Option.some.inj stepped)
      apply local_save _ within
      · intro other same
        simp only [step, Disk.leave, same.flushed]
      · exact ⟨within, owns⟩
  | fclose path fp =>
      obtain ⟨rfl, rfl⟩ := Prod.mk.inj (Option.some.inj stepped)
      apply local_save _ within
      · intro other _
        rfl
      · exact owns ()

theorem local_sending {conn : Conn} {disk after : Disk} {state : SendState}
    {key : Option Bytes} {next : FILE → Handler.Program Result} {last : Running}
    (owns : ∀ fp, Handler.Owns files (next fp))
    (stepped : step ⟨conn, .sending state key next⟩ disk = some (last, after)) :
    Local files ⟨conn, .sending state key next⟩ last disk after := by
  obtain ⟨rfl, rfl⟩ := Prod.mk.inj (Option.some.inj stepped)
  apply local_idle _ (fun _ _ => rfl)
  rw [sendStep]
  split
  · exact owns
  · split_ifs
    · exact owns _
    · exact owns _

theorem local_receiving {conn : Conn} {disk after : Disk} {path : Bytes} {receiver : Receiver}
    {key : Option Bytes} {next : Int × FILE → Handler.Program Result} {last : Running}
    (own : files.writes path) (owns : ∀ result, Handler.Owns files (next result))
    (stepped : step ⟨conn, .receiving path receiver key next⟩ disk = some (last, after)) :
    Local files ⟨conn, .receiving path receiver key next⟩ last disk after := by
  by_cases alive : lives conn.life 0 = true
  · cases inbox : conn.inbox with
    | nil =>
        simp only [step, receiveStep, alive, inbox, ↓reduceIte] at stepped
        cases stepped
    | cons bytes rest =>
        by_cases ended : dataLayout.eof (recvInto (zeros PACKET_SIZE) bytes) = 1
        · simp only [step, receiveStep, alive, inbox, ended, ↓reduceIte, Option.some.injEq,
            Prod.mk.injEq] at stepped
          obtain ⟨rfl, rfl⟩ := stepped
          apply local_idle
          · exact owns _
          · intro other _
            simp only [step, receiveStep, alive, inbox, ended, ↓reduceIte]
        · simp only [step, receiveStep, alive, inbox, ended, ↓reduceIte, Option.some.injEq,
            Prod.mk.injEq] at stepped
          obtain ⟨rfl, rfl⟩ := stepped
          apply local_save _ own
          · intro other same
            simp only [step, receiveStep, alive, inbox, ended, ↓reduceIte, Disk.leave, same.flushed]
          · exact ⟨own, owns⟩
  · simp only [step, receiveStep, alive, ↓reduceIte, Bool.false_eq_true, Option.some.injEq,
      Prod.mk.injEq] at stepped
    obtain ⟨rfl, rfl⟩ := stepped
    apply local_idle
    · exact owns _
    · intro other _
      simp only [step, receiveStep, alive, ↓reduceIte, Bool.false_eq_true]

theorem local_step {thread next : Running} {disk after : Disk} (owned : thread.Owned files)
    (stepped : step thread disk = some (next, after)) : Local files thread next disk after := by
  rcases thread with ⟨conn, doing⟩
  cases doing with
  | program p =>
      cases p with
      | ret value => cases stepped
      | call c after => exact local_call owned stepped
  | sending state key after => exact local_sending owned stepped
  | receiving path receiver key after => exact local_receiving owned.1 owned.2 stepped

/-- Threads whose files are apart can exchange their steps. -/
theorem commuting {ι : Type} [DecidableEq ι] (files : ι → Footprint)
    (apart : ∀ i j, i ≠ j → (files i).Apart (files j)) :
    Commuting step (fun i thread => thread.Owned (files i)) := by
  constructor
  · intro i l s l' s' owned stepped
    exact (local_step owned stepped).1
  · intro i j l m s l' m' s₁ s₂ other one two first second
    rcases local_step one first with ⟨-, here, writes, rfl, again⟩
    rcases local_step two second with ⟨-, there, writes', rfl, again'⟩
    refine ⟨Disk.touch there (Disk.touch here s), ?_, ?_⟩
    · apply again'
      apply Footprint.SameView.touch
      intro written member
      exact (apart i j other written.1 (writes written member)).1
    · rw [Disk.touch_comm]
      · apply again
        apply Footprint.SameView.touch
        intro written member
        exact (apart j i other.symm written.1 (writes' written member)).1
      · intro later member earlier member' same
        apply (apart i j other earlier.1 (writes earlier member')).2
        rw [← same]
        exact writes' later member

end Running

end NetworkSystem.Dfc
