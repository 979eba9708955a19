import NetworkSystem.Lib.Bytes
import NetworkSystem.Lib.Loop

/-! Arrays that are walked through with pointers, and the string functions of C as the
loops they are. A pointer is counted from the first cell of its array; an access outside the
array has no result. Nothing here names a program. -/

namespace NetworkSystem.Memory

variable {α : Type}

def read (cells : List α) (p : Int) : Option α := if 0 ≤ p then cells[p.toNat]? else none

def write (cells : List α) (p : Int) (value : α) : Option (List α) :=
  if 0 ≤ p ∧ p < cells.length then some (cells.set p.toNat value) else none

theorem bounds_of_read {cells : List α} {p : Int} {value : α} (found : read cells p = some value) :
    0 ≤ p ∧ p < cells.length := by
  simp only [read] at found
  split_ifs at found with nonneg
  obtain ⟨inside, -⟩ := List.getElem?_eq_some_iff.mp found
  exact ⟨nonneg, by omega⟩

theorem length_of_write {cells written : List α} {p : Int} {value : α}
    (stored : write cells p value = some written) : written.length = cells.length := by
  simp only [write] at stored
  split_ifs at stored
  rw [← Option.some.inj stored, List.length_set]

theorem read_append (front : List α) (value : α) (back : List α) :
    read (front ++ value :: back) front.length = some value := by
  simp only [read, Int.natCast_nonneg, ↓reduceIte, Int.toNat_natCast,
    List.getElem?_append_right (Nat.le_refl _), Nat.sub_self, List.getElem?_cons_zero]

theorem write_append (front : List α) (old value : α) (back : List α) :
    write (front ++ old :: back) front.length value = some (front ++ value :: back) := by
  have inside : (0 : Int) ≤ front.length ∧
      (front.length : Int) < (front ++ old :: back).length := by
    rw [List.length_append, List.length_cons]
    omega
  rw [write, if_pos inside, Int.toNat_natCast, List.set_append_right _ _ (Nat.le_refl _),
    Nat.sub_self, List.set_cons_zero]

/-! `while (go(*p)) p++;` -/

def scanBody (cells : List α) (go : α → Bool) (p : Int) : Int ⊕ Option Int :=
  match read cells p with
  | none => .inr none
  | some value => if go value then .inl (p + 1) else .inr (some p)

theorem scanBody_decreases (cells : List α) (go : α → Bool) (p next : Int)
    (continued : scanBody cells go p = .inl next) :
    (cells.length - next).toNat < (cells.length - p).toNat := by
  simp only [scanBody] at continued
  cases found : read cells p with
  | none =>
      rw [found] at continued
      cases continued
  | some value =>
      have inside := bounds_of_read found
      simp only [found] at continued
      split_ifs at continued
      have step := Sum.inl.inj continued
      omega

def scan (cells : List α) (go : α → Bool) (p : Int) : Option Int :=
  Loop.run (scanBody cells go) (fun p => (cells.length - p).toNat) (scanBody_decreases cells go) p

theorem scan_append (go : α → Bool) (front run : List α) (stop : α) (back : List α)
    (all : ∀ value ∈ run, go value = true) (ends : go stop = false) :
    scan (front ++ (run ++ stop :: back)) go front.length =
      some (front.length + run.length : Nat) := by
  induction run generalizing front with
  | nil =>
      have stopped : scanBody (front ++ stop :: back) go front.length =
          .inr (some (front.length : Int)) := by
        simp only [scanBody, read_append, ends, Bool.false_eq_true, ↓reduceIte]
      exact Loop.run_return _ _ _ _ _ stopped
  | cons value run ih =>
      rw [List.forall_mem_cons] at all
      have shifted : front ++ (value :: run ++ stop :: back) =
          (front ++ [value]) ++ (run ++ stop :: back) := by simp
      have moved : scanBody (front ++ (value :: run ++ stop :: back)) go front.length =
          .inl ((front ++ [value]).length : Nat) := by
        simp only [List.cons_append, scanBody, read_append, all.1, ↓reduceIte, List.length_append,
          List.length_singleton, Int.natCast_add, Int.natCast_one]
      calc
        _ = scan (front ++ (value :: run ++ stop :: back)) go ((front ++ [value]).length : Nat) :=
          Loop.run_continue _ _ _ _ _ moved
        _ = some ((front ++ [value]).length + run.length : Nat) := by
          rw [shifted]
          exact ih (front ++ [value]) all.2
        _ = some (front.length + (value :: run).length : Nat) := by
          congr 2
          simp only [List.length_append, List.length_cons, List.length_nil]
          omega

/-- `strlen` -/
def strlen (cells : Bytes) : Option Nat := (scan cells (· ≠ 0) 0).map Int.toNat

theorem strlen_append (text rest : Bytes) (clean : 0 ∉ text) :
    strlen (text ++ 0 :: rest) = some text.length := by
  have others : ∀ byte ∈ text, decide (byte ≠ 0) = true := by
    intro byte member
    exact decide_eq_true (fun zero => clean (zero ▸ member))
  have found := scan_append (fun byte : UInt8 => decide (byte ≠ 0)) [] text 0 rest others
    (by decide)
  rw [List.nil_append, List.length_nil, Nat.zero_add] at found
  rw [strlen]
  exact congrArg (Option.map Int.toNat) found

/-! `strcpy`, byte by byte from the front. -/

structure Copying where
  cells : Bytes
  dst : Int
  src : Int

def strcpyBody (state : Copying) : Copying ⊕ Option Bytes :=
  match read state.cells state.src with
  | none => .inr none
  | some byte =>
      match write state.cells state.dst byte with
      | none => .inr none
      | some cells =>
          if byte = 0 then .inr (some cells) else .inl ⟨cells, state.dst + 1, state.src + 1⟩

theorem strcpyBody_decreases (state next : Copying) (continued : strcpyBody state = .inl next) :
    (next.cells.length - next.src).toNat < (state.cells.length - state.src).toNat := by
  simp only [strcpyBody] at continued
  cases found : read state.cells state.src with
  | none =>
      rw [found] at continued
      cases continued
  | some byte =>
      have inside := bounds_of_read found
      simp only [found] at continued
      cases stored : write state.cells state.dst byte with
      | none =>
          rw [stored] at continued
          cases continued
      | some cells =>
          have size := length_of_write stored
          simp only [stored] at continued
          split_ifs at continued
          rw [← Sum.inl.inj continued]
          change (cells.length - (state.src + 1)).toNat < _
          omega

/-- `strcpy` inside one array, where the two strings may overlap. -/
def strcpy (cells : Bytes) (dst src : Int) : Option Bytes :=
  Loop.run strcpyBody (fun state => (state.cells.length - state.src).toNat) strcpyBody_decreases
    ⟨cells, dst, src⟩

theorem copy_byte (done gap : Bytes) (byte : UInt8) (back : Bytes) :
    read (done ++ (gap ++ byte :: back)) (done.length + gap.length : Nat) = some byte ∧
      write (done ++ (gap ++ byte :: back)) done.length byte =
        some (done ++ byte :: (gap ++ byte :: back).drop 1) := by
  constructor
  · have found := read_append (done ++ gap) byte back
    rwa [List.append_assoc, List.length_append] at found
  · cases gap with
    | nil => exact write_append done byte byte back
    | cons old gap => exact write_append done old byte (gap ++ byte :: back)

/-- A string that is moved down over a gap arrives whole: what is overwritten when a byte
is read lies in front of that byte. -/
theorem strcpy_down (done gap text rest : Bytes) (clean : 0 ∉ text) :
    strcpy (done ++ (gap ++ (text ++ 0 :: rest))) done.length (done.length + gap.length : Nat) =
      some (done ++ (text ++ 0 :: (gap ++ (text ++ 0 :: rest)).drop (text.length + 1))) := by
  induction text generalizing done gap with
  | nil =>
      rcases copy_byte done gap 0 rest with ⟨found, stored⟩
      have last : strcpyBody ⟨done ++ (gap ++ 0 :: rest), done.length,
          (done.length + gap.length : Nat)⟩ =
          .inr (some (done ++ 0 :: (gap ++ 0 :: rest).drop 1)) := by
        simp only [strcpyBody, found, stored, ↓reduceIte]
      exact Loop.run_return _ _ _ _ _ last
  | cons byte text ih =>
      have other : byte ≠ 0 := fun zero => clean (zero ▸ List.mem_cons_self)
      rcases copy_byte done gap byte (text ++ 0 :: rest) with ⟨found, stored⟩
      have moved : (gap ++ byte :: (text ++ 0 :: rest)).drop 1 =
          (gap ++ [byte]).drop 1 ++ (text ++ 0 :: rest) := by
        rw [← List.drop_append_of_le_length (by simp), List.append_assoc, List.singleton_append]
      have size : ((gap ++ [byte]).drop 1).length = gap.length := by
        rw [List.length_drop, List.length_append, List.length_singleton, Nat.add_sub_cancel]
      have next : strcpyBody ⟨done ++ (gap ++ byte :: (text ++ 0 :: rest)), done.length,
          (done.length + gap.length : Nat)⟩ =
          .inl ⟨(done ++ [byte]) ++ ((gap ++ [byte]).drop 1 ++ (text ++ 0 :: rest)),
            (done ++ [byte]).length,
            ((done ++ [byte]).length + ((gap ++ [byte]).drop 1).length : Nat)⟩ := by
        simp only [strcpyBody, found, stored, other, ↓reduceIte, moved, size, Sum.inl.injEq,
          Copying.mk.injEq, List.append_assoc, List.singleton_append, true_and,
          List.length_append, List.length_singleton]
        omega
      calc
        _ = strcpy ((done ++ [byte]) ++ ((gap ++ [byte]).drop 1 ++ (text ++ 0 :: rest)))
              (done ++ [byte]).length
              ((done ++ [byte]).length + ((gap ++ [byte]).drop 1).length : Nat) :=
          Loop.run_continue _ _ _ _ _ next
        _ = some ((done ++ [byte]) ++ (text ++
              0 :: ((gap ++ [byte]).drop 1 ++ (text ++ 0 :: rest)).drop (text.length + 1))) :=
          ih (done ++ [byte]) ((gap ++ [byte]).drop 1)
            (fun member => clean (List.mem_cons_of_mem _ member))
        _ = _ := by
          rw [← moved, List.drop_drop, List.append_assoc, List.singleton_append,
            Nat.add_comm 1 (text.length + 1)]
          rfl

end NetworkSystem.Memory
