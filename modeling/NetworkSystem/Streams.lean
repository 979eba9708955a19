import NetworkSystem.Stdio

/-! The calls that a sender makes on the stream it reads, on a regular file and on any
stream, where reads may also fail. -/

namespace NetworkSystem

structure StreamOps (σ : Type) where
  feof : σ → Bool
  fseek : σ → Int → σ
  fread : σ → Nat → Bytes × σ

def FILE.ops : StreamOps FILE := ⟨FILE.eof, FILE.fseek, FILE.fread⟩

/-- What a call of `fread` meets: the bytes that are there for it, and whether the file ends
behind them. A short read that has not met the end has failed. -/
structure Reading where
  data : Bytes
  ended : Bool

/-- An opened stream: what its calls of `fread` meet, whether it can be positioned, the
number of calls so far, and the indicator that `feof` tests. -/
structure Source where
  readings : Nat → Reading
  seekable : Bool
  reads : Nat
  eof : Bool

namespace Source

def fseek (fp : Source) (offset : Int) : Source :=
  if fp.seekable = true ∧ 0 ≤ offset then { fp with eof := false } else fp

def fread (fp : Source) (count : Nat) : Bytes × Source :=
  let reading := fp.readings fp.reads
  let data := reading.data.take count
  (data, { fp with
    reads := fp.reads + 1
    eof := fp.eof || (reading.ended && decide (data.length < count)) })

def ops : StreamOps Source := ⟨Source.eof, fseek, fread⟩

/-- From some call on there are no bytes any more. -/
def RunsDry (fp : Source) : Prop := ∃ first, ∀ k ≥ first, (fp.readings k).data = []

/-- The `k`-th call meets the end of the file when it asks for `size` bytes. -/
def EndsAt (fp : Source) (size k : Nat) : Prop :=
  (fp.readings k).ended = true ∧ (fp.readings k).data.length < size

/-- That many calls from the `start`-th on meet the end. -/
def EndsTimes (fp : Source) (size : Nat) : Nat → Nat → Prop
  | 0, _ => True
  | times + 1, start => ∃ k ≥ start, fp.EndsAt size k ∧ fp.EndsTimes size times (k + 1)

/-- The bytes of the coming `calls` calls that ask for `size` bytes. -/
def gives (fp : Source) (size : Nat) : Nat → Nat
  | 0 => 0
  | calls + 1 => fp.gives size calls + min size (fp.readings (fp.reads + calls)).data.length

@[simp] theorem fseek_readings (fp : Source) (offset : Int) :
    (fp.fseek offset).readings = fp.readings := by
  simp only [fseek]
  split <;> rfl

@[simp] theorem fseek_reads (fp : Source) (offset : Int) : (fp.fseek offset).reads = fp.reads := by
  simp only [fseek]
  split <;> rfl

@[simp] theorem fseek_seekable (fp : Source) (offset : Int) :
    (fp.fseek offset).seekable = fp.seekable := by
  simp only [fseek]
  split <;> rfl

theorem EndsTimes.mono {fp : Source} {size times first second : Nat} (le : first ≤ second)
    (ends : fp.EndsTimes size times second) : fp.EndsTimes size times first := by
  cases times with
  | zero => trivial
  | succ times =>
      rcases ends with ⟨k, behind, here, later⟩
      exact ⟨k, Nat.le_trans le behind, here, later⟩

theorem endsTimes_congr {fp other : Source} (readings : other.readings = fp.readings)
    (size times start : Nat) : other.EndsTimes size times start ↔ fp.EndsTimes size times start := by
  induction times generalizing start with
  | zero => rfl
  | succ times ih => simp only [EndsTimes, EndsAt, ih, readings]

end Source

end NetworkSystem
