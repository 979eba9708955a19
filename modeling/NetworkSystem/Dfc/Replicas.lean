import NetworkSystem.Dfc.MainLoop

/-! What the client and the servers are for: files under names, of which every host holds a
version, and commands that a user gives for them. -/

namespace NetworkSystem.Dfc

open Bytes

/-- A file of the user, and the directory at the hosts that it is kept in. -/
structure Name where
  filename : Bytes
  path : Bytes
  deriving DecidableEq

/-- A command by its words. `other` stands for those that change no file. -/
inductive Order where
  | put (name : Name)
  | get (name : Name)
  | other
  deriving DecidableEq

def Order.read : List Bytes → Order
  | word :: filename :: rest =>
      if lower word = ascii "put" then .put ⟨filename, rest.headD []⟩
      else if lower word = ascii "get" then .get ⟨filename, rest.headD []⟩
      else .other
  | _ => .other

/-- The words of a line: the runs without a space, up to the end of the line. -/
def lineOperands (piece : Bytes) : List Bytes :=
  Fields.fields (fun byte => byte == 32) (removeEndl (cstr piece))

/-- The host that a part is fetched from: the one before, unless that is down. -/
def source (nh h : Nat) (up : Nat → Bool) (part : Nat) : Nat :=
  if up (firstHost nh h part) then firstHost nh h part else secondHost nh h part

/-- The version of every file at every host, the files of the user, and the hosts that the
client is connected to. -/
structure Replicas where
  held : Name → Nat → Option Bytes
  files : Bytes → Option Bytes
  up : Nat → Bool

namespace Replicas

variable (nh : Nat) (hash : Bytes → Nat) (replicas : Replicas)

def put (name : Name) : Replicas :=
  match replicas.files name.filename with
  | none => replicas
  | some content =>
      { replicas with
        held := Function.update replicas.held name
          (fun i => if replicas.up i then some content else replicas.held name i) }

def version (name : Name) (part : Nat) : Option Bytes :=
  replicas.held name (source nh (hash name.filename) replicas.up part)

/-- The parts of the versions that are asked for, unless there is none of one of them. -/
def fetched (name : Name) : Option Bytes :=
  if ∀ part < nh, (replicas.version nh hash name part).isSome = true then
    some ((List.range nh).flatMap fun part =>
      partition ((replicas.version nh hash name part).getD []) nh part)
  else none

def get (name : Name) : Replicas :=
  match replicas.fetched nh hash name with
  | none => replicas
  | some content =>
      { replicas with files := Function.update replicas.files name.filename (some content) }

def order : Order → Replicas
  | .put name => replicas.put name
  | .get name => replicas.get nh hash name
  | .other => replicas

def next : Input → Replicas
  | .start up => { replicas with up }
  | .line piece _ => replicas.order nh hash (Order.read (lineOperands piece))
  | .edit filename content =>
      { replicas with files := Function.update replicas.files filename content }

end Replicas

theorem words_of_lineStrings {piece : Bytes} {p : List Bytes}
    (stored : lineStrings piece = some p) : lineOperands piece = p := by
  have spaces : ∀ byte : UInt8, decide (byte = 32) = true → (byte == 32) = true := by
    intro byte isSpace
    rw [beq_iff_eq]
    exact of_decide_eq_true isSpace
  have cut : ∀ text : Bytes, (tokens text [32]).filter (· ≠ []) =
      Fields.fields (fun byte => byte == 32) text := by
    intro text
    rw [tokens_single]
    split_ifs with empty
    · rw [empty, Fields.fields_nil]
      rfl
    · rw [List.splitOn_eq_splitOnP]
      rfl
  rw [lineStrings] at stored
  cases stripped : stripApart (removeEndl (cstr piece)) 32 with
  | none =>
      rw [stripped] at stored
      cases stored
  | some line =>
      rw [stripped] at stored
      rw [← (storeTokens_eq_some.mp stored).2, cut, ← (stripApart_eq_some.mp stripped).2, trim_eq,
        Fields.fields_rdropWhile _ _ spaces, Fields.fields_dropWhile _ _ spaces, lineOperands]

theorem zero_not_mem_operand {piece word : Bytes} (member : word ∈ lineOperands piece) :
    0 ∉ word := by
  intro zero
  rw [lineOperands, Fields.fields] at member
  have inside := (Fields.mem_piece _ _ word (List.mem_filter.mp member).1).2 0 zero
  exact zero_not_mem_cstr piece ((removeEndl_front _).subset inside)

end NetworkSystem.Dfc
