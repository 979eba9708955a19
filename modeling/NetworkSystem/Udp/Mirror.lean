import NetworkSystem.Udp.Server

/-! What the UDP programs are for: two directories, and commands that copy whole files from
one to the other. -/

namespace NetworkSystem.Udp

open Bytes

/-- A line of the user. `idle` stands for the lines that send nothing whatever the files
are. -/
inductive Command where
  | idle
  | ls
  | exit
  | get (name : Bytes)
  | put (name : Bytes)
  | unknown

/-- A command by its words. -/
def Command.read : List Bytes → Command
  | [] => .idle
  | word :: operands =>
      if word = ascii "exit" then .exit
      else if word = ascii "ls" then .ls
      else if word = ascii "get" then
        match operands with
        | [] => .idle
        | name :: _ => .get name
      else if word = ascii "put" then
        match operands with
        | [] => .idle
        | name :: _ => .put name
      else .unknown

/-- Two directories, what may be created in them, and whether the server still runs. -/
structure Mirror where
  client : Bytes → Option Bytes
  server : Bytes → Option Bytes
  clientMay : Bytes → Bool
  serverMay : Bytes → Bool
  running : Bool

/-- What comes of a file: nothing when it is not there or has no name. -/
def Mirror.offered (mirror : Mirror) (name : Bytes) : Bytes :=
  if name = [] then [] else (mirror.server name).getD []

def Mirror.download (mirror : Mirror) (name : Bytes) : Mirror :=
  if mirror.clientMay (setReceivedFilename name) then
    { mirror with
      client := Function.update mirror.client (setReceivedFilename name)
        (some (mirror.offered name)) }
  else mirror

def Mirror.upload (mirror : Mirror) (name : Bytes) : Mirror :=
  match mirror.client name with
  | none => mirror
  | some content =>
      if name ≠ [] ∧ mirror.serverMay (setReceivedFilename name) then
        { mirror with
          server := Function.update mirror.server (setReceivedFilename name) (some content) }
      else mirror

/-- Without the server nothing happens. -/
def Mirror.apply (mirror : Mirror) (command : Command) : Mirror :=
  if mirror.running then
    match command with
    | .idle => mirror
    | .ls => mirror
    | .exit => { mirror with running := false }
    | .get name => mirror.download name
    | .put name => mirror.upload name
    | .unknown => mirror
  else mirror

/-- Offsets have 32 bits. -/
def Addressable (files : Bytes → Option Bytes) : Prop :=
  ∀ path content, files path = some content → content.length < 2 ^ 32

theorem Addressable.update {files : Bytes → Option Bytes} (small : Addressable files)
    (path : Bytes) {content : Bytes} (bound : content.length < 2 ^ 32) :
    Addressable (Function.update files path (some content)) := by
  intro other found there
  by_cases same : other = path
  · rw [same, Function.update_self, Option.some.injEq] at there
    rwa [← there]
  · rw [Function.update_of_ne same] at there
    exact small other found there

structure Mirror.Small (mirror : Mirror) : Prop where
  client : Addressable mirror.client
  server : Addressable mirror.server

theorem Mirror.Small.download {mirror : Mirror} (small : mirror.Small) (name : Bytes) :
    (mirror.download name).Small := by
  have bound : (mirror.offered name).length < 2 ^ 32 := by
    rw [Mirror.offered]
    split_ifs with unnamed
    · decide
    · cases there : mirror.server name with
      | none => decide
      | some content => exact small.server name content there
  rw [Mirror.download]
  split_ifs with may
  · exact ⟨small.client.update _ bound, small.server⟩
  · exact small

theorem Mirror.Small.upload {mirror : Mirror} (small : mirror.Small) (name : Bytes) :
    (mirror.upload name).Small := by
  rw [Mirror.upload]
  cases there : mirror.client name with
  | none => exact small
  | some content =>
      dsimp only
      split_ifs with both
      · exact ⟨small.client, small.server.update _ (small.client name content there)⟩
      · exact small

theorem Mirror.Small.apply {mirror : Mirror} (small : mirror.Small) (command : Command) :
    (mirror.apply command).Small := by
  cases command with
  | get name =>
      simp only [Mirror.apply]
      split_ifs
      · exact small.download name
      · exact small
  | put name =>
      simp only [Mirror.apply]
      split_ifs
      · exact small.upload name
      · exact small
  | _ =>
      simp only [Mirror.apply]
      split_ifs
      · exact ⟨small.client, small.server⟩
      · exact small

end NetworkSystem.Udp
