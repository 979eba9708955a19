import NetworkSystem.Dfc.Refinement
import NetworkSystem.Lib.Runs
import NetworkSystem.Lib.Unwinding

/-! Sessions at the client: lines, with the client started again between them and the user's
files changing. -/

namespace NetworkSystem.Dfc

open Bytes Store

section run

variable {conf : Credentials} {nh : Nat} {digest : Bytes → UInt8} {names : List Name}
  {replicas : Replicas} {shell : Shell}

theorem Shows.next (family : Family conf nh names)
    (shows : Shows conf nh digest names replicas shell) (input : Input)
    (fair : Fair conf nh names shell input) :
    ∃ next, shell.next conf nh digest input = some next ∧
      Shows conf nh digest names (replicas.next nh (md5Mod digest · nh) input) next := by
  cases input with
  | start available => exact ⟨_, rfl, shows.start available⟩
  | edit filename content => exact ⟨_, rfl, shows.edit filename content⟩
  | line piece stack =>
      rcases fair with ⟨strings, fair⟩
      obtain ⟨p, stored⟩ := Option.isSome_iff_exists.mp strings
      have words := words_of_lineStrings stored
      have clean : ∀ word ∈ p, 0 ∉ word := by
        intro word member
        rw [← words] at member
        exact zero_not_mem_operand member
      have command := lineCommand_order p
      simp only [Shell.next, Shell.line, stored, Replicas.next, words] at fair ⊢
      -- What the line is for the replicas decides which branch of `main` it takes.
      cases order : Order.read p with
      | put name =>
          simp only [order] at fair command
          rcases command with ⟨type, filename, path⟩
          rcases fair with ⟨member, small⟩
          have request := family.lineRequest digest ((shell.point CMD_PUT p).message p) member
            filename path
          simp only [type, Shell.send, ↓reduceIte, request, Option.bind_some, Replicas.order]
          exact (shows.point CMD_PUT p).put family member _ stack small
      | get name =>
          simp only [order] at fair command
          rcases command with ⟨type, filename, path⟩
          rcases fair with ⟨member, connected⟩
          have request := family.lineRequest digest ((shell.point CMD_GET p).message p) member
            filename path
          have notPut : ¬ CMD_GET = CMD_PUT := by decide
          simp only [type, Shell.send, notPut, ↓reduceIte, request, Option.bind_some,
            Replicas.order]
          exact (shows.point CMD_GET p).get family member _ stack connected
      | other =>
          simp only [order] at fair command
          simp only [Replicas.order]
          rcases command with none_ | type | type
          · simp only [none_]
            exact ⟨shell, rfl, shows⟩
          · simp only [type]
            exact (shows.point CMD_LS p).send family (Or.inl rfl) p clean stack (fair CMD_LS type)
          · simp only [type]
            exact (shows.point CMD_MKDIR p).send family (Or.inr rfl) p clean stack
              (fair CMD_MKDIR type)

theorem Shows.run (family : Family conf nh names)
    (shows : Shows conf nh digest names replicas shell) (inputs : List Input)
    (fair : ∀ front input middle, front ++ [input] <+: inputs →
      Runs.run (Shell.next conf nh digest) shell front = some middle →
        Fair conf nh names middle input) :
    ∃ last, Runs.run (Shell.next conf nh digest) shell inputs = some last ∧
      Shows conf nh digest names (inputs.foldl (Replicas.next nh (md5Mod digest · nh)) replicas)
        last := by
  apply Runs.run_follows (Shell.next conf nh digest) _ (Shows conf nh digest names)
    (Fair conf nh names) _ replicas shell inputs shows fair
  intro replicas shell input shows admitted
  exact shows.next family input admitted

end run

/-- An order that is fair by what the replicas say. -/
def Replicas.Grants (nh : Nat) (names : List Name) (replicas : Replicas) : Order → Prop
  | .put name => name ∈ names ∧ ∀ content ∈ replicas.files name.filename,
      ∀ part < nh, (partition content nh part).length < 2 ^ 32
  | .get name => name ∈ names ∧ NoAdjacentOutage replicas.up nh
  | .other => True

def MkdirFits (conf : Credentials) (nh : Nat) (names : List Name) (text : Bytes) : Prop :=
  (setPath conf.username text).length < PATH_SIZE ∧
    Clear conf nh names (setPath conf.username text)

def Replicas.Fair (conf : Credentials) (nh : Nat) (names : List Name) (replicas : Replicas) :
    Input → Prop
  | .start _ => True
  | .edit filename _ => filename ∈ names.map Name.filename
  | .line piece _ => (lineStrings piece).isSome = true ∧
      lineCommand (lineOperands piece) ≠ some CMD_LS ∧
        (lineCommand (lineOperands piece) = some CMD_MKDIR →
          MkdirFits conf nh names ((lineOperands piece).getD 1 [])) ∧
        replicas.Grants nh names (Order.read (lineOperands piece))

instance (nh : Nat) (names : List Name) (replicas : Replicas) (order : Order) :
    Decidable (replicas.Grants nh names order) :=
  match order with
  | .put _ => inferInstanceAs (Decidable (_ ∧ ∀ content ∈ _, ∀ part < nh, _))
  | .get _ => inferInstanceAs (Decidable (_ ∧ _))
  | .other => inferInstanceAs (Decidable True)

deriving instance DecidableEq for Path.Place

instance (conf : Credentials) (nh : Nat) (names : List Name) (path : Bytes) :
    Decidable (Clear conf nh names path) :=
  inferInstanceAs (Decidable (∀ name ∈ names, ∀ part < nh, _ ≠ _))

instance (conf : Credentials) (nh : Nat) (names : List Name) (text : Bytes) :
    Decidable (MkdirFits conf nh names text) :=
  inferInstanceAs (Decidable (_ ∧ _))

instance (conf : Credentials) (nh : Nat) (names : List Name) (replicas : Replicas)
    (input : Input) : Decidable (replicas.Fair conf nh names input) :=
  match input with
  | .start _ => inferInstanceAs (Decidable True)
  | .edit _ _ => inferInstanceAs (Decidable (_ ∈ _))
  | .line _ _ => inferInstanceAs (Decidable (_ ∧ _ ≠ _ ∧ (_ → _) ∧ _))

theorem lineCommand_other {p : List Bytes} (other : Order.read p = .other) {cmdType : UInt8}
    (command : lineCommand p = some cmdType) : cmdType = CMD_LS ∨ cmdType = CMD_MKDIR := by
  have order := lineCommand_order p
  simp only [other, command, reduceCtorEq, Option.some.injEq, false_or] at order
  exact order

theorem operand_of_mkdir {p : List Bytes} (command : lineCommand p = some CMD_MKDIR) :
    1 < p.length := by
  have apart : CMD_MKDIR ≠ CMD_LS ∧ CMD_MKDIR ≠ CMD_GET ∧ CMD_MKDIR ≠ CMD_PUT := by decide
  rcases p with - | ⟨word, - | ⟨operand, rest⟩⟩
  · cases command
  · simp only [lineCommand, ↓reduceIte] at command
    split_ifs at command
    exact absurd (Option.some.inj command).symm apart.1
  · rw [List.length_cons, List.length_cons]
    omega

theorem messageFits_mkdir {conf : Credentials} {nh : Nat} {names : List Name} {p : List Bytes}
    (stack : Nat → Bytes) (shell : Shell) (command : lineCommand p = some CMD_MKDIR)
    (fits : MkdirFits conf nh names (p.getD 1 [])) :
    MessageFits conf nh names CMD_MKDIR p stack (shell.point CMD_MKDIR p) := by
  have ls : CMD_MKDIR ≠ CMD_LS := by decide
  have text : messagePath conf p (shell.point CMD_MKDIR p) =
      setPath conf.username (p.getD 1 []) := by
    simp [messagePath, Shell.message, Shell.point, setsMsg, operand_of_mkdir command]
  rw [MkdirFits, ← text] at fits
  exact ⟨fits.1, fun _ => fits.2, fun is => absurd is ls, fun is => absurd is ls⟩

theorem Shows.fair {conf : Credentials} {nh : Nat} {digest : Bytes → UInt8} {names : List Name}
    {replicas : Replicas} {shell : Shell} (shows : Shows conf nh digest names replicas shell)
    {input : Input} (fair : replicas.Fair conf nh names input) :
    Fair conf nh names shell input := by
  cases input with
  | start available => exact fair
  | edit filename content => exact fair
  | line piece stack =>
      rcases fair with ⟨strings, plain, mkdir, grants⟩
      refine ⟨strings, ?_⟩
      cases order : Order.read (lineOperands piece) with
      | put name =>
          rw [order] at grants
          rcases grants with ⟨member, small⟩
          refine ⟨member, ?_⟩
          rw [shows.files name member]
          exact small
      | get name =>
          rw [order] at grants
          simp only [shows.up]
          exact grants
      | other =>
          intro cmdType command
          rcases lineCommand_other order command with rfl | rfl
          · exact absurd command plain
          · exact messageFits_mkdir stack shell command (mkdir command)

open Unwinding in
theorem Shows.fair_along {conf : Credentials} {nh : Nat} {digest : Bytes → UInt8}
    {names : List Name} (family : Family conf nh names) {replicas : Replicas} {shell : Shell}
    (shows : Shows conf nh digest names replicas shell) (inputs : List Input)
    (along : Along (Replicas.next nh (md5Mod digest · nh)) (Replicas.Fair conf nh names) replicas
      inputs) :
    ∀ front input middle, front ++ [input] <+: inputs →
      Runs.run (Shell.next conf nh digest) shell front = some middle →
        Fair conf nh names middle input := by
  induction inputs generalizing replicas shell with
  | nil =>
      intro front input middle inside
      have none_ := List.eq_nil_of_prefix_nil inside
      simp at none_
  | cons input rest ih =>
      rcases along with ⟨here, later⟩
      have fair := shows.fair here
      rcases shows.next family input fair with ⟨next, stepped, after⟩
      exact (Runs.steps_cons (Shell.next conf nh digest) rest stepped).mpr
        ⟨fair, ih after later⟩

/-- The client with its servers is a store of replicas: in every session of lines, changes of
the user's files and new starts of the client, over any files that are apart, `main` comes
through all lines, and the hosts and the user then have what the replicas say. -/
theorem session_refines (conf : Credentials) (nh : Nat) (digest : Bytes → UInt8)
    (names : List Name) (family : Family conf nh names) (replicas : Replicas) (shell : Shell)
    (start : Shows conf nh digest names replicas shell) (inputs : List Input)
    (fair : ∀ front input middle, front ++ [input] <+: inputs →
      Runs.run (Shell.next conf nh digest) shell front = some middle →
        Fair conf nh names middle input) :
    ∃ last, Runs.run (Shell.next conf nh digest) shell inputs = some last ∧
      Shows conf nh digest names
        (inputs.foldl (Replicas.next nh (fun filename => md5Mod digest filename nh)) replicas)
        last :=
  start.run family inputs fair

def sampleNames : List Name := [⟨ascii "f", []⟩, ⟨ascii "g", ascii "d"⟩]

theorem sampleNames_family : Family sampleUser 2 sampleNames := by
  constructor
  all_goals decide +kernel

def sampleHost : Disk :=
  { sampleDisk with dirs := fun path => path = ascii "u" || path = ascii "./u/d" }

theorem sampleHost_roomy : Roomy sampleUser 2 sampleNames sampleHost where
  writable := by decide +kernel
  free := by
    intro path there
    have one : path = ascii "u" ∨ path = ascii "./u/d" := by
      simpa [sampleHost] using there
    rcases one with rfl | rfl <;> decide +kernel

def sampleHostConn : Conn := { sampleConn with server := ⟨sampleHost, .idle, 0⟩ }

theorem sampleHostConn_settled : Settled sampleUser sampleHostConn :=
  ⟨rfl, rfl, by decide, by decide +kernel⟩

def sampleShell : Shell :=
  ⟨⟨fun _ => true, fun _ => sampleHostConn, sampleDisk, []⟩, false, []⟩

def sampleReplicas : Replicas := ⟨fun _ _ => none, fun _ => none, fun _ => true⟩

theorem sampleShell_shows (digest : Bytes → UInt8) :
    Shows sampleUser 2 digest sampleNames sampleReplicas sampleShell where
  up := rfl
  settled _ _ := sampleHostConn_settled
  immortal _ _ := rfl
  roomy _ _ := sampleHost_roomy
  stored _ _ _ _ _ _ _ := rfl
  short _ _ _ _ _ none_ := by cases none_
  files _ _ := rfl
  creatable _ _ _ _ := rfl
  target _ _ := rfl

def sampleInputs : List Input :=
  [.edit (ascii "f") (some [1, 2, 3]), .line (ascii "put f\n") (fun _ => []),
    .edit (ascii "g") (some [9]), .line (ascii "mkdir d\n") (fun _ => []),
    .line (ascii "PUT g d  \r\n") (fun _ => []), .start (fun i => i = 1),
    .edit (ascii "f") none, .line (ascii "get f") (fun _ => [])]

theorem sampleInputs_along : Unwinding.Along (Replicas.next 2 (md5Mod (fun _ => 1) · 2))
    (Replicas.Fair sampleUser 2 sampleNames) sampleReplicas sampleInputs := by
  decide +kernel

/-- The file comes back from the one host that is left. -/
theorem session_refines_restart :
    ∃ last, Runs.run (Shell.next sampleUser 2 (fun _ => 1)) sampleShell sampleInputs = some last ∧
      last.client.disk.files (ascii "f") = some [1, 2, 3] := by
  have shows := sampleShell_shows (fun _ => 1)
  rcases session_refines sampleUser 2 (fun _ => 1) sampleNames sampleNames_family sampleReplicas
    sampleShell shows sampleInputs
    (shows.fair_along sampleNames_family sampleInputs sampleInputs_along) with ⟨last, run, ended⟩
  refine ⟨last, run, ?_⟩
  rw [ended.files ⟨ascii "f", []⟩ (by decide)]
  decide +kernel

def Input.Puts (name : Name) : Input → Prop
  | .line piece _ => Order.read (lineOperands piece) = .put name
  | _ => False

instance (name : Name) (input : Input) : Decidable (input.Puts name) :=
  match input with
  | .line _ _ => inferInstanceAs (Decidable (_ = _))
  | .start _ => inferInstanceAs (Decidable False)
  | .edit _ _ => inferInstanceAs (Decidable False)

namespace Replicas

variable {nh : Nat} {hash : Bytes → Nat} {replicas : Replicas} {name : Name} {content : Bytes}

theorem held_order {order : Order} (quiet : order ≠ .put name) :
    (replicas.order nh hash order).held name = replicas.held name := by
  cases order with
  | put other =>
      have different : name ≠ other := by
        intro same
        rw [same] at quiet
        exact quiet rfl
      simp only [order, put]
      split
      · rfl
      · exact Function.update_of_ne different _ _
  | get other =>
      simp only [order, get]
      split <;> rfl
  | other => rfl

/-- Only a PUT of the name changes what the hosts hold of it. -/
theorem held_foldl (inputs : List Input) (quiet : ∀ input ∈ inputs, ¬ input.Puts name) :
    (inputs.foldl (next nh hash) replicas).held name = replicas.held name := by
  induction inputs generalizing replicas with
  | nil => rfl
  | cons input rest ih =>
      have here := quiet input List.mem_cons_self
      rw [List.foldl_cons, ih (fun other member => quiet other (List.mem_cons_of_mem _ member))]
      cases input with
      | start up => rfl
      | edit filename content => rfl
      | line piece stack => exact held_order here

theorem held_put (found : replicas.files name.filename = some content) {i : Nat}
    (up : replicas.up i = true) : (replicas.put name).held name i = some content := by
  simp only [put, found, Function.update_self, up, ↓reduceIte]

theorem fetched_of_version (hosts : 0 < nh)
    (same : ∀ part < nh, replicas.version nh hash name part = some content) :
    replicas.fetched nh hash name = some content := by
  have all : ∀ part < nh, (replicas.version nh hash name part).isSome = true := by
    intro part bound
    rw [same part bound]
    rfl
  have pieces : ∀ part ∈ List.range nh,
      partition ((replicas.version nh hash name part).getD []) nh part =
        partition content nh part := by
    intro part member
    rw [same part (List.mem_range.mp member), Option.getD_some]
  rw [fetched, if_pos all, List.flatMap_def, List.map_congr_left pieces, ← List.flatMap_def,
    flatMap_partition content nh hosts]

theorem files_get (fetched_ : replicas.fetched nh hash name = some content) :
    (replicas.get nh hash name).files name.filename = some content := by
  simp only [get, fetched_, Function.update_self]

end Replicas

/-- What is put comes back: whatever happens between the two lines, other files, new starts
with other hosts or changes of the local file, a GET brings back what the last PUT of the
name has put when the hosts that it asks took part in that. -/
theorem get_returns_put (conf : Credentials) (nh : Nat) (digest : Bytes → UInt8)
    (names : List Name) (family : Family conf nh names) (replicas : Replicas) (shell : Shell)
    (start : Shows conf nh digest names replicas shell) (before between : List Input)
    (putPiece getPiece : Bytes) (putStack getStack : Nat → Bytes) (name : Name)
    (put : Order.read (lineOperands putPiece) = .put name)
    (get : Order.read (lineOperands getPiece) = .get name)
    (quiet : ∀ input ∈ between, ¬ input.Puts name)
    (fair : ∀ front input middle, front ++ [input] <+:
        before ++ .line putPiece putStack :: (between ++ [.line getPiece getStack]) →
      Runs.run (Shell.next conf nh digest) shell front = some middle →
        Fair conf nh names middle input) :
    ∃ early late last, Runs.run (Shell.next conf nh digest) shell before = some early ∧
      Runs.run (Shell.next conf nh digest) early (.line putPiece putStack :: between) =
        some late ∧
      late.next conf nh digest (.line getPiece getStack) = some last ∧
      ∀ content, early.client.disk.files name.filename = some content →
        (∀ part < nh, early.client.available
          (source nh (md5Mod digest name.filename nh) late.client.available part) = true) →
        last.client.disk.files name.filename = some content := by
  have front : ∀ rest input middle, rest ++ [input] <+: before →
      Runs.run (Shell.next conf nh digest) shell rest = some middle →
        Fair conf nh names middle input := fun rest input middle inside here =>
    fair rest input middle (inside.trans (List.prefix_append _ _)) here
  rcases start.run family before front with ⟨early, ranEarly, shows⟩
  have behind := (Runs.steps_append _ ranEarly fair).2
  have member : name ∈ names := by
    have granted := (behind [] (.line putPiece putStack) early (List.prefix_append [_] _) rfl).2
    simp only [put] at granted
    exact granted.1
  rw [← List.cons_append] at behind
  have inner : ∀ rest input middle, rest ++ [input] <+: .line putPiece putStack :: between →
      Runs.run (Shell.next conf nh digest) early rest = some middle →
        Fair conf nh names middle input := fun rest input middle inside here =>
    behind rest input middle (inside.trans (List.prefix_append _ _)) here
  rcases shows.run family (.line putPiece putStack :: between) inner with
    ⟨late, ranLate, showsLate⟩
  have asked := (Runs.steps_append _ ranLate behind).2 [] (.line getPiece getStack) late
    (List.prefix_refl _) rfl
  rcases showsLate.next family (.line getPiece getStack) asked with ⟨last, got, showsLast⟩
  refine ⟨early, late, last, ranEarly, ranLate, got, ?_⟩
  intro content found took
  rw [showsLast.files name member, Replicas.next, get, Replicas.order]
  -- Behind the PUT no input changes what the hosts hold of the name.
  apply Replicas.files_get
  apply Replicas.fetched_of_version family.hosts
  intro part bound
  have here := took part bound
  rw [shows.up, showsLate.up] at here
  rw [shows.files name member] at found
  rw [Replicas.version, List.foldl_cons, Replicas.held_foldl between quiet, Replicas.next, put,
    Replicas.order]
  rw [List.foldl_cons, Replicas.next, put, Replicas.order] at here
  exact Replicas.held_put found here

/-- Other commands of the sample stand between its two lines for the first file. -/
def sampleBetween : List Input :=
  [.edit (ascii "g") (some [9]), .line (ascii "mkdir d\n") (fun _ => []),
    .line (ascii "PUT g d  \r\n") (fun _ => []), .start (fun i => i = 1),
    .edit (ascii "f") none]

theorem get_returns_put_restart :
    ∃ early late last : Shell, Runs.run (Shell.next sampleUser 2 (fun _ => 1)) early
        (.line (ascii "put f\n") (fun _ => []) :: sampleBetween) = some late ∧
      late.next sampleUser 2 (fun _ => 1) (.line (ascii "get f") (fun _ => [])) = some last ∧
      last.client.disk.files (ascii "f") = some [1, 2, 3] := by
  have shows := sampleShell_shows (fun _ => 1)
  rcases get_returns_put sampleUser 2 (fun _ => 1) sampleNames sampleNames_family sampleReplicas
    sampleShell shows [.edit (ascii "f") (some [1, 2, 3])] sampleBetween (ascii "put f\n")
    (ascii "get f") (fun _ => []) (fun _ => []) ⟨ascii "f", []⟩ (by decide +kernel)
    (by decide +kernel) (by decide +kernel)
    (shows.fair_along sampleNames_family sampleInputs sampleInputs_along) with
    ⟨early, late, last, edited, ran, got, back⟩
  refine ⟨early, late, last, ran, got, back [1, 2, 3] ?_ ?_⟩
  · rw [← Option.some.inj edited]
    rfl
  · intro part _
    rw [← Option.some.inj edited]
    rfl

end NetworkSystem.Dfc
