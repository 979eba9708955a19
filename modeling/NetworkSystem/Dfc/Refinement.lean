import NetworkSystem.Dfc.Commands
import NetworkSystem.Dfc.Messages
import NetworkSystem.Dfc.Replicas
import NetworkSystem.Paths

/-! The client and its servers as such a store of replicas: what the lines of a user do to the
versions that the hosts hold, for any number of files. -/

namespace NetworkSystem.Dfc

open Bytes Store

def remotePath (conf : Credentials) (name : Name) (part : Nat) : Bytes :=
  setPath conf.username (setPath name.path (setPartitionName name.filename part))

/-- No part is kept at the path. -/
def Clear (conf : Credentials) (nh : Nat) (names : List Name) (path : Bytes) : Prop :=
  ∀ name ∈ names, ∀ part < nh, resolve path ≠ resolve (remotePath conf name part)

/-- There is a host and a password, the names are strings that fit the arrays, no two of them
share a file on any side, and none has a part in the place of the user's directory. -/
structure Family (conf : Credentials) (nh : Nat) (names : List Name) : Prop where
  hosts : 0 < nh
  keyed : conf.password ≠ []
  strings : ∀ name ∈ names, 0 ∉ name.filename ∧ 0 ∉ name.path
  fits : ∀ name ∈ names, Fits conf.username nh name.filename name.path
  home : Clear conf nh names conf.username
  remote : ∀ name ∈ names, ∀ other ∈ names, ∀ part < nh, ∀ next < nh,
    resolve (remotePath conf name part) = resolve (remotePath conf other next) → name = other
  files : ∀ name ∈ names, ∀ other ∈ names,
    resolve name.filename = resolve other.filename → name.filename = other.filename
  parts : ∀ name ∈ names, ∀ other ∈ names, ∀ part < nh,
    resolve other.filename ≠ resolve (setPartitionName name.filename part)

def Family.request {conf : Credentials} {nh : Nat} {names : List Name}
    (family : Family conf nh names) (digest : Bytes → UInt8) (msg : Option Bytes) {name : Name}
    (member : name ∈ names) : Request where
  conf := conf
  nh := nh
  filename := name.filename
  path := name.path
  hash := md5Mod digest name.filename nh
  msg := msg
  hosts := family.hosts
  hash_lt := Nat.mod_lt _ family.hosts
  filename_clean := (family.strings name member).1
  path_clean := (family.strings name member).2
  fits := family.fits name member

theorem Family.lineRequest {conf : Credentials} {nh : Nat} {names : List Name}
    (family : Family conf nh names) (digest : Bytes → UInt8) (msg : Option Bytes) {name : Name}
    (member : name ∈ names) {p : List Bytes} (filename : p.getD 1 [] = name.filename)
    (path : p.getD 2 [] = name.path) :
    Dfc.lineRequest conf nh digest msg p = some (family.request digest msg member) := by
  have strings := family.strings name member
  simp only [Dfc.lineRequest, filename, path]
  rw [dif_pos ⟨family.hosts, strings.1, strings.2, family.fits name member⟩]
  rfl

theorem lineCommand_order (p : List Bytes) :
    match Order.read p with
    | .put name => lineCommand p = some CMD_PUT ∧ p.getD 1 [] = name.filename ∧
        p.getD 2 [] = name.path
    | .get name => lineCommand p = some CMD_GET ∧ p.getD 1 [] = name.filename ∧
        p.getD 2 [] = name.path
    | .other => lineCommand p = none ∨ lineCommand p = some CMD_LS ∨
        lineCommand p = some CMD_MKDIR := by
  rcases p with - | ⟨word, - | ⟨filename, rest⟩⟩
  · exact Or.inl rfl
  · simp only [Order.read, lineCommand, ↓reduceIte]
    split_ifs <;> simp
  · have put : ascii "put" ≠ ascii "mkdir" ∧ ascii "put" ≠ ascii "list" ∧
        ascii "put" ≠ ascii "get" := by decide
    have get : ascii "get" ≠ ascii "mkdir" ∧ ascii "get" ≠ ascii "list" := by decide
    have path : (word :: filename :: rest).getD 2 [] = rest.headD [] := by
      cases rest <;> rfl
    by_cases isPut : lower word = ascii "put"
    · simp only [Order.read, lineCommand, isPut, put.1, put.2.1, put.2.2, ↓reduceIte,
        reduceCtorEq]
      exact ⟨trivial, rfl, path⟩
    by_cases isGet : lower word = ascii "get"
    · simp only [Order.read, lineCommand, isGet, get.1, get.2, put.2.2.symm, ↓reduceIte,
        reduceCtorEq]
      exact ⟨trivial, rfl, path⟩
    simp only [Order.read, lineCommand, isPut, isGet, ↓reduceIte, reduceCtorEq]
    split_ifs <;> simp

/-! The relation. -/

section session

variable (conf : Credentials) (nh : Nat) (digest : Bytes → UInt8) (names : List Name)

/-- The host can store the parts, and no directory stands in the place of one. -/
structure Roomy (disk : Disk) : Prop where
  writable : ∀ name ∈ names, ∀ part < nh, disk.creatable (remotePath conf name part) = true
  free : ∀ path, disk.dirs path = true → Clear conf nh names path

/-- The hosts store the versions in parts, the client has the files of the user, and nothing
is under way. -/
structure Shows (replicas : Replicas) (shell : Shell) : Prop where
  up : shell.client.available = replicas.up
  settled : ∀ i < nh, Settled conf (shell.client.conns i)
  immortal : ∀ i < nh, (shell.client.conns i).life = none
  roomy : ∀ i < nh, Roomy conf nh names (shell.client.conns i).server.disk
  stored : ∀ i < nh, ∀ name ∈ names, ∀ part < nh,
    i = firstHost nh (md5Mod digest name.filename nh) part ∨
      i = secondHost nh (md5Mod digest name.filename nh) part →
    (shell.client.conns i).server.disk.files (remotePath conf name part) =
      (replicas.held name i).map fun content =>
        encrypted conf.password (partition content nh part)
  short : ∀ i < nh, ∀ name ∈ names, ∀ content, replicas.held name i = some content →
    ∀ part < nh, (partition content nh part).length < 2 ^ 32
  files : ∀ name ∈ names, shell.client.disk.files name.filename = replicas.files name.filename
  creatable : ∀ name ∈ names, ∀ part < nh,
    shell.client.disk.creatable (setPartitionName name.filename part) = true
  target : ∀ name ∈ names, shell.client.disk.creatable name.filename = true

/-- The text of a message, as the server puts it behind the directory of the user. -/
def messagePath (p : List Bytes) (shell : Shell) : Bytes :=
  setPath conf.username ((shell.message p).getD [])

/-- The path of a message fits the array of the server, the directory that is made stands in
the place of no part, and the listings that come in fit the packets of the servers and the
arrays of `main`. -/
structure MessageFits (cmdType : UInt8) (p : List Bytes) (stack : Nat → Bytes) (shell : Shell) :
    Prop where
  path : (messagePath conf p shell).length < PATH_SIZE
  clear : cmdType = CMD_MKDIR → Clear conf nh names (messagePath conf p shell)
  replies : cmdType = CMD_LS → ∀ i < nh, shell.client.available i = true →
    (listDir (createDir (shell.client.conns i).server.disk conf.username).2
      (messagePath conf p shell) 10).length ≤ 524
  listing : cmdType = CMD_LS → ∀ round,
    messageRound conf nh CMD_LS (shell.message p) stack shell.client = some round →
      (listCommand ((List.range nh).map fun i => (round.results i).lsReturn)).isSome = true

/-- What has to hold of an input: a line names files of the session and its strings fit the
arrays of `main`, a file that is put has no part of 2^32 bytes, a file is not asked for while
two neighbours are down, and a message fits. -/
def Fair (shell : Shell) : Input → Prop
  | .start _ => True
  | .edit filename _ => filename ∈ names.map Name.filename
  | .line piece stack => (lineStrings piece).isSome = true ∧
      match Order.read (lineOperands piece) with
      | .put name => name ∈ names ∧
          ∀ content, shell.client.disk.files name.filename = some content →
            ∀ part < nh, (partition content nh part).length < 2 ^ 32
      | .get name => name ∈ names ∧ NoAdjacentOutage shell.client.available nh
      | .other => ∀ cmdType, lineCommand (lineOperands piece) = some cmdType →
          MessageFits conf nh names cmdType (lineOperands piece) stack
            (shell.point cmdType (lineOperands piece))

variable {conf nh digest names} {replicas : Replicas} {shell : Shell} {name : Name}

theorem Roomy.makes {made : Bytes → Prop} {before after : Disk}
    (roomy : Roomy conf nh names before) (makes : Makes made before after)
    (clear : ∀ path, made path → Clear conf nh names path) : Roomy conf nh names after := by
  constructor
  · intro name member part bound
    have unmade : ¬ made (remotePath conf name part) :=
      fun here => clear _ here name member part bound rfl
    rw [makes.creatable unmade]
    exact roomy.writable name member part bound
  · intro path there
    by_cases here : made path
    · exact clear path here
    · rw [makes.dirs path here] at there
      exact roomy.free path there

theorem Family.clear_home (family : Family conf nh names) (path : Bytes) (home : Home conf path) :
    Clear conf nh names path := by
  rw [home]
  exact family.home

section name

variable (family : Family conf nh names) (shows : Shows conf nh digest names replicas shell)
  (member : name ∈ names) (msg : Option Bytes) (stack : Nat → Bytes)

include family member in
theorem Family.remote_ne {other : Name} {part next : Nat} (inside : other ∈ names)
    (different : other ≠ name) (bound : part < nh) (bound' : next < nh) :
    remotePath conf other part ≠ remotePath conf name next := by
  intro same
  exact different (family.remote other inside name member part bound next bound'
    (congrArg resolve same))

theorem Family.stored {before after : Bytes → Option Bytes} {content : Bytes} {i : Nat}
    (stored : Stored (family.request digest msg member) content
      (Keeper (family.request digest msg member) i) before after)
    {other : Name} (inside : other ∈ names) {part : Nat} (bound : part < nh)
    (keeper : i = firstHost nh (md5Mod digest other.filename nh) part ∨
      i = secondHost nh (md5Mod digest other.filename nh) part) :
    after (remotePath conf other part) = if other = name then
      some (encrypted conf.password (partition content nh part))
    else before (remotePath conf other part) := by
  by_cases same : other = name
  · subst same
    rw [if_pos rfl]
    exact stored.1 part ⟨bound, keeper⟩
  · rw [if_neg same]
    apply stored.2
    intro next asked
    exact family.remote_ne member inside same bound asked.1

include shows in
theorem Shows.put_content {content : Bytes}
    (found : shell.client.disk.files name.filename = some content)
    (small : ∀ part < nh, (partition content nh part).length < 2 ^ 32) :
    ∃ next, shell.putLine (family.request digest msg member) stack = some next ∧
      Shows conf nh digest names (replicas.put name) next := by
  let req := family.request digest msg member
  have ready : ∀ i < nh, shell.client.available i = true →
      Putting req content (shell.client.conns i) := fun i host _ =>
    ⟨shows.settled i host, shows.immortal i host, (shows.roomy i host).writable name member,
      small⟩
  rcases putCommand_done req stack content shell.client found ready with ⟨client, run, done⟩
  have held : (replicas.put name).held = Function.update replicas.held name
      (fun i => if replicas.up i then some content else replicas.held name i) := by
    simp only [Replicas.put, ← shows.files name member, found]
  have files : (replicas.put name).files = replicas.files := by
    simp only [Replicas.put, ← shows.files name member, found]
  have up : (replicas.put name).up = replicas.up := by
    simp only [Replicas.put, ← shows.files name member, found]
  have hosts : ∀ i < nh, Settled conf (client.conns i) ∧
      Extends (Home conf) (shell.client.conns i) (client.conns i) := by
    intro i host
    by_cases available : shell.client.available i = true
    · rcases done.hosts i host available with ⟨settled, extends_, -⟩
      exact ⟨settled, extends_⟩
    · rw [done.others i (fun inUse => available inUse.2)]
      exact ⟨shows.settled i host, rfl, Makes.refl _ _, rfl, rfl⟩
  refine ⟨{ shell with client }, by rw [Shell.putLine, run, Option.map_some], ?_⟩
  constructor
  case up => exact done.available.trans (shows.up.trans up.symm)
  case settled => exact fun i host => (hosts i host).1
  case immortal => exact fun i host => (hosts i host).2.life.trans (shows.immortal i host)
  case roomy =>
    intro i host
    exact (shows.roomy i host).makes (hosts i host).2.makes family.clear_home
  case stored =>
    intro i host other inside part bound keeper
    have before := shows.stored i host other inside part bound keeper
    -- A host that is up has the new version, another one what it had.
    by_cases available : shell.client.available i = true
    · rcases done.hosts i host available with ⟨-, -, stored⟩
      have here : replicas.up i = true := by
        rw [← shows.up]
        exact available
      rw [family.stored member msg stored inside bound keeper, held]
      by_cases same : other = name
      · subst same
        rw [if_pos rfl, Function.update_self, if_pos here, Option.map_some]
      · rw [if_neg same, Function.update_of_ne same]
        exact before
    · have away : ¬ replicas.up i = true := by
        rw [← shows.up]
        exact available
      rw [done.others i (fun inUse => available inUse.2), held, before]
      by_cases same : other = name
      · subst same
        rw [Function.update_self, if_neg away]
      · rw [Function.update_of_ne same]
  case short =>
    intro i host other inside version holds
    rw [held] at holds
    by_cases same : other = name
    · subst same
      rw [Function.update_self] at holds
      split_ifs at holds with here
      · rw [← Option.some.inj holds]
        exact small
      · exact shows.short i host other inside version holds
    · rw [Function.update_of_ne same] at holds
      exact shows.short i host other inside version holds
  case files =>
    intro other inside
    rw [files, done.disk]
    exact shows.files other inside
  case creatable =>
    rw [done.disk]
    exact shows.creatable
  case target =>
    rw [done.disk]
    exact shows.target

include shows in
theorem Shows.put (small : ∀ content, shell.client.disk.files name.filename = some content →
      ∀ part < nh, (partition content nh part).length < 2 ^ 32) :
    ∃ next, shell.putLine (family.request digest msg member) stack = some next ∧
      Shows conf nh digest names (replicas.put name) next := by
  cases found : shell.client.disk.files name.filename with
  | none =>
      have same : replicas.put name = replicas := by
        simp only [Replicas.put, ← shows.files name member, found]
      have missing : putCommand (family.request digest msg member) stack shell.client =
          some shell.client := putCommand_missing stack found
      rw [same]
      exact ⟨shell, by rw [Shell.putLine, missing, Option.map_some], shows⟩
  | some content =>
      exact shows.put_content family member msg stack found (small content found)

include shows in
theorem Shows.healthy : Healthy (family.request digest msg member) shell.client := by
  have short : ∀ i < nh, shell.client.available i = true →
      Short (family.request digest msg member) (Keeper (family.request digest msg member) i)
        (shell.client.conns i) := by
    intro i host _ part keeper content stored
    have found := shows.stored i host name member part keeper.1 keeper.2
    rw [Conn.stored] at stored
    have there := found.symm.trans stored
    obtain ⟨version, held, rfl⟩ := Option.map_eq_some_iff.mp there
    rw [encrypted, length_cipher]
    exact shows.short i host name member version held part keeper.1
  exact ⟨⟨fun i host _ => shows.settled i host, fun i host _ => Or.inr (shows.immortal i host),
    short, shows.creatable name member⟩, fun i host _ => shows.immortal i host,
    shows.target name member⟩

include shows in
theorem Shows.asked (connected : NoAdjacentOutage shell.client.available nh) (part : Nat)
    (bound : part < nh) :
    (shell.client.conns (askedHost (family.request digest msg member) shell.client.available
      part)).stored (family.request digest msg member) part =
        (replicas.version nh (md5Mod digest · nh) name part).map fun content =>
          encrypted conf.password (partition content nh part) := by
  have connected : NoAdjacentOutage shell.client.available (family.request digest msg member).nh :=
    connected
  rcases askedHost_started connected part bound with ⟨host, -, parts, started, asks⟩
  have stored := shows.stored _ host name member part bound (keeper_of_asks started asks).2
  rw [Replicas.version, ← shows.up]
  exact stored

include shows in
theorem Shows.get (connected : NoAdjacentOutage shell.client.available nh) :
    ∃ next, shell.getLine (family.request digest msg member) stack = some next ∧
      Shows conf nh digest names (replicas.get nh (md5Mod digest · nh) name) next := by
  have healthy := shows.healthy family member msg
  rcases healthy.getCommand stack connected with ⟨result, run, ended⟩
  rcases healthy.getCommand_client stack with ⟨_, run', available, elsewhere⟩
  rw [run] at run'
  obtain rfl := Option.some.inj (Option.some.inj run')
  have keeps : ∀ i < nh, Keeps (Home conf) (shell.client.conns i) (result.client.conns i) :=
    ended.keeps
  have settled : ∀ i < nh, Settled conf (result.client.conns i) := by
    intro i host
    by_cases up : shell.client.available i = true
    · exact ended.settled i host up
    · rw [ended.outside i (fun inUse => up inUse.2)]
      exact shows.settled i host
  have outcome := ended.read (shows.asked family member msg connected)
  have files : ∀ other ∈ names, result.client.disk.files other.filename =
      (replicas.get nh (md5Mod digest · nh) name).files other.filename := by
    intro other inside
    -- Another file is no partition of this one, so the GET leaves it alone.
    have rest : other.filename ≠ name.filename →
        result.client.disk.files other.filename = replicas.files other.filename := by
      intro different
      rw [elsewhere other.filename different]
      · exact shows.files other inside
      · intro part bound same
        exact family.parts name member other inside part bound (congrArg resolve same)
    cases merged : result.merged with
    | true =>
        have fetched := outcome.1 merged
        have content : replicas.fetched nh (md5Mod digest · nh) name =
            some ((List.range nh).flatMap fun part => partition
              ((replicas.version nh (md5Mod digest · nh) name part).getD []) nh part) :=
          if_pos fetched.1
        simp only [Replicas.get, content]
        by_cases same : other.filename = name.filename
        · rw [same, Function.update_self]
          exact fetched.2
        · rw [Function.update_of_ne same]
          exact rest same
    | false =>
        obtain ⟨⟨part, bound, absent⟩, kept⟩ := outcome.2 merged
        have nothing : replicas.fetched nh (md5Mod digest · nh) name = none := by
          apply if_neg
          intro all
          have there := all part bound
          rw [absent] at there
          cases there
        simp only [Replicas.get, nothing]
        by_cases same : other.filename = name.filename
        · rw [← shows.files other inside, same]
          exact kept
        · exact rest same
  have held : (replicas.get nh (md5Mod digest · nh) name).held = replicas.held := by
    rw [Replicas.get]
    split <;> rfl
  have up : (replicas.get nh (md5Mod digest · nh) name).up = replicas.up := by
    rw [Replicas.get]
    split <;> rfl
  refine ⟨{ shell with client := result.client }, ?_, ?_⟩
  · rw [Shell.getLine]
    simp only [run]
  · constructor
    case up => exact available.trans (shows.up.trans up.symm)
    case settled => exact settled
    case immortal => exact fun i host => (keeps i host).life (shows.immortal i host)
    case roomy =>
      intro i host
      exact (shows.roomy i host).makes (keeps i host).makes family.clear_home
    case stored =>
      intro i host other inside part bound keeper
      rw [(keeps i host).files, held]
      exact shows.stored i host other inside part bound keeper
    case short =>
      rw [held]
      exact shows.short
    case files => exact files
    case creatable =>
      rw [ended.creatable]
      exact shows.creatable
    case target =>
      rw [ended.creatable]
      exact shows.target

end name

section other

variable (shows : Shows conf nh digest names replicas shell)

include shows

theorem Shows.message {pkt : Bytes} {round : Round}
    (ended : MessageEnd conf pkt shell.client.round round)
    (clear : ∀ path, Made conf pkt path → Clear conf nh names path) (available : Nat → Bool)
    (up : available = replicas.up) (got : List Int) (msg : Bool)
    (printed : List (List (Bytes × Bool))) : Shows conf nh digest names replicas
      ⟨⟨available, round.conns, round.disk, got⟩, msg, printed⟩ := by
  have disk : round.disk = shell.client.disk := ended.disk
  have keeps : ∀ i, Keeps (Made conf pkt) (shell.client.conns i) (round.conns i) := ended.keeps
  constructor
  case up => exact up
  case settled => exact fun i host => ended.settled i (shows.settled i host)
  case immortal => exact fun i host => (keeps i).life (shows.immortal i host)
  case roomy =>
    intro i host
    exact (shows.roomy i host).makes (keeps i).makes clear
  case stored =>
    intro i host
    rw [(keeps i).files]
    exact shows.stored i host
  case short => exact shows.short
  case files =>
    rw [disk]
    exact shows.files
  case creatable =>
    rw [disk]
    exact shows.creatable
  case target =>
    rw [disk]
    exact shows.target

theorem Shows.point (cmdType : UInt8) (p : List Bytes) :
    Shows conf nh digest names replicas (shell.point cmdType p) :=
  ⟨shows.up, shows.settled, shows.immortal, shows.roomy, shows.stored, shows.short,
    shows.files, shows.creatable, shows.target⟩

theorem Shows.start (available : Nat → Bool) : Shows conf nh digest names
    { replicas with up := available }
    { client := { shell.client with
        available
        conns := fun i => (shell.client.conns i).opened }
      msg := false
      printed := shell.printed } where
  up := rfl
  settled i host := ⟨rfl, rfl, (shows.settled i host).admits⟩
  immortal _ _ := rfl
  roomy := shows.roomy
  stored := shows.stored
  short := shows.short
  files := shows.files
  creatable := shows.creatable
  target := shows.target

theorem Shows.edit (filename : Bytes) (content : Option Bytes) :
    Shows conf nh digest names
      { replicas with files := Function.update replicas.files filename content }
      { shell with
        client := { shell.client with
          disk := { shell.client.disk with
            files := Function.update shell.client.disk.files filename content } } } where
  up := shows.up
  settled := shows.settled
  immortal := shows.immortal
  roomy := shows.roomy
  stored := shows.stored
  short := shows.short
  files other inside := by
    by_cases same : other.filename = filename
    · simp only [same, Function.update_self]
    · simp only [Function.update_of_ne same]
      exact shows.files other inside
  creatable := shows.creatable
  target := shows.target

omit shows in
theorem MessageFits.clear_made (family : Family conf nh names) {cmdType : UInt8} {p : List Bytes}
    {stack : Nat → Bytes} (fits : MessageFits conf nh names cmdType p stack shell)
    (clean : ∀ word ∈ p, 0 ∉ word) (path : Bytes)
    (made : Made conf (buildMsgPacket cmdType 0 (shell.message p) (some conf)) path) :
    Clear conf nh names path := by
  rcases made with home | ⟨mkdir, same⟩
  · exact family.clear_home path home
  · have carries := carries_build cmdType 0 (shell.message p) conf
    have short := fits.path
    have zeros : 0 ∉ (shell.message p).getD [] := by
      rw [Shell.message]
      split_ifs
      · intro member
        rw [Option.getD_some, List.getD_eq_getElem?_getD] at member
        cases found : p[1]? with
        | none =>
            rw [found] at member
            cases member
        | some word =>
            rw [found] at member
            exact clean word (List.mem_of_getElem? found) member
      · exact List.not_mem_nil
    have text : msgText (buildMsgPacket cmdType 0 (shell.message p) (some conf)) =
        (shell.message p).getD [] := by
      apply msgText_build cmdType 0 _ (some conf) rfl zeros
      simp only [messagePath, setPath, List.length_cons, List.length_append, PATH_SIZE] at short
      rw [PACKET_SIZE]
      omega
    rw [same, carries.username, text]
    exact fits.clear (carries.kind.symm.trans mkdir)

theorem Shows.send (family : Family conf nh names) {cmdType : UInt8}
    (message : cmdType = CMD_LS ∨ cmdType = CMD_MKDIR) (p : List Bytes)
    (clean : ∀ word ∈ p, 0 ∉ word) (stack : Nat → Bytes)
    (fits : MessageFits conf nh names cmdType p stack shell) :
    ∃ next, shell.send conf nh digest cmdType p stack = some next ∧
      Shows conf nh digest names replicas next := by
  have notPut : cmdType ≠ CMD_PUT := by
    rcases message with rfl | rfl <;> decide
  have notGet : cmdType ≠ CMD_GET := by
    rcases message with rfl | rfl <;> decide
  rcases messageRound_end conf nh (shell.message p) stack shell.client message
    (fun i host => ⟨shows.settled i host, shows.immortal i host⟩) with ⟨round, run, ended⟩
  have available := (ended.available cmdType nh).trans shows.up
  simp only [Shell.send, notPut, notGet, ↓reduceIte, run, Option.bind_some, Shell.join]
  split_ifs with ls
  · rw [ls] at run
    obtain ⟨output, listed⟩ := Option.isSome_iff_exists.mp (fits.listing ls round run)
    rw [listed, Option.map_some]
    exact ⟨_, rfl, shows.message ended (fits.clear_made family clean) _ available _ _ _⟩
  · exact ⟨_, rfl, shows.message ended (fits.clear_made family clean) _ available _ _ _⟩

end other

end session

end NetworkSystem.Dfc
