import NetworkSystem.Dfc.Config
import NetworkSystem.Dfc.Listing

/-! `init_client_config`: the hosts and the credentials of a client, and which lines of its
file they come from. -/

namespace NetworkSystem.Dfc

open Bytes

/-- `host_t` as it is read from the file. -/
structure Host where
  ip : Bytes
  port : Nat
  deriving DecidableEq

/-- `strcpy` of a string of the line into an array; `none` when it does not fit. -/
def LineText.store (size : Nat) (line : LineText) : Option (CString size) :=
  if fits : line.text.length < size then some ⟨line.text, fits, line.clean⟩ else none

theorem LineText.store_text {size : Nat} {line : LineText} {stored : CString size}
    (copied : LineText.store size line = some stored) : stored.text = line.text := by
  simp only [LineText.store] at copied
  split_ifs at copied
  rw [← Option.some.inj copied]

/-- `client_config_t`; `nh` is the length of `hosts`. -/
structure ClientConfig where
  hosts : List Host
  username : CString 16
  password : CString 16

namespace ClientConfig

/-- The structure behind its `bzero`. -/
def empty : ClientConfig where
  hosts := []
  username := ⟨[], Nat.zero_lt_succ _, List.not_mem_nil⟩
  password := ⟨[], Nat.zero_lt_succ _, List.not_mem_nil⟩

def nh (conf : ClientConfig) : Nat := conf.hosts.length

/-- What goes into the header of a message. -/
def credentials (conf : ClientConfig) : Credentials :=
  { username := conf.username.text
    password := conf.password.text
    username_fits := conf.username.fits
    password_fits := conf.password.fits
    username_clean := conf.username.clean
    password_clean := conf.password.clean }

/-- A host of the file; `none` when `ip` or `port` does not fit its array and behind the
32 hosts. -/
def addHost (conf : ClientConfig) (address : Bytes) : Option ClientConfig :=
  let (ip, port) := splitFirst address 58
  match storeText 16 ip, storeText 8 port with
  | some ip, some port =>
      if conf.nh < 32 then
        some { conf with hosts := conf.hosts ++ [⟨ip, (atoi port % 2 ^ 16).toNat⟩] }
      else none
  | _, _ => none

/-- The branches for `p[0]` in lower case. -/
def setNamed (conf : ClientConfig) (field : Bytes) (value : LineText) (rest : List LineText) :
    Option ClientConfig :=
  if field = ascii "username" then
    (LineText.store 16 value).map (fun username => { conf with username })
  else if field = ascii "password" then
    (LineText.store 16 value).map (fun password => { conf with password })
  else if field = ascii "server" then
    match rest with
    | [] => some conf
    | address :: _ => conf.addHost address.text
  else some conf

/-- What is done with the strings of a line; a line of one string is passed over. -/
def setField (conf : ClientConfig) : List LineText → Option ClientConfig
  | field :: value :: rest =>
      match stripApart field.text 58 with
      | none => none
      | some field => conf.setNamed (lower field) value rest
  | _ => some conf

/-- The body of the loop. -/
def initLine (conf : ClientConfig) (buf : LineText) : Option ClientConfig :=
  if buf.text.length > 0 ∧ buf.text.head? ≠ some 35 then
    match splitFields buf with
    | none => none
    | some p => conf.setField p
  else some conf

end ClientConfig

/-- `init_client_config` on a file that can be opened; `none` where a string or a host runs
past its array, and where a copy of `strip` overlaps. -/
def initClientConfig (content : Bytes) : Option ClientConfig :=
  match readLines content with
  | none => none
  | some lines => lines.foldlM ClientConfig.initLine ClientConfig.empty

def lineWords (line : Bytes) : List Bytes := if lead line = some 35 then [] else words line

def passwordOf : List Bytes → Option Bytes
  | field :: value :: _ => if lower (trim field 58) = ascii "password" then some value else none
  | _ => none

def serverOf : List Bytes → Option Bytes
  | field :: _ :: address :: _ =>
      if lower (trim field 58) = ascii "server" then some address else none
  | _ => none

namespace ClientConfig

variable {conf next : ClientConfig}

theorem addHost_keeps {address : Bytes} (added : conf.addHost address = some next) :
    next.password = conf.password ∧ next.hosts ≠ [] := by
  simp only [addHost] at added
  split at added
  · split_ifs at added
    rw [← Option.some.inj added]
    exact ⟨rfl, List.append_ne_nil_of_right_ne_nil _ (List.cons_ne_nil _ _)⟩
  · cases added

theorem setField_keeps {p : List LineText} (set_ : conf.setField p = some next) :
    next.password.text = (passwordOf (p.map LineText.text)).getD conf.password.text ∧
      (next.hosts = [] ↔ conf.hosts = [] ∧ serverOf (p.map LineText.text) = none) := by
  rcases p with _ | ⟨field, _ | ⟨value, rest⟩⟩
  · rw [← Option.some.inj set_]
    simp [passwordOf, serverOf]
  · rw [← Option.some.inj set_]
    simp [passwordOf, serverOf]
  · rw [setField] at set_
    split at set_
    · cases set_
    · rename_i text left
      obtain rfl := (stripApart_eq_some.mp left).2
      simp only [setNamed] at set_
      split_ifs at set_ with username password server
      · obtain ⟨text, -, rfl⟩ := Option.map_eq_some_iff.mp set_
        have others : ascii "username" ≠ ascii "password" ∧ ascii "username" ≠ ascii "server" := by
          decide
        cases rest <;> simp [passwordOf, serverOf, username, others]
      · obtain ⟨text, stored, rfl⟩ := Option.map_eq_some_iff.mp set_
        have other : ascii "password" ≠ ascii "server" := by decide
        have same := LineText.store_text stored
        cases rest <;> simp [passwordOf, serverOf, password, other, same]
      · have secret : passwordOf ((field :: value :: rest).map LineText.text) = none :=
          if_neg password
        rw [secret]
        cases rest with
        | nil =>
            rw [← Option.some.inj set_]
            simp [serverOf]
        | cons address rest =>
            have added := addHost_keeps set_
            simp [serverOf, server, added]
      · have secret : passwordOf ((field :: value :: rest).map LineText.text) = none :=
          if_neg password
        rw [secret, ← Option.some.inj set_]
        cases rest <;> simp [serverOf, server]

theorem initLine_keeps {line : LineText} (front : line.text.head? = lead line.text)
    (read : conf.initLine line = some next) :
    next.password.text = (passwordOf (lineWords line.text)).getD conf.password.text ∧
      (next.hosts = [] ↔ conf.hosts = [] ∧ serverOf (lineWords line.text) = none) := by
  have texts := splitFields_text line
  simp only [initLine, splitFields, front] at read
  split_ifs at read with goes few
  · rw [lineWords, if_neg goes.2, ← texts]
    exact setField_keeps read
  · have nothing : lineWords line.text = [] := by
      rw [lineWords]
      split_ifs with comment
      · rfl
      · have empty : line.text = [] := by
          by_contra some_
          exact goes ⟨List.length_pos_iff.mpr some_, comment⟩
        rw [empty]
        exact Fields.fields_nil isBlank
    rw [nothing, ← Option.some.inj read]
    simp [passwordOf, serverOf]

theorem foldlM_initLine (lines : List LineText)
    (fronts : ∀ line ∈ lines, line.text.head? = lead line.text)
    (read : lines.foldlM initLine conf = some next) :
    next.password.text =
        ((lines.filterMap (fun line => passwordOf (lineWords line.text))).getLast?).getD
          conf.password.text ∧
      (next.hosts = [] ↔ conf.hosts = [] ∧ ∀ line ∈ lines, serverOf (lineWords line.text) = none) := by
  induction lines generalizing conf with
  | nil =>
      rw [← Option.some.inj read]
      simp
  | cons line lines ih =>
      rw [List.forall_mem_cons] at fronts
      rw [List.foldlM_cons, Option.bind_eq_bind, Option.bind_eq_some_iff] at read
      rcases read with ⟨middle, first, later⟩
      have here := initLine_keeps fronts.1 first
      have rest := ih fronts.2 later
      constructor
      · rw [rest.1, here.1, List.filterMap_cons]
        cases passwordOf (lineWords line.text) with
        | none => rfl
        | some value => rw [List.getLast?_cons]; rfl
      · rw [rest.2, here.2, List.forall_mem_cons, and_assoc]

end ClientConfig

theorem lineWords_trim (line : Bytes) : lineWords (trim line 32) = lineWords line := by
  rw [lineWords, lead_trim, words_trim, lineWords]

theorem initClientConfig_sets (content : Bytes) (conf : ClientConfig)
    (accepted : initClientConfig content = some conf) :
    conf.password.text =
        (((cutLines content).filterMap (fun line => passwordOf (lineWords line))).getLast?).getD [] ∧
      (conf.hosts = [] ↔ ∀ line ∈ cutLines content, serverOf (lineWords line) = none) := by
  rw [initClientConfig, readLines_eq] at accepted
  split_ifs at accepted with apart
  have kept := ClientConfig.foldlM_initLine (trimmedLines content) (trimmedLines_head content) accepted
  have blank : lineWords [] = [] := Fields.fields_nil isBlank
  constructor
  · rw [kept.1, trimmedLines_filterMap (fun line => passwordOf (lineWords line)) (by rw [blank]; rfl)]
    simp only [lineWords_trim, ClientConfig.empty]
  · rw [kept.2, trimmedLines_forall (fun line => serverOf (lineWords line) = none) (by rw [blank]; rfl)]
    simp only [lineWords_trim, ClientConfig.empty, true_and]

theorem ne_nil_of_passwordOf {line value : Bytes} (given : passwordOf (lineWords line) = some value) :
    value ≠ [] := by
  have filled : ∀ word ∈ lineWords line, word ≠ [] := by
    intro word member
    rw [lineWords] at member
    split_ifs at member
    · cases member
    · simpa using (List.mem_filter.mp member).2
  rcases fields : lineWords line with _ | ⟨field, _ | ⟨word, rest⟩⟩
  · rw [fields] at given
    cases given
  · rw [fields] at given
    cases given
  · rw [fields, passwordOf] at given
    split_ifs at given
    rw [← Option.some.inj given]
    exact filled word (fields ▸ List.mem_cons_of_mem _ List.mem_cons_self)

theorem password_ne_nil_iff (content : Bytes) (conf : ClientConfig)
    (accepted : initClientConfig content = some conf) :
    conf.password.text ≠ [] ↔ ∃ line ∈ cutLines content, (passwordOf (lineWords line)).isSome := by
  rw [(initClientConfig_sets content conf accepted).1]
  constructor
  · intro some_
    cases last : ((cutLines content).filterMap (fun line => passwordOf (lineWords line))).getLast? with
    | none =>
        rw [last] at some_
        exact absurd rfl some_
    | some value =>
        obtain ⟨line, member, given⟩ := List.mem_filterMap.mp (List.mem_of_getLast? last)
        exact ⟨line, member, by rw [given]; rfl⟩
  · intro given
    rcases given with ⟨line, member, given⟩
    obtain ⟨value, given⟩ := Option.isSome_iff_exists.mp given
    have listed : value ∈ (cutLines content).filterMap (fun line => passwordOf (lineWords line)) :=
      List.mem_filterMap.mpr ⟨line, member, given⟩
    have filled := List.getLast?_isSome.mpr (List.ne_nil_of_mem listed)
    obtain ⟨last, same⟩ := Option.isSome_iff_exists.mp filled
    obtain ⟨other, -, lastGiven⟩ := List.mem_filterMap.mp (List.mem_of_getLast? same)
    rw [same]
    exact ne_nil_of_passwordOf lastGiven

end NetworkSystem.Dfc
