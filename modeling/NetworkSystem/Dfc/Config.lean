import NetworkSystem.ConfigFile
import NetworkSystem.Dfc.Server

/-! `init_server_config`, and the users that the server knows from its file. -/

namespace NetworkSystem.Dfc

open Bytes

/-- `split` drops the empty strings; `none` when it writes behind the 16 strings of `p`. -/
def splitFields (buf : LineText) : Option (List LineText) :=
  let p := buf.tokens.filter (fun token => token.text ≠ [])
  if p.length ≤ 16 then some p else none

/-- The next entry of `users`; `none` behind the last one, and when a string does not
fit its array. -/
def storeUser (users : Users) (username password : Bytes) : Option Users :=
  match storeText 16 username, storeText 16 password with
  | some username, some password =>
      if users.length < 32 then some (users ++ [(username, password)]) else none
  | _, _ => none

def initUser (users : Users) (buf : LineText) : Option Users :=
  if buf.text.length > 0 ∧ buf.text.head? ≠ some 35 then
    match splitFields buf with
    | none => none
    | some (username :: password :: _) => storeUser users username.text password.text
    | some _ => some users
  else some users

/-- `init_server_config` on a file that can be opened. -/
def initServerConfig (content : Bytes) : Option Users :=
  match readLines content with
  | none => none
  | some lines => lines.foldlM initUser []

def userOf (line : Bytes) : Option (Bytes × Bytes) :=
  match words line with
  | username :: password :: _ => some (username, password)
  | _ => none

/-- A comment begins with `#` behind its blanks. -/
def IsComment (line : Bytes) : Prop := (line.dropWhile isBlank).head? = some 35

instance : DecidablePred IsComment := fun _ => inferInstanceAs (Decidable (_ = _))

def lineUser (line : Bytes) : Option (Bytes × Bytes) := if IsComment line then none else userOf line

def fileUsers (content : Bytes) : Users := (textLines content).filterMap lineUser

/-- The first line that names the user has the password. -/
def Granted (users : Users) (username password : Bytes) : Prop :=
  users.find? (fun user => user.1 = username) = some (username, password)

theorem checkUser_eq_one_iff (users : Users) (username password : Bytes) :
    checkUser users username password = 1 ↔ Granted users username password := by
  induction users with
  | nil => simp [checkUser, Granted]
  | cons user rest ih =>
      rw [Granted] at ih ⊢
      rw [checkUser]
      by_cases same : username = user.1
      · rw [if_pos same, List.find?_cons_of_pos (by simpa using same.symm)]
        by_cases secret : password = user.2
        · simp [same, secret]
        · rw [if_neg secret]
          simp only [reduceCtorEq, false_iff, Option.some.injEq]
          exact fun pair => secret (congrArg Prod.snd pair).symm
      · rw [if_neg same, List.find?_cons_of_neg (by simpa using Ne.symm same), ih]

/-- The user of a line as the loop sees it: only spaces in front of a `#` are stripped. -/
def readUser (line : Bytes) : Option (Bytes × Bytes) :=
  if lead line = some 35 then none else userOf line

/-- The users of the lines, each block of 127 bytes read as a line. -/
def readUsers (content : Bytes) : Users := (cutLines content).filterMap readUser

/-- No copy of `strip` overlaps, and all that is stored fits: the fields of a line, the
users, and their strings. -/
structure Loads (content : Bytes) : Prop where
  apart : LinesApart content
  fields : ∀ line ∈ cutLines content, lead line ≠ some 35 → (words line).length ≤ 16
  users : (readUsers content).length ≤ 32
  strings : ∀ user ∈ readUsers content, user.1.length < 16 ∧ user.2.length < 16

theorem storeUser_eq_some (users next : Users) (username password : Bytes) :
    storeUser users username password = some next ↔
      (username.length < 16 ∧ password.length < 16) ∧ users.length < 32 ∧
        users ++ [(username, password)] = next := by
  simp only [storeUser, storeText]
  split_ifs <;> simp [*]

theorem splitFields_text (buf : LineText) :
    (buf.tokens.filter (fun token => token.text ≠ [])).map LineText.text = words buf.text := by
  rw [← tokens_words, List.filter_map]
  rfl

theorem initUser_eq (users : Users) (line : LineText) (front : line.text.head? = lead line.text) :
    initUser users line =
      if lead line.text = some 35 then some users
      else if (words line.text).length ≤ 16 then
        (userOf line.text).elim (some users) (fun user => storeUser users user.1 user.2)
      else none := by
  have texts := splitFields_text line
  simp only [initUser, splitFields, front]
  generalize line.tokens.filter (fun token => token.text ≠ []) = p at texts ⊢
  rw [userOf, ← texts, List.length_map]
  cases text : line.text with
  | nil =>
      have empty : words line.text = [] := by
        rw [text]
        exact Fields.fields_nil isBlank
      rw [empty, List.map_eq_nil_iff] at texts
      simp [texts, lead]
  | cons byte rest =>
      by_cases comment : lead (byte :: rest) = some 35
      · simp [comment]
      · simp only [List.length_cons, gt_iff_lt, Nat.zero_lt_succ, ne_eq, comment, not_false_eq_true,
          and_self, ↓reduceIte]
        split_ifs
        · rcases p with _ | ⟨name, _ | ⟨secret, p⟩⟩
          · rfl
          · rfl
          · rfl
        · rfl

theorem foldlM_initUser (lines : List LineText)
    (fronts : ∀ line ∈ lines, line.text.head? = lead line.text) (before next : Users)
    (room : before.length ≤ 32) :
    lines.foldlM initUser before = some next ↔
      (∀ line ∈ lines, lead line.text ≠ some 35 → (words line.text).length ≤ 16) ∧
        before.length + (lines.filterMap (fun line => readUser line.text)).length ≤ 32 ∧
        (∀ user ∈ lines.filterMap (fun line => readUser line.text),
          user.1.length < 16 ∧ user.2.length < 16) ∧
        before ++ lines.filterMap (fun line => readUser line.text) = next := by
  induction lines generalizing before with
  | nil => simp [room]
  | cons line lines ih =>
      rw [List.forall_mem_cons] at fronts
      rw [List.foldlM_cons, initUser_eq before line fronts.1, List.forall_mem_cons]
      by_cases comment : lead line.text = some 35
      · have none_ : readUser line.text = none := if_pos comment
        simp only [comment, ↓reduceIte, List.filterMap_cons, none_, ne_eq, not_true_eq_false,
          false_imp_iff, true_and, Option.bind_eq_bind, Option.bind_some, ih fronts.2 before room]
      · by_cases few : (words line.text).length ≤ 16
        · have user_ : readUser line.text = userOf line.text := if_neg comment
          simp only [comment, few, ↓reduceIte, List.filterMap_cons, user_, implies_true, true_and]
          cases userOf line.text with
          | none =>
              simp only [Option.elim_none, Option.bind_eq_bind, Option.bind_some,
                ih fronts.2 before room]
          | some user =>
              simp only [Option.elim_some, Option.bind_eq_bind, Option.bind_eq_some_iff,
                storeUser_eq_some, List.forall_mem_cons, List.length_cons]
              constructor
              · rintro ⟨middle, ⟨short, inside, same⟩, loaded⟩
                rw [← same, ih fronts.2 _ (by rwa [List.length_append]), List.length_append,
                  List.length_singleton, List.append_assoc] at loaded
                exact ⟨loaded.1, by omega, ⟨short, loaded.2.2.1⟩, loaded.2.2.2⟩
              · rintro ⟨fields, users, ⟨short, strings⟩, same⟩
                refine ⟨before ++ [user], ⟨short, by omega, rfl⟩, ?_⟩
                rw [ih fronts.2 _ (by rw [List.length_append, List.length_singleton]; omega),
                  List.length_append, List.length_singleton, List.append_assoc]
                exact ⟨fields, by omega, strings, same⟩
        · simp only [comment, few, ↓reduceIte, ne_eq, not_false_eq_true, true_imp_iff, false_and,
             Option.bind_eq_bind, Option.bind_none, reduceCtorEq]

theorem initServerConfig_eq_some (content : Bytes) (users : Users) :
    initServerConfig content = some users ↔ Loads content ∧ readUsers content = users := by
  have trimmed : ∀ line, readUser (trim line 32) = readUser line := by
    intro line
    rw [readUser, lead_trim, userOf, words_trim, readUser, userOf]
  have read :
      (trimmedLines content).filterMap (fun line => readUser line.text) = readUsers content := by
    rw [trimmedLines_filterMap readUser rfl content]
    simp only [trimmed, readUsers]
  have fields_ :
      (∀ line ∈ trimmedLines content, lead line.text ≠ some 35 → (words line.text).length ≤ 16) ↔
        ∀ line ∈ cutLines content, lead line ≠ some 35 → (words line).length ≤ 16 := by
    rw [trimmedLines_forall (fun text => lead text ≠ some 35 → (words text).length ≤ 16)
      (fun _ => by decide) content]
    simp only [lead_trim, words_trim]
  have loop := foldlM_initUser _ (trimmedLines_head content) [] users (by decide)
  rw [read, fields_, List.length_nil, Nat.zero_add, List.nil_append] at loop
  rw [initServerConfig, readLines_eq]
  by_cases apart : LinesApart content
  · rw [if_pos apart, loop]
    constructor
    · rintro ⟨fields, few, strings, same⟩
      exact ⟨⟨apart, fields, few, strings⟩, same⟩
    · rintro ⟨loads, same⟩
      exact ⟨loads.fields, loads.users, loads.strings, same⟩
  · rw [if_neg apart]
    constructor
    · intro none_
      cases none_
    · intro loads
      exact absurd loads.1.apart apart

/-- The server lets in whom the file names, with the password of the first line. -/
def Follows (content : Bytes) : Prop :=
  ∃ users, initServerConfig content = some users ∧
    ∀ username password : Bytes, username.length < 16 → password.length < 16 →
      (checkUser users username password = 1 ↔ Granted (fileUsers content) username password)

theorem granted_of_find (users : Users) (username : Bytes) (user : Bytes × Bytes)
    (found : users.find? (fun user => user.1 = username) = some user) :
    user ∈ users ∧ user.1 = username ∧ Granted users username user.2 := by
  have same : user.1 = username := by simpa using List.find?_some found
  refine ⟨List.mem_of_find?_eq_some found, same, ?_⟩
  rw [Granted, found, ← same]

/-- What the loop reads and what the lines say have to name each user with the same
password first. -/
theorem follows_iff_find (content : Bytes)
    (short : ∀ user ∈ fileUsers content, user.1.length < 16 ∧ user.2.length < 16) :
    Follows content ↔ Loads content ∧ ∀ username,
      (readUsers content).find? (fun user => user.1 = username) =
        (fileUsers content).find? (fun user => user.1 = username) := by
  constructor
  · rintro ⟨users, loaded, follows⟩
    obtain ⟨loads, same⟩ := (initServerConfig_eq_some content users).mp loaded
    rw [← same] at follows
    refine ⟨loads, fun username => ?_⟩
    cases read : (readUsers content).find? (fun user => user.1 = username) with
    | some user =>
        obtain ⟨member, name, granted⟩ := granted_of_find _ _ _ read
        have fits := loads.strings user member
        rw [name] at fits
        have known := (checkUser_eq_one_iff _ _ _).mpr granted
        have listed := (follows username user.2 fits.1 fits.2).mp known
        rw [listed, ← name]
    | none =>
        cases said : (fileUsers content).find? (fun user => user.1 = username) with
        | none => rfl
        | some user =>
            obtain ⟨member, name, granted⟩ := granted_of_find _ _ _ said
            have fits := short user member
            rw [name] at fits
            have known := (follows username user.2 fits.1 fits.2).mpr granted
            rw [checkUser_eq_one_iff, Granted, read] at known
            cases known
  · rintro ⟨loads, agree⟩
    refine ⟨_, (initServerConfig_eq_some content _).mpr ⟨loads, rfl⟩, ?_⟩
    intro username password _ _
    rw [checkUser_eq_one_iff, Granted, Granted, agree]

/-- A comment behind a tab, with a name and a password in it. -/
def TabComment (line : Bytes) : Prop :=
  IsComment line ∧ lead line = some 9 ∧ 2 ≤ (words line).length

/-- The lines that are no comments have no more fields than `p` has strings. -/
def FieldsFit (content : Bytes) : Prop :=
  ∀ line ∈ textLines content, lead line ≠ some 35 → (words line).length ≤ 16

theorem fieldsFit_iff (content : Bytes) (whole : LinesFit content) :
    (∀ line ∈ cutLines content, lead line ≠ some 35 → (words line).length ≤ 16) ↔
      FieldsFit content :=
  cutLines_forall (fun line => lead line ≠ some 35 → (words line).length ≤ 16) (fun _ => by decide)
    content whole

theorem readUsers_text (content : Bytes) (whole : LinesFit content) :
    readUsers content = (textLines content).filterMap readUser :=
  cutLines_filterMap readUser rfl content whole

theorem userOf_eq_some (line : Bytes) (user : Bytes × Bytes) (named : userOf line = some user) :
    2 ≤ (words line).length ∧ (IsComment line ↔ user.1.head? = some 35) := by
  rw [userOf] at named
  split at named
  · rename_i username password later cut
    rw [← Option.some.inj named, IsComment, ← Fields.head_fields isBlank line username _ cut, cut]
    exact ⟨by simp, Iff.rfl⟩
  · cases named

theorem readUser_eq_lineUser (line : Bytes) (fine : ¬ TabComment line) :
    readUser line = lineUser line := by
  rw [readUser, lineUser]
  cases named : userOf line with
  | none => rw [ite_self, ite_self]
  | some user =>
      have two := (userOf_eq_some line user named).1
      have same : lead line = some 35 ↔ IsComment line := by
        cases front : lead line with
        | none =>
            rw [words_of_lead_none line front] at two
            simp at two
        | some byte =>
            by_cases tab : byte = 9
            · rw [tab] at front
              have other : ¬ IsComment line := fun comment => fine ⟨comment, front, two⟩
              simp [tab, other]
            · rw [IsComment, head_behind_blanks line byte front (isBlank_lead line byte front tab)]
      simp only [same]

theorem readUser_of_tabComment (line : Bytes) (comment : TabComment line) :
    ∃ user, readUser line = some user ∧ user.1.head? = some 35 := by
  obtain ⟨isComment, tab, two⟩ := comment
  cases named : userOf line with
  | none =>
      rw [userOf] at named
      split at named
      · cases named
      · rename_i few
        rcases cut : words line with _ | ⟨username, _ | ⟨password, later⟩⟩
        · simp [cut] at two
        · simp [cut] at two
        · exact absurd cut (few username password later)
  | some user =>
      refine ⟨user, ?_, (userOf_eq_some line user named).2.mp isComment⟩
      rw [readUser, tab, if_neg (by decide), named]

theorem find_eq_iff (content : Bytes) (whole : LinesFit content) :
    (∀ username, (readUsers content).find? (fun user => user.1 = username) =
        (fileUsers content).find? (fun user => user.1 = username)) ↔
      ∀ line ∈ textLines content, ¬ TabComment line := by
  rw [readUsers_text content whole]
  constructor
  · intro agree line member comment
    -- Such a comment is read as a user whose name begins with `#`, which no line of the file
    -- names.
    obtain ⟨user, read, hash⟩ := readUser_of_tabComment line comment
    have present : user ∈ (textLines content).filterMap readUser :=
      List.mem_filterMap.mpr ⟨line, member, read⟩
    have found : ((fileUsers content).find? (fun other => other.1 = user.1)).isSome := by
      rw [← agree user.1, List.find?_isSome]
      exact ⟨user, present, decide_eq_true rfl⟩
    obtain ⟨other, found⟩ := Option.isSome_iff_exists.mp found
    obtain ⟨listed, name, -⟩ := granted_of_find _ _ _ found
    obtain ⟨line, -, said⟩ := List.mem_filterMap.mp listed
    rw [lineUser] at said
    split_ifs at said with comment_
    rw [← name] at hash
    exact comment_ ((userOf_eq_some line other said).2.mpr hash)
  · intro fine username
    have same : (textLines content).filterMap readUser = fileUsers content :=
      List.filterMap_congr (fun line member => readUser_eq_lineUser line (fine line member))
    rw [same]

/-- The users of a file whose comments stand behind no tab fit the table, if the file
keeps to its sizes. -/
theorem loads_iff (content : Bytes) (whole : LinesFit content)
    (few : (fileUsers content).length ≤ 32)
    (short : ∀ user ∈ fileUsers content, user.1.length < 16 ∧ user.2.length < 16)
    (fine : ∀ line ∈ textLines content, ¬ TabComment line) :
    Loads content ↔ LinesApart content ∧ FieldsFit content := by
  have same : readUsers content = fileUsers content := by
    rw [readUsers_text content whole]
    exact List.filterMap_congr (fun line member => readUser_eq_lineUser line (fine line member))
  constructor
  · intro loads
    exact ⟨loads.apart, (fieldsFit_iff content whole).mp loads.fields⟩
  · intro all
    refine ⟨all.1, (fieldsFit_iff content whole).mpr all.2, ?_, ?_⟩
    · rwa [same]
    · rwa [same]

/-- The server lets in whom its file names if and only if the pieces that are read fit
its arrays, without a copy over itself, and give each name the password of the file first.
Where the lines are read whole, that is so if and only if no copy overlaps, no line has too
many fields and no comment with two words stands behind a tab. -/
theorem follows_iff (content : Bytes) (few : (fileUsers content).length ≤ 32)
    (short : ∀ user ∈ fileUsers content, user.1.length < 16 ∧ user.2.length < 16) :
    (Follows content ↔ Loads content ∧ ∀ username,
      (readUsers content).find? (fun user => user.1 = username) =
        (fileUsers content).find? (fun user => user.1 = username)) ∧
    (LinesFit content → (Follows content ↔
      (LinesApart content ∧ FieldsFit content) ∧
        ∀ line ∈ textLines content, ¬ TabComment line)) := by
  refine ⟨follows_iff_find content short, fun whole => ?_⟩
  rw [follows_iff_find content short, find_eq_iff content whole]
  exact and_congr_left (loads_iff content whole few short)

def sampleUserFile : Bytes := ascii "Alice  1234567\nBob    89101112"

theorem follows_iff_server :
    (Follows sampleUserFile ↔ Loads sampleUserFile ∧ ∀ username,
      (readUsers sampleUserFile).find? (fun user => user.1 = username) =
        (fileUsers sampleUserFile).find? (fun user => user.1 = username)) ∧
    (LinesFit sampleUserFile → (Follows sampleUserFile ↔
      (LinesApart sampleUserFile ∧ FieldsFit sampleUserFile) ∧
        ∀ line ∈ textLines sampleUserFile, ¬ TabComment line)) :=
  follows_iff sampleUserFile (by decide) (by decide)

def sampleComment : Bytes := ascii "#" ++ List.replicate 126 45 ++ ascii "eve pw\n"

/-- `fgets` cuts the comment, and its end is read as a user. A short one behind a tab is
a user too. -/
theorem comment_grants_access :
    (fileUsers sampleComment = [] ∧
      (initServerConfig sampleComment).map
        (fun users => checkUser users (ascii "eve") (ascii "pw")) = some 1 ∧
      ¬ Follows sampleComment) ∧
    (fileUsers (ascii "\t#eve pw\n") = [] ∧
      (initServerConfig (ascii "\t#eve pw\n")).map
        (fun users => checkUser users (ascii "#eve") (ascii "pw")) = some 1) := by
  have none_ : fileUsers sampleComment = [] := by decide +kernel
  have known : (initServerConfig sampleComment).map
      (fun users => checkUser users (ascii "eve") (ascii "pw")) = some 1 := by
    decide +kernel
  refine ⟨⟨none_, known, ?_⟩, by decide +kernel, by decide +kernel⟩
  rintro ⟨users, loaded, follows⟩
  rw [loaded, Option.map_some, Option.some.injEq] at known
  have granted := (follows (ascii "eve") (ascii "pw") (by decide) (by decide)).mp known
  rw [none_] at granted
  cases granted

end NetworkSystem.Dfc
