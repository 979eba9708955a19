import NetworkSystem.ConfigFile
import NetworkSystem.Dfc.Listing
import NetworkSystem.Http.Config

/-! `init_config` of the HTTP server, one line of the file at a time. -/

namespace NetworkSystem.Http

open Bytes

/-- `conf` in the loop, and `k`, the number of content types so far. -/
structure Loading where
  conf : Config
  k : Nat

def constant (text : Bytes) (fine : text.length < 128 ∧ 0 ∉ text) : CString 128 :=
  ⟨text, fine.1, fine.2⟩

def emptyString : CString 128 := constant [] (by decide)

/-- The settings in front of the loop. -/
def defaults : Config where
  port := 80
  keepaliveTime := 0
  countContentTypes := 0
  root := ⟨ascii ".", by decide, by decide⟩
  index := (List.replicate 32 emptyString).set 0 (constant (ascii "index.html") (by decide))
  fileExtensions := (List.replicate 32 emptyString).set 0 (constant (ascii ".html") (by decide))
  contentTypes := (List.replicate 32 emptyString).set 0 (constant (ascii "text/html") (by decide))
  contentTypes_line := by decide

/-- The strings that the loops with `strlen(p[i]) != 0` do not pass over. -/
def given (p : List LineText) : List LineText := p.filter (fun field => field.text ≠ [])

def listen (conf : Config) (p : List LineText) : Config :=
  match given p with
  | [] => conf
  | field :: _ => { conf with port := (Dfc.atoi field.text % 65536).toNat }

theorem kept_of_unquoted {line text : Bytes} (left : stripApart line 34 = some text) :
    text.Sublist line := by
  rw [← (stripApart_eq_some.mp left).2]
  exact trim_sublist _ _

/-- Some bytes of a field, in their order. -/
def rootString (field : LineText) (text : Bytes) (kept : text.Sublist field.text) : CString 256 where
  text := text
  fits := Nat.lt_of_le_of_lt kept.length_le (Nat.lt_trans field.fits (by decide))
  clean := fun member => field.clean (kept.subset member)

/-- The first field without its quotes; `none` when the copy of `strip` overlaps. -/
def documentRoot (conf : Config) (p : List LineText) : Option Config :=
  match given p with
  | [] => some conf
  | field :: _ => (stripApart field.text 34).pmap
      (fun text kept => { conf with root := rootString field text kept })
      (fun _ left => kept_of_unquoted left)

/-- `index[j++]` from `j = 0` on; `p` has no more than 32 strings. -/
def directoryIndex (conf : Config) (p : List LineText) : Config :=
  { conf with index := (given p).map LineText.cstring ++ conf.index.drop (given p).length }

def keepaliveTime (conf : Config) (p : List LineText) : Config :=
  match given p with
  | [] => conf
  | field :: _ => { conf with keepaliveTime := (Dfc.atoi field.text % 4294967296).toNat }

/-- `content_types[k++]`. -/
def storeContentType (conf : Config) (k : Nat) (field : LineText) : Config :=
  { conf with
    contentTypes := conf.contentTypes.set k field.cstring
    contentTypes_line := fun string member => by
      cases List.mem_or_eq_of_mem_set member with
      | inl old => exact conf.contentTypes_line string old
      | inr new => exact new ▸ field.line }

/-- The extension is stored at once, `k` moves with the type; `none` behind the last
entry of the tables. -/
def contentType (state : Loading) (p : List LineText) : Option Loading :=
  match given p with
  | [] => some state
  | extension :: types =>
      if state.k < 32 then
        let conf := { state.conf with
          fileExtensions := state.conf.fileExtensions.set state.k extension.cstring }
        match types with
        | [] => some { state with conf := conf }
        | type :: _ => some ⟨storeContentType conf state.k type, state.k + 1⟩
      else none

/-- The branches for `p[0]` in lower case, with the other strings in `p`. -/
def directive (state : Loading) (name : Bytes) (p : List LineText) : Option Loading :=
  if name = ascii "listen" then some { state with conf := listen state.conf p }
  else if name = ascii "documentroot" then
    (documentRoot state.conf p).map fun conf => { state with conf }
  else if name = ascii "directoryindex" then some { state with conf := directoryIndex state.conf p }
  else if name = ascii "keepalivetime" then some { state with conf := keepaliveTime state.conf p }
  else if name = ascii "contenttype" then contentType state p
  else some state

/-- The body of the loop; `none` when `split` writes behind the 32 strings of `p`. -/
def initLine (state : Loading) (buf : LineText) : Option Loading :=
  if buf.text.length > 0 ∧ buf.text.head? ≠ some 35 then
    if buf.tokens.length ≤ 32 then
      match buf.tokens with
      | name :: arg :: args => directive state (lower name.text) (arg :: args)
      | _ => some state
    else none
  else some state

/-- `conf` behind the loop. -/
def Loading.finished (state : Loading) : Config := { state.conf with countContentTypes := state.k }

/-- `init_config` on a file that can be opened. -/
def initConfig (content : Bytes) : Option Config :=
  match readLines content with
  | none => none
  | some lines => (lines.foldlM initLine ⟨defaults, 0⟩).map Loading.finished

theorem given_given (p : List LineText) : given (given p) = given p := by
  simp only [given, List.filter_filter, Bool.and_self]

theorem given_tail (field : LineText) (p : List LineText)
    (some_ : given (field :: p) = field :: p) : given p = p :=
  List.filter_eq_self.mpr (fun other member =>
    List.filter_eq_self.mp some_ other (List.mem_cons_of_mem _ member))

theorem directive_given (state : Loading) (name : Bytes) (p : List LineText) :
    directive state name (given p) = directive state name p := by
  simp only [directive, listen, documentRoot, directoryIndex, keepaliveTime, contentType,
    given_given]

@[simp] theorem directive_nil (state : Loading) (name : Bytes) :
    directive state name [] = some state := by
  simp only [directive, listen, documentRoot, directoryIndex, keepaliveTime, contentType, given,
    List.filter_nil, List.map_nil, List.length_nil, List.drop_zero, List.nil_append, Option.map_some,
    ite_self]

@[simp] theorem directive_noName (state : Loading) (p : List LineText) :
    directive state (lower []) p = some state := rfl

/-- The fields of a line with a directive: not a comment, and neither blank nor behind
a tab. -/
def directiveFields (line : LineText) : Option (List LineText) :=
  if lead line.text ∈ [none, some 9, some 35] then none else some (given line.tokens)

def applyFields (state : Loading) : List LineText → Option Loading
  | [] => some state
  | name :: args => directive state (lower name.text) args

/-- `split` has room for the line, if it is called. -/
def Splits (line : LineText) : Prop := lead line.text ≠ some 35 → line.tokens.length ≤ 32

instance : DecidablePred Splits := fun _ => inferInstanceAs (Decidable (_ → _))

theorem initLine_eq (state : Loading) (line : LineText) (front : line.text.head? = lead line.text) :
    initLine state line =
      if Splits line then
        match directiveFields line with
        | none => some state
        | some fields => applyFields state fields
      else none := by
  cases text : line.text with
  | nil =>
      have tokens : line.tokens = [] := by
        have texts := line.tokens_text
        rw [text] at texts
        exact List.map_eq_nil_iff.mp texts
      simp [initLine, Splits, directiveFields, text, tokens, lead]
  | cons byte rest =>
      have some_ : line.text ≠ [] := by
        rw [text]
        exact List.cons_ne_nil _ _
      obtain ⟨name, args, tokens, name_⟩ := line.tokens_eq_cons some_
      have used : (line.text.length > 0 ∧ line.text.head? ≠ some 35) ↔ byte ≠ 35 := by
        simp [text]
      have begins : lead line.text = some byte := by
        rw [← front, text]
        rfl
      rw [text] at name_
      simp only [initLine, used, Splits, directiveFields, begins, tokens, ne_eq, Option.some.injEq,
        List.mem_cons, reduceCtorEq, List.not_mem_nil, false_or, or_false]
      -- A comment is passed over before it is split.
      by_cases comment : byte = 35
      · simp only [comment, not_true_eq_false, ↓reduceIte, false_imp_iff, or_true]
      · simp only [comment, not_false_eq_true, ↓reduceIte, true_imp_iff, or_false]
        split_ifs with splits tab
        · -- the name in front of a tab is empty
          have empty : name.text = [] := by
            rw [name_, tab]
            rfl
          cases args with
          | nil => rfl
          | cons arg args =>
              change directive state (lower name.text) (arg :: args) = some state
              rw [empty, directive_noName]
        · have field := isBlank_lead line.text byte begins tab
          have named : name.text ≠ [] := by
            rw [name_, List.takeWhile_cons_of_pos (by rw [field]; rfl)]
            exact List.cons_ne_nil _ _
          have first : given (name :: args) = name :: given args :=
            List.filter_cons_of_pos (decide_eq_true named)
          change _ = applyFields state (given (name :: args))
          rw [first, applyFields, directive_given]
          cases args with
          | nil => exact (directive_nil state _).symm
          | cons arg args => rfl
        · rfl

theorem foldlM_initLine (lines : List LineText)
    (fronts : ∀ line ∈ lines, line.text.head? = lead line.text) (state : Loading) :
    lines.foldlM initLine state =
      if ∀ line ∈ lines, Splits line then (lines.filterMap directiveFields).foldlM applyFields state
      else none := by
  induction lines generalizing state with
  | nil => simp
  | cons line lines ih =>
      have later := ih (fun line member => fronts line (List.mem_cons_of_mem _ member))
      rw [List.foldlM_cons, initLine_eq state line (fronts line List.mem_cons_self)]
      simp only [List.forall_mem_cons]
      by_cases splits : Splits line
      · simp only [splits, ↓reduceIte, true_and]
        cases fields : directiveFields line with
        | none =>
            rw [List.filterMap_cons_none fields]
            exact later state
        | some fields_ =>
            rw [List.filterMap_cons_some fields, List.foldlM_cons]
            change applyFields state fields_ >>= (fun state => lines.foldlM initLine state) = _
            cases next : applyFields state fields_ with
            | none => exact (ite_self none).symm
            | some state => exact later state
      · simp only [splits, ↓reduceIte, false_and, Option.bind_eq_bind, Option.bind_none]

def settings (directives : List (List LineText)) : Option Loading :=
  directives.foldlM applyFields ⟨defaults, 0⟩

def directiveLines (content : Bytes) : List (List LineText) :=
  (trimmedLines content).filterMap directiveFields

theorem directiveLines_given (content : Bytes) (fields : List LineText)
    (member : fields ∈ directiveLines content) :
    given fields = fields ∧ ((∀ line ∈ trimmedLines content, Splits line) → fields.length ≤ 32) := by
  obtain ⟨line, inside, same⟩ := List.mem_filterMap.mp member
  rw [directiveFields] at same
  split_ifs at same with front
  rw [← Option.some.inj same]
  refine ⟨given_given _, fun splits => ?_⟩
  calc (given line.tokens).length
    _ ≤ line.tokens.length := List.length_filter_le _ _
    _ ≤ 32 := splits line inside (fun comment => front (by simp [comment]))

def directiveWords (line : Bytes) : Option (List Bytes) :=
  if lead line ∈ [none, some 9, some 35] then none else some (words line)

/-- No line that is cut at its blanks falls into more pieces than `p` has strings. -/
def CutFits (content : Bytes) : Prop :=
  ∀ line ∈ textLines content, lead line ≠ some 35 →
    (tokens (trim line 32) (ascii " \t")).length ≤ 32

instance : DecidablePred CutFits :=
  fun content => inferInstanceAs (Decidable (∀ line ∈ textLines content, _ → _))

theorem splits_iff (content : Bytes) (whole : LinesFit content) :
    (∀ line ∈ trimmedLines content, Splits line) ↔ CutFits content := by
  have count : ∀ line : LineText, line.tokens.length = (tokens line.text (ascii " \t")).length := by
    intro line
    rw [← line.tokens_text, List.length_map]
  simp only [Splits, count]
  rw [trimmedLines_forall (fun text => lead text ≠ some 35 → (tokens text (ascii " \t")).length ≤ 32)
    (fun _ => by decide) content]
  simp only [lead_trim]
  exact cutLines_forall (fun line => lead line ≠ some 35 →
    (tokens (trim line 32) (ascii " \t")).length ≤ 32) (fun _ => by decide) content whole

theorem initConfig_eq (content : Bytes) (whole : LinesFit content) :
    initConfig content =
      if LinesApart content ∧ CutFits content then
        (settings (directiveLines content)).map Loading.finished
      else none := by
  rw [initConfig, readLines_eq]
  by_cases apart : LinesApart content
  · simp only [apart, ↓reduceIte, true_and, settings, directiveLines,
      foldlM_initLine _ (trimmedLines_head content), splits_iff content whole]
    split_ifs <;> rfl
  · simp only [apart, ↓reduceIte, false_and]

theorem given_text (line : LineText) : (given line.tokens).map LineText.text = words line.text := by
  rw [← tokens_words, given, List.filter_map]
  rfl

theorem directiveLines_text (content : Bytes) (whole : LinesFit content) :
    (directiveLines content).map (List.map LineText.text) =
      (textLines content).filterMap directiveWords := by
  have fields : (directiveLines content).map (List.map LineText.text) =
      (trimmedLines content).filterMap (fun line => directiveWords line.text) := by
    rw [directiveLines, List.map_filterMap]
    congr 1
    funext line
    simp only [directiveFields, directiveWords]
    split_ifs
    · rfl
    · rw [Option.map_some, given_text]
  have trimmed : ∀ line, directiveWords (trim line 32) = directiveWords line := by
    intro line
    rw [directiveWords, lead_trim, words_trim, directiveWords]
  rw [fields, trimmedLines_filterMap directiveWords rfl content]
  simp only [trimmed]
  exact cutLines_filterMap directiveWords rfl content whole

end NetworkSystem.Http
