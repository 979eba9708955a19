import NetworkSystem.Http.InitConfig

/-! The content types that a configuration file gives, and the ones the server finds. -/

namespace NetworkSystem.Http

open Bytes

/-- The extension and the type of a `ContentType` directive that has both. -/
def complete : List Bytes → Option (Bytes × Bytes)
  | name :: extension :: type :: _ =>
      if lower name = ascii "contenttype" then some (extension, type) else none
  | _ => none

theorem complete_other (name : Bytes) (args : List Bytes)
    (other : lower name ≠ ascii "contenttype") : complete (name :: args) = none := by
  rcases args with _ | ⟨extension, _ | ⟨type, args⟩⟩
  · rfl
  · rfl
  · rw [complete, if_neg other]

theorem complete_mem (fields : List Bytes) (pair : Bytes × Bytes)
    (both : complete fields = some pair) : pair.1 ∈ fields ∧ pair.2 ∈ fields := by
  rcases fields with _ | ⟨name, _ | ⟨extension, _ | ⟨type, rest⟩⟩⟩
  · cases both
  · cases both
  · cases both
  · rw [complete] at both
    split_ifs at both
    rw [← Option.some.inj both]
    simp only [List.mem_cons, true_or, or_true, and_self]

/-- A directive that stores into the tables. -/
def UsesTables : List Bytes → Prop
  | name :: _ :: _ => lower name = ascii "contenttype"
  | _ => False

def arguments (name : Bytes) : List Bytes → List Bytes
  | [] => []
  | first :: fields => if lower first = name then fields else []

/-- The copy of `strip` on a root does not overlap: no quote stands in front, or more of them
than there are bytes behind. -/
def RootApart (fields : List Bytes) : Prop :=
  ∀ root ∈ (arguments (ascii "documentroot") fields).head?, ¬ Overlaps root 34

instance : DecidablePred RootApart :=
  fun fields => inferInstanceAs (Decidable (∀ root ∈ (arguments _ fields).head?, _))

/-- Behind `k` content types each directive that stores into the tables has room. -/
def Room : Nat → List (List Bytes) → Prop
  | _, [] => True
  | k, fields :: rest =>
      (UsesTables fields → k < 32) ∧ Room (k + (complete fields).toList.length) rest

/-- The content types of a loading, up to `k`. -/
structure Table (state : Loading) (found : List (Bytes × Bytes)) : Prop where
  extensions : state.conf.fileExtensions.length = 32
  types : state.conf.contentTypes.length = 32
  listed : found = (List.range state.k).map
    (fun i => (entry state.conf.fileExtensions i, entry state.conf.contentTypes i))

theorem Table.k_eq {state : Loading} {found : List (Bytes × Bytes)} (table : Table state found) :
    state.k = found.length := by
  rw [table.listed, List.length_map, List.length_range]

theorem Table.k_next {state next : Loading} {found : List (Bytes × Bytes)} {fields : List Bytes}
    (table : Table state found) (behind : Table next (found ++ (complete fields).toList)) :
    next.k = state.k + (complete fields).toList.length := by
  rw [behind.k_eq, List.length_append, table.k_eq]

theorem Table.defaults : Table ⟨defaults, 0⟩ [] := ⟨rfl, rfl, rfl⟩

theorem entry_set_self (strings : List (CString 128)) (k : Nat) (inside : k < strings.length)
    (string : CString 128) : entry (strings.set k string) k = string.text := by
  rw [entry, List.getElem?_set_self inside]

theorem entry_set_other (strings : List (CString 128)) (i k : Nat) (other : i ≠ k)
    (string : CString 128) : entry (strings.set k string) i = entry strings i := by
  rw [entry, List.getElem?_set_ne other.symm, entry]

theorem Table.keep {state next : Loading} {found : List (Bytes × Bytes)} (table : Table state found)
    (extensions : next.conf.fileExtensions = state.conf.fileExtensions)
    (types : next.conf.contentTypes = state.conf.contentTypes) (same : next.k = state.k) :
    Table next found := by
  refine ⟨?_, ?_, ?_⟩
  · rw [extensions, table.extensions]
  · rw [types, table.types]
  · rw [extensions, types, same, table.listed]

theorem Table.extension {state : Loading} {found : List (Bytes × Bytes)} (table : Table state found)
    (extension : LineText) :
    Table { state with conf := { state.conf with
      fileExtensions := state.conf.fileExtensions.set state.k extension.cstring } } found := by
  refine ⟨?_, table.types, ?_⟩
  · rw [List.length_set, table.extensions]
  · rw [table.listed]
    apply List.map_congr_left
    intro i inside
    rw [entry_set_other _ _ _ (Nat.ne_of_lt (List.mem_range.mp inside))]

theorem Table.type {state : Loading} {found : List (Bytes × Bytes)} (table : Table state found)
    (room : state.k < 32) (extension type : LineText) :
    Table ⟨storeContentType { state.conf with
        fileExtensions := state.conf.fileExtensions.set state.k extension.cstring } state.k type,
      state.k + 1⟩ (found ++ [(extension.text, type.text)]) := by
  refine ⟨?_, ?_, ?_⟩
  · rw [storeContentType, List.length_set, table.extensions]
  · rw [storeContentType, List.length_set, table.types]
  · rw [List.range_succ, List.map_append, List.map_singleton, table.listed, storeContentType,
      entry_set_self _ _ (by rw [table.extensions]; exact room),
      entry_set_self _ _ (by rw [table.types]; exact room)]
    congr 1
    apply List.map_congr_left
    intro i inside
    have other := Nat.ne_of_lt (List.mem_range.mp inside)
    rw [entry_set_other _ _ _ other, entry_set_other _ _ _ other]

theorem directive_contentType (state : Loading) (p : List LineText) :
    directive state (ascii "contenttype") p = contentType state p := rfl

def unquoted (field : LineText) : CString 256 :=
  rootString field (trim field.text 34) (trim_sublist _ _)

theorem documentRoot_eq (conf : Config) (p : List LineText) :
    documentRoot conf p =
      if ∀ field ∈ (given p).head?, ¬ Overlaps field.text 34 then
        some { conf with root := ((given p).head?.map unquoted).getD conf.root }
      else none := by
  rw [documentRoot]
  cases given p with
  | nil => simp
  | cons field rest =>
      simp only [List.head?_cons, Option.mem_def, Option.some.injEq, forall_eq']
      split_ifs with overlaps
      · have none_ : stripApart field.text 34 = none := if_pos overlaps
        simp only [none_, Option.pmap_none]
      · have left : stripApart field.text 34 = some (trim field.text 34) := if_neg overlaps
        simp only [left, Option.pmap_some]
        rfl

theorem directive_other (state : Loading) (name : Bytes) (p : List LineText)
    (other : name ≠ ascii "contenttype")
    (apart : name = ascii "documentroot" → ∀ field ∈ (given p).head?, ¬ Overlaps field.text 34) :
    ∃ conf, directive state name p = some { state with conf := conf } ∧
      conf.fileExtensions = state.conf.fileExtensions ∧
      conf.contentTypes = state.conf.contentTypes := by
  simp only [directive, other, ↓reduceIte]
  split_ifs with listen_ root_
  · refine ⟨_, rfl, ?_⟩
    rw [listen]
    split <;> exact ⟨rfl, rfl⟩
  · rw [documentRoot_eq, if_pos (apart root_)]
    exact ⟨_, rfl, rfl, rfl⟩
  · exact ⟨_, rfl, rfl, rfl⟩
  · refine ⟨_, rfl, ?_⟩
    rw [keepaliveTime]
    split <;> exact ⟨rfl, rfl⟩
  · exact ⟨state.conf, rfl, rfl, rfl⟩

theorem applyFields_table (state : Loading) (found : List (Bytes × Bytes)) (fields : List LineText)
    (table : Table state found) (some_ : given fields = fields)
    (apart : RootApart (fields.map LineText.text))
    (room : UsesTables (fields.map LineText.text) → state.k < 32) :
    ∃ next, applyFields state fields = some next ∧
      Table next (found ++ (complete (fields.map LineText.text)).toList) := by
  cases fields with
  | nil => exact ⟨state, rfl, by simpa [complete] using table⟩
  | cons name args =>
      have rest := given_tail name args some_
      by_cases named : lower name.text = ascii "contenttype"
      · rw [applyFields, named, directive_contentType, contentType, rest]
        cases args with
        | nil => exact ⟨state, rfl, by simpa [complete] using table⟩
        | cons extension types =>
            have inside := room named
            simp only [inside, ↓reduceIte]
            cases types with
            | nil => exact ⟨_, rfl, by simpa [complete] using table.extension extension⟩
            | cons type types =>
                refine ⟨_, rfl, ?_⟩
                simpa only [complete, List.map_cons, named, ↓reduceIte, Option.toList_some] using
                  table.type inside extension type
      · have apart_ : lower name.text = ascii "documentroot" →
            ∀ field ∈ (given args).head?, ¬ Overlaps field.text 34 := by
          intro root field first
          rw [rest] at first
          rw [List.map_cons, RootApart, arguments, if_pos root, List.head?_map] at apart
          exact apart _ (Option.mem_map_of_mem _ first)
        obtain ⟨conf, next, extensions, types⟩ :=
          directive_other state (lower name.text) args named apart_
        rw [List.map_cons, complete_other _ _ named, Option.toList_none, List.append_nil]
        exact ⟨_, next, table.keep extensions types rfl⟩

theorem foldlM_table (directives : List (List LineText)) (state : Loading)
    (found : List (Bytes × Bytes)) (table : Table state found)
    (some_ : ∀ fields ∈ directives, given fields = fields)
    (apart : ∀ fields ∈ directives.map (List.map LineText.text), RootApart fields)
    (room : Room state.k (directives.map (List.map LineText.text))) :
    ∃ next, directives.foldlM applyFields state = some next ∧
      Table next (found ++ (directives.map (List.map LineText.text)).filterMap complete) := by
  induction directives generalizing state found with
  | nil => exact ⟨state, rfl, by simpa using table⟩
  | cons fields rest ih =>
      rw [List.map_cons, Room] at room
      rw [List.map_cons, List.forall_mem_cons] at apart
      obtain ⟨next, applied, table_⟩ :=
        applyFields_table state found fields table (some_ fields List.mem_cons_self) apart.1 room.1
      obtain ⟨last, ends, table_last⟩ := ih next _ table_
        (fun fields member => some_ fields (List.mem_cons_of_mem _ member)) apart.2 (by
          rw [table.k_next table_]
          exact room.2)
      refine ⟨last, ?_, ?_⟩
      · rw [List.foldlM_cons, applied]
        exact ends
      · rw [List.append_assoc] at table_last
        rw [List.map_cons, List.filterMap_cons]
        cases entry_ : complete (fields.map LineText.text) with
        | none => rwa [entry_] at table_last
        | some listed => rwa [entry_] at table_last

theorem applyFields_apart (state next : Loading) (fields : List LineText)
    (some_ : given fields = fields) (applied : applyFields state fields = some next) :
    RootApart (fields.map LineText.text) := by
  cases fields with
  | nil =>
      intro _ none_
      cases none_
  | cons name args =>
      have rest := given_tail name args some_
      rw [List.map_cons, RootApart, arguments]
      split_ifs with named
      · have other : ascii "documentroot" ≠ ascii "listen" := by decide
        rw [applyFields, named, directive, if_neg other, if_pos rfl, documentRoot_eq, rest] at applied
        split_ifs at applied with apart
        · intro root first
          rw [List.head?_map] at first
          obtain ⟨field, inside, rfl⟩ := Option.map_eq_some_iff.mp first
          exact apart field inside
        · cases applied
      · intro _ none_
        cases none_

/-- A loop that ends has met no root that `strip` copies over itself. -/
theorem foldlM_apart (directives : List (List LineText)) (state next : Loading)
    (some_ : ∀ fields ∈ directives, given fields = fields)
    (loaded : directives.foldlM applyFields state = some next) :
    ∀ fields ∈ directives.map (List.map LineText.text), RootApart fields := by
  induction directives generalizing state with
  | nil =>
      intro _ member
      cases member
  | cons fields rest ih =>
      rw [List.forall_mem_cons] at some_
      rw [List.foldlM_cons] at loaded
      obtain ⟨middle, applied, later⟩ := Option.bind_eq_some_iff.mp loaded
      rw [List.map_cons, List.forall_mem_cons]
      exact ⟨applyFields_apart state middle fields some_.1 applied, ih middle some_.2 later⟩

/-- The line of a `ContentType` directive, complete or not. -/
def IsContentType (fields : List Bytes) : Prop :=
  fields.head?.map lower = some (ascii "contenttype")

instance : DecidablePred IsContentType := fun _ => inferInstanceAs (Decidable (_ = _))

theorem room_of_few (k : Nat) (directives : List (List Bytes))
    (few : k + (directives.filter (IsContentType ·)).length ≤ 32) :
    Room k directives := by
  induction directives generalizing k with
  | nil => trivial
  | cons fields rest ih =>
      by_cases named : IsContentType fields
      · rw [List.filter_cons_of_pos (by simpa using named), List.length_cons] at few
        refine ⟨fun _ => by omega, ih _ ?_⟩
        have one : (complete fields).toList.length ≤ 1 := by
          cases complete fields with
          | none => exact Nat.zero_le 1
          | some _ => exact Nat.le_refl 1
        omega
      · rw [List.filter_cons_of_neg (by simpa using named)] at few
        cases fields with
        | nil => exact ⟨False.elim, ih k few⟩
        | cons name args =>
            have other : lower name ≠ ascii "contenttype" := by simpa [IsContentType] using named
            rw [Room, complete_other name args other]
            refine ⟨fun uses => ?_, ih k few⟩
            cases args with
            | nil => exact uses.elim
            | cons arg args => exact absurd uses other

/-- The complete `ContentType` directives of a file. -/
def typeDirectives (content : Bytes) : List (Bytes × Bytes) :=
  (textLines content).filterMap (fun line => complete (words line))

/-- The directives that stand behind no tab. -/
def seenDirectives (content : Bytes) : List (Bytes × Bytes) :=
  ((textLines content).filter (fun line => lead line ≠ some 9)).filterMap
    (fun line => complete (words line))

def firstType (directives : List (Bytes × Bytes)) (extension : Bytes) : Option Bytes :=
  (directives.find? (fun listed => listed.1 = extension)).map Prod.snd

/-- The type that a file promises for an extension: the built-in one where it has no
complete directive. -/
def promisedType (content extension : Bytes) : Bytes :=
  if typeDirectives content = [] then
    if extension = ascii ".html" then ascii "text/html" else []
  else (firstType (typeDirectives content) extension).getD []

theorem complete_comment (line : Bytes) (comment : lead line = some 35) :
    complete (words line) = none := by
  cases cut : words line with
  | nil => rfl
  | cons name args =>
      have begins := head_words line name args 35 comment rfl cut
      apply complete_other name args
      intro same
      cases name with
      | nil => cases begins
      | cons byte rest =>
          rw [Option.some.inj begins] at same
          exact absurd (List.cons.inj same).1 (by decide)

theorem filterMap_directiveWords (lines : List Bytes) :
    (lines.filterMap directiveWords).filterMap complete =
      (lines.filter (fun line => lead line ≠ some 9)).filterMap
        (fun line => complete (words line)) := by
  rw [List.filterMap_filterMap, List.filterMap_filter]
  congr 1
  funext line
  rw [directiveWords]
  cases front : lead line with
  | none =>
      have empty := words_of_lead_none line front
      simp [empty, complete]
  | some byte =>
      by_cases comment : byte = 35
      · rw [comment] at front
        simp [comment, complete_comment line front]
      · by_cases tab : byte = 9
        · simp [tab]
        · simp [comment, tab]

theorem findContentType_table (state : Loading) (found : List (Bytes × Bytes)) (extension : Bytes)
    (table : Table state found) :
    findContentType state.finished extension =
      firstType found extension := by
  rw [findContentType, firstType, table.listed, List.find?_map, Option.map_map]
  rfl

def directiveTexts (content : Bytes) : List (List Bytes) :=
  (textLines content).filterMap directiveWords

/-- No copy of `strip` overlaps, on a line or on a root. -/
structure StripsApart (content : Bytes) : Prop where
  lines : LinesApart content
  roots : ∀ fields ∈ directiveTexts content, RootApart fields

theorem stripsApart_of_loaded (content : Bytes) (whole : LinesFit content) (conf : Config)
    (loaded : initConfig content = some conf) : StripsApart content ∧ CutFits content := by
  rw [initConfig_eq content whole] at loaded
  split_ifs at loaded with fine
  obtain ⟨state, loaded, -⟩ := Option.map_eq_some_iff.mp loaded
  have roots := foldlM_apart _ _ state
    (fun fields member => (directiveLines_given content fields member).1) loaded
  rw [directiveLines_text content whole] at roots
  exact ⟨⟨fine.1, roots⟩, fine.2⟩

theorem settings_table (content : Bytes) (whole : LinesFit content)
    (apart : ∀ fields ∈ directiveTexts content, RootApart fields)
    (room : Room 0 (directiveTexts content)) :
    ∃ state, settings (directiveLines content) = some state ∧
      Table state (seenDirectives content) := by
  rw [directiveTexts, ← directiveLines_text content whole] at apart room
  obtain ⟨state, loaded, table⟩ := foldlM_table _ ⟨defaults, 0⟩ [] Table.defaults
    (fun fields member => (directiveLines_given content fields member).1) apart room
  refine ⟨state, loaded, ?_⟩
  rwa [List.nil_append, directiveLines_text content whole, filterMap_directiveWords] at table

theorem room_of_lines (lines : List Bytes)
    (few : (lines.filter (fun line => IsContentType (words line))).length ≤ 32) :
    Room 0 (lines.filterMap directiveWords) := by
  have seen : lines.filterMap directiveWords =
      (lines.filter (fun line => lead line ∉ [none, some 9, some 35])).map words := by
    rw [← List.filterMap_eq_map, List.filterMap_filter]
    congr 1
    funext line
    simp only [directiveWords]
    split_ifs <;> simp_all
  apply room_of_few 0
  calc 0 + ((lines.filterMap directiveWords).filter (IsContentType ·)).length
    _ = ((lines.filter (fun line => lead line ∉ [none, some 9, some 35])).filter
          (fun line => IsContentType (words line))).length := by
        rw [seen, List.filter_map, List.length_map, Nat.zero_add]
        rfl
    _ ≤ (lines.filter (fun line => IsContentType (words line))).length :=
        (List.filter_sublist.filter _).length_le
    _ ≤ 32 := few

theorem firstType_ne_nil (lines : List Bytes) (extension type : Bytes)
    (first : firstType (lines.filterMap (fun line => complete (words line))) extension =
      some type) : type ≠ [] := by
  rw [firstType, Option.map_eq_some_iff] at first
  obtain ⟨listed, found, same⟩ := first
  obtain ⟨line, -, pair⟩ := List.mem_filterMap.mp (List.mem_of_find?_eq_some found)
  have some_ : ∀ word ∈ words line, word ≠ [] := by
    intro word member
    simpa using (List.mem_filter.mp member).2
  rw [← same]
  exact some_ _ (complete_mem _ _ pair).2

theorem getContentType_eq (conf : Config) (uri : Bytes) (dot : 46 ∈ uri)
    (short : (getFileExtension uri).length < 64) :
    getContentType conf uri =
      (findContentType conf (getFileExtension uri)).elim (some []) (storeText 64) := by
  have stored : storeText 64 (getFileExtension uri) = some (getFileExtension uri) :=
    storeText_eq_some.mpr ⟨short, rfl⟩
  have some_ : (getFileExtension uri).length ≠ 0 := by
    rw [getFileExtension, if_pos dot, List.length_cons]
    exact Nat.succ_ne_zero _
  simp only [getContentType, stored, some_, ne_eq, not_false_eq_true, ↓reduceIte]
  cases findContentType conf (getFileExtension uri) <;> rfl

theorem found_promised_iff (content extension : Bytes) :
    (firstType (seenDirectives content) extension).elim (some []) (storeText 64) =
        some (promisedType content extension) ↔
      (typeDirectives content ≠ [] ∨ extension ≠ ascii ".html") ∧
        firstType (seenDirectives content) extension =
          firstType (typeDirectives content) extension ∧
        ∀ type ∈ firstType (typeDirectives content) extension, type.length < 64 := by
  by_cases none_ : typeDirectives content = []
  · have seen : seenDirectives content = [] := by
      have fewer : (seenDirectives content).Sublist (typeDirectives content) :=
        List.filter_sublist.filterMap _
      rw [none_] at fewer
      exact List.sublist_nil.mp fewer
    simp only [promisedType, none_, seen, firstType, List.find?_nil, Option.map_none,
      Option.elim_none, ↓reduceIte, Option.some.injEq, ne_eq, not_true_eq_false, false_or,
      Option.mem_def, reduceCtorEq, false_imp_iff, implies_true, and_true]
    split_ifs with html
    · simp only [html, not_true_eq_false, iff_false]
      decide
    · simp only [html, not_false_eq_true]
  · rw [promisedType, if_neg none_]
    cases seen : firstType (seenDirectives content) extension with
    | none =>
        cases first : firstType (typeDirectives content) extension with
        | none => simp [none_]
        | some type => simp [(firstType_ne_nil _ _ _ first).symm]
    | some type =>
        have some_ := firstType_ne_nil _ _ _ seen
        cases first : firstType (typeDirectives content) extension with
        | none => simp [storeText_eq_some, some_]
        | some other =>
            simp only [Option.elim_some, Option.getD_some, storeText_eq_some, ne_eq, none_,
              not_false_eq_true, true_or, true_and, Option.some.injEq, Option.mem_def, forall_eq']
            constructor
            · rintro ⟨fits, same⟩
              exact ⟨same, same ▸ fits⟩
            · rintro ⟨same, fits⟩
              exact ⟨same ▸ fits, same⟩

/-- The server gives a file name the type that its configuration promises if and only if
no copy of `strip` overlaps, the lines are not cut into too many pieces, the built-in type is
not asked for, no directive behind a tab comes first with another type, and the type fits its
buffer. -/
theorem contentType_configured_iff (content uri : Bytes) (whole : LinesFit content)
    (few : ((textLines content).filter (fun line => IsContentType (words line))).length ≤ 32)
    (dot : 46 ∈ uri) (short : (getFileExtension uri).length < 64) :
    (∃ conf, initConfig content = some conf ∧
        getContentType conf uri = some (promisedType content (getFileExtension uri))) ↔
      (StripsApart content ∧ CutFits content) ∧
        (typeDirectives content ≠ [] ∨ getFileExtension uri ≠ ascii ".html") ∧
        firstType (seenDirectives content) (getFileExtension uri) =
          firstType (typeDirectives content) (getFileExtension uri) ∧
        ∀ type ∈ firstType (typeDirectives content) (getFileExtension uri), type.length < 64 := by
  by_cases fine : StripsApart content ∧ CutFits content
  · obtain ⟨state, loaded, table⟩ :=
      settings_table content whole fine.1.roots (room_of_lines _ few)
    have found := findContentType_table state _ (getFileExtension uri) table
    rw [initConfig_eq content whole, loaded, Option.map_some, if_pos ⟨fine.1.lines, fine.2⟩]
    simp only [fine, and_self, Option.some.injEq, exists_eq_left', true_and,
      getContentType_eq _ uri dot short, found]
    exact found_promised_iff content _
  · constructor
    · intro served
      obtain ⟨conf, loaded, -⟩ := served
      exact absurd (stripsApart_of_loaded content whole conf loaded) fine
    · intro all
      exact absurd all.1 fine

def sampleTypes : Bytes := ascii "contenttype  .txt\ttext/plain\nContentType .html\n"

theorem contentType_configured_iff_text :
    (∃ conf, initConfig sampleTypes = some conf ∧
        getContentType conf (ascii "/a.txt") =
          some (promisedType sampleTypes (getFileExtension (ascii "/a.txt")))) ↔
      (StripsApart sampleTypes ∧ CutFits sampleTypes) ∧
        (typeDirectives sampleTypes ≠ [] ∨ getFileExtension (ascii "/a.txt") ≠ ascii ".html") ∧
        firstType (seenDirectives sampleTypes) (getFileExtension (ascii "/a.txt")) =
          firstType (typeDirectives sampleTypes) (getFileExtension (ascii "/a.txt")) ∧
        ∀ type ∈ firstType (typeDirectives sampleTypes) (getFileExtension (ascii "/a.txt")),
          type.length < 64 :=
  contentType_configured_iff sampleTypes (ascii "/a.txt") (by rw [LinesFit]; decide) (by decide)
    (by decide) (by decide)

/-- A file without a content type: `count_content_types` is 0, and the built-in entry is
not looked at. -/
theorem builtIn_type_not_found :
    LinesFit (ascii "Listen 8888\n") ∧
      ((textLines (ascii "Listen 8888\n")).filter
        (fun line => IsContentType (words line))).length ≤ 32 ∧
      (∀ line ∈ textLines (ascii "Listen 8888\n"), (words line).length ≤ 32) ∧
      46 ∈ ascii "/index.html" ∧ getFileExtension (ascii "/index.html") = ascii ".html" ∧
      typeDirectives (ascii "Listen 8888\n") = [] ∧
      promisedType (ascii "Listen 8888\n") (ascii ".html") = ascii "text/html" ∧
      (initConfig (ascii "Listen 8888\n")).map (getContentType · (ascii "/index.html")) =
        some (some []) := by
  rw [LinesFit]
  decide

end NetworkSystem.Http
