import NetworkSystem.Http.ContentTypes

/-! What a configuration file sets: of the directives for one setting the last counts,
and the content types stand in their order. -/

namespace NetworkSystem.Http

open Bytes

section last

variable {α : Type} (value : List Bytes → Option α) (builtIn : α)

def last (directives : List (List Bytes)) : α := (directives.filterMap value).getLast?.getD builtIn

@[simp] theorem last_nil : last value builtIn [] = builtIn := rfl

theorem last_concat (directives : List (List Bytes)) (fields : List Bytes) :
    last value builtIn (directives ++ [fields]) =
      (value fields).getD (last value builtIn directives) := by
  rw [last, List.filterMap_append, List.filterMap_cons, List.filterMap_nil, last]
  cases value fields with
  | none => rw [List.append_nil, Option.getD_none]
  | some found => rw [List.getLast?_concat, Option.getD_some, Option.getD_some]

end last

def portOf (fields : List Bytes) : Option Nat :=
  (arguments (ascii "listen") fields).head?.map (fun field => (Dfc.atoi field % 65536).toNat)

def rootOf (fields : List Bytes) : Option Bytes :=
  (arguments (ascii "documentroot") fields).head?.map (trim · 34)

def indexOf (j : Nat) (fields : List Bytes) : Option Bytes :=
  (arguments (ascii "directoryindex") fields)[j]?

def keepaliveTimeOf (fields : List Bytes) : Option Nat :=
  (arguments (ascii "keepalivetime") fields).head?.map
    (fun field => (Dfc.atoi field % 4294967296).toNat)

def extensionOf (fields : List Bytes) : Option Bytes :=
  (arguments (ascii "contenttype") fields).head?

/-- The extension that waits for its type: the last one behind the complete directives. -/
def waitingExtension (directives : List (List Bytes)) : Bytes :=
  last extensionOf (if directives.filterMap complete = [] then ascii ".html" else [])
    (directives.rtakeWhile (fun fields => complete fields = none))

theorem filterMap_complete_part (directives : List (List Bytes)) (fields : List Bytes)
    (part : complete fields = none) :
    (directives ++ [fields]).filterMap complete = directives.filterMap complete := by
  rw [List.filterMap_append, List.filterMap_cons_none part, List.filterMap_nil, List.append_nil]

theorem waitingExtension_part (directives : List (List Bytes)) (fields : List Bytes)
    (part : complete fields = none) :
    waitingExtension (directives ++ [fields]) =
      (extensionOf fields).getD (waitingExtension directives) := by
  rw [waitingExtension, filterMap_complete_part directives fields part,
    List.rtakeWhile_concat_pos _ _ _ (by simpa using part), last_concat, waitingExtension]

theorem waitingExtension_complete (directives : List (List Bytes)) (fields : List Bytes)
    (pair : Bytes × Bytes) (both : complete fields = some pair) :
    waitingExtension (directives ++ [fields]) = [] := by
  have some_ : (directives ++ [fields]).filterMap complete ≠ [] := by
    rw [List.filterMap_append, List.filterMap_cons_some both]
    exact List.append_ne_nil_of_right_ne_nil _ (List.cons_ne_nil _ _)
  rw [waitingExtension, if_neg some_, List.rtakeWhile_concat_neg _ _ _ (by simp [both]), last_nil]

theorem listen_eq (conf : Config) (p : List LineText) :
    listen conf p = { conf with
      port := (((given p).map LineText.text).head?.map
        (fun field => (Dfc.atoi field % 65536).toNat)).getD conf.port } := by
  rw [listen]
  cases given p <;> rfl

theorem keepaliveTime_eq (conf : Config) (p : List LineText) :
    keepaliveTime conf p = { conf with
      keepaliveTime := (((given p).map LineText.text).head?.map
        (fun field => (Dfc.atoi field % 4294967296).toNat)).getD conf.keepaliveTime } := by
  rw [keepaliveTime]
  cases given p <;> rfl

/-- What one directive leaves of the settings outside the tables. -/
structure Sets (conf next : Config) (name : Bytes) (args : List LineText) : Prop where
  port : next.port = (portOf (name :: args.map LineText.text)).getD conf.port
  root : next.root.text = (rootOf (name :: args.map LineText.text)).getD conf.root.text
  keepaliveTime : next.keepaliveTime =
    (keepaliveTimeOf (name :: args.map LineText.text)).getD conf.keepaliveTime
  index : next.index = if lower name = ascii "directoryindex" then
    args.map LineText.cstring ++ conf.index.drop args.length else conf.index

theorem contentType_keeps (state next : Loading) (p : List LineText)
    (applied : contentType state p = some next) :
    next.conf.port = state.conf.port ∧ next.conf.root = state.conf.root ∧
      next.conf.keepaliveTime = state.conf.keepaliveTime ∧ next.conf.index = state.conf.index := by
  rw [contentType] at applied
  split at applied
  · rw [← Option.some.inj applied]
    exact ⟨rfl, rfl, rfl, rfl⟩
  · split at applied
    · split at applied
      · rw [← Option.some.inj applied]
        exact ⟨rfl, rfl, rfl, rfl⟩
      · rw [← Option.some.inj applied]
        exact ⟨rfl, rfl, rfl, rfl⟩
    · cases applied

theorem directive_sets (state next : Loading) (name : Bytes) (args : List LineText)
    (some_ : given args = args) (applied : directive state (lower name) args = some next) :
    Sets state.conf next.conf name args := by
  rw [directive] at applied
  split_ifs at applied with listen_ root_ index_ keep_ type_
  · rw [← Option.some.inj applied, listen_eq, some_]
    constructor <;> simp +decide [portOf, rootOf, keepaliveTimeOf, arguments, listen_]
  · rw [documentRoot_eq, some_] at applied
    split_ifs at applied
    · rw [← Option.some.inj applied]
      constructor <;> simp +decide [portOf, rootOf, keepaliveTimeOf, arguments, root_]
      cases args <;> rfl
    · cases applied
  · rw [← Option.some.inj applied, directoryIndex, some_]
    constructor <;> simp +decide [portOf, rootOf, keepaliveTimeOf, arguments, index_]
  · rw [← Option.some.inj applied, keepaliveTime_eq, some_]
    constructor <;> simp +decide [portOf, rootOf, keepaliveTimeOf, arguments, keep_]
  · obtain ⟨port, root, keepalive, index⟩ := contentType_keeps state next args applied
    constructor <;> simp +decide [portOf, rootOf, keepaliveTimeOf, arguments, *]
  · rw [← Option.some.inj applied]
    constructor <;> simp [portOf, rootOf, keepaliveTimeOf, arguments, *]

/-- The tables of a loading, behind `k` too. -/
structure Listed (state : Loading) (directives : List (List Bytes)) : Prop where
  table : Table state (directives.filterMap complete)
  waiting : state.k < 32 → entry state.conf.fileExtensions state.k = waitingExtension directives
  noExtension : ∀ i, state.k < i → entry state.conf.fileExtensions i = []
  noType : ∀ i, state.k ≤ i → entry state.conf.contentTypes i = entry defaults.contentTypes i

theorem Listed.part {state : Loading} {directives : List (List Bytes)}
    (listed : Listed state directives) (conf : Config) (fields : List Bytes)
    (part : complete fields = none) (none_ : extensionOf fields = none)
    (extensions : conf.fileExtensions = state.conf.fileExtensions)
    (types : conf.contentTypes = state.conf.contentTypes) :
    Listed { state with conf := conf } (directives ++ [fields]) := by
  refine ⟨?_, ?_, ?_, ?_⟩
  · rw [filterMap_complete_part directives fields part]
    exact listed.table.keep extensions types rfl
  · rw [waitingExtension_part directives fields part, none_, Option.getD_none]
    exact extensions ▸ listed.waiting
  · exact extensions ▸ listed.noExtension
  · exact types ▸ listed.noType

theorem Listed.extension {state : Loading} {directives : List (List Bytes)}
    (listed : Listed state directives) (room : state.k < 32) (name : Bytes) (extension : LineText)
    (named : lower name = ascii "contenttype") :
    Listed { state with conf := { state.conf with
        fileExtensions := state.conf.fileExtensions.set state.k extension.cstring } }
      (directives ++ [[name, extension.text]]) := by
  have part : complete [name, extension.text] = none := rfl
  refine ⟨?_, fun _ => ?_, fun i behind => ?_, listed.noType⟩
  · rw [filterMap_complete_part directives _ part]
    exact listed.table.extension extension
  · rw [entry_set_self _ _ (by rw [listed.table.extensions]; exact room),
      waitingExtension_part directives _ part, extensionOf, arguments, if_pos named]
    rfl
  · rw [entry_set_other _ _ _ (Nat.ne_of_gt behind)]
    exact listed.noExtension i behind

theorem Listed.type {state : Loading} {directives : List (List Bytes)}
    (listed : Listed state directives) (room : state.k < 32) (name : Bytes)
    (extension type : LineText) (rest : List Bytes) (named : lower name = ascii "contenttype") :
    Listed ⟨storeContentType { state.conf with
        fileExtensions := state.conf.fileExtensions.set state.k extension.cstring } state.k type,
      state.k + 1⟩ (directives ++ [name :: extension.text :: type.text :: rest]) := by
  have both : complete (name :: extension.text :: type.text :: rest) =
      some (extension.text, type.text) := by
    rw [complete, if_pos named]
  refine ⟨?_, fun _ => ?_, fun i (behind : state.k + 1 < i) => ?_,
    fun i (behind : state.k + 1 ≤ i) => ?_⟩
  · rw [List.filterMap_append, List.filterMap_cons_some both]
    exact listed.table.type room extension type
  · rw [waitingExtension_complete directives _ _ both, storeContentType,
      entry_set_other _ _ _ (Nat.succ_ne_self _)]
    exact listed.noExtension _ (Nat.lt_succ_self _)
  · rw [storeContentType, entry_set_other _ _ _ (by omega)]
    exact listed.noExtension i (by omega)
  · rw [storeContentType, entry_set_other _ _ _ (by omega)]
    exact listed.noType i (by omega)

theorem directive_listed (state next : Loading) (directives : List (List Bytes)) (name : Bytes)
    (args : List LineText) (listed : Listed state directives) (some_ : given args = args)
    (applied : directive state (lower name) args = some next) :
    Listed next (directives ++ [name :: args.map LineText.text]) := by
  by_cases named : lower name = ascii "contenttype"
  · rw [named, directive_contentType, contentType, some_] at applied
    cases args with
    | nil =>
        rw [← Option.some.inj applied]
        exact listed.part state.conf _ rfl (by simp [extensionOf, arguments]) rfl rfl
    | cons extension types =>
        by_cases room : state.k < 32
        · simp only [room, ↓reduceIte] at applied
          cases types with
          | nil =>
              rw [← Option.some.inj applied]
              exact listed.extension room name extension named
          | cons type types =>
              rw [← Option.some.inj applied]
              exact listed.type room name extension type _ named
        · simp only [room, ↓reduceIte, reduceCtorEq] at applied
  · have apart : lower name = ascii "documentroot" →
        ∀ field ∈ (given args).head?, ¬ Overlaps field.text 34 := by
      intro root
      have other : ascii "documentroot" ≠ ascii "listen" := by decide
      rw [root, directive, if_neg other, if_pos rfl, documentRoot_eq] at applied
      split_ifs at applied with apart
      · exact apart
      · cases applied
    obtain ⟨conf, next_, extensions, types⟩ :=
      directive_other state (lower name) args named apart
    rw [applied, Option.some.injEq] at next_
    rw [next_]
    refine listed.part conf _ (complete_other _ _ named) ?_ extensions types
    rw [extensionOf, arguments, if_neg named]
    rfl

/-- A loading shows what the directives so far have set. -/
structure Shows (state : Loading) (directives : List (List Bytes)) : Prop extends
    Listed state directives where
  port : state.conf.port = last portOf 80 directives
  root : state.conf.root.text = last rootOf (ascii ".") directives
  keepaliveTime : state.conf.keepaliveTime = last keepaliveTimeOf 0 directives
  indexes : state.conf.index.length = 32
  index : ∀ j, entry state.conf.index j = last (indexOf j) (entry defaults.index j) directives

theorem entry_replicate (count i : Nat) : entry (List.replicate count emptyString) i = [] := by
  rw [entry, List.getElem?_replicate]
  split_ifs <;> rfl

theorem entry_indexes (args : List LineText) (old : List (CString 128)) (j : Nat) :
    entry (args.map LineText.cstring ++ old.drop args.length) j =
      ((args.map LineText.text)[j]?).getD (entry old j) := by
  by_cases inside : j < args.length
  · rw [entry, List.getElem?_append_left (by rwa [List.length_map]), List.getElem?_map,
      List.getElem?_map, List.getElem?_eq_getElem inside]
    rfl
  · have behind : args.length ≤ j := Nat.not_lt.mp inside
    have none_ : (args.map LineText.text)[j]? = none :=
      List.getElem?_eq_none (by rwa [List.length_map])
    rw [entry, List.getElem?_append_right (by rwa [List.length_map]), List.length_map,
      List.getElem?_drop, Nat.add_sub_cancel' behind, none_]
    rfl

theorem Shows.defaults : Shows ⟨defaults, 0⟩ [] where
  table := Table.defaults
  waiting := fun _ => rfl
  noExtension := fun i behind => by
    rw [Http.defaults, entry_set_other _ _ _ (Nat.ne_of_gt behind), entry_replicate]
  noType := fun _ _ => rfl
  port := rfl
  root := rfl
  keepaliveTime := rfl
  indexes := rfl
  index := fun _ => rfl

theorem directive_shows (state next : Loading) (directives : List (List Bytes)) (name : Bytes)
    (args : List LineText) (shows : Shows state directives) (some_ : given args = args)
    (few : args.length < 32)
    (applied : directive state (lower name) args = some next) :
    Shows next (directives ++ [name :: args.map LineText.text]) := by
  have sets := directive_sets state next name args some_ applied
  refine ⟨directive_listed state next directives name args shows.toListed some_ applied,
    ?_, ?_, ?_, ?_, ?_⟩
  · rw [last_concat, sets.port, shows.port]
  · rw [last_concat, sets.root, shows.root]
  · rw [last_concat, sets.keepaliveTime, shows.keepaliveTime]
  · rw [sets.index]
    split_ifs
    · rw [List.length_append, List.length_map, List.length_drop, shows.indexes]
      omega
    · exact shows.indexes
  · intro j
    rw [last_concat, sets.index, ← shows.index, indexOf, arguments]
    split_ifs with index_
    · exact entry_indexes args state.conf.index j
    · rfl

theorem Shows.nothing {state : Loading} {directives : List (List Bytes)}
    (shows : Shows state directives) : Shows state (directives ++ [[]]) := by
  refine ⟨shows.toListed.part state.conf [] rfl rfl rfl rfl, ?_, ?_, ?_, shows.indexes, fun j => ?_⟩
  · rw [last_concat, shows.port]
    rfl
  · rw [last_concat, shows.root]
    rfl
  · rw [last_concat, shows.keepaliveTime]
    rfl
  · rw [last_concat, shows.index]
    rfl

theorem foldlM_shows (directives : List (List LineText)) (state next : Loading)
    (before : List (List Bytes)) (shows : Shows state before)
    (some_ : ∀ fields ∈ directives, given fields = fields)
    (few : ∀ fields ∈ directives, fields.length ≤ 32)
    (loaded : directives.foldlM applyFields state = some next) :
    Shows next (before ++ directives.map (List.map LineText.text)) := by
  induction directives generalizing state before with
  | nil =>
      rw [← Option.some.inj loaded, List.map_nil, List.append_nil]
      exact shows
  | cons fields rest ih =>
      rw [List.forall_mem_cons] at some_ few
      rw [List.foldlM_cons] at loaded
      obtain ⟨middle, applied, loaded_⟩ := Option.bind_eq_some_iff.mp loaded
      have shows_ : Shows middle (before ++ [fields.map LineText.text]) := by
        cases fields with
        | nil =>
            rw [← Option.some.inj applied]
            exact shows.nothing
        | cons name args =>
            exact directive_shows state middle before name.text args shows
              (given_tail name args some_.1) few.1 applied
      have ends := ih middle _ shows_ some_.2 few.2 loaded_
      rwa [List.append_assoc] at ends

theorem applyFields_full (state : Loading) (fields : List LineText) (some_ : given fields = fields)
    (uses : UsesTables (fields.map LineText.text)) (full : ¬ state.k < 32) :
    applyFields state fields = none := by
  cases fields with
  | nil => exact uses.elim
  | cons name args =>
      have args_ := given_tail name args some_
      cases args with
      | nil => exact uses.elim
      | cons extension types =>
          have named : lower name.text = ascii "contenttype" := uses
          rw [applyFields, named, directive_contentType, contentType, args_]
          simp only [full, ↓reduceIte]

theorem foldlM_room (directives : List (List LineText)) (state next : Loading)
    (found : List (Bytes × Bytes)) (table : Table state found)
    (some_ : ∀ fields ∈ directives, given fields = fields)
    (loaded : directives.foldlM applyFields state = some next) :
    Room state.k (directives.map (List.map LineText.text)) := by
  induction directives generalizing state found with
  | nil => trivial
  | cons fields rest ih =>
      rw [List.forall_mem_cons] at some_
      rw [List.foldlM_cons] at loaded
      obtain ⟨middle, applied, loaded_⟩ := Option.bind_eq_some_iff.mp loaded
      have room : UsesTables (fields.map LineText.text) → state.k < 32 := by
        intro uses
        by_contra full
        rw [applyFields_full state fields some_.1 uses full] at applied
        cases applied
      obtain ⟨middle_, applied_, table_⟩ := applyFields_table state found fields table some_.1
        (applyFields_apart state middle fields some_.1 applied) room
      have same : middle_ = middle := Option.some.inj (applied_.symm.trans applied)
      rw [same] at table_
      refine ⟨room, ?_⟩
      rw [← table.k_next table_]
      exact ih middle _ table_ some_.2 loaded_

/-- The loop over a file overruns no array, and no copy of `strip` overlaps. -/
structure Sound (content : Bytes) : Prop where
  apart : StripsApart content
  cut : CutFits content
  room : Room 0 (directiveTexts content)

theorem initConfig_shows (content : Bytes) (whole : LinesFit content) (conf : Config)
    (loaded : initConfig content = some conf) :
    Sound content ∧ ∃ state, conf = state.finished ∧ Shows state (directiveTexts content) := by
  obtain ⟨apart, fits⟩ := stripsApart_of_loaded content whole conf loaded
  rw [initConfig_eq content whole, if_pos ⟨apart.lines, fits⟩] at loaded
  obtain ⟨state, loaded, same⟩ := Option.map_eq_some_iff.mp loaded
  have splits := (splits_iff content whole).mpr fits
  have some_ : ∀ fields ∈ directiveLines content, given fields = fields :=
    fun fields member => (directiveLines_given content fields member).1
  have room := foldlM_room _ _ state [] Table.defaults some_ loaded
  have shows := foldlM_shows _ _ state [] Shows.defaults some_
    (fun fields member => (directiveLines_given content fields member).2 splits) loaded
  rw [directiveLines_text content whole] at room shows
  exact ⟨⟨apart, fits, room⟩, state, same.symm, shows⟩

theorem initConfig_some (content : Bytes) (whole : LinesFit content) (sound : Sound content) :
    ∃ conf, initConfig content = some conf := by
  obtain ⟨state, loaded, -⟩ := settings_table content whole sound.apart.roots sound.room
  rw [initConfig_eq content whole, if_pos ⟨sound.apart.lines, sound.cut⟩, loaded]
  exact ⟨_, rfl⟩

/-- Two lists of directives set the same. -/
structure Agree (one two : List (List Bytes)) : Prop where
  port : last portOf 80 one = last portOf 80 two
  root : last rootOf (ascii ".") one = last rootOf (ascii ".") two
  keepaliveTime : last keepaliveTimeOf 0 one = last keepaliveTimeOf 0 two
  index : ∀ j, last (indexOf j) (entry defaults.index j) one =
    last (indexOf j) (entry defaults.index j) two
  types : one.filterMap complete = two.filterMap complete
  waiting : (one.filterMap complete).length < 32 → waitingExtension one = waitingExtension two

theorem strings_ext (one two : List (CString 128)) (lengths : one.length = two.length)
    (entries : ∀ i < one.length, entry one i = entry two i) : one = two := by
  apply List.ext_getElem lengths
  intro i inside inside_
  have same := entries i inside
  rw [entry, entry, List.getElem?_eq_getElem inside, List.getElem?_eq_getElem inside_] at same
  cases first : one[i] with
  | mk text fits clean =>
      cases second : two[i] with
      | mk text_ fits_ clean_ =>
          rw [first, second] at same
          cases same
          rfl

theorem Config.same (one two : Config) (port : one.port = two.port)
    (keepaliveTime : one.keepaliveTime = two.keepaliveTime)
    (count : one.countContentTypes = two.countContentTypes) (root : one.root.text = two.root.text)
    (index : one.index = two.index) (extensions : one.fileExtensions = two.fileExtensions)
    (types : one.contentTypes = two.contentTypes) : one = two := by
  have roots : one.root = two.root := by
    cases first : one.root with
    | mk text fits clean =>
        cases second : two.root with
        | mk text_ fits_ clean_ =>
            rw [first, second] at root
            cases root
            rfl
  cases one
  cases two
  simp only at port keepaliveTime count roots index extensions types
  simp only [port, keepaliveTime, count, roots, index, extensions, types]

theorem tables_eq (one two : Loading) (first second : List (List Bytes))
    (listed : Listed one first) (listed_ : Listed two second)
    (types : first.filterMap complete = second.filterMap complete)
    (wait : (first.filterMap complete).length < 32 →
      waitingExtension first = waitingExtension second) :
    one.k = two.k ∧ one.conf.fileExtensions = two.conf.fileExtensions ∧
      one.conf.contentTypes = two.conf.contentTypes := by
  have count : one.k = two.k := by
    rw [listed.table.k_eq, listed_.table.k_eq, types]
  have inside : ∀ i < one.k,
      entry one.conf.fileExtensions i = entry two.conf.fileExtensions i ∧
        entry one.conf.contentTypes i = entry two.conf.contentTypes i := by
    have same := listed.table.listed.symm.trans (types.trans listed_.table.listed)
    rw [← count, List.map_inj_left] at same
    exact fun i less => Prod.mk.inj (same i (List.mem_range.mpr less))
  refine ⟨count, ?_, ?_⟩
  · refine strings_ext _ _ (listed.table.extensions.trans listed_.table.extensions.symm)
      (fun i less => ?_)
    rw [listed.table.extensions] at less
    rcases Nat.lt_trichotomy i one.k with before | here | behind
    · exact (inside i before).1
    · rw [here] at less ⊢
      rw [listed.waiting less, wait (by rwa [← listed.table.k_eq]),
        ← listed_.waiting (by rwa [← count]), count]
    · rw [listed.noExtension i behind, listed_.noExtension i (by rwa [← count])]
  · apply strings_ext _ _ (listed.table.types.trans listed_.table.types.symm)
    intro i less
    by_cases before : i < one.k
    · exact (inside i before).2
    · have behind := Nat.not_lt.mp before
      rw [listed.noType i behind, listed_.noType i (by rwa [← count])]

theorem finished_eq_iff (one two : Loading) (first second : List (List Bytes))
    (shows : Shows one first) (shows_ : Shows two second) :
    one.finished = two.finished ↔ Agree first second := by
  constructor
  · intro same
    simp only [Loading.finished, Config.mk.injEq] at same
    obtain ⟨port, keepaliveTime, count, root, index, extensions, types⟩ := same
    refine ⟨?_, ?_, ?_, fun j => ?_, ?_, fun room => ?_⟩
    · rw [← shows.port, port, shows_.port]
    · rw [← shows.root, root, shows_.root]
    · rw [← shows.keepaliveTime, keepaliveTime, shows_.keepaliveTime]
    · rw [← shows.index, index, shows_.index]
    · rw [shows.table.listed, shows_.table.listed, count, extensions, types]
    · rw [← shows.table.k_eq] at room
      rw [← shows.waiting room, ← shows_.waiting (by rwa [← count]), extensions, count]
  · intro agree
    obtain ⟨count, extensions, types⟩ :=
      tables_eq one two first second shows.toListed shows_.toListed agree.types agree.waiting
    refine Config.same _ _ ?_ ?_ count ?_ ?_ extensions types
    · change one.conf.port = two.conf.port
      rw [shows.port, agree.port, shows_.port]
    · change one.conf.keepaliveTime = two.conf.keepaliveTime
      rw [shows.keepaliveTime, agree.keepaliveTime, shows_.keepaliveTime]
    · change one.conf.root.text = two.conf.root.text
      rw [shows.root, agree.root, shows_.root]
    · apply strings_ext _ _ (shows.indexes.trans shows_.indexes.symm)
      intro j _
      rw [shows.index, agree.index, shows_.index]

/-- Two files make one configuration if and only if the loop over either is sound and
their directives set the same. -/
theorem initConfig_eq_iff (one two : Bytes) (whole : LinesFit one) (whole_ : LinesFit two) :
    (∃ conf, initConfig one = some conf ∧ initConfig two = some conf) ↔
      Sound one ∧ Sound two ∧ Agree (directiveTexts one) (directiveTexts two) := by
  constructor
  · rintro ⟨conf, loaded, loaded_⟩
    obtain ⟨sound, state, same, shows⟩ := initConfig_shows one whole conf loaded
    obtain ⟨sound_, state_, same_, shows_⟩ := initConfig_shows two whole_ conf loaded_
    exact ⟨sound, sound_, (finished_eq_iff _ _ _ _ shows shows_).mp (same.symm.trans same_)⟩
  · rintro ⟨sound, sound_, agree⟩
    obtain ⟨conf, loaded⟩ := initConfig_some one whole sound
    obtain ⟨conf_, loaded_⟩ := initConfig_some two whole_ sound_
    obtain ⟨-, state, same, shows⟩ := initConfig_shows one whole conf loaded
    obtain ⟨-, state_, same_, shows_⟩ := initConfig_shows two whole_ conf_ loaded_
    have equal : conf = conf_ := by
      rw [same, same_]
      exact (finished_eq_iff _ _ _ _ shows shows_).mpr agree
    exact ⟨conf, loaded, equal ▸ loaded_⟩

end NetworkSystem.Http
