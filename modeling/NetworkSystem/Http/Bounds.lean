import NetworkSystem.Http.Parse

/-! Which requests `parse_http_req` can take apart without running past one of its
arrays. -/

namespace NetworkSystem.Http

open Bytes

def requestTokens (buf : Bytes) : List Bytes :=
  tokens (removeEndl ((tokens buf [10]).getD 0 [])) [32]

def requestUri (conf : Config) (buf : Bytes) : Bytes :=
  let uri := (requestTokens buf).getD 1 []
  if uri = ascii "/" then uri ++ entry conf.index 0 else uri

/-- The lines in front of the first empty one, as `split_first` finds them. -/
def headerLines (lines : List Bytes) : List Bytes :=
  ((lines.map removeEndl).takeWhile (· ≠ [])).map lower

def bodyLines (lines : List Bytes) : List Bytes :=
  (lines.dropWhile (fun line => removeEndl line ≠ [])).drop 1

def bodyText (lines : List Bytes) : Bytes := List.intercalate [10] (bodyLines lines)

/-- A request line of three tokens or more and what stands behind it. -/
structure PartsFit (conf : Config) (buf : Bytes) : Prop where
  extension : (getFileExtension (requestUri conf buf)).length < 64
  contentType : getFileExtension (requestUri conf buf) ≠ [] →
    ∀ found ∈ findContentType conf (getFileExtension (requestUri conf buf)), found.length < 64
  headers : ∀ line ∈ headerLines ((tokens buf [10]).drop 1),
    (splitFirst line 58).1.length < 128 ∧ (splitFirst line 58).2.length < 128
  body : (bodyText ((tokens buf [10]).drop 1)).length < 2048

/-- The requests that stay within the arrays. `host` and `uri` always fit. -/
structure Fits (conf : Config) (buf : Bytes) : Prop where
  lines : (tokens buf [10]).length ≤ 32
  lineSizes : ∀ line ∈ tokens buf [10], line.length < 256
  tokens : (requestTokens buf).length ≤ 4
  tokenSizes : ∀ token ∈ requestTokens buf, token.length < 128
  parts : 3 ≤ (requestTokens buf).length → PartsFit conf buf

/-- `strip` has a result wherever the header loop calls it on this line. -/
def Readable [Overlapping] (line : Bytes) : Prop :=
  ∃ name ∈ strip (splitFirst line 58).1 32,
    name ∈ [ascii "host", ascii "connection"] → (strip (splitFirst line 58).2 32).isSome = true

theorem readable [Letters] (line : Bytes) : Readable line := by
  obtain ⟨name, stripped⟩ := Option.isSome_iff_exists.mp (strip_isSome (splitFirst line 58).1 32)
  exact ⟨name, stripped, fun _ => strip_isSome _ _⟩

theorem getContentType_isSome (conf : Config) (filename : Bytes) :
    (getContentType conf filename).isSome = true ↔
      (getFileExtension filename).length < 64 ∧
        (getFileExtension filename ≠ [] →
          ∀ found ∈ findContentType conf (getFileExtension filename), found.length < 64) := by
  simp only [getContentType, storeText]
  split_ifs with room
  · simp only [room, true_and]
    by_cases empty : getFileExtension filename = []
    · simp [empty]
    · have some_ : (getFileExtension filename).length ≠ 0 := by
        simpa only [ne_eq, List.length_eq_zero_iff] using empty
      simp only [some_, ne_eq, not_false_eq_true, ↓reduceIte, empty, forall_const]
      cases findContentType conf (getFileExtension filename) with
      | none => simp
      | some found =>
          simp only [Option.mem_def, Option.some.injEq, forall_eq']
          split_ifs with fits <;> simp [fits]
  · simp [room]

theorem storeUri_eq (conf : Config) (token : Bytes) (short : token.length < 128) :
    storeUri conf token =
      some (if token = ascii "/" then token ++ entry conf.index 0 else token) := by
  have index := entry_length conf.index 0 (by omega)
  have stored : storeText 1024 token = some token := storeText_eq_some.mpr ⟨by omega, rfl⟩
  simp only [storeUri, stored]
  split_ifs
  · apply storeText_eq_some.mpr
    rw [List.length_append]
    exact ⟨by omega, rfl⟩
  · rfl

theorem length_getD_lt {texts : List Bytes} {size : Nat} (room : 0 < size)
    (sizes : ∀ text ∈ texts, text.length < size) (i : Nat) : (texts.getD i []).length < size := by
  rw [List.getD_eq_getElem?_getD]
  cases found : texts[i]? with
  | none => exact room
  | some text => exact sizes text (List.mem_of_getElem? found)

theorem parseRequestLine_isSome (conf : Config) (p : List Bytes) (req : ParsedReq)
    (sizes : ∀ token ∈ p, token.length < 128) :
    let uri := if p.getD 1 [] = ascii "/" then p.getD 1 [] ++ entry conf.index 0 else p.getD 1 []
    (parseRequestLine conf p req).isSome = (getContentType conf uri).isSome := by
  simp only [parseRequestLine, storeUri_eq conf _ (length_getD_lt (by omega) sizes 1)]
  cases getContentType conf (if p.getD 1 [] = ascii "/" then p.getD 1 [] ++ entry conf.index 0
    else p.getD 1 []) <;> rfl

theorem splitHeader_isSome [Overlapping] (line : Bytes) :
    (splitHeader line).isSome = true ↔
      ((splitFirst (lower line) 58).1.length < 128 ∧ (splitFirst (lower line) 58).2.length < 128) ∧
        (strip (splitFirst (lower line) 58).1 32).isSome = true := by
  simp only [splitHeader, storeText]
  split_ifs with first second second <;> simp [first, second]

theorem splitHeader_eq_some [Overlapping] {line name value : Bytes}
    (parts : splitHeader line = some (name, value)) :
    strip (splitFirst (lower line) 58).1 32 = some name ∧
      (splitFirst (lower line) 58).2 = value := by
  have sizes := ((splitHeader_isSome line).mp (by rw [parts]; rfl)).1
  simp only [splitHeader, storeText, sizes, ↓reduceIte, Option.map_eq_some_iff,
    Prod.mk.injEq] at parts
  obtain ⟨first, stripped, same, value_⟩ := parts
  rw [stripped, same]
  exact ⟨rfl, value_⟩

theorem host_isSome [Overlapping] (value : Bytes) (short : value.length < 128) :
    ((strip value 32).bind (storeText 256)).isSome = (strip value 32).isSome := by
  cases stripped : strip value 32 with
  | none => rfl
  | some host =>
      have size := length_strip_le stripped
      rw [Option.bind_some, storeText, if_pos (by omega)]

theorem parseHeader_isSome [Overlapping] (line : Bytes) (req : ParsedReq) :
    (parseHeader line req).isSome = true ↔
      ((splitFirst (lower line) 58).1.length < 128 ∧ (splitFirst (lower line) 58).2.length < 128) ∧
        Readable (lower line) := by
  cases parts : splitHeader line with
  | none =>
      have failed := splitHeader_isSome line
      simp only [parts, Option.isSome_none, Bool.false_eq_true, false_iff] at failed
      simp only [parseHeader, parts, Option.isSome_none, Bool.false_eq_true, false_iff]
      intro fine
      obtain ⟨name, stripped, -⟩ := fine.2
      exact failed ⟨fine.1, by rw [stripped]; rfl⟩
  | some pair =>
      have sizes := ((splitHeader_isSome line).mp (by rw [parts]; rfl)).1
      have both := splitHeader_eq_some parts
      rw [both.2] at sizes
      have host := host_isSome pair.2 sizes.2
      simp only [parseHeader, parts, Readable, both.1, both.2, sizes, Option.mem_def,
        Option.some.injEq, exists_eq_left', and_self, true_and, List.mem_cons, List.not_mem_nil,
        or_false]
      by_cases isHost : pair.1 = ascii "host"
      · simp only [isHost, ↓reduceIte, true_or, forall_const]
        rw [← host]
        cases (strip pair.2 32).bind (storeText 256) <;> simp
      · by_cases connection : pair.1 = ascii "connection"
        · simp only [connection, or_true, forall_const]
          rw [if_neg (by decide), if_pos trivial]
          cases strip pair.2 32 <;> simp
        · simp [isHost, connection]

theorem parseHeaders_isSome [Overlapping] (lines : List Bytes) (req : ParsedReq) :
    (parseHeaders lines req).isSome = true ↔ ∀ line ∈ headerLines lines,
      ((splitFirst line 58).1.length < 128 ∧ (splitFirst line 58).2.length < 128) ∧
        Readable line := by
  induction lines generalizing req with
  | nil => simp [parseHeaders, headerLines]
  | cons line rest ih =>
      by_cases empty : removeEndl line = []
      · have none_ : headerLines (line :: rest) = [] := by
          rw [headerLines, List.map_cons, List.takeWhile_cons_of_neg (by simpa using empty),
            List.map_nil]
        simp only [parseHeaders, empty, ↓reduceIte, Option.isSome_some, none_, List.not_mem_nil,
          false_implies, implies_true]
      · have unfolded : headerLines (line :: rest) = lower (removeEndl line) :: headerLines rest := by
          simp only [headerLines, List.map_cons]
          rw [List.takeWhile_cons_of_pos (by simpa using empty), List.map_cons]
        rw [unfolded, List.forall_mem_cons, ← parseHeader_isSome _ req]
        simp only [parseHeaders, empty, ↓reduceIte]
        cases parseHeader (removeEndl line) req with
        | none => simp
        | some next => simp [ih next]

theorem parseHeader_keeps [Overlapping] (line : Bytes) (req next : ParsedReq)
    (parsed : parseHeader line req = some next) :
    next = { req with host := next.host, keepAlive := next.keepAlive } := by
  simp only [parseHeader] at parsed
  split at parsed
  · cases parsed
  · rename_i first second _
    by_cases host : first = ascii "host"
    · simp only [host, ↓reduceIte] at parsed
      cases stored : (strip second 32).bind (storeText 256) with
      | none => simp only [stored, reduceCtorEq] at parsed
      | some value =>
          simp only [stored] at parsed
          rw [← Option.some.inj parsed]
    · by_cases connection : first = ascii "connection"
      · rw [if_neg host, if_pos connection] at parsed
        cases stripped : strip second 32 with
        | none => simp [stripped] at parsed
        | some value =>
            simp only [stripped] at parsed
            rw [← Option.some.inj parsed]
      · simp only [host, connection, ↓reduceIte] at parsed
        rw [← Option.some.inj parsed]

theorem parseHeaders_rest [Overlapping] (lines : List Bytes) (req : ParsedReq)
    (result : ParsedReq × List Bytes)
    (parsed : parseHeaders lines req = some result) :
    result.2 = bodyLines lines ∧ result.1.postData = req.postData ∧
      result.1.contentType = req.contentType := by
  induction lines generalizing req with
  | nil =>
      rw [← Option.some.inj parsed]
      exact ⟨rfl, rfl, rfl⟩
  | cons line rest ih =>
      simp only [parseHeaders] at parsed
      by_cases empty : removeEndl line = []
      · simp only [empty, ↓reduceIte, Option.some.injEq] at parsed
        rw [← parsed]
        refine ⟨?_, rfl, rfl⟩
        rw [bodyLines, List.dropWhile_cons_of_neg (by simpa using empty), List.drop_one,
          List.tail_cons]
      · simp only [empty, ↓reduceIte] at parsed
        cases head : parseHeader (removeEndl line) req with
        | none => simp only [head, reduceCtorEq] at parsed
        | some next =>
            simp only [head] at parsed
            have only := parseHeader_keeps _ req next head
            have body := congrArg (fun parsed : ParsedReq => parsed.postData) only
            have type := congrArg (fun parsed : ParsedReq => parsed.contentType) only
            simp only at body type
            rw [bodyLines, List.dropWhile_cons_of_pos (by simpa using empty), ← body, ← type]
            exact ih next parsed

theorem appendLines_eq (lines : List Bytes) (postData : Bytes) (front : postData.length < 2048) :
    appendLines lines postData = storeText 2048 (postData ++ List.intercalate [10] lines) := by
  induction lines generalizing postData with
  | nil =>
      have same : storeText 2048 postData = some postData := storeText_eq_some.mpr ⟨front, rfl⟩
      simpa [appendLines] using same.symm
  | cons line rest ih =>
      cases rest with
      | nil =>
          simp only [appendLines, ne_eq, not_true_eq_false, ↓reduceIte]
          cases stored : storeText 2048 (postData ++ line) with
          | none => simpa using stored.symm
          | some joined => simpa using stored.symm
      | cons next tail =>
          have whole : postData ++ List.intercalate [10] (line :: next :: tail) =
              postData ++ line ++ [10] ++ List.intercalate [10] (next :: tail) := by
            simp
          have size := congrArg List.length whole
          simp only [List.length_append, List.length_singleton] at size
          by_cases fits : (postData ++ line ++ [10]).length < 2048
          · have fits' := fits
            simp only [List.length_append, List.length_singleton] at fits'
            have first : storeText 2048 (postData ++ line) = some (postData ++ line) :=
              storeText_eq_some.mpr ⟨by rw [List.length_append]; omega, rfl⟩
            have second : storeText 2048 (postData ++ line ++ [10]) =
                some (postData ++ line ++ [10]) := storeText_eq_some.mpr ⟨fits, rfl⟩
            rw [appendLines, first]
            simp only [ne_eq, reduceCtorEq, not_false_eq_true, ↓reduceIte, second]
            rw [ih _ fits, whole]
          · simp only [List.length_append, List.length_singleton] at fits
            have longer : storeText 2048 (postData ++ List.intercalate [10] (line :: next :: tail)) =
                none := if_neg (by rw [List.length_append]; omega)
            have second : storeText 2048 (postData ++ line ++ [10]) = none :=
              if_neg (by simp only [List.length_append, List.length_singleton]; omega)
            rw [longer, appendLines]
            cases stored : storeText 2048 (postData ++ line) with
            | none => rfl
            | some joined =>
                rw [← (storeText_eq_some.mp stored).2]
                simp only [ne_eq, reduceCtorEq, not_false_eq_true, ↓reduceIte, second]

theorem parseRequestLine_sets (conf : Config) (p : List Bytes) (req next : ParsedReq)
    (parsed : parseRequestLine conf p req = some next) :
    next.postData = req.postData ∧ 10 ∉ next.contentType := by
  have method : (parseMethod (p.getD 0 []) req).postData = req.postData := by
    simp only [parseMethod]
    split_ifs <;> rfl
  have version : ∀ req : ParsedReq, (parseVersion (p.getD 2 []) req).postData = req.postData ∧
      (parseVersion (p.getD 2 []) req).contentType = req.contentType := by
    intro req
    simp only [parseVersion]
    split_ifs <;> exact ⟨rfl, rfl⟩
  simp only [parseRequestLine] at parsed
  split at parsed
  · cases parsed
  · split at parsed
    · cases parsed
    · rename_i contentType listed
      have line := getContentType_line conf _ contentType listed
      rw [← Option.some.inj parsed, (version _).1, (version _).2, ← method]
      split_ifs <;> exact ⟨rfl, line⟩

/-- The header loop gets past every `strip`. -/
def HeadersRead [Overlapping] (buf : Bytes) : Prop :=
  ∀ line ∈ headerLines ((tokens buf [10]).drop 1), Readable line

theorem parseParts_isSome [Overlapping] (conf : Config) (buf : Bytes) (req : ParsedReq)
    (empty : req.postData = []) (sizes : ∀ token ∈ requestTokens buf, token.length < 128) :
    (parseParts conf (requestTokens buf) ((tokens buf [10]).drop 1) req).isSome = true ↔
      PartsFit conf buf ∧ HeadersRead buf := by
  have line := parseRequestLine_isSome conf (requestTokens buf) req sizes
  have uri : (if (requestTokens buf).getD 1 [] = ascii "/" then
      (requestTokens buf).getD 1 [] ++ entry conf.index 0 else (requestTokens buf).getD 1 []) =
        requestUri conf buf := rfl
  have types := getContentType_isSome conf (requestUri conf buf)
  rw [uri] at line
  have parts : (parseRequestLine conf (requestTokens buf) req).isSome = true ∧
      (∀ line ∈ headerLines ((tokens buf [10]).drop 1),
        ((splitFirst line 58).1.length < 128 ∧ (splitFirst line 58).2.length < 128) ∧
          Readable line) ∧
      (bodyText ((tokens buf [10]).drop 1)).length < 2048 ↔
        PartsFit conf buf ∧ HeadersRead buf := by
    rw [line, types, HeadersRead]
    constructor
    · intro all
      have sizes := fun line member => (all.2.1 line member).1
      exact ⟨⟨all.1.1, all.1.2, sizes, all.2.2⟩, fun line member => (all.2.1 line member).2⟩
    · intro all
      have fit := all.1
      exact ⟨⟨fit.extension, fit.contentType⟩,
        fun line member => ⟨fit.headers line member, all.2 line member⟩, fit.body⟩
  rw [← parts]
  cases first : parseRequestLine conf (requestTokens buf) req with
  | none => simp [parseParts, first]
  | some next =>
      have headers := parseHeaders_isSome ((tokens buf [10]).drop 1) next
      rw [← headers]
      cases second : parseHeaders ((tokens buf [10]).drop 1) next with
      | none =>
          simp only [parseParts, first, second, Option.isSome_none, Bool.false_eq_true,
            Option.isSome_some, false_and, and_false]
      | some result =>
          have rest := parseHeaders_rest _ _ _ second
          have bare : result.1.postData = [] := by
            rw [rest.2.1, (parseRequestLine_sets _ _ _ _ first).1, empty]
          have body := appendLines_eq result.2 result.1.postData (by rw [bare]; exact Nat.zero_lt_succ _)
          rw [bare, List.nil_append, rest.1] at body
          have unfolded : (parseParts conf (requestTokens buf) ((tokens buf [10]).drop 1) req).isSome =
              (storeText 2048 (bodyText ((tokens buf [10]).drop 1))).isSome := by
            simp only [parseParts, first, second, bare, rest.1, body, bodyText]
            cases storeText 2048 (List.intercalate [10] (bodyLines ((tokens buf [10]).drop 1))) <;> rfl
          rw [unfolded, storeText]
          simp only [Option.isSome_some, true_and]
          by_cases fits : (bodyText ((tokens buf [10]).drop 1)).length < 2048
          · simp only [fits, ↓reduceIte, Option.isSome_some]
          · simp only [fits, ↓reduceIte, Option.isSome_none, Bool.false_eq_true]

theorem parse_sets [Overlapping] (conf : Config) (buf : Bytes) (req : ParsedReq)
    (parsed : parseHttpReq conf buf = some req) :
    req.postData.length < 2048 ∧ 10 ∉ req.contentType := by
  simp only [parseHttpReq] at parsed
  split at parsed
  · cases parsed
  · rename_i lines _
    split at parsed
    · cases parsed
    · rename_i p _
      split at parsed
      · rw [← Option.some.inj parsed]
        split_ifs <;> exact ⟨Nat.zero_lt_succ _, List.not_mem_nil⟩
      · simp only [parseParts] at parsed
        split at parsed
        · cases parsed
        · rename_i next first
          split at parsed
          · cases parsed
          · rename_i last rest second
            split at parsed
            · cases parsed
            · rename_i postData body
              have line := parseRequestLine_sets _ _ _ _ first
              have headers := parseHeaders_rest _ _ _ second
              have bare : last.postData = [] := by
                rw [headers.2.1, line.1]
                split_ifs <;> rfl
              rw [bare, appendLines_eq rest [] (Nat.zero_lt_succ _)] at body
              have stored := storeText_eq_some.mp body
              rw [← Option.some.inj parsed]
              constructor
              · rw [← stored.2]
                exact stored.1
              · have type : last.contentType = next.contentType := headers.2.2
                rw [← type] at line
                exact line.2

/-- The parse of a string gets through when all its parts fit and its headers are read. -/
theorem parseHttpReq_isSome_iff [Overlapping] (conf : Config) (buf : Bytes) :
    (parseHttpReq conf buf).isSome = true ↔
      Fits conf buf ∧ (3 ≤ (requestTokens buf).length → HeadersRead buf) := by
  by_cases lines : (tokens buf [10]).length ≤ 32 ∧ ∀ line ∈ tokens buf [10], line.length < 256
  · have storedLines : storeTokens 32 256 (tokens buf [10]) = some (tokens buf [10]) :=
      storeTokens_eq_some.mpr ⟨lines, rfl⟩
    by_cases words : (requestTokens buf).length ≤ 4 ∧ ∀ token ∈ requestTokens buf, token.length < 128
    · have storedWords : storeTokens 4 128 (tokens (removeEndl ((tokens buf [10]).getD 0 [])) [32]) =
          some (requestTokens buf) := storeTokens_eq_some.mpr ⟨words, rfl⟩
      simp only [parseHttpReq, storedLines, storedWords]
      by_cases few : (requestTokens buf).length < 3
      · simp only [few, ↓reduceIte, Option.isSome_some, true_iff]
        exact ⟨⟨lines.1, lines.2, words.1, words.2, fun many => by omega⟩, fun many => by omega⟩
      · simp only [few, ↓reduceIte]
        rw [parseParts_isSome conf buf _ (by split_ifs <;> rfl) words.2]
        constructor
        · intro parts
          exact ⟨⟨lines.1, lines.2, words.1, words.2, fun _ => parts.1⟩, fun _ => parts.2⟩
        · intro all
          exact ⟨all.1.parts (by omega), all.2 (by omega)⟩
    · have storedWords : storeTokens 4 128 (tokens (removeEndl ((tokens buf [10]).getD 0 [])) [32]) =
          none := if_neg words
      simp only [parseHttpReq, storedLines, storedWords, Option.isSome_none, Bool.false_eq_true,
        false_iff]
      intro all
      exact words ⟨all.1.tokens, all.1.tokenSizes⟩
  · have storedLines : storeTokens 32 256 (tokens buf [10]) = none := if_neg lines
    simp only [parseHttpReq, storedLines, Option.isSome_none, Bool.false_eq_true, false_iff]
    intro all
    exact lines ⟨all.1.lines, all.1.lineSizes⟩

theorem parseHttpReq_isSome [Letters] (conf : Config) (buf : Bytes) :
    (parseHttpReq conf buf).isSome = true ↔ Fits conf buf := by
  rw [parseHttpReq_isSome_iff, and_iff_left]
  intro _ line _
  exact readable line

/-- The stores of `parse_http_req` are in range for the requests that fit, and for no
others. -/
theorem parse_in_range [Letters] (conf : Config) (received behind : Bytes) :
    (parseHttpReq conf (receivedText received behind)).isSome = true ↔
      Fits conf (receivedText received behind) :=
  parseHttpReq_isSome conf (receivedText received behind)

/-- The fifth token of a request line has no place in `p[4][128]`. -/
theorem parse_out_of_range :
    ¬ ∃ _ : Letters, (parseHttpReq sampleConfig
      (receivedText (ascii "GET / HTTP/1.1 a b\r\n\r\n") [])).isSome = true := by
  intro parsed
  obtain ⟨library, parsed⟩ := parsed
  have fits := (parseHttpReq_isSome sampleConfig _).mp parsed
  exact absurd fits.tokens (by decide +kernel)

end NetworkSystem.Http
