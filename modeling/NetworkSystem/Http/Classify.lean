import NetworkSystem.Http.Request

/-! The error codes of `parse_http_req` against their meaning: a request in a wrong
format, or one for something that is not supported. -/

namespace NetworkSystem.Http

open Bytes

def ThreeTokens (buf : Bytes) : Prop :=
  (requestTokens buf).length = 3 ∧ ∀ token ∈ requestTokens buf, token ≠ []

instance (buf : Bytes) : Decidable (ThreeTokens buf) :=
  inferInstanceAs (Decidable (_ ∧ ∀ token ∈ requestTokens buf, token ≠ []))

def SupportedMethod (token : Bytes) : Prop := token = ascii "GET" ∨ token = ascii "POST"

def SupportedVersion (token : Bytes) : Prop := token = ascii "HTTP/1.1" ∨ token = ascii "HTTP/1.0"

instance : DecidablePred SupportedVersion :=
  fun token => inferInstanceAs (Decidable (token = _ ∨ token = _))

/-- The first entry for the extension of a file name gives a type. -/
def ConfiguredType (conf : Config) (filename : Bytes) : Prop :=
  getFileExtension filename ≠ [] ∧ ∃ i < conf.countContentTypes,
    entry conf.fileExtensions i = getFileExtension filename ∧ entry conf.contentTypes i ≠ [] ∧
      ∀ j < i, entry conf.fileExtensions j ≠ getFileExtension filename

def Supported (conf : Config) (buf : Bytes) : Prop :=
  SupportedMethod ((requestTokens buf).getD 0 []) ∧
    SupportedVersion ((requestTokens buf).getD 2 []) ∧ ConfiguredType conf (requestUri conf buf)

/-- An error code that says what it means. -/
structure Classified (conf : Config) (buf : Bytes) (errorCode : UInt8) : Prop where
  badRequest : errorCode = ERR_BAD_REQUEST ↔ ¬ ThreeTokens buf
  notImplemented : errorCode = ERR_NOT_IMPLEMENTED ↔ ThreeTokens buf ∧ ¬ Supported conf buf
  fine : errorCode = 0 ↔ ThreeTokens buf ∧ Supported conf buf

theorem getContentType_ne_nil (conf : Config) (filename type : Bytes)
    (found : getContentType conf filename = some type) : type ≠ [] ↔ ConfiguredType conf filename := by
  simp only [getContentType] at found
  cases stored : storeText 64 (getFileExtension filename) with
  | none => simp only [stored, reduceCtorEq] at found
  | some extension =>
      have same := (storeText_eq_some.mp stored).2
      rw [← same] at stored
      simp only [stored] at found
      by_cases empty : getFileExtension filename = []
      · simp only [empty, List.length_nil, ne_eq, not_true_eq_false, ↓reduceIte,
          Option.some.injEq] at found
        simp only [← found, ConfiguredType, empty, ne_eq, not_true_eq_false, false_and]
      · have some_ : (getFileExtension filename).length ≠ 0 := by
          simpa only [ne_eq, List.length_eq_zero_iff] using empty
        simp only [some_, ne_eq, not_false_eq_true, ↓reduceIte, findContentType] at found
        cases first : (List.range conf.countContentTypes).find?
            (fun i => entry conf.fileExtensions i = getFileExtension filename) with
        | none =>
            simp only [first, Option.map_none, Option.some.injEq] at found
            rw [List.find?_eq_none] at first
            simp only [← found, ne_eq, not_true_eq_false, false_iff]
            rintro ⟨-, i, inside, listed, -⟩
            exact first i (List.mem_range.mpr inside) (by simpa using listed)
        | some i =>
            simp only [first, Option.map_some] at found
            have type_ := (storeText_eq_some.mp found).2
            rw [List.find?_range_eq_some] at first
            obtain ⟨listed, inside, before⟩ := first
            simp only [decide_eq_true_eq] at listed
            rw [← type_]
            constructor
            · intro some_
              refine ⟨empty, i, List.mem_range.mp inside, listed, some_, fun j earlier => ?_⟩
              simpa using before j earlier
            · rintro ⟨-, k, -, listed', some_, before'⟩
              have order : i = k := by
                rcases Nat.lt_trichotomy i k with less | equal | more
                · exact absurd listed (before' i less)
                · exact equal
                · exact absurd listed' (by simpa using before k more)
              rwa [order]

theorem parseMethod_errorCode (token : Bytes) (req : ParsedReq) :
    (SupportedMethod token → (parseMethod token req).errorCode = req.errorCode) ∧
      (¬ SupportedMethod token → (parseMethod token req).errorCode = ERR_NOT_IMPLEMENTED) := by
  simp only [SupportedMethod, parseMethod]
  by_cases get : token = ascii "GET"
  · simp only [get, ↓reduceIte, true_or, not_true_eq_false, false_implies, implies_true, and_self]
  · by_cases post : token = ascii "POST"
    · simp only [post, ↓reduceIte, or_true, not_true_eq_false, false_implies, and_true]
      intro _
      split_ifs <;> rfl
    · simp only [get, post, ↓reduceIte, or_self, not_false_eq_true, false_implies, true_and,
        implies_true]

theorem parseVersion_errorCode (token : Bytes) (req : ParsedReq) :
    (SupportedVersion token → (parseVersion token req).errorCode = req.errorCode) ∧
      (¬ SupportedVersion token → (parseVersion token req).errorCode = ERR_BAD_REQUEST) := by
  simp only [SupportedVersion, parseVersion]
  split_ifs with one zero
  · simp [one]
  · simp [zero]
  · simp [one, zero]

theorem lineRequest_errorCode (conf : Config) (buf : Bytes) (type : Bytes)
    (found : getContentType conf (requestUri conf buf) = some type) :
    (¬ SupportedVersion ((requestTokens buf).getD 2 []) →
      (lineRequest conf buf).errorCode = ERR_BAD_REQUEST) ∧
    (SupportedVersion ((requestTokens buf).getD 2 []) → ¬ Supported conf buf →
      (lineRequest conf buf).errorCode = ERR_NOT_IMPLEMENTED) ∧
    (Supported conf buf → (lineRequest conf buf).errorCode = 0) := by
  have version := fun req => parseVersion_errorCode ((requestTokens buf).getD 2 []) req
  have method := parseMethod_errorCode ((requestTokens buf).getD 0 []) ParsedReq.zero
  have stored : requestType conf buf = type := by rw [requestType, found, Option.getD_some]
  have listed : requestType conf buf ≠ [] ↔ ConfiguredType conf (requestUri conf buf) := by
    rw [stored]
    exact getContentType_ne_nil conf _ type found
  refine ⟨fun wrong => (version _).2 wrong, fun right unsupported => ?_, fun supported => ?_⟩
  · rw [lineRequest, (version _).1 right]
    by_cases none_ : requestType conf buf = []
    · simp only [none_, List.length_nil, ↓reduceIte]
    · have some_ : (requestType conf buf).length ≠ 0 := by
        rwa [ne_eq, List.length_eq_zero_iff]
      simp only [some_, ↓reduceIte]
      apply method.2
      intro known
      exact unsupported ⟨known, right, listed.mp none_⟩
  · have some_ : (requestType conf buf).length ≠ 0 := by
      rw [ne_eq, List.length_eq_zero_iff]
      exact listed.mpr supported.2.2
    rw [lineRequest, (version _).1 supported.2.1]
    simp only [some_, ↓reduceIte]
    exact method.1 supported.1

theorem not_supportedVersion_getD (buf : Bytes) (few : (requestTokens buf).length < 3) :
    ¬ SupportedVersion ((requestTokens buf).getD 2 []) := by
  rw [List.getD_eq_default _ _ (by omega)]
  decide

/-- The error codes mean what they should exactly when three tokens and a version that
is known come together. Three tokens with another version are refused as a bad request,
and a known version in third place makes up for a fourth token or an empty one. -/
theorem parse_classified_iff [Letters] (conf : Config) (buf : Bytes) (fits : Fits conf buf) :
    ∃ req, parseHttpReq conf buf = some req ∧
      (Classified conf buf req.errorCode ↔
        (ThreeTokens buf ↔ SupportedVersion ((requestTokens buf).getD 2 []))) := by
  refine ⟨_, parseHttpReq_eq conf buf fits, ?_⟩
  have codes : ERR_BAD_REQUEST ≠ ERR_NOT_IMPLEMENTED ∧ ERR_BAD_REQUEST ≠ 0 ∧
      ERR_NOT_IMPLEMENTED ≠ 0 := by decide
  by_cases few : (requestTokens buf).length < 3
  · have none_ : ¬ ThreeTokens buf := fun three => by
      have size := three.1
      omega
    have unknown := not_supportedVersion_getD buf few
    rw [parsedRequest_few conf buf few]
    simp only [none_, unknown, iff_self, iff_true]
    exact ⟨by simp [none_], by simp [codes, none_], by simp [codes, none_]⟩
  · obtain ⟨type, found⟩ := Option.isSome_iff_exists.mp ((getContentType_isSome conf
      (requestUri conf buf)).mpr ⟨(fits.parts (by omega)).extension, (fits.parts (by omega)).contentType⟩)
    have line := lineRequest_errorCode conf buf type found
    rw [parsedRequest_many conf buf (by omega)]
    simp only
    by_cases known : SupportedVersion ((requestTokens buf).getD 2 [])
    · rw [iff_true_right known]
      by_cases supported : Supported conf buf
      · rw [line.2.2 supported]
        constructor
        · intro classified
          exact (classified.fine.mp rfl).1
        · intro three
          exact ⟨by simp [codes.2.1.symm, three], by simp [codes.2.2.symm, supported],
            by simp [three, supported]⟩
      · rw [line.2.1 known supported]
        constructor
        · intro classified
          exact (classified.notImplemented.mp rfl).1
        · intro three
          exact ⟨by simp [codes.1.symm, three], by simp [three, supported],
            by simp [codes.2.2, supported]⟩
    · have unsupported : ¬ Supported conf buf := fun supported => known supported.2.1
      rw [line.1 known, iff_false_right known]
      constructor
      · intro classified
        exact classified.badRequest.mp rfl
      · intro other
        exact ⟨by simp [other], by simp [codes.1, other], by simp [codes.2.1, other]⟩

attribute [local instance] Letters.forward

theorem parse_classified_iff_get :
    ∃ req, parseHttpReq sampleConfig (ascii "GET /a.txt HTTP/1.1\r\n\r\n") = some req ∧
      (Classified sampleConfig (ascii "GET /a.txt HTTP/1.1\r\n\r\n") req.errorCode ↔
        (ThreeTokens (ascii "GET /a.txt HTTP/1.1\r\n\r\n") ↔
          SupportedVersion ((requestTokens (ascii "GET /a.txt HTTP/1.1\r\n\r\n")).getD 2 []))) :=
  parse_classified_iff sampleConfig _ ((parseHttpReq_isSome sampleConfig _).mp (by decide +kernel))

/-- A version that is not supported is answered as a bad request. -/
theorem version_not_classified :
    Fits sampleConfig (ascii "GET /a.txt HTTP/2.0\r\n\r\n") ∧
      ∃ req, parseHttpReq sampleConfig (ascii "GET /a.txt HTTP/2.0\r\n\r\n") = some req ∧
        req.errorCode = ERR_BAD_REQUEST ∧ ThreeTokens (ascii "GET /a.txt HTTP/2.0\r\n\r\n") ∧
        ¬ Classified sampleConfig (ascii "GET /a.txt HTTP/2.0\r\n\r\n") req.errorCode := by
  have fits := (parseHttpReq_isSome sampleConfig (ascii "GET /a.txt HTTP/2.0\r\n\r\n")).mp
    (by decide +kernel)
  have code : (parsedRequest sampleConfig (ascii "GET /a.txt HTTP/2.0\r\n\r\n")).errorCode =
      ERR_BAD_REQUEST := by decide +kernel
  have three : ThreeTokens (ascii "GET /a.txt HTTP/2.0\r\n\r\n") := by decide +kernel
  refine ⟨fits, _, parseHttpReq_eq _ _ fits, code, three, ?_⟩
  intro classified
  exact classified.badRequest.mp code three

end NetworkSystem.Http
