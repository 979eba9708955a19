import NetworkSystem.Proxy.Buffers

/-! What the arrays of `read_request` hold before it: on which received bytes its result does
not depend on that. -/

namespace NetworkSystem.Proxy

open Bytes
open Dfc (isSpace)

/-- Two runs of `read_request` with the same result; what a refusal sends does not matter,
and neither do the bytes behind a string. A read past the end of an array has no result, and
so it is not like any other, itself included. -/
inductive Agree : Outcome → Outcome → Prop where
  | refused (one two : Bytes) : Agree (.refused one) (.refused two)
  | accepted (target : Target) {uri uri' version version' : Bytes} (uris : cstr uri = cstr uri')
      (versions : cstr version = cstr version') :
      Agree (.accepted target uri version) (.accepted target uri' version')

/-- The words decide the result: there are three, or the method is not supported, or the
address cannot be parsed. -/
def Decided (words : List Bytes) : Prop :=
  3 ≤ words.length ∨ (∃ method ∈ words[0]?, lower method ≠ ascii "get") ∨
    ∃ uri ∈ words[1]?, parseAddress uri = none

/-- The received bytes decide it: a space ends the third word in them, or a zero ends a text
whose words do. -/
def Determined (data : Bytes) : Prop :=
  3 ≤ (Fields.ended isSpace (cstr data)).length ∨ 0 ∈ data ∧ Decided (requestWords data)

theorem scanWord_ended {text word rest : Bytes} (found : scanWord text = some (word, rest)) :
    Fields.ended isSpace text = if rest = [] then [] else word :: Fields.ended isSpace rest := by
  simp only [scanWord] at found
  split_ifs at found with full
  obtain ⟨word_, rest_⟩ := Prod.mk.inj (Option.some.inj found)
  have parts : word ++ rest = text.dropWhile isSpace := by
    rw [← word_, ← rest_]
    exact List.takeWhile_append_dropWhile
  have clean : ∀ byte ∈ word, isSpace byte = false := by
    intro byte member
    rw [← word_] at member
    simpa using List.mem_takeWhile_imp member
  rw [← Fields.ended_dropWhile isSpace text]
  cases rest with
  | nil =>
      rw [← parts, List.append_nil, if_pos rfl]
      exact Fields.ended_of_clean isSpace word clean
  | cons space rest =>
      have isBlank : isSpace space = true := by
        have head := List.head?_dropWhile_not (fun byte => !isSpace byte) (text.dropWhile isSpace)
        rw [rest_] at head
        simpa using head
      have some_ : word ≠ [] := by
        intro empty
        have head := List.head?_dropWhile_not isSpace text
        rw [← parts, empty, List.nil_append, List.head?_cons] at head
        simp only [isBlank, Bool.true_eq_false] at head
      rw [← parts, if_neg (List.cons_ne_nil _ _), Fields.ended_append_cons isSpace _ _ _ isBlank,
        Fields.fields_single isSpace word some_ clean,
        Fields.ended_cons_blank isSpace _ _ isBlank]
      rfl

theorem ended_of_no_word {text : Bytes} (none_ : scanWord text = none) :
    Fields.ended isSpace text = [] := by
  simp only [scanWord] at none_
  split_ifs at none_ with empty
  rw [← Fields.ended_dropWhile, empty]
  rfl

/-- Something is left behind the last conversion exactly when a space ends its word. -/
theorem scanWords_snd_iff (count : Nat) (text : Bytes) :
    (scanWords (count + 1) text).2 ≠ [] ↔
      count + 1 ≤ (Fields.ended isSpace text).length := by
  induction count generalizing text with
  | zero =>
      rw [scanWords]
      cases next : scanWord text with
      | none => simp [ended_of_no_word next]
      | some found =>
          rw [scanWord_ended next]
          by_cases empty : found.2 = [] <;> simp [scanWords, empty]
  | succ count ih =>
      rw [scanWords]
      cases next : scanWord text with
      | none => simp [ended_of_no_word next]
      | some found =>
          rw [scanWord_ended next]
          have later := ih found.2
          by_cases empty : found.2 = []
          · simpa [empty, Fields.ended_of_clean] using later
          · simpa [empty] using later

/-- The request is read past the end of `buf` unless a zero or a third space stops `sscanf`. -/
theorem parseRequest_stopped {stack : Stack} {buf : Bytes}
    (stopped : 0 ∈ buf ∨ 3 ≤ (Fields.ended isSpace (cstr buf)).length) :
    parseRequest stack buf = outcomeOf stack ((requestWords buf).take 3) := by
  rw [parseRequest_eq, if_neg]
  intro both
  rcases stopped with zero | three
  · exact both.1 zero
  · exact (scanWords_snd_iff 2 (cstr buf)).mpr three both.2

theorem parseRequest_overrun {stack : Stack} {buf : Bytes} (open_ : 0 ∉ buf)
    (few : (Fields.ended isSpace buf).length < 3) : parseRequest stack buf = .overrun := by
  rw [parseRequest_eq, if_pos]
  refine ⟨open_, ?_⟩
  by_contra left_
  rw [cstr_of_clean open_] at left_
  have three := (scanWords_snd_iff 2 buf).mp left_
  omega

theorem decided_take (words : List Bytes) : Decided (words.take 3) ↔ Decided words := by
  have size : 3 ≤ (words.take 3).length ↔ 3 ≤ words.length := by
    rw [List.length_take]
    omega
  simp only [Decided, size, List.getElem?_take_of_lt (show 0 < 3 by decide),
    List.getElem?_take_of_lt (show 1 < 3 by decide)]

section words

variable {words : List Bytes} (clean : ∀ word ∈ words, 0 ∉ word)

include clean

theorem outcomeOf_method (stack : Stack) {method : Bytes} (first : words[0]? = some method)
    (other : lower method ≠ ascii "get") : outcomeOf stack words = .refused [] := by
  rw [outcomeOf]
  exact if_pos (by rwa [cstr_stored _ _ _ clean, first])

theorem outcomeOf_get (stack : Stack) {method uri : Bytes} (first : words[0]? = some method)
    (get : lower method = ascii "get") (second : words[1]? = some uri) :
    outcomeOf stack words =
      match parseAddress uri with
      | none =>
          .refused (errorText (ascii "400") (ascii "Bad request")
            (ascii "Proxy cannot parse the address"))
      | some target =>
          .accepted target (stored stack.uri (some uri)) (stored stack.version words[2]?) := by
  have zero : 0 ∈ stored stack.uri (some uri) := List.mem_append_right _ List.mem_cons_self
  have known := cstr_stored stack.method words 0 clean
  have address := cstr_stored stack.uri words 1 clean
  rw [first, Option.getD_some] at known
  rw [second, Option.getD_some] at address
  cases parsed : parseAddress uri <;>
    simp only [outcomeOf, first, second, known, address, get, zero, parsed, ne_eq,
      not_true_eq_false, ↓reduceIte]

theorem agree_of_decided (one two : Stack) (decided : Decided words) :
    Agree (outcomeOf one words) (outcomeOf two words) := by
  by_cases other : ∃ method ∈ words[0]?, lower method ≠ ascii "get"
  · rcases other with ⟨method, first, other⟩
    rw [outcomeOf_method clean one first other, outcomeOf_method clean two first other]
    exact Agree.refused [] []
  · have second : ∃ uri, words[1]? = some uri ∧
        (parseAddress uri = none ∨ 3 ≤ words.length) := by
      rcases decided with three | method | ⟨uri, here, none_⟩
      · exact ⟨words[1], List.getElem?_eq_getElem (by omega), Or.inr three⟩
      · exact absurd method other
      · exact ⟨uri, here, Or.inl none_⟩
    rcases second with ⟨uri, second, ends⟩
    obtain ⟨two_, -⟩ := List.getElem?_eq_some_iff.mp second
    have first : words[0]? = some words[0] := List.getElem?_eq_getElem (by omega)
    have get : lower words[0] = ascii "get" := by
      by_contra different
      exact other ⟨words[0], first, different⟩
    rw [outcomeOf_get clean one first get second, outcomeOf_get clean two first get second]
    cases parsed : parseAddress uri with
    | none => exact Agree.refused _ _
    | some target =>
        have three : 3 ≤ words.length := by
          rcases ends with none_ | three
          · rw [parsed] at none_
            cases none_
          · exact three
        have third : words[2]? = some words[2] := List.getElem?_eq_getElem (by omega)
        rw [third]
        apply Agree.accepted target
        · rw [stored, stored, cstr_append_cons_zero, cstr_append_cons_zero]
        · rw [stored, stored, cstr_append_cons_zero, cstr_append_cons_zero]

end words

theorem length_filled (text : Bytes) (fits : text.length ≤ MAXBUF) :
    (text ++ zeros (MAXBUF - text.length)).length = MAXBUF := by
  rw [List.length_append, zeros, List.length_replicate]
  omega

theorem get_fits : (ascii "GET").length ≤ MAXBUF := by decide

theorem address_fits : (ascii "http://a").length ≤ MAXBUF := by decide

/-- Arrays with a GET of some version in them, and any `buf`. -/
def staleStack (buf version : Bytes) (size : buf.length = MAXBUF)
    (fits : version.length ≤ MAXBUF) : Stack where
  buf := buf
  method := ascii "GET" ++ zeros (MAXBUF - 3)
  uri := ascii "http://a" ++ zeros (MAXBUF - 8)
  version := version ++ zeros (MAXBUF - version.length)
  buf_size := size
  method_size := length_filled (ascii "GET") get_fits
  uri_size := length_filled (ascii "http://a") address_fits
  version_size := length_filled version fits

theorem staleStack_texts (buf version : Bytes) (size : buf.length = MAXBUF)
    (fits : version.length ≤ MAXBUF) :
    cstr (staleStack buf version size fits).method = ascii "GET" ∧
      cstr (staleStack buf version size fits).uri = ascii "http://a" :=
  ⟨cstr_append_zero (ascii "GET") (zeros (MAXBUF - 4)) (by decide),
    cstr_append_zero (ascii "http://a") (zeros (MAXBUF - 9)) (by decide)⟩

/-- Where the words do not decide, such arrays are accepted with the version in them. -/
theorem outcomeOf_stale (buf : Bytes) (size : buf.length = MAXBUF) {words : List Bytes}
    (clean : ∀ word ∈ words, 0 ∉ word) (open_ : ¬ Decided words) :
    ∃ target uri, ∀ version fits, outcomeOf (staleStack buf version size fits) words =
      .accepted target uri (version ++ zeros (MAXBUF - version.length)) := by
  rw [Decided, not_or, not_or] at open_
  rcases open_ with ⟨few, supported, parses⟩
  have third : words[2]? = none := List.getElem?_eq_none (by omega)
  have get : lower (words[0]?.getD (ascii "GET")) = ascii "get" := by
    cases first : words[0]? with
    | none => rfl
    | some method =>
        by_contra other
        exact supported ⟨method, first, other⟩
  obtain ⟨target, parsed⟩ : ∃ target, parseAddress (words[1]?.getD (ascii "http://a")) =
      some target := by
    cases second : words[1]? with
    | none => exact ⟨_, rfl⟩
    | some uri =>
        rw [← Option.ne_none_iff_exists']
        exact fun none_ => parses ⟨uri, second, none_⟩
  have zero : 0 ∈ stored (ascii "http://a" ++ zeros (MAXBUF - 8)) words[1]? := by
    cases words[1]? with
    | none => exact List.mem_append_right _ (List.mem_replicate.mpr ⟨by decide, rfl⟩)
    | some uri => exact List.mem_append_right _ List.mem_cons_self
  refine ⟨target, stored (ascii "http://a" ++ zeros (MAXBUF - 8)) words[1]?, ?_⟩
  intro version fits
  rcases staleStack_texts buf version size fits with ⟨method, uri⟩
  have known := cstr_stored (staleStack buf version size fits).method words 0 clean
  have address := cstr_stored (staleStack buf version size fits).uri words 1 clean
  rw [method] at known
  rw [uri] at address
  simp only [outcomeOf, known, get, address, parsed, third, ne_eq, not_true_eq_false, ↓reduceIte]
  exact if_pos zero

theorem stale_differ (buf : Bytes) (size : buf.length = MAXBUF) {words : List Bytes}
    (clean : ∀ word ∈ words, 0 ∉ word) (open_ : ¬ Decided words) :
    ∃ one two : Stack, one.buf = buf ∧ two.buf = buf ∧
      ¬ Agree (outcomeOf one words) (outcomeOf two words) := by
  rcases outcomeOf_stale buf size clean open_ with ⟨target, uri, stale⟩
  refine ⟨staleStack buf (ascii "HTTP/1.0") size (by decide),
    staleStack buf (ascii "HTTP/1.1") size (by decide), rfl, rfl, ?_⟩
  rw [stale, stale]
  intro agree
  cases agree with
  | accepted _ _ versions =>
      have first := cstr_append_zero (ascii "HTTP/1.0") (zeros (MAXBUF - 9)) (by decide)
      have second := cstr_append_zero (ascii "HTTP/1.1") (zeros (MAXBUF - 9)) (by decide)
      have same : ascii "HTTP/1.0" = ascii "HTTP/1.1" := first.symm.trans (versions.trans second)
      exact absurd same (by decide)

def otherRequest : Bytes := ascii "GET http://a/secret HTTP/1.0\r\n\r\n"

theorem otherRequest_fits : otherRequest.length ≤ MAXBUF := by decide

/-- The arrays of a handler whose `buf` lies where another request was read. -/
def usedStack : Stack :=
  { freshStack with
    buf := otherRequest ++ zeros (MAXBUF - otherRequest.length)
    buf_size := length_filled otherRequest otherRequest_fits }

theorem readRequest_some (stack : Stack) {data : Bytes} (some_ : data ≠ []) :
    readRequest stack (some data) = parseRequest stack (data ++ stack.buf.drop data.length) := by
  rw [readRequest, if_neg (List.length_pos_iff.mpr some_).ne']

theorem readRequest_of_zero (stack : Stack) {data : Bytes} (zero : 0 ∈ data) :
    readRequest stack (some data) = outcomeOf stack ((requestWords data).take 3) := by
  rw [readRequest_some stack (List.ne_nil_of_mem zero),
    parseRequest_stopped (Or.inl (List.mem_append_left _ zero)), requestWords, cstr_append,
    if_pos zero, requestWords]

section ended

variable {data : Bytes} (three : 3 ≤ (Fields.ended isSpace (cstr data)).length)

include three

theorem words_of_ended : 3 ≤ (requestWords data).length := by
  rcases Fields.fields_append isSpace (cstr data) [] with ⟨later, fields⟩
  rw [List.append_nil] at fields
  rw [requestWords, fields, List.length_append]
  omega

/-- What follows three words that spaces end adds none to them. -/
theorem requestWords_grown (behind : Bytes) :
    (requestWords (data ++ behind)).take 3 = (requestWords data).take 3 ∧
      3 ≤ (Fields.ended isSpace (cstr (data ++ behind))).length := by
  obtain ⟨more, grown⟩ : ∃ more, cstr (data ++ behind) = cstr data ++ more := by
    rw [cstr_append]
    split_ifs with zero
    · exact ⟨[], (List.append_nil _).symm⟩
    · exact ⟨_, by rw [cstr_of_clean zero]⟩
  rcases Fields.ended_append isSpace (cstr data) more with ⟨later, ended⟩
  rcases Fields.fields_append isSpace (cstr data) more with ⟨_, fields⟩
  rcases Fields.fields_append isSpace (cstr data) [] with ⟨_, alone⟩
  rw [List.append_nil] at alone
  constructor
  · rw [requestWords, requestWords, grown, fields, alone, List.take_append_of_le_length three,
      List.take_append_of_le_length three]
  · rw [grown, ended, List.length_append]
    omega

theorem readRequest_ended (stack : Stack) :
    readRequest stack (some data) = outcomeOf stack ((requestWords data).take 3) := by
  have some_ : data ≠ [] := by
    rintro rfl
    exact absurd three (by decide)
  rcases requestWords_grown three (stack.buf.drop data.length) with ⟨same, ended⟩
  rw [readRequest_some stack some_, parseRequest_stopped (Or.inr ended), same]

end ended

theorem words_of_determined {data : Bytes} (determined : Determined data) :
    ∃ words, (∀ word ∈ words, 0 ∉ word) ∧ Decided words ∧
      ∀ stack, readRequest stack (some data) = outcomeOf stack words := by
  rcases determined with three | ⟨zero, decided⟩
  · refine ⟨(requestWords data).take 3, ?_, Or.inl ?_, readRequest_ended three⟩
    · intro word member
      exact requestWords_clean data word (List.mem_of_mem_take member)
    · rw [List.length_take]
      have all := words_of_ended three
      omega
  · refine ⟨(requestWords data).take 3, ?_, (decided_take _).mpr decided, ?_⟩
    · intro word member
      exact requestWords_clean data word (List.mem_of_mem_take member)
    · exact fun stack => readRequest_of_zero stack zero

theorem differ_of_undetermined {data : Bytes} (some_ : data ≠ []) (open_ : ¬ Determined data) :
    ∃ one two, ¬ Agree (readRequest one (some data)) (readRequest two (some data)) := by
  rw [Determined, not_or, not_and] at open_
  by_cases zero : 0 ∈ data
  · have undecided : ¬ Decided ((requestWords data).take 3) := by
      rw [decided_take]
      exact open_.2 zero
    rcases stale_differ (zeros MAXBUF) List.length_replicate
      (fun word member => requestWords_clean data word (List.mem_of_mem_take member)) undecided with
      ⟨one, two, -, -, differ⟩
    refine ⟨one, two, ?_⟩
    rwa [readRequest_of_zero one zero, readRequest_of_zero two zero]
  · let stack := staleStack (List.replicate MAXBUF 120) [] List.length_replicate (Nat.zero_le _)
    refine ⟨stack, stack, ?_⟩
    have tail : ∀ byte ∈ stack.buf.drop data.length, byte = 120 := by
      intro byte member
      exact List.eq_of_mem_replicate (List.mem_of_mem_drop member)
    rw [readRequest_some stack some_, parseRequest_overrun]
    · exact nofun
    · intro member
      rcases List.mem_append.mp member with inside | behind
      · exact zero inside
      · exact absurd (tail 0 behind) (by decide)
    · rw [Fields.ended_append_clean]
      · rw [cstr_of_clean zero] at open_
        omega
      · intro byte member
        rw [tail byte member]
        rfl

/-- The result of `read_request` is the same for all contents of the arrays exactly when the
received bytes decide it. -/
theorem request_determined_iff (received : Option Bytes) (some_ : received ≠ some []) :
    (∀ one two : Stack, Agree (readRequest one received) (readRequest two received)) ↔
      ∃ data ∈ received, Determined data := by
  constructor
  · intro agree
    cases received with
    | none =>
        have undecided : ¬ Decided ((requestWords (zeros MAXBUF)).take 3) := by
          rw [decided_take, Decided]
          have none_ : requestWords (zeros MAXBUF) = [] := rfl
          rw [none_]
          simp
        have clean : ∀ word ∈ (requestWords (zeros MAXBUF)).take 3, 0 ∉ word := by
          intro word member
          exact requestWords_clean _ word (List.mem_of_mem_take member)
        rcases stale_differ (zeros MAXBUF) List.length_replicate clean undecided with
          ⟨one, two, first, second, differ⟩
        have same := agree one two
        have zero : 0 ∈ zeros MAXBUF := List.mem_replicate.mpr ⟨by decide, rfl⟩
        rw [readRequest, readRequest, first, second, parseRequest_stopped (Or.inl zero),
          parseRequest_stopped (Or.inl zero)] at same
        exact absurd same differ
    | some data =>
        refine ⟨data, rfl, ?_⟩
        by_contra open_
        rcases differ_of_undetermined (fun empty => some_ (congrArg some empty)) open_ with
          ⟨one, two, differ⟩
        exact differ (agree one two)
  · intro determined one two
    rcases determined with ⟨data, rfl, determined⟩
    rcases words_of_determined determined with ⟨words, clean, decided, run⟩
    rw [run, run]
    exact agree_of_decided clean one two decided

theorem request_determined_iff_short :
    Agree (readRequest freshStack (some shortRequest))
      (readRequest usedStack (some shortRequest)) := by
  have three : 3 ≤ (Fields.ended isSpace (cstr shortRequest)).length := by decide +kernel
  have determined := request_determined_iff (some shortRequest) nofun
  exact determined.mpr ⟨shortRequest, rfl, Or.inl three⟩ freshStack usedStack

def cutRequest : Bytes := ascii "GET http://h/"

theorem readRequest_cut {stack : Stack} {uri : Bytes} {rest : List Bytes} {target : Target}
    (zero : 0 ∈ stack.buf.drop cutRequest.length)
    (words : requestWords (cutRequest ++ stack.buf.drop cutRequest.length) =
      ascii "GET" :: uri :: rest) (parsed : parseAddress uri = some target) :
    ∃ uri version, readRequest stack (some cutRequest) = .accepted target uri version := by
  have some_ : cutRequest ≠ [] := by decide
  have clean : ∀ word ∈ (ascii "GET" :: uri :: rest).take 3, 0 ∉ word := by
    intro word member
    rw [← words] at member
    exact requestWords_clean _ word (List.mem_of_mem_take member)
  rw [readRequest_some stack some_, parseRequest_stopped (Or.inl (List.mem_append_right _ zero)),
    words, outcomeOf_get clean stack rfl (by decide) rfl, parsed]
  exact ⟨_, _, rfl⟩

/-- The path of the other request is asked for at the host of this one. -/
theorem request_leftovers :
    (∃ uri version, readRequest freshStack (some cutRequest) =
      .accepted ⟨ascii "h", 80, []⟩ uri version) ∧
    (∃ uri version, readRequest usedStack (some cutRequest) =
      .accepted ⟨ascii "h", 80, ascii "secret"⟩ uri version) ∧
    ¬ Agree (readRequest freshStack (some cutRequest))
        (readRequest usedStack (some cutRequest)) := by
  have fresh : ∃ uri version, readRequest freshStack (some cutRequest) =
      .accepted ⟨ascii "h", 80, []⟩ uri version :=
    @readRequest_cut freshStack (ascii "http://h/") [] _ (by decide +kernel) (by decide +kernel)
      (by decide +kernel)
  have used : ∃ uri version, readRequest usedStack (some cutRequest) =
      .accepted ⟨ascii "h", 80, ascii "secret"⟩ uri version :=
    @readRequest_cut usedStack (ascii "http://h/secret") [ascii "HTTP/1.0"] _
      (by decide +kernel) (by decide +kernel) (by decide +kernel)
  refine ⟨fresh, used, ?_⟩
  rcases fresh with ⟨uri, version, fresh⟩
  rcases used with ⟨uri', version', used⟩
  rw [fresh, used]
  exact nofun

end NetworkSystem.Proxy
