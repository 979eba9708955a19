import NetworkSystem.Http.Request

/-! Header lines up to case, spaces and order. Where `strip` does not copy over itself,
what a header line stores depends on its name and its value only, and lines of different
names store into different fields. -/

namespace NetworkSystem.Http

open Bytes

def spaces (count : Nat) : Bytes := List.replicate count 32

theorem dropWhile_spaces (count : Nat) (line : Bytes) :
    (spaces count ++ line).dropWhile (· = 32) = line.dropWhile (· = 32) := by
  apply List.dropWhile_append_of_pos
  intro byte member
  rw [List.eq_of_mem_replicate member]
  rfl

theorem rdropWhile_spaces (line : Bytes) (count : Nat) :
    (line ++ spaces count).rdropWhile (· = 32) = line.rdropWhile (· = 32) := by
  have reversed : (spaces count).reverse = spaces count := List.reverse_replicate
  rw [List.rdropWhile, List.reverse_append, reversed, dropWhile_spaces]
  rfl

theorem trim_spaces (front back : Nat) (text : Bytes) :
    trim (spaces front ++ text ++ spaces back) 32 = trim text 32 := by
  rw [trim_eq, trim_eq, List.append_assoc, dropWhile_spaces, List.dropWhile_append]
  split
  · rename_i empty
    have none_ : (spaces back).dropWhile (· = 32) = [] := by
      have bare := dropWhile_spaces back []
      rwa [List.append_nil] at bare
    rw [none_, List.isEmpty_iff.mp empty]
  · exact rdropWhile_spaces _ back

theorem toLower_eq {sep : UInt8} (early : sep < 65) (byte : UInt8) :
    toLower byte = sep ↔ byte = sep := by
  simp only [toLower]
  split_ifs with upper
  · have before := UInt8.lt_iff_toNat_lt.mp early
    have low := UInt8.le_iff_toNat_le.mp upper.1
    have high := UInt8.le_iff_toNat_le.mp upper.2
    constructor
    · intro same
      have value := congrArg UInt8.toNat same
      simp only [UInt8.toNat_add, UInt8.reduceToNat] at value before low high
      omega
    · intro same
      rw [same] at low
      simp only [UInt8.reduceToNat] at before low
      omega
  · exact Iff.rfl

theorem overlaps_lower (line : Bytes) : Overlaps (lower line) 32 ↔ Overlaps line 32 := by
  have blank : ((fun byte : UInt8 => decide (byte = 32)) ∘ toLower) =
      fun byte => decide (byte = 32) := by
    funext byte
    simp only [Function.comp, toLower_eq (by decide : (32 : UInt8) < 65)]
  simp only [Overlaps, lower, List.takeWhile_map, List.dropWhile_map, List.length_map, blank]

theorem lower_append (first second : Bytes) : lower (first ++ second) = lower first ++ lower second :=
  List.map_append

theorem lower_spaces (count : Nat) : lower (spaces count) = spaces count :=
  List.map_replicate

theorem colon_not_mem_lower (name : Bytes) (clean : 58 ∉ name) : 58 ∉ lower name := by
  intro member
  obtain ⟨byte, inside, same⟩ := List.mem_map.mp member
  rw [(toLower_eq (by decide) byte).mp same] at inside
  exact clean inside

theorem splitFirst_append (first second : Bytes) (sep : UInt8) (clean : sep ∉ first) :
    splitFirst (first ++ sep :: second) sep = (first, second) := by
  have others : ∀ byte ∈ first, decide (byte ≠ sep) = true := by
    intro byte member
    rw [decide_eq_true_eq]
    intro same
    exact clean (same ▸ member)
  rw [splitFirst, List.takeWhile_append_of_pos others, List.dropWhile_append_of_pos others]
  simp

/-- A header line: a name in front of a colon and a value, both with spaces around, and
perhaps a CR. The bytes in front of the LF end with a CR only when this is it. -/
structure HeaderLine where
  nameFront : Nat
  name : Bytes
  nameBack : Nat
  valueFront : Nat
  value : Bytes
  valueBack : Nat
  cr : Bool
  named : name ≠ []
  nameClean : 58 ∉ name
  ending : cr = false → value.getLast? ≠ some 13

namespace HeaderLine

variable (header : HeaderLine)

def paddedName : Bytes := spaces header.nameFront ++ header.name ++ spaces header.nameBack

def paddedValue : Bytes := spaces header.valueFront ++ header.value ++ spaces header.valueBack

def text : Bytes :=
  header.paddedName ++ 58 :: header.paddedValue ++ (if header.cr then [13] else [])

/-- The name and the value as the parser compares and stores them. -/
def field : Bytes × Bytes := (trim (lower header.name) 32, trim (lower header.value) 32)

theorem getLast?_padded (ending : UInt8)
    (last : (header.paddedName ++ 58 :: header.paddedValue).getLast? = some ending) :
    ending = 58 ∨ ending = 32 ∨ header.value.getLast? = some ending := by
  have blank : ∀ count, (spaces count).getLast? = some ending → ending = 32 := by
    intro count same
    exact List.eq_of_mem_replicate (List.mem_of_getLast? same)
  have shape : header.paddedName ++ 58 :: header.paddedValue =
      header.paddedName ++ [58] ++ spaces header.valueFront ++ header.value ++
        spaces header.valueBack := by
    simp only [paddedValue, List.append_assoc, List.cons_append, List.nil_append]
  rw [shape, List.getLast?_append, Option.or_eq_some_iff] at last
  rcases last with back | ⟨-, last⟩
  · exact Or.inr (Or.inl (blank _ back))
  · rw [List.getLast?_append, Option.or_eq_some_iff] at last
    rcases last with value | ⟨-, last⟩
    · exact Or.inr (Or.inr value)
    · rw [List.getLast?_append, Option.or_eq_some_iff] at last
      rcases last with front | ⟨-, last⟩
      · exact Or.inr (Or.inl (blank _ front))
      · rw [List.getLast?_concat] at last
        exact Or.inl (Option.some.inj last).symm

theorem removeEndl_text (single : 10 ∉ header.text) :
    removeEndl header.text = header.paddedName ++ 58 :: header.paddedValue := by
  have noLf : header.text.getLast? ≠ some 10 := fun last => single (List.mem_of_getLast? last)
  simp only [removeEndl, noLf, ↓reduceIte]
  cases cr : header.cr with
  | true =>
      have text : header.text = (header.paddedName ++ 58 :: header.paddedValue) ++ [13] := by
        rw [HeaderLine.text, cr, if_pos rfl]
      rw [text, List.getLast?_concat, if_pos rfl, List.dropLast_concat]
  | false =>
      have text : header.text = header.paddedName ++ 58 :: header.paddedValue := by
        rw [HeaderLine.text, cr]
        exact List.append_nil _
      rw [text, if_neg]
      intro last
      rcases header.getLast?_padded 13 last with colon | blank | value
      · exact absurd colon (by decide)
      · exact absurd blank (by decide)
      · exact header.ending cr value

theorem trim_paddedName : trim (lower header.paddedName) 32 = header.field.1 := by
  rw [paddedName, lower_append, lower_append, lower_spaces, lower_spaces, trim_spaces, field]

theorem trim_paddedValue : trim (lower header.paddedValue) 32 = header.field.2 := by
  rw [paddedValue, lower_append, lower_append, lower_spaces, lower_spaces, trim_spaces, field]

theorem splitFirst_text (single : 10 ∉ header.text) :
    splitFirst (lower (removeEndl header.text)) 58 =
      (lower header.paddedName, lower header.paddedValue) := by
  have clean : 58 ∉ lower header.paddedName := by
    have blank : ∀ count, 58 ∉ spaces count := by
      intro count member
      exact absurd (List.eq_of_mem_replicate member) (by decide)
    apply colon_not_mem_lower
    simp only [paddedName, List.mem_append, not_or]
    exact ⟨⟨blank _, header.nameClean⟩, blank _⟩
  have colon : lower (58 :: header.paddedValue) = 58 :: lower header.paddedValue := rfl
  rw [header.removeEndl_text single, lower_append, colon, splitFirst_append _ _ _ clean]

/-- No copy of `strip` overlaps: no space stands in front of the name, nor of the value that
is stored, or more of them than there are bytes behind. -/
def Apart : Prop :=
  ¬ Overlaps header.paddedName 32 ∧
    (header.field.1 ∈ [ascii "host", ascii "connection"] → ¬ Overlaps header.paddedValue 32)

instance : Decidable header.Apart := inferInstanceAs (Decidable (_ ∧ _))

theorem strip_paddedName [Overlapping] (apart : ¬ Overlaps header.paddedName 32) :
    strip (lower header.paddedName) 32 = some header.field.1 := by
  rw [strip_of_apart ((overlaps_lower _).not.mpr apart), trim_paddedName]

theorem strip_paddedValue [Overlapping] (apart : ¬ Overlaps header.paddedValue 32) :
    strip (lower header.paddedValue) 32 = some header.field.2 := by
  rw [strip_of_apart ((overlaps_lower _).not.mpr apart), trim_paddedValue]

theorem readable_text [Overlapping] (single : 10 ∉ header.text) (apart : header.Apart) :
    Readable (lower (removeEndl header.text)) := by
  rw [Readable, header.splitFirst_text single]
  refine ⟨header.field.1, header.strip_paddedName apart.1, ?_⟩
  intro listed
  rw [header.strip_paddedValue (apart.2 listed)]
  rfl

theorem apart_of_readable (single : 10 ∉ header.text)
    (read : @Readable .undefined (lower (removeEndl header.text))) : header.Apart := by
  let _ := Overlapping.undefined
  have apart : ∀ line text, strip line 32 = some text → ¬ Overlaps line 32 := by
    intro line text stripped
    exact (stripApart_eq_some.mp stripped).1
  obtain ⟨name, first, second⟩ := read
  rw [header.splitFirst_text single] at first second
  have front := (overlaps_lower _).not.mp (apart _ _ first)
  have named : name = header.field.1 :=
    Option.some.inj (first.symm.trans (header.strip_paddedName front))
  refine ⟨front, fun listed => ?_⟩
  obtain ⟨value, stripped⟩ := Option.isSome_iff_exists.mp (second (named ▸ listed))
  exact (overlaps_lower _).not.mp (apart _ _ stripped)

theorem applyHeader_text [Overlapping] (req : ParsedReq) (single : 10 ∉ header.text)
    (apart : header.Apart) :
    applyHeader req (removeEndl header.text) = applyField req header.field := by
  have name : headerName (removeEndl header.text) = header.field.1 := by
    rw [headerName, header.splitFirst_text single, header.strip_paddedName apart.1,
      Option.getD_some]
  simp only [applyHeader, applyField, name]
  by_cases listed : header.field.1 ∈ [ascii "host", ascii "connection"]
  · have value : headerValue (removeEndl header.text) = header.field.2 := by
      rw [headerValue, header.splitFirst_text single,
        header.strip_paddedValue (apart.2 listed), Option.getD_some]
    rw [value]
  · simp only [List.mem_cons, List.not_mem_nil, or_false, not_or] at listed
    rw [if_neg listed.1, if_neg listed.2, if_neg listed.1, if_neg listed.2]

end HeaderLine

theorem foldl_applyHeader [Overlapping] (headers : List HeaderLine) (req : ParsedReq)
    (single : ∀ header ∈ headers, 10 ∉ header.text)
    (apart : ∀ header ∈ headers, header.Apart) :
    ((headers.map HeaderLine.text).map removeEndl).foldl applyHeader req =
      (headers.map HeaderLine.field).foldl applyField req := by
  induction headers generalizing req with
  | nil => rfl
  | cons header rest ih =>
      rw [List.forall_mem_cons] at single apart
      simp only [List.map_cons, List.foldl_cons, header.applyHeader_text req single.1 apart.1]
      exact ih _ single.2 apart.2

theorem applyField_comm (first second : Bytes × Bytes) (req : ParsedReq)
    (hosts : first.1 = ascii "host" → second.1 = ascii "host" → first = second)
    (connections : first.1 = ascii "connection" → second.1 = ascii "connection" → first = second) :
    applyField (applyField req first) second = applyField (applyField req second) first := by
  have different : ascii "connection" ≠ ascii "host" := by decide
  by_cases host : first.1 = ascii "host"
  · by_cases host' : second.1 = ascii "host"
    · rw [hosts host host']
    · by_cases connection : second.1 = ascii "connection"
      · simp only [applyField, host, connection, different, ↓reduceIte]
      · simp only [applyField, host, host', connection, ↓reduceIte]
  · by_cases connection : first.1 = ascii "connection"
    · by_cases connection' : second.1 = ascii "connection"
      · rw [connections connection connection']
      · by_cases host' : second.1 = ascii "host"
        · simp only [applyField, connection, host', different, ↓reduceIte]
        · simp only [applyField, connection, different, host', connection', ↓reduceIte]
    · simp only [applyField, host, connection, ↓reduceIte]

theorem eq_of_countP_le_one {κ : Type} {members : List κ} {test : κ → Bool} {first second : κ}
    (one : members.countP test ≤ 1) (inFirst : first ∈ members) (inSecond : second ∈ members)
    (first_ : test first = true) (second_ : test second = true) : first = second := by
  rw [List.countP_eq_length_filter] at one
  have inFirst' := List.mem_filter.mpr ⟨inFirst, first_⟩
  have inSecond' := List.mem_filter.mpr ⟨inSecond, second_⟩
  generalize members.filter test = chosen at one inFirst' inSecond'
  cases chosen with
  | nil => cases inFirst'
  | cons only rest =>
      have none_ : rest = [] := by
        rw [List.length_cons] at one
        exact List.eq_nil_of_length_eq_zero (by omega)
      rw [none_] at inFirst' inSecond'
      exact (List.mem_singleton.mp inFirst').trans (List.mem_singleton.mp inSecond').symm

def HeaderLine.isNamed (name : Bytes) (header : HeaderLine) : Bool := decide (header.field.1 = name)

theorem foldl_applyField_perm (headers others : List HeaderLine) (req : ParsedReq)
    (permuted : (headers.map HeaderLine.field).Perm (others.map HeaderLine.field))
    (hosts : headers.countP (HeaderLine.isNamed (ascii "host")) ≤ 1)
    (connections : headers.countP (HeaderLine.isNamed (ascii "connection")) ≤ 1) :
    (headers.map HeaderLine.field).foldl applyField req =
      (others.map HeaderLine.field).foldl applyField req := by
  have once : ∀ name, headers.countP (HeaderLine.isNamed name) ≤ 1 →
      ∀ first ∈ headers.map HeaderLine.field, ∀ second ∈ headers.map HeaderLine.field,
        first.1 = name → second.1 = name → first = second := by
    intro name one first inFirst second inSecond named named'
    obtain ⟨header, member, rfl⟩ := List.mem_map.mp inFirst
    obtain ⟨other, member', rfl⟩ := List.mem_map.mp inSecond
    rw [eq_of_countP_le_one one member member' (decide_eq_true named) (decide_eq_true named')]
  apply permuted.foldl_eq'
  intro first inFirst second inSecond current
  exact applyField_comm first second current
    (once _ hosts first inFirst second inSecond) (once _ connections first inFirst second inSecond)

/-- The same line up to the case of its letters and the spaces around its parts. -/
def HeaderLine.Variant (header other : HeaderLine) : Prop :=
  lower header.name = lower other.name ∧ lower header.value = lower other.value

def Rearranged (headers others : List HeaderLine) : Prop :=
  ∃ middle : List HeaderLine, headers.Perm middle ∧ List.Forall₂ HeaderLine.Variant middle others

theorem map_field_of_variants (headers others : List HeaderLine)
    (variants : List.Forall₂ HeaderLine.Variant headers others) :
    headers.map HeaderLine.field = others.map HeaderLine.field := by
  induction variants with
  | nil => rfl
  | cons variant _ ih =>
      have same := congrArg₂ Prod.mk (congrArg (trim · 32) variant.1) (congrArg (trim · 32) variant.2)
      simp only [List.map_cons, ih]
      exact congrArg (· :: _) same

theorem Rearranged.fields {headers others : List HeaderLine} (rearranged : Rearranged headers others) :
    (headers.map HeaderLine.field).Perm (others.map HeaderLine.field) := by
  obtain ⟨middle, permuted, variants⟩ := rearranged
  rw [← map_field_of_variants middle others variants]
  exact permuted.map _

theorem Sections.lines {text body : Bytes} {headers : List Bytes}
    (sections : Sections text headers body) : ∀ line ∈ headers, 10 ∉ line := by
  induction sections with
  | blank => simp
  | blankEnd => simp
  | header line rest headers body single filled behind ih =>
      intro other member
      rcases List.mem_cons.mp member with rfl | later
      · exact single
      · exact ih other later
  | headerEnd line single filled =>
      intro other member
      rwa [List.mem_singleton.mp member]

theorem Request.lines {buf first body : Bytes} {headers : List Bytes}
    (request : Request buf first headers body) : ∀ line ∈ headers, 10 ∉ line := by
  cases request with
  | bare => simp
  | full _ _ _ _ _ behind => exact behind.lines

theorem Request.requestTokens {buf first body : Bytes} {headers : List Bytes}
    (request : Request buf first headers body) :
    requestTokens buf = tokens (removeEndl first) [32] := by
  rw [Http.requestTokens, request.split.1]

theorem lineRequest_congr (conf : Config) (one two : Bytes)
    (same : requestTokens one = requestTokens two) : lineRequest conf one = lineRequest conf two := by
  have uri : requestUri conf one = requestUri conf two := by rw [requestUri, same, requestUri]
  have type : requestType conf one = requestType conf two := by
    rw [requestType, uri, requestType]
  simp only [lineRequest, same, uri, type]

theorem Request.headerLines {buf first body : Bytes} {headers : List HeaderLine}
    (request : Request buf first (headers.map HeaderLine.text) body) :
    headerLines ((tokens buf [10]).drop 1) =
      headers.map fun header => lower (removeEndl header.text) := by
  have texts := request.split.2.1
  have lines : Http.headerLines ((tokens buf [10]).drop 1) =
      (headerTexts ((tokens buf [10]).drop 1)).map lower := rfl
  rw [lines, texts, List.map_map, List.map_map]
  rfl

theorem Request.headersRead [Overlapping] {buf first body : Bytes} {headers : List HeaderLine}
    (request : Request buf first (headers.map HeaderLine.text) body)
    (apart : ∀ header ∈ headers, header.Apart) : HeadersRead buf := by
  rw [HeadersRead, request.headerLines]
  intro line member
  obtain ⟨header, inside, rfl⟩ := List.mem_map.mp member
  exact header.readable_text (request.lines _ (List.mem_map_of_mem inside)) (apart header inside)

/-- A parse that gets through with every library has met no overlapping copy. -/
theorem Request.apart {buf first body : Bytes} {headers : List HeaderLine} {conf : Config}
    {req : ParsedReq} (request : Request buf first (headers.map HeaderLine.text) body)
    (many : 3 ≤ (Http.requestTokens buf).length)
    (parsed : @parseHttpReq .undefined conf buf = some req) :
    ∀ header ∈ headers, header.Apart := by
  let _ := Overlapping.undefined
  have read := ((parseHttpReq_isSome_iff conf buf).mp (by rw [parsed]; rfl)).2 many
  rw [HeadersRead, request.headerLines] at read
  intro header member
  apply header.apart_of_readable (request.lines _ (List.mem_map_of_mem member))
  exact read _ (List.mem_map_of_mem member)

theorem Request.parsed_apart [Overlapping] {buf first body : Bytes} {headers : List HeaderLine}
    (request : Request buf first (headers.map HeaderLine.text) body) (conf : Config)
    (fits : Fits conf buf) (many : 3 ≤ (Http.requestTokens buf).length)
    (apart : ∀ header ∈ headers, header.Apart) :
    parseHttpReq conf buf = some { (headers.map HeaderLine.field).foldl applyField
      (lineRequest conf buf) with postData := body } := by
  rw [request.parsed conf fits many (request.headersRead apart), foldl_applyHeader headers _
    (fun header member => request.lines _ (List.mem_map_of_mem member)) apart]

/-- The same request up to the case, the spaces and the order of its header lines is
parsed to the same by every library, just when the copies of `strip` do not overlap. -/
theorem parse_rearranged_iff (conf : Config) (one two first body : Bytes)
    (headers others : List HeaderLine) (fits : Fits conf one) (fits' : Fits conf two)
    (request : Request one first (headers.map HeaderLine.text) body)
    (request' : Request two first (others.map HeaderLine.text) body)
    (hosts : headers.countP (HeaderLine.isNamed (ascii "host")) ≤ 1)
    (connections : headers.countP (HeaderLine.isNamed (ascii "connection")) ≤ 1)
    (rearranged : Rearranged headers others) :
    (∀ _ : Overlapping, ∃ req, parseHttpReq conf one = some req ∧ parseHttpReq conf two = some req) ↔
      (requestTokens one).length < 3 ∨ ∀ header ∈ headers ++ others, header.Apart := by
  have same : requestTokens one = requestTokens two := by
    rw [request.requestTokens, request'.requestTokens]
  by_cases few : (requestTokens one).length < 3
  · simp only [few, true_or, iff_true]
    intro library
    refine ⟨{ ParsedReq.zero with errorCode := ERR_BAD_REQUEST }, ?_, ?_⟩
    · rw [parseHttpReq_read conf one fits (fun many => by omega), parsedRequest_few conf one few]
    · rw [same] at few
      rw [parseHttpReq_read conf two fits' (fun many => by omega), parsedRequest_few conf two few]
  · simp only [few, false_or, List.mem_append]
    constructor
    · intro always header member
      -- A library that gives an overlapping copy no result lets no such line through.
      obtain ⟨req, parsed, parsed'⟩ := always .undefined
      rcases member with here | there
      · exact request.apart (by omega) parsed header here
      · exact request'.apart (by rw [← same]; omega) parsed' header there
    · intro apart library
      have parsed := request.parsed_apart conf fits (by omega)
        (fun header member => apart header (Or.inl member))
      have parsed' := request'.parsed_apart conf fits' (by rw [← same]; omega)
        (fun header member => apart header (Or.inr member))
      have order := foldl_applyField_perm headers others (lineRequest conf one) rearranged.fields
        hosts connections
      rw [← lineRequest_congr conf one two same, ← order] at parsed'
      exact ⟨_, parsed, parsed'⟩

def requestText (first : Bytes) (headers : List Bytes) (body : Bytes) : Bytes :=
  first ++ 10 :: (headers.flatMap (· ++ [10]) ++ 10 :: body)

theorem request_requestText (first body : Bytes) (headers : List Bytes) (single : 10 ∉ first)
    (lines : ∀ line ∈ headers, 10 ∉ line ∧ ¬ BlankLine line) :
    Request (requestText first headers body) first headers body := by
  apply Request.full first _ headers body single
  clear single
  induction headers with
  | nil => exact Sections.blank [] body (Or.inl rfl)
  | cons line rest ih =>
      have here := lines line List.mem_cons_self
      rw [List.flatMap_cons, List.append_assoc, List.append_assoc]
      exact Sections.header line _ rest body here.1 here.2
        (ih (fun next member => lines next (List.mem_cons_of_mem _ member)))

def sampleLine (name value : Bytes) (front back : Nat) (named : name ≠ []) (clean : 58 ∉ name) :
    HeaderLine where
  nameFront := 0
  name := name
  nameBack := back
  valueFront := front
  value := value
  valueBack := back
  cr := true
  named := named
  nameClean := clean
  ending bare := by cases bare

def sampleHeaders : List HeaderLine :=
  [sampleLine (ascii "Host") (ascii "a.org") 0 0 (by decide) (by decide),
    sampleLine (ascii "Connection") (ascii "Keep-Alive") 11 0 (by decide) (by decide)]

def rearrangedHeaders : List HeaderLine :=
  [sampleLine (ascii "CONNECTION") (ascii "keep-alive") 0 2 (by decide) (by decide),
    sampleLine (ascii "host") (ascii "A.ORG") 7 1 (by decide) (by decide)]

def sampleRequest (headers : List HeaderLine) : Bytes :=
  requestText (ascii "POST / HTTP/1.1\r") (headers.map HeaderLine.text) (ascii "x")

theorem fits_of_parsed [Overlapping] {conf : Config} {buf : Bytes}
    (parsed : (parseHttpReq conf buf).isSome = true) : Fits conf buf :=
  ((parseHttpReq_isSome_iff conf buf).mp parsed).1

theorem parse_rearranged_iff_sample :
    (∀ _ : Overlapping, ∃ req, parseHttpReq sampleConfig (sampleRequest sampleHeaders) = some req ∧
      parseHttpReq sampleConfig (sampleRequest rearrangedHeaders) = some req) ↔
      (requestTokens (sampleRequest sampleHeaders)).length < 3 ∨
        ∀ header ∈ sampleHeaders ++ rearrangedHeaders, header.Apart := by
  have lines : ∀ line ∈ sampleHeaders.map HeaderLine.text, 10 ∉ line ∧ ¬ BlankLine line := by
    decide +kernel
  have lines' : ∀ line ∈ rearrangedHeaders.map HeaderLine.text, 10 ∉ line ∧ ¬ BlankLine line := by
    decide +kernel
  have rearranged : Rearranged sampleHeaders rearrangedHeaders := by
    refine ⟨sampleHeaders.reverse, (List.reverse_perm _).symm, ?_⟩
    refine List.Forall₂.cons ⟨by decide, by decide⟩ (List.Forall₂.cons ⟨by decide, by decide⟩ ?_)
    exact List.Forall₂.nil
  let _ := Letters.forward
  exact parse_rearranged_iff sampleConfig _ _ (ascii "POST / HTTP/1.1\r") (ascii "x") sampleHeaders
    rearrangedHeaders (fits_of_parsed (by decide +kernel)) (fits_of_parsed (by decide +kernel))
    (request_requestText _ _ _ (by decide) lines) (request_requestText _ _ _ (by decide) lines')
    (by decide) (by decide) rearranged

/-- The lines are apart: they have no space in front of their values, or enough of them. -/
example : ∀ header ∈ sampleHeaders ++ rearrangedHeaders, header.Apart := by decide

/-- A copy of four to seven bytes by two words of four, the second one read behind the
store of the first. -/
def copyWords (front : Nat) (line : Bytes) : Bytes :=
  let cells := line ++ [0]
  let count := cells.length - front
  let cells := (cells.drop front).take 4 ++ cells.drop 4
  cstr (cells.take (count - 4) ++ (cells.drop (front + count - 4)).take 4)

@[reducible] def wordLetters : Letters where
  letters line sep :=
    let front := (line.takeWhile (· = sep)).length
    if 4 ≤ line.length + 1 - front ∧ line.length + 1 - front ≤ 7 then
      (copyWords front line).rdropWhile (· = sep)
    else trim line sep

def hostLine (front : Nat) : HeaderLine :=
  sampleLine (ascii "Host") (ascii "a.org") front 0 (by decide) (by decide)

/-- With that library a space in front of `a.org` makes it `a.rrg`. -/
theorem space_changes_host :
    let one := sampleRequest [hostLine 0]
    let two := sampleRequest [hostLine 1]
    (Fits sampleConfig one ∧ Fits sampleConfig two) ∧
      Request one (ascii "POST / HTTP/1.1\r") ([hostLine 0].map HeaderLine.text) (ascii "x") ∧
      Request two (ascii "POST / HTTP/1.1\r") ([hostLine 1].map HeaderLine.text) (ascii "x") ∧
      (∀ name, [hostLine 0].countP (HeaderLine.isNamed name) ≤ 1) ∧
      Rearranged [hostLine 0] [hostLine 1] ∧
      ∃ _ : Letters, (parseHttpReq sampleConfig one).map ParsedReq.host = some (ascii "a.org") ∧
        (parseHttpReq sampleConfig two).map ParsedReq.host = some (ascii "a.rrg") := by
  have lines : ∀ front ∈ [0, 1], ∀ line ∈ [hostLine front].map HeaderLine.text,
      10 ∉ line ∧ ¬ BlankLine line := by decide +kernel
  let _ := wordLetters
  refine ⟨⟨fits_of_parsed (by decide +kernel), fits_of_parsed (by decide +kernel)⟩,
    request_requestText _ _ _ (by decide) (lines 0 (by decide)),
    request_requestText _ _ _ (by decide) (lines 1 (by decide)),
    fun _ => List.countP_le_length, ?_, wordLetters, ?_, ?_⟩
  · exact ⟨_, List.Perm.refl _, .cons ⟨rfl, rfl⟩ .nil⟩
  · decide +kernel
  · decide +kernel

end NetworkSystem.Http
