import NetworkSystem.Http.Server
import NetworkSystem.Lib.Blocks
import Mathlib.Data.List.TakeDrop

/-! What the socket accepts of a response, as pieces that are offered one after the
other, and the server as such a sender. -/

namespace NetworkSystem.Http

open Bytes Blocks

/-! A sender that offers each piece once. -/

/-- A piece that has been refused is offered until it is taken or fails, and nothing
is sent behind it. -/
def pending (piece : Bytes) : List SendOutcome → Option Bytes
  | [] => none
  | .room count :: _ => some (piece.take count)
  | .again :: later => pending piece later
  | .error :: _ => some []

/-- What is taken of the pieces; `closing` tells whether the sender is done with its
last piece, or finds out one event later. -/
def delivered (closing : Bool) : List Bytes → List SendOutcome → Option Bytes
  | _, [] => none
  | [], _ :: _ => some []
  | piece :: rest, .room count :: later =>
      if closing = true ∧ rest = [] then some (piece.take count)
      else (delivered closing rest later).map (fun bytes => piece.take count ++ bytes)
  | piece :: _, .again :: later => pending piece later
  | _ :: _, .error :: _ => some []

/-- Every `send` takes all it is offered, and at most the last piece is refused, any
number of times. -/
inductive Undisturbed : List Bytes → List SendOutcome → Prop
  | last (piece : Bytes) (count : Nat) (later : List SendOutcome)
      (all : piece.length ≤ count) : Undisturbed [piece] (.room count :: later)
  | refused (piece : Bytes) (later : List SendOutcome) (rest : Undisturbed [piece] later) :
      Undisturbed [piece] (.again :: later)
  | whole (piece : Bytes) (pieces : List Bytes) (count : Nat) (later : List SendOutcome)
      (all : piece.length ≤ count) (rest : Undisturbed pieces later) :
      Undisturbed (piece :: pieces) (.room count :: later)

theorem undisturbed_room_iff (piece : Bytes) (rest : List Bytes) (count : Nat)
    (later : List SendOutcome) :
    Undisturbed (piece :: rest) (.room count :: later) ↔
      piece.length ≤ count ∧ (rest ≠ [] → Undisturbed rest later) := by
  constructor
  · intro undisturbed
    cases undisturbed with
    | last piece count later all => exact ⟨all, fun more => absurd rfl more⟩
    | whole piece pieces count later all tail => exact ⟨all, fun _ => tail⟩
  · intro taken
    by_cases last : rest = []
    · subst last
      exact Undisturbed.last piece count later taken.1
    · exact Undisturbed.whole piece rest count later taken.1 (taken.2 last)

theorem undisturbed_again_iff (piece : Bytes) (rest : List Bytes) (later : List SendOutcome) :
    Undisturbed (piece :: rest) (.again :: later) ↔ rest = [] ∧ Undisturbed [piece] later := by
  constructor
  · intro undisturbed
    cases undisturbed with
    | refused piece later tail => exact ⟨rfl, tail⟩
  · intro refused
    rw [refused.1]
    exact Undisturbed.refused piece later refused.2

theorem not_undisturbed_error (pieces : List Bytes) (later : List SendOutcome) :
    ¬ Undisturbed pieces (.error :: later) := by
  intro undisturbed
  cases undisturbed

theorem take_append_eq_iff (piece rest others : Bytes) (count : Nat)
    (bound : others.length ≤ rest.length) :
    piece.take count ++ others = piece ++ rest ↔ piece.length ≤ count ∧ others = rest := by
  constructor
  · intro same
    have size := congrArg List.length same
    simp only [List.length_append, List.length_take] at size
    have all : piece.length ≤ count := by omega
    rw [List.take_of_length_le all] at same
    exact ⟨all, List.append_cancel_left same⟩
  · intro taken
    rw [List.take_of_length_le taken.1, taken.2]

theorem pending_length (piece : Bytes) (outcomes : List SendOutcome) (bytes : Bytes)
    (sent : pending piece outcomes = some bytes) : bytes.length ≤ piece.length := by
  induction outcomes with
  | nil => cases sent
  | cons outcome later ih =>
      cases outcome with
      | room count =>
          rw [← Option.some.inj sent]
          exact List.length_take_le' _ _
      | again => exact ih sent
      | error =>
          rw [← Option.some.inj sent]
          exact Nat.zero_le _

theorem pending_iff (piece : Bytes) (outcomes : List SendOutcome) (bytes : Bytes)
    (nonempty : piece ≠ []) (sent : pending piece outcomes = some bytes) :
    bytes = piece ↔ Undisturbed [piece] outcomes := by
  induction outcomes with
  | nil => cases sent
  | cons outcome later ih =>
      cases outcome with
      | room count =>
          rw [← Option.some.inj sent, undisturbed_room_iff, List.take_eq_self_iff]
          exact ⟨fun all => ⟨all, fun more => absurd rfl more⟩, fun taken => taken.1⟩
      | again =>
          rw [undisturbed_again_iff, ih sent]
          exact ⟨fun rest => ⟨rfl, rest⟩, fun refused => refused.2⟩
      | error =>
          rw [← Option.some.inj sent]
          exact ⟨fun empty => absurd empty.symm nonempty,
            fun undisturbed => absurd undisturbed (not_undisturbed_error _ _)⟩

theorem delivered_length (closing : Bool) (pieces : List Bytes) (outcomes : List SendOutcome)
    (bytes : Bytes) (sent : delivered closing pieces outcomes = some bytes) :
    bytes.length ≤ pieces.flatten.length := by
  induction outcomes generalizing pieces bytes with
  | nil => cases pieces <;> cases sent
  | cons outcome later ih =>
      cases pieces with
      | nil =>
          rw [← Option.some.inj sent]
          exact Nat.zero_le _
      | cons piece rest =>
          rw [List.flatten_cons, List.length_append]
          cases outcome with
          | room count =>
              have part : (piece.take count).length ≤ piece.length := List.length_take_le' _ _
              simp only [delivered] at sent
              split at sent
              · rw [← Option.some.inj sent]
                omega
              · obtain ⟨others, tail, rfl⟩ := Option.map_eq_some_iff.mp sent
                have bound := ih rest others tail
                rw [List.length_append]
                omega
          | again =>
              have bound := pending_length piece later bytes sent
              omega
          | error =>
              rw [← Option.some.inj sent]
              exact Nat.zero_le _

theorem delivered_room (closing : Bool) (piece : Bytes) (rest : List Bytes) (count : Nat)
    (later : List SendOutcome) (bytes : Bytes)
    (sent : delivered closing (piece :: rest) (.room count :: later) = some bytes) :
    ∃ others, bytes = piece.take count ++ others ∧ others.length ≤ rest.flatten.length ∧
      (rest ≠ [] → delivered closing rest later = some others) := by
  simp only [delivered] at sent
  split at sent
  · rename_i closes
    refine ⟨[], ?_, Nat.zero_le _, fun more => absurd closes.2 more⟩
    rw [List.append_nil, ← Option.some.inj sent]
  · obtain ⟨others, tail, rfl⟩ := Option.map_eq_some_iff.mp sent
    exact ⟨others, rfl, delivered_length closing rest later others tail, fun _ => tail⟩

/-- All pieces arrive exactly when the sending is undisturbed. -/
theorem delivered_iff (closing : Bool) (pieces : List Bytes) (outcomes : List SendOutcome)
    (bytes : Bytes) (nonempty : ∀ piece ∈ pieces, piece ≠ []) (some_ : pieces ≠ [])
    (sent : delivered closing pieces outcomes = some bytes) :
    bytes = pieces.flatten ↔ Undisturbed pieces outcomes := by
  -- Induction over the pieces, each of which is offered once.
  induction pieces generalizing outcomes bytes with
  | nil => exact absurd rfl some_
  | cons piece rest ih =>
      have head := nonempty piece List.mem_cons_self
      have others : ∀ next ∈ rest, next ≠ [] :=
        fun next member => nonempty next (List.mem_cons_of_mem _ member)
      rw [List.flatten_cons]
      cases outcomes with
      | nil => cases sent
      | cons outcome later =>
          cases outcome with
          | room count =>
              rcases delivered_room closing piece rest count later bytes sent with
                ⟨behind, rfl, bound, tail⟩
              rw [take_append_eq_iff _ _ _ _ bound, undisturbed_room_iff]
              apply and_congr_right
              intro all
              by_cases last : rest = []
              · subst last
                have empty : behind = [] := List.eq_nil_of_length_eq_zero (Nat.le_zero.mp bound)
                exact ⟨fun _ more => absurd rfl more, fun _ => empty⟩
              · rw [ih later behind others last (tail last)]
                exact ⟨fun undisturbed _ => undisturbed, fun undisturbed => undisturbed last⟩
          | again =>
              rw [undisturbed_again_iff]
              by_cases last : rest = []
              · subst last
                rw [List.flatten_nil, List.append_nil, pending_iff piece later bytes head sent]
                exact ⟨fun undisturbed => ⟨rfl, undisturbed⟩, fun refused => refused.2⟩
              · -- The pieces behind a refused one hold at least one byte, which is missing.
                have gap : 0 < rest.flatten.length := by
                  cases rest with
                  | nil => exact absurd rfl last
                  | cons next tail =>
                      have positive := List.length_pos_iff.mpr (others next List.mem_cons_self)
                      rw [List.flatten_cons, List.length_append]
                      omega
                have bound := pending_length piece later bytes sent
                constructor
                · intro all
                  have size := congrArg List.length all
                  rw [List.length_append] at size
                  omega
                · intro refused
                  exact absurd refused.1 last
          | error =>
              rw [← Option.some.inj sent]
              constructor
              · intro empty
                exact absurd (List.append_eq_nil_iff.mp empty.symm).1 head
              · intro undisturbed
                exact absurd undisturbed (not_undisturbed_error _ _)

/-! The server as such a sender. -/

def trailer (req : HttpReq) : List Bytes :=
  if req.appends then [postText req.postData] else []

theorem not_closing (req : HttpReq) (blocks : List Bytes) :
    ¬ (req.appends = true ∧ blocks ++ trailer req = []) := by
  intro closes
  have nothing := (List.append_eq_nil_iff.mp closes.2).2
  simp only [trailer, closes.1, ↓reduceIte, reduceCtorEq] at nothing

section server

variable (root : Bytes) (disk : Disk) (final : EpollIo)

theorem respond_pending (io : EpollIo) (events : List Event) (piece : Bytes)
    (buffered : io.buf = some piece) (waits : io.events = .EPOLLOUT)
    (ended : respond root disk io events = some final) :
    ∃ bytes, pending piece (events.map Event.outcome) = some bytes ∧
      final.accepted = io.accepted ++ bytes := by
  induction events with
  | nil => cases ended
  | cons event rest ih =>
      simp only [respond, handleOut, buffered, sendData] at ended
      rw [List.map_cons]
      cases outcome : event.outcome with
      | room count =>
          simp only [outcome, resetEpoll, Bool.false_eq_true, ↓reduceIte, Option.some.injEq,
            Option.getD_some] at ended
          exact ⟨piece.take count, rfl, by rw [← ended]⟩
      | again =>
          simp only [outcome, waits, reduceCtorEq, ↓reduceIte] at ended
          exact ih ended
      | error =>
          simp only [outcome, resetEpoll, ↓reduceIte, Option.some.injEq] at ended
          exact ⟨[], rfl, by rw [← ended, List.append_nil]⟩

theorem respond_sent (io : EpollIo) (event : Event) (rest : List Event) (piece : Bytes)
    (more : Bool) (buffered : io.buf = some piece) (waits : io.events = .EPOLLOUT)
    (ended : (if (sendData event more io).events = .EPOLLIN then some (sendData event more io)
      else respond root disk (sendData event more io) rest) = some final) :
    match event.outcome with
    | .room count =>
        if more then
          respond root disk { io with accepted := io.accepted ++ piece.take count, buf := none }
            rest = some final
        else final.accepted = io.accepted ++ piece.take count
    | .again => ∃ bytes, pending piece (rest.map Event.outcome) = some bytes ∧
        final.accepted = io.accepted ++ bytes
    | .error => final.accepted = io.accepted := by
  cases outcome : event.outcome with
  | room count =>
      cases more with
      | true =>
          simp only [sendData, outcome, buffered, waits, Option.getD_some, reduceCtorEq, ↓reduceIte]
            at ended ⊢
          exact ended
      | false =>
          simp only [sendData, outcome, buffered, resetEpoll, Option.getD_some, Bool.false_eq_true,
            ↓reduceIte, Option.some.injEq] at ended ⊢
          rw [← ended]
  | again =>
      simp only [sendData, outcome, waits, reduceCtorEq, ↓reduceIte] at ended ⊢
      exact respond_pending root disk final io rest piece buffered waits ended
  | error =>
      simp only [sendData, outcome, resetEpoll, ↓reduceIte, Option.some.injEq] at ended ⊢
      rw [← ended]

/-- An attempt at a piece that is not the last one, given what follows once a part of
it has been taken. -/
theorem respond_more (closing : Bool) (pieces : List Bytes) (io : EpollIo) (event : Event)
    (rest : List Event) (piece : Bytes) (buffered : io.buf = some piece)
    (waits : io.events = .EPOLLOUT) (open_ : ¬ (closing = true ∧ pieces = []))
    (behind : ∀ next, next.buf = none → next.readfd = io.readfd → next.req = io.req →
      next.events = .EPOLLOUT → respond root disk next rest = some final →
      ∃ bytes, delivered closing pieces (rest.map Event.outcome) = some bytes ∧
        final.accepted = next.accepted ++ bytes)
    (ended : (if (sendData event true io).events = .EPOLLIN then some (sendData event true io)
      else respond root disk (sendData event true io) rest) = some final) :
    ∃ bytes, delivered closing (piece :: pieces) ((event :: rest).map Event.outcome) =
        some bytes ∧ final.accepted = io.accepted ++ bytes := by
  have attempt := respond_sent root disk final io event rest piece true buffered waits ended
  rw [List.map_cons]
  cases outcome : event.outcome with
  | room count =>
      simp only [outcome, ↓reduceIte] at attempt
      have next := behind { io with accepted := io.accepted ++ piece.take count, buf := none }
        rfl rfl rfl waits attempt
      rcases next with ⟨bytes, sent, later⟩
      refine ⟨piece.take count ++ bytes, ?_, by rw [later, List.append_assoc]⟩
      simp only [delivered, open_, ↓reduceIte, sent, Option.map_some]
  | again =>
      simp only [outcome] at attempt
      exact attempt
  | error =>
      simp only [outcome] at attempt
      exact ⟨[], rfl, by rw [attempt, List.append_nil]⟩

theorem respond_over (io : EpollIo) (event : Event) (rest : List Event) (fp : FILE)
    (req : HttpReq) (empty : io.buf = none) (opened : io.readfd = some fp)
    (asked : io.req = some req) (waits : io.events = .EPOLLOUT)
    (atEnd : fp.content.drop fp.pos = [])
    (ended : respond root disk io (event :: rest) = some final) :
    ∃ bytes, delivered req.appends (trailer req) ((event :: rest).map Event.outcome) = some bytes ∧
      final.accepted = io.accepted ++ bytes := by
  have nothing : (fp.fread BUF_SIZE).1 = [] := by
    simp only [FILE.fread, Store.load, atEnd, List.take_nil]
  simp only [respond, handleOut, empty, opened, asked, nothing, List.length_nil, gt_iff_lt,
    Nat.lt_irrefl, ↓reduceIte] at ended
  cases appends : req.appends with
  | false =>
      simp only [appends, resetEpoll, Bool.false_eq_true, ↓reduceIte, Option.some.injEq] at ended
      refine ⟨[], ?_, by rw [← ended, List.append_nil]⟩
      simp only [trailer, appends, Bool.false_eq_true, ↓reduceIte, List.map_cons, delivered]
  | true =>
      simp only [appends, ↓reduceIte, appendPostResponse, List.nil_append] at ended
      split at ended
      · cases ended
      · rename_i next sent
        split at sent
        · have attempt := respond_sent root disk final
            { io with
              readfd := some (fp.fread BUF_SIZE).2
              req := some req
              buf := some (postText req.postData) }
            event rest (postText req.postData) false rfl waits
            (by rwa [← Option.some.inj sent] at ended)
          simp only [trailer, appends, ↓reduceIte, List.map_cons]
          cases outcome : event.outcome with
          | room count =>
              simp only [outcome, Bool.false_eq_true, ↓reduceIte] at attempt
              exact ⟨_, by simp only [delivered, and_self, ↓reduceIte], attempt⟩
          | again =>
              simp only [outcome] at attempt
              simpa only [delivered] using attempt
          | error =>
              simp only [outcome] at attempt
              exact ⟨[], by simp only [delivered], by rw [attempt, List.append_nil]⟩
        · cases sent

theorem respond_reading (io : EpollIo) (events : List Event) (fp : FILE) (req : HttpReq)
    (empty : io.buf = none) (opened : io.readfd = some fp) (asked : io.req = some req)
    (waits : io.events = .EPOLLOUT) (ended : respond root disk io events = some final) :
    ∃ bytes, delivered req.appends (cut BUF_SIZE (fp.content.drop fp.pos) ++ trailer req)
        (events.map Event.outcome) = some bytes ∧ final.accepted = io.accepted ++ bytes := by
  induction events generalizing io fp with
  | nil => cases ended
  | cons event rest ih =>
      by_cases atEnd : fp.content.drop fp.pos = []
      · rw [atEnd, cut_nil, List.nil_append]
        exact respond_over root disk final io event rest fp req empty opened asked waits atEnd ended
      · have positive : 0 < BUF_SIZE := by decide
        have longer := List.length_pos_iff.mpr atEnd
        let piece := (fp.content.drop fp.pos).take BUF_SIZE
        have filled : piece.length > 0 := by
          rw [List.length_take]
          omega
        have data : (fp.fread BUF_SIZE).1 = piece := rfl
        have further : fp.content.drop (fp.fread BUF_SIZE).2.pos =
            (fp.content.drop fp.pos).drop BUF_SIZE := by
          have pos : (fp.fread BUF_SIZE).2.pos = fp.pos + piece.length := rfl
          rw [pos, List.drop_drop, List.length_take, List.length_drop]
          by_cases short : fp.content.length - fp.pos ≤ BUF_SIZE
          · rw [List.drop_eq_nil_of_le (by omega), List.drop_eq_nil_of_le (by omega)]
          · rw [Nat.min_eq_left (by omega)]
        simp only [respond, handleOut, empty, opened, asked, data, filled, ↓reduceIte] at ended
        rw [cut_of_ne_nil BUF_SIZE positive _ atEnd, List.cons_append]
        apply respond_more root disk final req.appends _
          { io with readfd := some (fp.fread BUF_SIZE).2, req := some req, buf := some piece }
          event rest piece rfl waits (not_closing req _) ?_ ended
        intro next buf readfd asked waits continued
        rw [← further, ← FILE.fread_content fp BUF_SIZE]
        exact ih next (fp.fread BUF_SIZE).2 buf readfd asked waits continued

end server

/-- A connection that has read its request and waits to answer it. -/
structure Requested (io : EpollIo) (req : HttpReq) : Prop where
  buf : io.buf = none
  readfd : io.readfd = none
  req : io.req = some req
  events : io.events = .EPOLLOUT

theorem respond_requested (root : Bytes) (disk : Disk) (io final : EpollIo) (req : HttpReq)
    (content : Bytes) (event : Event) (events : List Event) (requested : Requested io req)
    (ok : req.errorCode = 0) (found : disk.files (root ++ req.uri) = some content)
    (ended : respond root disk io (event :: events) = some final) :
    let header := buildHttpRespHeader event.date (okHeader disk (root ++ req.uri) req)
    ∃ bytes, delivered req.appends (header :: (cut BUF_SIZE content ++ trailer req))
        ((event :: events).map Event.outcome) = some bytes ∧
      final.accepted = io.accepted ++ bytes := by
  let header := buildHttpRespHeader event.date (okHeader disk (root ++ req.uri) req)
  have opened : disk.fopenRead (root ++ req.uri) = some (FILE.opened content) := by
    rw [Disk.fopenRead, found, Option.map_some]
  simp only [respond, handleOut, requested.buf, requested.readfd, requested.req, ok, opened,
    ↓reduceIte] at ended
  apply respond_more root disk final req.appends _
    { io with readfd := some (FILE.opened content), req := some req, buf := some header }
    event events header rfl requested.events (not_closing req _) ?_ ended
  intro next buf readfd asked waits continued
  exact respond_reading root disk final next events (FILE.opened content) req buf readfd asked waits
    continued

/-- When a response arrives whole. The header is dated by the first event. -/
theorem response_delivered (root : Bytes) (disk : Disk) (io final : EpollIo) (req : HttpReq)
    (content : Bytes) (event : Event) (events : List Event) (requested : Requested io req)
    (ok : req.errorCode = 0) (found : disk.files (root ++ req.uri) = some content)
    (ended : respond root disk io (event :: events) = some final) :
    let header := buildHttpRespHeader event.date (okHeader disk (root ++ req.uri) req)
    final.accepted = io.accepted ++ (header ++ content ++ (trailer req).flatten) ↔
      Undisturbed (header :: (cut BUF_SIZE content ++ trailer req))
        ((event :: events).map Event.outcome) := by
  have blocks := cut_spec BUF_SIZE (by decide) content
  obtain ⟨bytes, sent, accepted⟩ :=
    respond_requested root disk io final req content event events requested ok found ended
  have nonempty : ∀ piece ∈ buildHttpRespHeader event.date (okHeader disk (root ++ req.uri) req) ::
      (cut BUF_SIZE content ++ trailer req), piece ≠ [] := by
    intro piece member
    cases List.mem_cons.mp member with
    | inl header =>
        rw [header]
        exact buildHttpRespHeader_ne_nil _ _
    | inr behind =>
        cases List.mem_append.mp behind with
        | inl block => exact blocks.1 piece block
        | inr last =>
            simp only [trailer] at last
            split at last
            · rw [List.mem_singleton.mp last]
              exact postText_ne_nil _
            · cases last
  have whole := delivered_iff req.appends _ _ bytes nonempty (List.cons_ne_nil _ _) sent
  rw [List.flatten_cons, List.flatten_append, blocks.2] at whole
  simp only [accepted, List.append_cancel_left_eq, List.append_assoc]
  exact whole

def samplePage : Disk where
  files path := if path = ascii "/f" then some [1, 2, 3] else none
  dirs _ := false
  allowed _ := false
  mkdirAllowed _ := false
  readdir _ _ := none
  flushed fp := fp.content

def sampleReq : HttpReq where
  method := GET
  version := 11
  keepAlive := 0
  errorCode := 0
  uri := ascii "/f"
  contentType := ascii "text/plain"
  postData := []

def sampleIo : EpollIo := ⟨none, 0, 0, some sampleReq, none, .EPOLLOUT, []⟩

def sampleHeader : Bytes := buildHttpRespHeader [] (okHeader samplePage (ascii "/f") sampleReq)

def attempts (outcomes : List SendOutcome) : List Event :=
  outcomes.map (fun outcome => ⟨0, [], outcome⟩)

/-- The last piece is refused once, and the response arrives. -/
theorem response_delivered_late :
    (respond [] samplePage sampleIo (attempts [.room 4096, .again, .room 3])).map
      EpollIo.accepted = some (sampleHeader ++ [1, 2, 3]) := by
  have returns : (respond [] samplePage sampleIo
      (attempts [.room 4096, .again, .room 3])).isSome = true := by
    decide +kernel
  obtain ⟨final, ended⟩ := Option.isSome_iff_exists.mp returns
  have delivery := response_delivered [] samplePage sampleIo final sampleReq [1, 2, 3]
    ⟨0, [], .room 4096⟩ (attempts [.again, .room 3]) ⟨rfl, rfl, rfl, rfl⟩ rfl (by decide +kernel)
    ended
  have undisturbed : Undisturbed (sampleHeader :: (cut BUF_SIZE [1, 2, 3] ++ trailer sampleReq))
      [.room 4096, .again, .room 3] := by
    apply Undisturbed.whole
    · decide +kernel
    · have last : cut BUF_SIZE [1, 2, 3] ++ trailer sampleReq = [([1, 2, 3] : Bytes)] := by
        decide +kernel
      rw [last]
      apply Undisturbed.refused
      apply Undisturbed.last
      decide
  have nothing : (trailer sampleReq).flatten = [] := by decide +kernel
  have all := delivery.mpr undisturbed
  rw [nothing, List.append_nil] at all
  rw [ended, Option.map_some, all]
  rfl

/-- A header that is refused once, or taken in part, and the connection waits for
input again without the whole response. -/
theorem response_cut_short :
    (respond [] samplePage sampleIo (attempts [.again, .room 4096])).map EpollIo.accepted =
        some sampleHeader ∧
      (respond [] samplePage sampleIo (attempts [.room 1, .room 4096, .room 1])).map
        EpollIo.accepted = some (sampleHeader.take 1 ++ [1, 2, 3]) ∧
      sampleHeader ≠ sampleHeader ++ [1, 2, 3] ∧
      sampleHeader.take 1 ++ [1, 2, 3] ≠ sampleHeader ++ [1, 2, 3] := by
  decide +kernel

end NetworkSystem.Http
