import NetworkSystem.Dfc.Hub

/-! Users whose requests stay in their directories: what the server sends to one of them, and
leaves in this one's directory, does not depend on what it does for the others meanwhile. -/

namespace NetworkSystem.Dfc

open Bytes NetworkSystem.Path Unwinding

theorem SameHome.serverStep {user : Bytes} {disk other : Disk} (same : SameHome user disk other)
    (lists : ListsHome user disk.readdir) (plain : PlainName user) (users : Users)
    (accepts : Nat → Nat → Bool) (link : Link) (bytes : Bytes)
    (own : link.mode = .idle → OwnRequest users user (recvInto (zeros PACKET_SIZE) bytes)) :
    let here := serverStep users accepts (link.server disk) bytes
    let there := serverStep users accepts (link.server other) bytes
    there.2 = here.2 ∧ there.1.link = here.1.link ∧ SameHome user here.1.disk there.1.disk := by
  rcases link with ⟨mode, served⟩
  cases mode with
  | idle =>
      have request := same.handleRequest lists plain (own rfl)
      simp only [Dfc.serverStep, Link.server]
      generalize Dfc.handleRequest users disk _ = verdict at request ⊢
      generalize Dfc.handleRequest users other _ = mirror at request ⊢
      rcases verdict with ⟨errno, msg, fp, after⟩
      rcases mirror with ⟨errno', msg', fp', after'⟩
      rcases request with ⟨rfl, rfl, rfl, home⟩
      simp only [answer, upload, replyPacket]
      split
      · exact ⟨rfl, rfl, home⟩
      · exact ⟨rfl, rfl, home.leave _ _⟩
  | receiving path receiver =>
      simp only [Dfc.serverStep, Link.server]
      split_ifs
      · exact ⟨rfl, rfl, same.save path _⟩
      · exact ⟨rfl, rfl, same.leave path _⟩

theorem SameHome.serverEnd {user : Bytes} {disk other : Disk} (same : SameHome user disk other)
    (ending : Option Fault) (link : Link) :
    SameHome user (serverEnd ending (link.server disk)) (serverEnd ending (link.server other)) := by
  rcases link with ⟨mode, served⟩
  cases ending with
  | none => exact same
  | some fault =>
      cases mode with
      | idle => exact same
      | receiving path receiver => exact same.save path _

theorem PlainName.resolve {user : Bytes} (plain : PlainName user) (named : user ≠ []) :
    resolve user = ⟨some 0, [user]⟩ := by
  simp only [NetworkSystem.resolve, place, plain.not_absolute, plain.move, named, decide_false,
    Bool.false_eq_true, ↓reduceIte]

/-- No path lies in the directories of two users. -/
theorem AtHome.unique {user other path : Bytes} (plain : PlainName user) (named : user ≠ [])
    (plain' : PlainName other) (named' : other ≠ []) (here : AtHome user path)
    (there : AtHome other path) : other = user := by
  rw [AtHome, plain.resolve named] at here
  rw [AtHome, plain'.resolve named'] at there
  generalize NetworkSystem.resolve path = place at here there
  rcases place with ⟨base, names⟩
  cases base with
  | none => exact here.elim
  | some up =>
      simp only [Inside, Nat.not_lt_zero, false_and, or_false] at here there
      cases names with
      | nil => exact absurd (List.eq_nil_of_prefix_nil here.2) (List.cons_ne_nil _ _)
      | cons first rest =>
          have mine := (List.cons_prefix_cons.mp here.2).1
          have other_ := (List.cons_prefix_cons.mp there.2).1
          exact other_.trans mine.symm

/-- A request that the server lets in is another user's, and stays in that one's directory. -/
def OtherRequest (users : Users) (user pkt : Bytes) : Prop :=
  0 < checkUser users (msgUsername pkt) (msgPassword pkt) →
    msgUsername pkt ≠ user ∧ Confined (msgUsername pkt) (msgText pkt)

instance (users : Users) (user pkt : Bytes) : Decidable (OwnRequest users user pkt) :=
  inferInstanceAs (Decidable (_ → _))

instance (users : Users) (user pkt : Bytes) : Decidable (OtherRequest users user pkt) :=
  inferInstanceAs (Decidable (_ → _))

def PlainUsers (users : Users) : Prop := ∀ entry ∈ users, PlainName entry.1 ∧ entry.1 ≠ []

instance (users : Users) : Decidable (PlainUsers users) :=
  inferInstanceAs (Decidable (∀ entry ∈ users, _))

theorem known_of_mem_accesses {users : Users} {disk : Disk} {pkt : Bytes} {access : Access}
    (member : access ∈ accesses users disk pkt) :
    0 < checkUser users (msgUsername pkt) (msgPassword pkt) := by
  by_contra stranger
  rw [accesses, if_pos (by omega)] at member
  cases member

section other

variable {users : Users} {user : Bytes} (plain : PlainName user) (named : user ≠ [])
  (names : PlainUsers users)

include plain named names

theorem OtherRequest.accesses {pkt : Bytes} (request : OtherRequest users user pkt) {disk : Disk}
    {access : Access} (member : access ∈ accesses users disk pkt) {path : Bytes}
    (home : AtHome user path) : access.path ≠ path := by
  intro touched
  rcases request (known_of_mem_accesses member) with ⟨other, confined⟩
  rcases path_of_mem_accesses users disk pkt access member with ⟨known, called⟩
  rcases names _ known with ⟨plain', named'⟩
  have there : AtHome (msgUsername pkt) access.path := by
    rcases called with directory | inside
    · rw [directory]
      exact inside_self _
    · rw [inside]
      exact (inside_user _ _ plain').mpr confined
  rw [touched] at there
  exact other (home.unique plain named plain' named' there)

theorem serverStep_spares (accepts : Nat → Nat → Bool) (server : Server) (bytes : Bytes)
    (request : server.mode = .idle →
      OtherRequest users user (recvInto (zeros PACKET_SIZE) bytes))
    {path : Bytes} (home : AtHome user path) (spares : server.mode.Spares path) :
    SameAt path server.disk (serverStep users accepts server bytes).1.disk ∧
      (serverStep users accepts server bytes).1.mode.Spares path := by
  apply serverStep_sameAt users accepts server bytes path spares
  intro entry member
  rcases server with ⟨disk, mode, served⟩
  cases mode with
  | idle =>
      obtain ⟨access, called, rfl⟩ := List.mem_map.mp member
      exact (request rfl).accesses plain named names called home
  | receiving written receiver => cases member

end other

theorem serverEnd_sameAt (ending : Option Fault) (server : Server) (path : Bytes)
    (spares : server.mode.Spares path) : SameAt path server.disk (serverEnd ending server) := by
  rcases server with ⟨disk, mode, served⟩
  cases ending with
  | none => exact SameAt.refl path disk
  | some fault =>
      cases mode with
      | idle => exact SameAt.refl path disk
      | receiving written receiver => exact save_sameAt disk written path _ spares

section hub

variable (users : Users) (accepts : Nat → Nat → Nat → Bool) (user : Bytes) (mine : Nat → Bool)

/-- A command that arrives on a connection of the user is the user's own, one that arrives
elsewhere is another's; both stay in the directory of the one who asks. -/
def Separate (hub : Hub) (arrival : Arrival) : Prop :=
  ∀ pkt ∈ hub.command arrival,
    if mine arrival.conn then OwnRequest users user pkt else OtherRequest users user pkt

instance (hub : Hub) (arrival : Arrival) : Decidable (Separate users user mine hub arrival) :=
  inferInstanceAs (Decidable (∀ pkt ∈ hub.command arrival, ite _ _ _))

/-- Uploads on other connections go elsewhere. -/
structure Hub.Apart (hub : Hub) : Prop where
  lists : ListsHome user hub.disk.readdir
  spares : ∀ conn link, mine conn = false → hub.links conn = some link →
    ∀ path, AtHome user path → link.mode.Spares path

/-- The user's connections wait for the same, and the directory is the same. -/
structure Hub.SameFor (hub other : Hub) : Prop where
  links : ∀ conn, mine conn = true → other.links conn = hub.links conn
  home : SameHome user hub.disk other.disk

variable {users accepts user mine}

theorem Hub.command_eq {hub : Hub} {arrival : Arrival} {link : Link} {bytes : Bytes}
    (here : hub.links arrival.conn = some link) (received : arrival.result = .ok bytes)
    (idle : link.mode = .idle) : hub.command arrival = some (recvInto (zeros PACKET_SIZE) bytes) := by
  rcases link with ⟨mode, served⟩
  subst idle
  simp only [command, here, received]

theorem Separate.own {hub : Hub} {arrival : Arrival} {link : Link} {bytes : Bytes}
    (separate : Separate users user mine hub arrival) (here : hub.links arrival.conn = some link)
    (received : arrival.result = .ok bytes) (own : mine arrival.conn = true) :
    link.mode = .idle → OwnRequest users user (recvInto (zeros PACKET_SIZE) bytes) := by
  intro idle
  have request := separate _ (Hub.command_eq here received idle)
  rwa [if_pos own] at request

theorem Separate.other {hub : Hub} {arrival : Arrival} {link : Link} {bytes : Bytes}
    (separate : Separate users user mine hub arrival) (here : hub.links arrival.conn = some link)
    (received : arrival.result = .ok bytes) (other : mine arrival.conn = false) :
    link.mode = .idle → OtherRequest users user (recvInto (zeros PACKET_SIZE) bytes) := by
  intro idle
  have request := separate _ (Hub.command_eq here received idle)
  rwa [if_neg (by rw [other]; decide)] at request

theorem Hub.step_own {hub other : Hub} {arrival : Arrival} (own : mine arrival.conn = true)
    (lists : ListsHome user hub.disk.readdir) (plain : PlainName user)
    (separate : Separate users user mine hub arrival) (same : hub.SameFor user mine other) :
    other.sent users accepts arrival = hub.sent users accepts arrival ∧
      (hub.step users accepts arrival).SameFor user mine (other.step users accepts arrival) := by
  have link_ := same.links arrival.conn own
  cases here : hub.links arrival.conn with
  | none =>
      rw [here] at link_
      simp only [Hub.sent, Hub.step, here, link_, true_and]
      exact same
  | some link =>
      rw [here] at link_
      cases received : arrival.result with
      | ok bytes =>
          rcases same.home.serverStep lists plain users (accepts arrival.conn) link bytes
            (separate.own here received own) with ⟨sent, after, home⟩
          simp only [Hub.sent, Hub.step, here, link_, received, sent, after, true_and]
          constructor
          · intro conn own_
            simp only [Function.update_apply, same.links conn own_]
          · exact home
      | error fault =>
          simp only [Hub.sent, Hub.step, here, link_, received, true_and]
          constructor
          · intro conn own_
            simp only [Function.update_apply, same.links conn own_]
          · exact same.home.serverEnd (some fault) link

theorem Hub.step_links (hub : Hub) (arrival : Arrival) {conn : Nat} (other : conn ≠ arrival.conn) :
    (hub.step users accepts arrival).links conn = hub.links conn := by
  simp only [step]
  split
  · rfl
  · split <;> exact Function.update_of_ne other _ _

theorem Hub.step_system (hub : Hub) (arrival : Arrival) :
    SameSystem hub.disk (hub.step users accepts arrival).disk := by
  simp only [step]
  split
  · exact SameSystem.refl hub.disk
  · rename_i link _
    split
    · exact serverStep_system users _ (link.server hub.disk) _
    · exact serverEnd_system _ (link.server hub.disk)

theorem Hub.step_other {hub : Hub} {arrival : Arrival} (plain : PlainName user)
    (named : user ≠ []) (names : PlainUsers users) (other : mine arrival.conn = false)
    (apart : hub.Apart user mine) (separate : Separate users user mine hub arrival) {path : Bytes}
    (home : AtHome user path) :
    SameAt path hub.disk (hub.step users accepts arrival).disk ∧
      ∀ link, (hub.step users accepts arrival).links arrival.conn = some link →
        link.mode.Spares path := by
  cases here : hub.links arrival.conn with
  | none =>
      simp only [step, here]
      exact ⟨SameAt.refl path hub.disk, by simp⟩
  | some link =>
      have spares := apart.spares arrival.conn link other here path home
      cases received : arrival.result with
      | ok bytes =>
          have stepped := serverStep_spares plain named names (accepts arrival.conn)
            (link.server hub.disk) bytes (separate.other here received other) home spares
          simp only [step, here, received, Function.update_self]
          apply And.intro stepped.1
          intro last is
          rw [← Option.some.inj is]
          exact stepped.2
      | error fault =>
          simp only [step, here, received, Function.update_self]
          exact ⟨serverEnd_sameAt _ (link.server hub.disk) path spares, by simp⟩

theorem Hub.unwinds (accepts : Nat → Nat → Nat → Bool) (plain : PlainName user) (named : user ≠ [])
    (names : PlainUsers users) :
    Unwinds (Hub.step users accepts) (Hub.sent users accepts) (fun arrival => mine arrival.conn)
      (Hub.Apart user mine) (Separate users user mine) (Hub.SameFor user mine) where
  keeps := by
    intro hub arrival apart separate
    constructor
    · rw [(hub.step_system arrival).readdir]
      exact apart.lists
    · intro conn link other linked path home
      by_cases there : conn = arrival.conn
      · subst there
        exact (Hub.step_other plain named names other apart separate home).2 link linked
      · rw [hub.step_links arrival there] at linked
        exact apart.spares conn link other linked path home
  outputs := by
    intro hub other arrival own apart separate same
    exact (Hub.step_own own apart.lists plain separate same).1
  steps := by
    intro hub other arrival own apart separate same
    exact (Hub.step_own own apart.lists plain separate same).2
  spares := by
    intro hub other arrival foreign apart separate same
    have system : SameSystem hub.disk (hub.step users accepts arrival).disk :=
      hub.step_system arrival
    constructor
    · intro conn own
      have there : conn ≠ arrival.conn := by
        intro is
        rw [is, foreign] at own
        cases own
      rw [hub.step_links arrival there]
      exact same.links conn own
    · constructor
      · exact system.symm.trans same.home.system
      · intro path home
        -- A foreign step leaves every path of the user's directory as it was.
        have at_ : SameAt path hub.disk (hub.step users accepts arrival).disk :=
          (Hub.step_other plain named names foreign apart separate home).1
        have back : SameAt path (hub.step users accepts arrival).disk hub.disk :=
          ⟨at_.1.symm, at_.2.symm⟩
        exact back.trans (same.home.at_ path home)

theorem Hub.fresh_apart {disk : Disk} (lists : ListsHome user disk.readdir) :
    (Hub.fresh disk).Apart user mine := by
  constructor
  · exact lists
  · intro conn link _ linked path _
    rw [← Option.some.inj linked]
    trivial

theorem Hub.fresh_sameFor {disk other : Disk} (same : SameHome user disk other) :
    (Hub.fresh disk).SameFor user mine (Hub.fresh other) := by
  constructor
  · intro conn _
    rfl
  · exact same

end hub

def sampleNeighbour : Credentials where
  username := [118]
  password := [113]
  username_fits := by decide
  password_fits := by decide
  username_clean := by decide
  password_clean := by decide

/-- Both users of a table upload a file of the same name at the same time; the upload of the
second one breaks off. -/
def sampleArrivals : List Arrival :=
  [⟨0, .ok (buildMsgPacket CMD_PUT 0 (some (ascii "f")) (some sampleUser))⟩,
    ⟨1, .ok (buildMsgPacket CMD_PUT 0 (some (ascii "f")) (some sampleNeighbour))⟩,
    ⟨0, .ok (dataLayout.buildDataPacket 0 (some [1, 2]) 0)⟩,
    ⟨1, .ok (dataLayout.buildDataPacket 0 (some [3]) 0)⟩,
    ⟨0, .ok dataLayout.eofPacket⟩, ⟨1, .error .closed⟩]

theorem sampleArrivals_separate :
    Along (Hub.step sampleTable (fun _ _ _ => true))
      (Separate sampleTable [117] (fun conn => conn = 0)) (Hub.fresh sampleDisk)
      sampleArrivals := by
  decide +kernel

theorem sampleTable_names : PlainUsers sampleTable := by decide

theorem sampleDisk_lists (user : Bytes) : ListsHome user sampleDisk.readdir := by
  intro files others dirName home same
  rfl

/-- All results of `recv` on one connection. -/
def arrivalsOf (conn : Nat) (inbox : Inbox) : List Arrival :=
  inbox.packets.map (fun bytes => ⟨conn, .ok bytes⟩) ++
    inbox.ending.toList.map (fun fault => ⟨conn, .error fault⟩)

section single

variable (users : Users) (accepts : Nat → Nat → Nat → Bool) (conn : Nat)

/-- Without other connections the machine is the thread of the one. -/
theorem foldl_step_single (hub : Hub) (link : Link) (here : hub.links conn = some link)
    (packets : List Bytes) :
    let run := serverRun users (accepts conn) (link.server hub.disk) packets
    let arrivals := packets.map (fun bytes => (⟨conn, .ok bytes⟩ : Arrival))
    let last := arrivals.foldl (Hub.step users accepts) hub
    last.disk = run.1.disk ∧ last.links conn = some run.1.link ∧
      heard (Hub.step users accepts) (Hub.sent users accepts)
        (fun arrival => decide (arrival.conn = conn)) hub arrivals =
        run.2.map (fun pkt => (conn, pkt)) := by
  induction packets generalizing hub link with
  | nil => exact ⟨rfl, here, rfl⟩
  | cons bytes rest ih =>
      let server := (serverStep users (accepts conn) (link.server hub.disk) bytes).1
      have stepped : hub.step users accepts ⟨conn, .ok bytes⟩ =
          ⟨server.disk, Function.update hub.links conn (some server.link)⟩ := by
        simp only [Hub.step, here, server]
      have sent : hub.sent users accepts ⟨conn, .ok bytes⟩ =
          (serverStep users (accepts conn) (link.server hub.disk) bytes).2.map
            (fun pkt => (conn, pkt)) := by
        simp only [Hub.sent, here]
      have tail := ih ⟨server.disk, Function.update hub.links conn (some server.link)⟩ server.link
        (Function.update_self _ _ _)
      simp only [List.map_cons, List.foldl_cons, heard, decide_true, ↓reduceIte, stepped, sent,
        serverRun, List.map_append]
      rcases tail with ⟨disk, links, replies⟩
      exact ⟨disk, links, congrArg _ replies⟩

theorem foldl_step_arrivals (disk : Disk) (inbox : Inbox) :
    let handled := connectionHandler users (accepts conn) ⟨disk, 0, [], inbox⟩
    ((arrivalsOf conn inbox).foldl (Hub.step users accepts) (Hub.fresh disk)).disk =
        handled.disk ∧
      heard (Hub.step users accepts) (Hub.sent users accepts)
        (fun arrival => decide (arrival.conn = conn)) (Hub.fresh disk) (arrivalsOf conn inbox) =
        handled.sent.map (fun pkt => (conn, pkt)) := by
  rcases inbox with ⟨packets, ending⟩
  rcases foldl_step_single users accepts conn (Hub.fresh disk) ⟨.idle, 0⟩ rfl packets with
    ⟨last, link, replies⟩
  simp only [arrivalsOf, List.foldl_append, heard_append, replies, connectionHandler_eq,
    List.nil_append]
  cases ending with
  | none => exact ⟨last, List.append_nil _⟩
  | some fault =>
      simp only [Option.toList_some, List.map_cons, List.map_nil, List.foldl_cons, List.foldl_nil,
        heard, Hub.sent, Hub.step, link, last, ite_self, List.append_nil]
      exact ⟨rfl, rfl⟩

end single

end NetworkSystem.Dfc
