import NetworkSystem.Dfc.Packet

/-! Which host takes which partition: the thread-starting loop of the client's
`main`, for every outage pattern. -/

namespace NetworkSystem.Dfc

/-- `tp->parts` of the thread for host `i`. -/
def threadParts (cmdType : UInt8) (flag : Bool) (i h nh : Nat) : Int × Int :=
  if cmdType = CMD_PUT ∨ (cmdType = CMD_GET ∧ flag = true) then
    (((i : Int) - h + nh).tmod nh, ((i : Int) - h + 1 + nh).tmod nh)
  else (-1, ((i : Int) - h + 1 + nh).tmod nh)

/-- The loop over the hosts. `flag` tells that the host before was down. -/
def startThreads (cmdType : UInt8) (available : Nat → Bool) (h nh : Nat) :
    Bool → List Nat → List (Nat × (Int × Int))
  | _, [] => []
  | flag, i :: rest =>
      if available i then
        (i, threadParts cmdType flag i h nh) :: startThreads cmdType available h nh false rest
      else startThreads cmdType available h nh true rest

/-- The threads of one round; the last host comes before the first. -/
def schedule (cmdType : UInt8) (available : Nat → Bool) (h nh : Nat) :
    List (Nat × (Int × Int)) :=
  startThreads cmdType available h nh (!available (nh - 1)) (List.range nh)

/-- A thread asks for a partition; `-1` stands for no partition. -/
def Asks (parts : Int × Int) (part : Nat) : Prop := parts.1 = part ∨ parts.2 = part

instance (parts : Int × Int) (part : Nat) : Decidable (Asks parts part) :=
  inferInstanceAs (Decidable (_ ∨ _))

/-- The two hosts that keep a partition. -/
def firstHost (nh h part : Nat) : Nat := (part + h + nh - 1) % nh
def secondHost (nh h part : Nat) : Nat := (part + h) % nh

def before (nh i : Nat) : Nat := if i = 0 then nh - 1 else i - 1

/-- No two cyclically adjacent hosts are both unavailable. -/
def NoAdjacentOutage (available : Nat → Bool) (nh : Nat) : Prop :=
  ¬ ∃ i < nh, available i = false ∧ available ((i + 1) % nh) = false

instance (available : Nat → Bool) (nh : Nat) : Decidable (NoAdjacentOutage available nh) :=
  inferInstanceAs (Decidable (¬ ∃ i < nh, available i = false ∧ available ((i + 1) % nh) = false))

theorem startThreads_range' (cmdType : UInt8) (available : Nat → Bool) (h nh : Nat) (flag : Bool)
    (start count : Nat) :
    startThreads cmdType available h nh flag (List.range' start count) =
      ((List.range' start count).filter available).map (fun i =>
        (i, threadParts cmdType (if i = start then flag else !available (i - 1)) i h nh)) := by
  induction count generalizing start flag with
  | zero => rfl
  | succ count ih =>
      have later : ∀ (value : Bool), value = !available start →
          ((List.range' (start + 1) count).filter available).map (fun i =>
            (i, threadParts cmdType (if i = start + 1 then value else !available (i - 1)) i h nh)) =
          ((List.range' (start + 1) count).filter available).map (fun i =>
            (i, threadParts cmdType (if i = start then flag else !available (i - 1)) i h nh)) := by
        intro value same
        apply List.map_congr_left
        intro i member
        have low := (List.mem_range'_1.mp (List.mem_filter.mp member).1).1
        have here : i ≠ start := by omega
        rw [if_neg here]
        by_cases next : i = start + 1
        · have back : i - 1 = start := by omega
          rw [if_pos next, same, back]
        · rw [if_neg next]
      rw [List.range'_succ]
      by_cases up : available start = true
      · simp only [startThreads, up, ↓reduceIte, List.filter_cons_of_pos, List.map_cons]
        rw [ih, later false (by rw [up]; rfl)]
      · have down : available start = false := by simpa using up
        simp only [startThreads, down, Bool.false_eq_true, ↓reduceIte, List.filter_cons_of_neg,
          not_false_eq_true]
        rw [ih, later true (by rw [down]; rfl)]

/-- Every available host gets one thread, which looks back at the host before it. -/
theorem schedule_eq (cmdType : UInt8) (available : Nat → Bool) (h nh : Nat) :
    schedule cmdType available h nh =
      ((List.range nh).filter available).map (fun i =>
        (i, threadParts cmdType (!available (before nh i)) i h nh)) := by
  rw [schedule, List.range_eq_range', startThreads_range']
  apply List.map_congr_left
  intro i _
  by_cases zero : i = 0 <;> simp [before, zero]

theorem mem_schedule (cmdType : UInt8) (available : Nat → Bool) (h nh i : Nat)
    (parts : Int × Int) :
    (i, parts) ∈ schedule cmdType available h nh ↔
      i < nh ∧ available i = true ∧
        parts = threadParts cmdType (!available (before nh i)) i h nh := by
  rw [schedule_eq]
  simp only [List.mem_map, List.mem_filter, List.mem_range, Prod.mk.injEq]
  constructor
  · intro started
    rcases started with ⟨host, ⟨bound, up⟩, rfl, rfl⟩
    exact ⟨bound, up, rfl⟩
  · intro present
    rcases present with ⟨bound, up, rfl⟩
    exact ⟨i, ⟨bound, up⟩, rfl, rfl⟩

theorem mod_cases (value n : Nat) (bound : value < 3 * n) :
    value < n ∧ value % n = value ∨
      n ≤ value ∧ value < 2 * n ∧ value % n = value - n ∨
      2 * n ≤ value ∧ value % n = value - 2 * n := by
  by_cases first : value < n
  · exact Or.inl ⟨first, Nat.mod_eq_of_lt first⟩
  · by_cases second : value < 2 * n
    · refine Or.inr (Or.inl ⟨by omega, second, ?_⟩)
      rw [Nat.mod_eq_sub_mod (by omega), Nat.mod_eq_of_lt (by omega)]
    · refine Or.inr (Or.inr ⟨by omega, ?_⟩)
      rw [Nat.mod_eq_sub_mod (by omega), Nat.mod_eq_sub_mod (by omega),
        Nat.mod_eq_of_lt (by omega)]
      omega

section rotation

variable {nh h i part : Nat} (hash : h < nh) (host : i < nh) (bound : part < nh)

include hash in
theorem tmod_first : ((i : Int) - h + nh).tmod nh = ((i + nh - h) % nh : Nat) := by
  have cast : (i : Int) - h + nh = ((i + nh - h : Nat) : Int) := by omega
  rw [cast, Int.ofNat_tmod]

include hash in
theorem tmod_second : ((i : Int) - h + 1 + nh).tmod nh = ((i + 1 + nh - h) % nh : Nat) := by
  have cast : (i : Int) - h + 1 + nh = ((i + 1 + nh - h : Nat) : Int) := by omega
  rw [cast, Int.ofNat_tmod]

include hash host bound in
theorem first_part_iff : (i + nh - h) % nh = part ↔ i = secondHost nh h part := by
  have left := mod_cases (i + nh - h) nh (by omega)
  have right := mod_cases (part + h) nh (by omega)
  simp only [secondHost]
  omega

include hash host bound in
theorem second_part_iff : (i + 1 + nh - h) % nh = part ↔ i = firstHost nh h part := by
  have left := mod_cases (i + 1 + nh - h) nh (by omega)
  have right := mod_cases (part + h + nh - 1) nh (by omega)
  simp only [firstHost]
  omega

include hash bound in
theorem before_secondHost : before nh (secondHost nh h part) = firstHost nh h part := by
  have left := mod_cases (part + h) nh (by omega)
  have right := mod_cases (part + h + nh - 1) nh (by omega)
  simp only [before]
  by_cases zero : secondHost nh h part = 0
  · rw [if_pos zero]
    simp only [secondHost, firstHost] at *
    omega
  · rw [if_neg zero]
    simp only [secondHost, firstHost] at *
    omega

include hash in
theorem asks_put_iff (flag : Bool) (host : i < nh) (bound : part < nh) :
    Asks (threadParts CMD_PUT flag i h nh) part ↔
      i = firstHost nh h part ∨ i = secondHost nh h part := by
  simp only [threadParts, true_or, ↓reduceIte, Asks, tmod_first hash, tmod_second hash,
    Int.natCast_inj]
  rw [first_part_iff hash host bound, second_part_iff hash host bound, or_comm]

include hash in
/-- A GET thread asks for a partition as its first host, or as its second when the
first is down. -/
theorem asks_get_iff (available : Nat → Bool) (host : i < nh) (bound : part < nh) :
    Asks (threadParts CMD_GET (!available (before nh i)) i h nh) part ↔
      i = firstHost nh h part ∨
        (i = secondHost nh h part ∧ available (firstHost nh h part) = false) := by
  have notPut : CMD_GET ≠ CMD_PUT := by decide
  by_cases down : available (before nh i) = false
  · simp only [threadParts, notPut, down, Bool.not_false, and_self, or_true, ↓reduceIte, Asks,
      tmod_first hash, tmod_second hash, Int.natCast_inj]
    rw [first_part_iff hash host bound, second_part_iff hash host bound]
    constructor
    · intro either
      rcases either with second | first
      · rw [second, before_secondHost hash bound] at down
        exact Or.inr ⟨second, down⟩
      · exact Or.inl first
    · intro either
      rcases either with first | ⟨second, -⟩
      · exact Or.inr first
      · exact Or.inl second
  · have up : available (before nh i) = true := by simpa using down
    have absent : ((-1 : Int) = part) ↔ False := by
      constructor
      · intro same
        omega
      · exact False.elim
    simp only [threadParts, notPut, up, Bool.not_true, Bool.false_eq_true, and_false, or_self,
      ↓reduceIte, Asks, tmod_second hash, Int.natCast_inj, absent, false_or]
    rw [second_part_iff hash host bound]
    constructor
    · exact Or.inl
    · intro either
      rcases either with first | ⟨second, outage⟩
      · exact first
      · rw [second, before_secondHost hash bound, outage] at up
        cases up

include hash in
theorem firstHost_onto (host : i < nh) :
    ∃ part < nh, firstHost nh h part = i ∧ secondHost nh h part = (i + 1) % nh := by
  have positive : 0 < nh := by omega
  refine ⟨(i + 1 + nh - h) % nh, Nat.mod_lt _ positive, ?_, ?_⟩
  · exact ((second_part_iff hash host (Nat.mod_lt _ positive)).mp rfl).symm
  · have bound := Nat.mod_lt (i + 1 + nh - h) positive
    have first := mod_cases (i + 1 + nh - h) nh (by omega)
    have second := mod_cases ((i + 1 + nh - h) % nh + h) nh (by omega)
    have third := mod_cases (i + 1) nh (by omega)
    simp only [secondHost]
    omega

theorem host_lt (positive : 0 < nh) :
    firstHost nh h part < nh ∧ secondHost nh h part < nh :=
  ⟨Nat.mod_lt _ positive, Nat.mod_lt _ positive⟩

include hash bound in
theorem secondHost_eq : secondHost nh h part = (firstHost nh h part + 1) % nh := by
  have left := mod_cases (part + h) nh (by omega)
  have right := mod_cases (part + h + nh - 1) nh (by omega)
  have next := mod_cases ((part + h + nh - 1) % nh + 1) nh (by
    have := Nat.mod_lt (part + h + nh - 1) (show 0 < nh by omega)
    omega)
  simp only [secondHost, firstHost]
  omega

end rotation

/-- A thread of a PUT round keeps a partition exactly on its two hosts. -/
theorem put_round_iff (available : Nat → Bool) (h nh : Nat) (hash : h < nh) (part i : Nat)
    (bound : part < nh) :
    (∃ parts, (i, parts) ∈ schedule CMD_PUT available h nh ∧ Asks parts part) ↔
      available i = true ∧ (i = firstHost nh h part ∨ i = secondHost nh h part) := by
  have hosts : firstHost nh h part < nh ∧ secondHost nh h part < nh := host_lt (by omega)
  constructor
  · intro thread
    rcases thread with ⟨parts, member, asks⟩
    obtain ⟨host, up, rfl⟩ := (mem_schedule _ _ _ _ _ _).mp member
    exact ⟨up, (asks_put_iff hash _ host bound).mp asks⟩
  · intro asked
    rcases asked with ⟨up, place⟩
    have host : i < nh := by rcases place with rfl | rfl <;> omega
    exact ⟨_, (mem_schedule _ _ _ _ _ _).mpr ⟨host, up, rfl⟩,
      (asks_put_iff hash _ host bound).mpr place⟩

theorem get_round_iff (available : Nat → Bool) (h nh : Nat) (hash : h < nh) (part i : Nat)
    (bound : part < nh) :
    (∃ parts, (i, parts) ∈ schedule CMD_GET available h nh ∧ Asks parts part) ↔
      available i = true ∧ (i = firstHost nh h part ∨
        (i = secondHost nh h part ∧ available (firstHost nh h part) = false)) := by
  have hosts : firstHost nh h part < nh ∧ secondHost nh h part < nh := host_lt (by omega)
  constructor
  · intro thread
    rcases thread with ⟨parts, member, asks⟩
    obtain ⟨host, up, rfl⟩ := (mem_schedule _ _ _ _ _ _).mp member
    exact ⟨up, (asks_get_iff hash available host bound).mp asks⟩
  · intro asked
    rcases asked with ⟨up, place⟩
    have host : i < nh := by rcases place with rfl | ⟨rfl, -⟩ <;> omega
    exact ⟨_, (mem_schedule _ _ _ _ _ _).mpr ⟨host, up, rfl⟩,
      (asks_get_iff hash available host bound).mpr place⟩

theorem all_asked_iff (available : Nat → Bool) (h nh : Nat) (hash : h < nh) :
    (∀ part < nh, ∃ i parts, (i, parts) ∈ schedule CMD_GET available h nh ∧ Asks parts part) ↔
      NoAdjacentOutage available nh := by
  constructor
  · intro asked outage
    rcases outage with ⟨i, host, down, nextDown⟩
    rcases firstHost_onto hash host with ⟨part, bound, first, second⟩
    rcases asked part bound with ⟨j, thread⟩
    obtain ⟨up, place⟩ := (get_round_iff available h nh hash part j bound).mp thread
    rcases place with same | ⟨same, -⟩
    · rw [same, first, down] at up
      cases up
    · rw [same, second, nextDown] at up
      cases up
  · intro connected part bound
    have next := secondHost_eq hash bound
    have hosts : firstHost nh h part < nh ∧ secondHost nh h part < nh := host_lt (by omega)
    by_cases up : available (firstHost nh h part) = true
    · exact ⟨_, (get_round_iff available h nh hash part _ bound).mpr ⟨up, Or.inl rfl⟩⟩
    · have down : available (firstHost nh h part) = false := by simpa using up
      have other : available (secondHost nh h part) = true := by
        by_contra outage
        rw [Bool.not_eq_true, next] at outage
        exact connected ⟨_, hosts.1, down, outage⟩
      exact ⟨_, (get_round_iff available h nh hash part _ bound).mpr ⟨other, Or.inr ⟨rfl, down⟩⟩⟩

theorem asks_lt (cmdType : UInt8) (available : Nat → Bool) (h nh : Nat) (hash : h < nh)
    (i part : Nat) (parts : Int × Int) (member : (i, parts) ∈ schedule cmdType available h nh)
    (asks : Asks parts part) : part < nh := by
  obtain ⟨host, up, rfl⟩ := (mem_schedule _ _ _ _ _ _).mp member
  have positive : 0 < nh := by omega
  have first := Nat.mod_lt (i + nh - h) positive
  have second := Nat.mod_lt (i + 1 + nh - h) positive
  simp only [threadParts, Asks] at asks
  split at asks
  · simp only [tmod_first hash, tmod_second hash, Int.natCast_inj] at asks
    omega
  · simp only [tmod_second hash, Int.natCast_inj] at asks
    omega

/-- No partition is asked for twice in a GET round. -/
theorem asked_once (available : Nat → Bool) (h nh : Nat) (hash : h < nh) (part i j : Nat)
    (partsI partsJ : Int × Int) (memberI : (i, partsI) ∈ schedule CMD_GET available h nh)
    (memberJ : (j, partsJ) ∈ schedule CMD_GET available h nh) (asksI : Asks partsI part)
    (asksJ : Asks partsJ part) : i = j := by
  have bound := asks_lt _ available h nh hash i part partsI memberI asksI
  rcases (get_round_iff available h nh hash part i bound).mp ⟨partsI, memberI, asksI⟩ with
      ⟨upI, placeI⟩
  rcases (get_round_iff available h nh hash part j bound).mp ⟨partsJ, memberJ, asksJ⟩ with
      ⟨upJ, placeJ⟩
  rcases placeI with firstI | ⟨secondI, downI⟩ <;> rcases placeJ with firstJ | ⟨secondJ, downJ⟩
  · rw [firstI, firstJ]
  · rw [firstI, downJ] at upI
    cases upI
  · rw [firstJ, downI] at upJ
    cases upJ
  · rw [secondI, secondJ]

theorem schedule_nodup (cmdType : UInt8) (available : Nat → Bool) (h nh : Nat) :
    ((schedule cmdType available h nh).map Prod.fst).Nodup := by
  rw [schedule_eq, List.map_map]
  have hosts : (Prod.fst ∘ fun i => (i, threadParts cmdType (!available (before nh i)) i h nh)) =
      id := rfl
  rw [hosts, List.map_id]
  exact List.nodup_range.filter _

theorem schedule_valid (cmdType : UInt8) (available : Nat → Bool) (h nh : Nat) (hash : h < nh)
    (i : Nat) (parts : Int × Int) (member : (i, parts) ∈ schedule cmdType available h nh) :
    ∀ index ∈ [parts.1, parts.2], index = -1 ∨ ∃ part < nh, index = (part : Nat) := by
  obtain ⟨host, -, rfl⟩ := (mem_schedule _ _ _ _ _ _).mp member
  have positive : 0 < nh := by omega
  have first : ∃ part < nh, ((i : Int) - h + nh).tmod nh = (part : Nat) :=
    ⟨_, Nat.mod_lt _ positive, tmod_first hash⟩
  have second : ∃ part < nh, ((i : Int) - h + 1 + nh).tmod nh = (part : Nat) :=
    ⟨_, Nat.mod_lt _ positive, tmod_second hash⟩
  intro index inside
  simp only [threadParts] at inside
  split at inside <;> simp only [List.mem_cons, List.not_mem_nil, or_false] at inside
  · rcases inside with rfl | rfl
    · exact Or.inr first
    · exact Or.inr second
  · rcases inside with rfl | rfl
    · exact Or.inl rfl
    · exact Or.inr second

theorem schedule_put_valid (available : Nat → Bool) (h nh : Nat) (hash : h < nh) (i : Nat)
    (parts : Int × Int) (member : (i, parts) ∈ schedule CMD_PUT available h nh) :
    ∀ index ∈ [parts.1, parts.2], ∃ part < nh, index = (part : Nat) := by
  obtain ⟨host, -, rfl⟩ := (mem_schedule _ _ _ _ _ _).mp member
  have positive : 0 < nh := by omega
  intro index inside
  simp only [threadParts, true_or, ↓reduceIte, List.mem_cons, List.not_mem_nil, or_false] at inside
  rcases inside with rfl | rfl
  · exact ⟨_, Nat.mod_lt _ positive, tmod_first hash⟩
  · exact ⟨_, Nat.mod_lt _ positive, tmod_second hash⟩

/-- Placement and schedule agree: a PUT keeps every partition on its two hosts, a GET
asks at most one of the available ones, and all partitions are asked for exactly
when no two neighbours are down. -/
theorem placement_and_schedule_agree (nh h : Nat) (available : Nat → Bool) (hash : h < nh) :
    (∀ part < nh, ∀ i, (∃ parts, (i, parts) ∈ schedule CMD_PUT available h nh ∧ Asks parts part) ↔
      available i = true ∧ (i = (part + h + nh - 1) % nh ∨ i = (part + h) % nh)) ∧
    (∀ part i j partsI partsJ, (i, partsI) ∈ schedule CMD_GET available h nh →
      (j, partsJ) ∈ schedule CMD_GET available h nh → Asks partsI part → Asks partsJ part →
      i = j) ∧
    (∀ part i parts, (i, parts) ∈ schedule CMD_GET available h nh → Asks parts part →
      part < nh ∧ ∃ kept, (i, kept) ∈ schedule CMD_PUT (fun _ => true) h nh ∧ Asks kept part) ∧
    ((∀ part < nh, ∃ i parts, (i, parts) ∈ schedule CMD_GET available h nh ∧ Asks parts part) ↔
      ¬ ∃ i < nh, available i = false ∧ available ((i + 1) % nh) = false) := by
  refine ⟨?_, ?_, ?_, all_asked_iff available h nh hash⟩
  · intro part bound i
    exact put_round_iff available h nh hash part i bound
  · intro part i j partsI partsJ memberI memberJ asksI asksJ
    exact asked_once available h nh hash part i j partsI partsJ memberI memberJ asksI asksJ
  · intro part i parts member asks
    have bound := asks_lt _ available h nh hash i part parts member asks
    refine ⟨bound, (put_round_iff (fun _ => true) h nh hash part i bound).mpr ⟨rfl, ?_⟩⟩
    obtain ⟨-, place⟩ := (get_round_iff available h nh hash part i bound).mp ⟨parts, member, asks⟩
    rcases place with first | ⟨second, -⟩
    · exact Or.inl first
    · exact Or.inr second

/-- Three hosts, hash value 2: host 1, the first host of partition 0, is down. -/
theorem placement_and_schedule_agree_outage :
    ∃ i parts, (i, parts) ∈ schedule CMD_GET (fun i => i != 1) 2 3 ∧ Asks parts 0 :=
  (placement_and_schedule_agree 3 2 (fun i => i != 1) (by decide)).2.2.2.mpr (by decide) 0
    (by decide)

end NetworkSystem.Dfc
