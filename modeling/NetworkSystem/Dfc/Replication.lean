import NetworkSystem.Dfc.Failover

/-! Runs of PUT and GET commands of one name with hosts missing from some of them:
which version of which partition a GET brings back. -/

namespace NetworkSystem.Dfc

open Bytes Store

/-- Nothing fails during the command: the hosts in use are in step and answer to the
end, and the client can create its files. -/
structure Healthy (req : Request) (client : Client) : Prop where
  inStep : InStep req client
  immortal : ∀ i < req.nh, client.available i = true → (client.conns i).life = none
  target : client.disk.creatable req.filename = true

/-- The host that a GET asks for a partition while no two neighbours are down. -/
def askedHost (req : Request) (available : Nat → Bool) (part : Nat) : Nat :=
  if available (firstHost req.nh req.hash part) then firstHost req.nh req.hash part
  else secondHost req.nh req.hash part

theorem askedHost_of_asks {req : Request} {available : Nat → Bool} {i part : Nat}
    {parts : Int × Int} (member : (i, parts) ∈ schedule CMD_GET available req.hash req.nh)
    (asks : Asks parts part) : i = askedHost req available part := by
  have bound := asks_lt _ _ _ _ req.hash_lt i part parts member asks
  obtain ⟨up, place⟩ := (get_round_iff available req.hash req.nh req.hash_lt part i bound).mp
    ⟨parts, member, asks⟩
  rcases place with rfl | ⟨rfl, down⟩
  · exact (if_pos up).symm
  · rw [askedHost, down]
    rfl

theorem askedHost_started {req : Request} {available : Nat → Bool}
    (connected : NoAdjacentOutage available req.nh) (part : Nat) (bound : part < req.nh) :
    askedHost req available part < req.nh ∧ available (askedHost req available part) = true ∧
      ∃ parts, (askedHost req available part, parts) ∈
        schedule CMD_GET available req.hash req.nh ∧ Asks parts part := by
  rcases (all_asked_iff available req.hash req.nh req.hash_lt).mpr connected part bound with
      ⟨i, parts, member, asks⟩
  obtain ⟨host, up, -⟩ := (mem_schedule _ _ _ _ _ _).mp member
  rw [← askedHost_of_asks member asks]
  exact ⟨host, up, parts, member, asks⟩

/-- A GET without failures merges what the asked hosts store, or stops at one that
stores nothing. -/
structure HealthyEnd (req : Request) (client : Client) (result : GetEnd) : Prop where
  keeps : ∀ i < req.nh, Keeps (Home req.conf) (client.conns i) (result.client.conns i)
  settled : ∀ i < req.nh, client.available i = true → Settled req.conf (result.client.conns i)
  outside : ∀ i, ¬ (i < req.nh ∧ client.available i = true) →
    result.client.conns i = client.conns i
  creatable : result.client.disk.creatable = client.disk.creatable
  merged : result.merged = true → ∀ part < req.nh, ∃ content,
    (client.conns (askedHost req client.available part)).stored req part = some content ∧
      result.joined.disk.files (partName req part) = some (encrypted req.conf.password content)
  file : result.merged = true → result.client.disk.files req.filename =
    some (joined result.joined.disk req.filename (List.range req.nh))
  stopped : result.merged = false →
    (∃ part < req.nh, (client.conns (askedHost req client.available part)).stored req part = none) ∧
      result.client.disk.files req.filename = client.disk.files req.filename

theorem Healthy.getCommand {req : Request} {client : Client} (stack : Nat → Bytes)
    (healthy : Healthy req client) (connected : NoAdjacentOutage client.available req.nh) :
    ∃ result, Dfc.getCommand (req.nh + 1) req stack client = some (some result) ∧
      HealthyEnd req client result := by
  refine getCommand_total req stack
    (fun state => state = { client with got := [] }) _ ?_ client rfl
  intro state same
  rcases same with rfl
  rcases healthy with ⟨⟨settled, faults, short, creatable⟩, immortal, target⟩
  have inStep : InStep req { client with got := [] } := ⟨settled, faults, short, creatable⟩
  rcases inStep.round_outcome stack with ⟨joined, ends, run, rounds⟩
  have threads := fun i parts member =>
    (inStep.thread_outcome rounds i parts member).resolve_left (fun failed =>
      failed.2 (immortal i ((mem_schedule _ _ _ _ _ _).mp member).1
        ((mem_schedule _ _ _ _ _ _).mp member).2.1))
  have conns : ∀ i < req.nh, Keeps (Home req.conf) (client.conns i) (joined.conns i) ∧
      (client.available i = true → Settled req.conf (joined.conns i)) := by
    intro i host
    by_cases up : client.available i = true
    · rcases started_of_available req i host up with ⟨parts, member⟩
      exact ⟨rounds.keeps i parts member, fun _ => (threads i parts member).1⟩
    · rw [(rounds.idle i (fun inUse => up inUse.2)).1]
      exact ⟨Keeps.refl _ _, fun inUse => absurd inUse up⟩
  have same : joined.disk.files req.filename = client.disk.files req.filename :=
    rounds.files _ (fun _ _ part _ _ => (setPartitionName_ne_filename _ part).symm)
  refine ⟨joined, ends, run, ?_, ?_⟩
  · intro failure
    rcases failure with ⟨i, host, failed⟩
    rcases rounds.thread_of_retval i (by omega) with ⟨parts, member⟩
    rcases (threads i parts member).2 with ⟨fine, -⟩ | ⟨missing, -⟩ <;> omega
  · intro result ended
    cases ended with
    | flagged calm flag =>
        refine ⟨fun i host => (conns i host).1, fun i host => (conns i host).2,
          fun i outside => (rounds.idle i outside).1, rounds.creatable,
          fun no => absurd no Bool.false_ne_true, fun no => absurd no Bool.false_ne_true,
          fun _ => ⟨?_, same⟩⟩
        rcases flag with ⟨i, host, code⟩
        rcases rounds.thread_of_retval i (by omega) with ⟨parts, member⟩
        rcases (threads i parts member).2 with ⟨fine, -⟩ | ⟨-, part, asks, absent⟩
        · omega
        · rw [askedHost_of_asks member asks] at absent
          exact ⟨part, (keeper_of_asks member asks).1, absent⟩
    | merged calm clear =>
        refine ⟨fun i host => (conns i host).1, fun i host => (conns i host).2,
          fun i outside => (rounds.idle i outside).1,
          (merged_creatable _ _ _).trans rounds.creatable, fun _ part bound => ?_,
          fun _ => merged_file req joined.disk ((congrFun rounds.creatable _).trans target),
          fun no => absurd no.symm Bool.false_ne_true⟩
        rcases askedHost_started connected part bound with ⟨host, up, parts, member, asks⟩
        rcases (threads _ parts member).2 with ⟨-, kept⟩ | ⟨missing, -⟩
        · exact (kept part asks).2
        · exact absurd missing (clear _ host)

end NetworkSystem.Dfc
