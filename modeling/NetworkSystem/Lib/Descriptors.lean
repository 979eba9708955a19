import Mathlib.Data.List.Count
import Mathlib.Data.List.Perm.Basic
import Mathlib.Logic.Function.Basic
import Mathlib.Tactic.Common
import Mathlib.Tactic.SplitIfs

/-! The descriptors of a process and the objects behind them. A descriptor is used again when
its object has been closed, so objects have numbers of their own, in the order in which they
are opened. Nothing here names a program. -/

namespace NetworkSystem.Descriptors

/-- The objects, each with its descriptor while it is open, and the objects closed so far. -/
structure Table where
  objects : List (Option Int)
  closings : List Nat

namespace Table

/-- A descriptor that the system may give. -/
def Free (table : Table) (fd : Int) : Prop := 0 ≤ fd ∧ some fd ∉ table.objects

instance (table : Table) (fd : Int) : Decidable (table.Free fd) :=
  inferInstanceAs (Decidable (_ ∧ _))

def opened (table : Table) (fd : Int) : Table :=
  { table with objects := table.objects ++ [some fd] }

/-- `close`, which does nothing to a descriptor that is not open. -/
def close (table : Table) (fd : Int) : Table :=
  match table.objects.findIdx? (· = some fd) with
  | none => table
  | some object =>
      { objects := table.objects.set object none, closings := table.closings ++ [object] }

def find (table : Table) (fd : Int) : Option Nat := table.objects.findIdx? (· = some fd)

def openCount (table : Table) : Nat := table.objects.countP Option.isSome

def Refers (table : Table) (fd : Int) (object : Nat) : Prop :=
  table.objects[object]? = some (some fd)

def Closed (table : Table) (object : Nat) : Prop := table.objects[object]? = some none

def isOpen (table : Table) (object : Nat) : Bool := (table.objects[object]?).join.isSome

/-- No two open objects have one descriptor, and every object that is not open any more has
been closed once. -/
structure Sound (table : Table) : Prop where
  distinct : ∀ first second fd, table.Refers fd first → table.Refers fd second → first = second
  nonneg : ∀ object fd, table.Refers fd object → 0 ≤ fd
  closed : ∀ object, table.closings.count object =
    if table.objects[object]? = some none then 1 else 0

variable {table : Table} {fd : Int} {object : Nat}

theorem isOpen_of_refers (refers : table.Refers fd object) : table.isOpen object = true := by
  rw [isOpen, refers]
  rfl

theorem isOpen_of_closed (closed : table.Closed object) : table.isOpen object = false := by
  rw [isOpen, closed]
  rfl

theorem Sound.count_of_closed (sound : table.Sound) (closed : table.Closed object) :
    table.closings.count object = 1 := by
  rw [sound.closed object, closed, if_pos rfl]

def fresh (fds : List Int) : Table := ⟨fds.map some, []⟩

theorem sound_fresh {fds : List Int} (distinct : fds.Nodup) (nonneg : ∀ fd ∈ fds, 0 ≤ fd) :
    (fresh fds).Sound where
  distinct := by
    intro first second fd one two
    simp only [Refers, fresh, List.getElem?_map, Option.map_eq_some_iff, Option.some.injEq,
      exists_eq_right] at one two
    exact (List.getElem?_inj (List.getElem?_eq_some_iff.mp one).1 distinct).mp (one.trans two.symm)
  nonneg := by
    intro object fd refers
    simp only [Refers, fresh, List.getElem?_map, Option.map_eq_some_iff, Option.some.injEq,
      exists_eq_right] at refers
    exact nonneg fd (List.mem_of_getElem? refers)
  closed := by
    intro object
    have open_ : (fresh fds).objects[object]? ≠ some none := by
      simp [fresh]
    rw [if_neg open_]
    rfl

theorem openCount_opened : (table.opened fd).openCount = table.openCount + 1 := by
  rw [openCount, opened, List.countP_append]
  rfl

theorem refers_opened : (table.opened fd).Refers fd table.objects.length :=
  List.getElem?_concat_length

theorem objects_opened (old : object < table.objects.length) :
    (table.opened fd).objects[object]? = table.objects[object]? :=
  List.getElem?_append_left old

theorem lt_of_refers (refers : table.Refers fd object) : object < table.objects.length :=
  (List.getElem?_eq_some_iff.mp refers).1

theorem refers_opened_cases {other : Int} (refers : (table.opened fd).Refers other object) :
    table.Refers other object ∨ object = table.objects.length ∧ other = fd := by
  by_cases old : object < table.objects.length
  · rw [Refers, objects_opened old] at refers
    exact Or.inl refers
  · have inside := lt_of_refers refers
    rw [opened, List.length_append, List.length_singleton] at inside
    have last : object = table.objects.length := by omega
    rw [last] at refers
    have same := refers.symm.trans refers_opened
    exact Or.inr ⟨last, Option.some.inj (Option.some.inj same)⟩

theorem Sound.opened (sound : table.Sound) (free : table.Free fd) : (table.opened fd).Sound where
  distinct := by
    intro first second other one two
    rcases refers_opened_cases one with old | ⟨new, same⟩
    · rcases refers_opened_cases two with old' | ⟨-, same'⟩
      · exact sound.distinct first second other old old'
      · rw [same'] at old
        exact absurd (List.mem_of_getElem? old) free.2
    · rcases refers_opened_cases two with old' | ⟨new', -⟩
      · rw [same] at old'
        exact absurd (List.mem_of_getElem? old') free.2
      · rw [new, new']
  nonneg := by
    intro object other refers
    rcases refers_opened_cases refers with old | ⟨-, same⟩
    · exact sound.nonneg object other old
    · rw [same]
      exact free.1
  closed := by
    intro object
    have before := sound.closed object
    by_cases old : object < table.objects.length
    · rwa [objects_opened old]
    · have none_ : table.objects[object]? = none := List.getElem?_eq_none (by omega)
      have open_ : (table.opened fd).objects[object]? ≠ some none := by
        intro closed
        have inside := (List.getElem?_eq_some_iff.mp closed).1
        rw [Table.opened, List.length_append, List.length_singleton] at inside
        have last : object = table.objects.length := by omega
        rw [last] at closed
        have other := closed.symm.trans (@refers_opened table fd)
        cases other
      rw [if_neg open_]
      rwa [none_, if_neg nofun] at before

theorem find_of_refers (sound : table.Sound) (refers : table.Refers fd object) :
    table.find fd = some object := by
  obtain ⟨inside, value⟩ := List.getElem?_eq_some_iff.mp refers
  rw [find, List.findIdx?_eq_some_iff_getElem]
  refine ⟨inside, by simpa using value, ?_⟩
  intro earlier less same
  have here : table.Refers fd earlier := by
    rw [Refers, List.getElem?_eq_getElem (by omega)]
    simpa using same
  have equal := sound.distinct earlier object fd here refers
  omega

theorem find_of_negative (sound : table.Sound) (negative : fd < 0) : table.find fd = none := by
  rw [find, List.findIdx?_eq_none_iff]
  intro entry member
  obtain ⟨object, inside, same⟩ := List.mem_iff_getElem.mp member
  apply decide_eq_false
  intro named
  have refers : table.Refers fd object := by
    rw [Refers, List.getElem?_eq_getElem inside, same, named]
  have nonneg := sound.nonneg object fd refers
  omega

theorem close_of_refers (sound : table.Sound) (refers : table.Refers fd object) :
    table.close fd =
      { objects := table.objects.set object none, closings := table.closings ++ [object] } := by
  have found := find_of_refers sound refers
  rw [find] at found
  rw [close, found]

theorem close_of_negative (sound : table.Sound) (negative : fd < 0) : table.close fd = table := by
  have unknown := find_of_negative sound negative
  rw [find] at unknown
  rw [close, unknown]

section close

variable (sound : table.Sound) (refers : table.Refers fd object)

include sound refers

theorem openCount_close : (table.close fd).openCount + 1 = table.openCount := by
  obtain ⟨inside, value⟩ := List.getElem?_eq_some_iff.mp refers
  have positive : 0 < table.openCount := by
    rw [openCount, List.countP_pos_iff]
    exact ⟨some fd, List.mem_of_getElem? refers, rfl⟩
  rw [close_of_refers sound refers, openCount, List.countP_set inside, value]
  simp only [Option.isSome_some, Option.isSome_none, Bool.false_eq_true, ↓reduceIte]
  rw [openCount] at positive ⊢
  omega

theorem closed_close : (table.close fd).Closed object := by
  rw [close_of_refers sound refers, Closed, List.getElem?_set_self (lt_of_refers refers)]

theorem objects_close {other : Nat} (different : other ≠ object) :
    (table.close fd).objects[other]? = table.objects[other]? := by
  rw [close_of_refers sound refers]
  exact List.getElem?_set_ne different.symm

theorem length_close : (table.close fd).objects.length = table.objects.length := by
  rw [close_of_refers sound refers, List.length_set]

theorem refers_of_close {other : Int} {entry : Nat}
    (refers_ : (table.close fd).Refers other entry) : table.Refers other entry := by
  by_cases same : entry = object
  · have closed := closed_close sound refers
    rw [← same, Closed] at closed
    cases refers_.symm.trans closed
  · rwa [Refers, objects_close sound refers same] at refers_

theorem Sound.close : (table.close fd).Sound where
  distinct := by
    intro first second other one two
    exact sound.distinct first second other (refers_of_close sound refers one)
      (refers_of_close sound refers two)
  nonneg := by
    intro entry other refers_
    exact sound.nonneg entry other (refers_of_close sound refers refers_)
  closed := by
    intro entry
    have before := sound.closed entry
    by_cases same : entry = object
    · subst same
      have closed := closed_close sound refers
      rw [Closed] at closed
      rw [closed, if_pos rfl, close_of_refers sound refers, List.count_append, before, refers]
      simp
    · have none_ : [object].count entry = 0 := List.count_eq_zero.mpr (by simpa using same)
      rw [objects_close sound refers same, ← before, close_of_refers sound refers,
        List.count_append, none_, Nat.add_zero]

end close

def openFds (table : Table) : List Int := table.objects.filterMap id

theorem length_openFds : table.openFds.length = table.openCount := by
  rw [openFds, openCount, List.length_filterMap_eq_countP]
  rfl

theorem exists_refers_of_mem (member : fd ∈ table.openFds) :
    ∃ object, table.Refers fd object := by
  obtain ⟨entry, here, same⟩ := List.mem_filterMap.mp member
  obtain ⟨object, found⟩ := List.mem_iff_getElem?.mp here
  refine ⟨object, found.trans ?_⟩
  rw [← same]
  rfl

theorem openFds_opened : (table.opened fd).openFds = table.openFds ++ [fd] := by
  simp only [openFds, opened, List.filterMap_append, List.filterMap_cons, List.filterMap_nil, id]

theorem Sound.nodup_openFds (sound : table.Sound) : table.openFds.Nodup := by
  rw [openFds, List.Nodup, List.pairwise_filterMap, List.pairwise_iff_getElem]
  intro first second inside inside' less fd here other there same
  subst same
  have one : table.Refers fd first := List.getElem?_eq_some_iff.mpr ⟨inside, here⟩
  have two : table.Refers fd second := List.getElem?_eq_some_iff.mpr ⟨inside', there⟩
  have equal := sound.distinct first second fd one two
  omega

theorem openFds_close (sound : table.Sound) (member : fd ∈ table.openFds) :
    table.openFds.Perm (fd :: (table.close fd).openFds) := by
  obtain ⟨object, refers⟩ := exists_refers_of_mem member
  obtain ⟨inside, value⟩ := List.getElem?_eq_some_iff.mp refers
  have before := (List.getElem_cons_eraseIdx_perm inside).symm.filterMap id
  have behind := (List.set_perm_cons_eraseIdx inside none).filterMap id
  simp only [value, List.filterMap_cons, id] at before
  simp only [List.filterMap_cons, id] at behind
  rw [close_of_refers sound refers]
  exact before.trans (behind.symm.cons fd)

end Table

/-! What is known of the objects. -/

section noted

variable {α : Type} (seen : Nat → α) (change : α → α)

/-- What has been seen of the objects, with a change for the one that a call has named, if it
has. -/
def noted : Option Nat → Nat → α
  | none => seen
  | some object => Function.update seen object (change (seen object))

theorem noted_self (object : Nat) :
    noted seen change (some object) object = change (seen object) :=
  Function.update_self object _ seen

theorem noted_of_ne {named : Option Nat} {object : Nat} (different : named ≠ some object) :
    noted seen change named object = seen object := by
  cases named with
  | none => rfl
  | some other =>
      have apart : object ≠ other := by
        intro same
        rw [same] at different
        exact different rfl
      exact Function.update_of_ne apart _ seen

theorem map_noted (named : Option Nat) :
    named.map (noted seen change named) = (named.map seen).map change := by
  cases named with
  | none => rfl
  | some object => exact congrArg some (noted_self seen change object)

end noted

end NetworkSystem.Descriptors
