import NetworkSystem.Http.Settings

/-! Configuration files that differ in their blanks only. -/

namespace NetworkSystem.Http

open Bytes

def BlankVariant (one two : Bytes) : Prop := (textLines one).map words = (textLines two).map words

/-- A tab is the first blank that counts in front of a directive in both lines or in
neither; where a line has no words or is a comment it does not matter. -/
def TabsAgree (line other : Bytes) : Prop :=
  words line = [] ∨ lead line = some 35 ∨ lead other = some 35 ∨
    (lead line = some 9 ↔ lead other = some 9)

instance (line other : Bytes) : Decidable (TabsAgree line other) :=
  inferInstanceAs (Decidable (_ ∨ _ ∨ _ ∨ (_ ↔ _)))

theorem directiveWords_nil (line : Bytes) (empty : words line = []) :
    directiveWords line = none := by
  rw [directiveWords, ite_eq_left_iff]
  intro outside
  cases front : lead line with
  | none => simp [front] at outside
  | some byte =>
      have tab : byte ≠ 9 := by
        intro tab
        simp [front, tab] at outside
      exact absurd empty (words_ne_nil line byte front tab)

theorem directiveWords_cons (line first : Bytes) (later : List Bytes)
    (cut : words line = first :: later) :
    directiveWords line =
      if lead line = some 9 ∨ first.head? = some 35 then none else some (first :: later) := by
  rw [directiveWords, cut]
  cases front : lead line with
  | none =>
      rw [words_of_lead_none line front] at cut
      cases cut
  | some byte =>
      by_cases tab : byte = 9
      · simp [tab]
      · rw [head_words line first later byte front (isBlank_lead line byte front tab) cut]
        simp [tab]

theorem directiveWords_eq (line other : Bytes) (same : words line = words other)
    (agree : TabsAgree line other) : directiveWords line = directiveWords other := by
  cases cut : words line with
  | nil => rw [directiveWords_nil line cut, directiveWords_nil other (same ▸ cut)]
  | cons first later =>
      have cut_ : words other = first :: later := same ▸ cut
      rw [directiveWords_cons line first later cut, directiveWords_cons other first later cut_]
      rcases agree with empty | comment | comment | tabs
      · rw [empty] at cut
        cases cut
      · simp [head_words line first later 35 comment rfl cut]
      · simp [head_words other first later 35 comment rfl cut_]
      · simp only [tabs]

theorem directiveTexts_eq (one two : Bytes) (variant : BlankVariant one two)
    (agree : ∀ pair ∈ (textLines one).zip (textLines two), TabsAgree pair.1 pair.2) :
    directiveTexts one = directiveTexts two := by
  rw [BlankVariant] at variant
  rw [directiveTexts, directiveTexts]
  generalize textLines one = lines at variant agree
  generalize textLines two = others at variant agree
  induction lines generalizing others with
  | nil => rw [List.map_eq_nil_iff.mp variant.symm]
  | cons line lines ih =>
      obtain ⟨other, others_, same, word, rest⟩ := List.map_eq_cons_iff.mp variant.symm
      rw [same, List.zip_cons_cons, List.forall_mem_cons] at agree
      rw [same, List.filterMap_cons, List.filterMap_cons,
        directiveWords_eq line other word.symm agree.1, ih others_ rest.symm agree.2]

/-- Blanks do not count if and only if no copy of `strip` overlaps, no line that is cut at
them falls into too many pieces, the content types have room, and the directives behind no
tab set the same. Where a tab leads a directive in both files or in neither, the last goes
without saying. -/
theorem blanks_ignored_iff (one two : Bytes) (whole : LinesFit one) (whole_ : LinesFit two)
    (variant : BlankVariant one two) :
    ((∃ conf, initConfig one = some conf ∧ initConfig two = some conf) ↔
      Sound one ∧ Sound two ∧ Agree (directiveTexts one) (directiveTexts two)) ∧
    ((∀ pair ∈ (textLines one).zip (textLines two), TabsAgree pair.1 pair.2) →
      ((∃ conf, initConfig one = some conf ∧ initConfig two = some conf) ↔
        (StripsApart one ∧ CutFits one) ∧ (StripsApart two ∧ CutFits two) ∧
          Room 0 (directiveTexts one))) := by
  refine ⟨initConfig_eq_iff one two whole whole_, fun agree => ?_⟩
  have same := directiveTexts_eq one two variant agree
  rw [initConfig_eq_iff one two whole whole_, ← same]
  constructor
  · rintro ⟨sound, sound_, -⟩
    exact ⟨⟨sound.apart, sound.cut⟩, ⟨sound_.apart, sound_.cut⟩, sound.room⟩
  · rintro ⟨fine, fine_, room⟩
    exact ⟨⟨fine.1, fine.2, room⟩, ⟨fine_.1, fine_.2, same ▸ room⟩, rfl, rfl, rfl, fun _ => rfl,
      rfl, fun _ => rfl⟩

def sampleListen : Bytes := ascii "Listen 8080\n"

def sampleBlanks : Bytes := ascii "Listen\t  8080 \n"

theorem blanks_ignored_iff_listen :
    ((∃ conf, initConfig sampleListen = some conf ∧ initConfig sampleBlanks = some conf) ↔
      Sound sampleListen ∧ Sound sampleBlanks ∧
        Agree (directiveTexts sampleListen) (directiveTexts sampleBlanks)) ∧
    ((∀ pair ∈ (textLines sampleListen).zip (textLines sampleBlanks), TabsAgree pair.1 pair.2) →
      ((∃ conf, initConfig sampleListen = some conf ∧ initConfig sampleBlanks = some conf) ↔
        (StripsApart sampleListen ∧ CutFits sampleListen) ∧
          (StripsApart sampleBlanks ∧ CutFits sampleBlanks) ∧
          Room 0 (directiveTexts sampleListen))) :=
  blanks_ignored_iff sampleListen sampleBlanks (by rw [LinesFit]; decide) (by rw [LinesFit]; decide)
    (by rw [BlankVariant]; decide)

def sampleSpread : Bytes := ascii "Listen" ++ List.replicate 33 32 ++ ascii "8080\n"

/-- A directive behind a tab is lost, and 33 blanks between two fields are cut into more
strings than `p` has. -/
theorem blanks_not_ignored :
    (LinesFit sampleListen ∧ LinesFit (ascii "\tListen 8080\n") ∧
      BlankVariant sampleListen (ascii "\tListen 8080\n") ∧
      (initConfig sampleListen).map Config.port = some 8080 ∧
      (initConfig (ascii "\tListen 8080\n")).map Config.port = some 80) ∧
    (LinesFit sampleSpread ∧ BlankVariant sampleListen sampleSpread ∧
      (∀ line ∈ textLines sampleSpread, (words line).length ≤ 2) ∧
      (initConfig sampleSpread).map Config.port = none) := by
  simp only [LinesFit, BlankVariant]
  decide

end NetworkSystem.Http
