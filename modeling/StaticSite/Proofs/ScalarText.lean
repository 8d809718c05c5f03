import StaticSite.Proofs.Emission
import StaticSite.Value.Text

/-!
# Texts of scalars

A text is fit for a name if no blank stands at its ends: trimming it changes nothing. Only strings
can be unfit; numbers, truth values, dates and times are written without blanks around them.
-/

namespace StaticSite

namespace Text

/-- No blank stands at an end of the text. -/
def IsTrimmed (s : String) : Prop := trimString s = s

instance (s : String) : Decidable (IsTrimmed s) := inferInstanceAs (Decidable (trimString s = s))

theorem isTrimmed_of_hasEnds {s : String} (ends : HasEnds isBlank s.toList) : IsTrimmed s := by
  have same : trim s.toList = s.toList := ends.trimmed_eq_self
  rw [IsTrimmed, trimString, same, String.ofList_toList]

theorem isTrimmed_trimString (s : String) : IsTrimmed (trimString s) := by
  refine isTrimmed_of_hasEnds ?_
  rw [trimString, String.toList_ofList]
  exact hasEnds_trimmed s.toList

/-- No blank stands in a text. -/
def Solid (s : String) : Prop := ∀ c ∈ s.toList, isBlank c = false

theorem Solid.append {s t : String} (left : Solid s) (right : Solid t) : Solid (s ++ t) := by
  intro c member
  rw [String.toList_append, List.mem_append] at member
  exact member.elim (left c) (right c)

theorem Solid.hasEnds {s : String} (solid : Solid s) : HasEnds isBlank s.toList :=
  hasEnds_of_forall solid

theorem solid_of_isSpelling {s : String} (spelled : ∀ c ∈ s.toList, isSpelling c = true) :
    Solid s :=
  fun c member => (Style.not_unsafe_of_isSpelling (spelled c member)).2

end Text

open Text (Solid solid_of_isSpelling)

theorem Calendar.isSpelling_of_mem_digits (width n : Nat) :
    ∀ c ∈ (Calendar.digits width n).toList, Text.isSpelling c = true := by
  intro c member
  rw [digits, String.toList_ofList, Text.padLeft, List.mem_append, List.mem_replicate] at member
  rcases member with ⟨-, rfl⟩ | digit
  · decide
  · exact Text.isSpelling_of_mem_toDigits n c digit

theorem Calendar.solid_digits (width n : Nat) : Solid (Calendar.digits width n) :=
  solid_of_isSpelling (isSpelling_of_mem_digits width n)

/-- The signs between the numbers of dates and times. -/
theorem solid_sign : ∀ sign ∈ ["-", "+", ":", ".", ""], Solid sign := by
  unfold Text.Solid
  decide

theorem Date.solid_text (d : Date) : Solid d.text :=
  have hyphen : Solid "-" := solid_sign "-" (by simp)
  ((((Calendar.solid_digits 4 d.year).append hyphen).append
    (Calendar.solid_digits 2 d.month)).append hyphen).append (Calendar.solid_digits 2 d.day)

theorem TimeOfDay.solid_text (t : TimeOfDay) : Solid t.text := by
  have colon : Solid ":" := solid_sign ":" (by simp)
  have base := ((((Calendar.solid_digits 2 t.hour).append colon).append
    (Calendar.solid_digits 2 t.minute)).append colon).append (Calendar.solid_digits 2 t.second)
  unfold text
  dsimp only
  split
  · exact base
  · exact (base.append (solid_sign "." (by simp))).append (Calendar.solid_digits 6 t.microsecond)

theorem DateTime.solid_offsetText (offset : Int) : Solid (offsetText offset) := by
  have colon : Solid ":" := solid_sign ":" (by simp)
  have sign : Solid (if offset < 0 then "-" else "+") := by
    split
    · exact solid_sign "-" (by simp)
    · exact solid_sign "+" (by simp)
  have base := ((sign.append (Calendar.solid_digits 2 (offset.natAbs / 3600))).append colon).append
    (Calendar.solid_digits 2 (offset.natAbs / 60 % 60))
  unfold offsetText
  dsimp only
  split
  · exact base
  · exact (base.append colon).append (Calendar.solid_digits 2 (offset.natAbs % 60))

/-- The blank between the date and the time of a moment stands at neither end of the text. -/
theorem DateTime.hasEnds_text (t : DateTime) :
    HasEnds Text.isBlank (t.textWith " ").toList := by
  have clock : Solid (t.time.text ++ (t.offset.map offsetText).getD "") := by
    refine t.time.solid_text.append ?_
    cases t.offset with
    | none => exact solid_sign "" (by simp)
    | some offset => exact solid_offsetText offset
  have filled : t.date.text.toList ≠ [] ∧
      (t.time.text ++ (t.offset.map offsetText).getD "").toList ≠ [] := by
    constructor
    · simp [Date.text]
    · rw [String.toList_append]
      refine List.append_ne_nil_of_left_ne_nil ?_ _
      unfold TimeOfDay.text
      dsimp only
      split <;> simp
  have whole := t.date.solid_text.hasEnds.append clock.hasEnds filled " ".toList
  rwa [← String.toList_append, ← String.toList_append, ← String.append_assoc] at whole

namespace Value

/-- Values that hold no others. -/
def isScalar : Value → Bool
  | .bool _ => true
  | .int _ => true
  | .float _ => true
  | .str _ => true
  | .date _ => true
  | .datetime _ => true
  | .time _ => true
  | _ => false

theorem isTrimmed_text {value : Value} (heap : Heap) (scalar : value.isScalar = true)
    (noText : value.str? = none) : Text.IsTrimmed (value.text heap) := by
  refine Text.isTrimmed_of_hasEnds ?_
  cases value with
  | bool b =>
    refine Solid.hasEnds (solid_of_isSpelling ?_)
    simp only [text, display, innerText, String.toList_ofList]
    cases b <;> decide
  | int n =>
    have spelled := Text.isSpelling_of_mem_toString n
    exact Solid.hasEnds (solid_of_isSpelling (by simpa [text, display, innerText] using spelled))
  | float x =>
    have spelled := Binary64.isSpelling_of_mem_text x
    exact Solid.hasEnds (solid_of_isSpelling (by simpa [text, display, innerText] using spelled))
  | date d => exact d.solid_text.hasEnds
  | datetime t => exact t.hasEnds_text
  | time t => exact t.solid_text.hasEnds
  | str s => cases noText
  | _ => cases scalar

end Value

end StaticSite
