import StaticSite.Number.Shortest
import StaticSite.Style.Amount
import StaticSite.Style.Text

/-!
# How numbers and names are spelled

Integers, doubles and class names are written with letters, digits and a few signs. None of these
characters has a meaning of its own in a style sheet or in markup.
-/

namespace StaticSite

namespace Text

/-- A character of names: a letter or digit of any script, a hyphen or an underscore. -/
def isNameChar (c : Char) : Bool := isWord c || c = '-'

/-- A character that names and numbers are written with. -/
def isSpelling (c : Char) : Bool := isNameChar c || c = '+' || c = '.'

theorem isSpelling_of_isNameChar {c : Char} (h : isNameChar c = true) : isSpelling c = true := by
  simp [isSpelling, h]

/-- What holds of each digit holds of the digits of every number. -/
theorem forall_mem_toDigits {p : Char → Prop} {base : Nat} (valid : 1 < base)
    (each : ∀ digit < base, p digit.digitChar) (n : Nat) : ∀ c ∈ Nat.toDigits base n, p c := by
  induction n using Nat.strongRecOn with
  | ind n ih =>
    intro c member
    by_cases last : n < base
    · rw [Nat.toDigits_of_lt_base last, List.mem_singleton] at member
      rw [member]
      exact each n last
    · rw [Nat.toDigits_of_base_le valid (by omega), List.mem_append, List.mem_singleton] at member
      rcases member with earlier | rfl
      · exact ih (n / base) (Nat.div_lt_self (by omega) valid) c earlier
      · exact each (n % base) (Nat.mod_lt _ (by omega))

/-- Digits are read back as the number that they were written for. -/
theorem digitsValue_toDigits {value? : Char → Option Nat} {base : Nat} (valid : 1 < base)
    (reads : ∀ digit < base, value? digit.digitChar = some digit) (n : Nat) :
    digitsValue base ((Nat.toDigits base n).filterMap value?) = n := by
  induction n using Nat.strongRecOn with
  | ind n ih =>
    by_cases last : n < base
    · rw [Nat.toDigits_of_lt_base last, List.filterMap_cons_some (reads n last)]
      simp [digitsValue]
    · have earlier := ih (n / base) (Nat.div_lt_self (by omega) valid)
      have digit := reads (n % base) (Nat.mod_lt n (by omega))
      rw [Nat.toDigits_of_base_le valid (by omega), List.filterMap_append,
        List.filterMap_cons_some digit, digitsValue, List.foldl_append, ← digitsValue, earlier]
      exact Nat.div_add_mod' n base

theorem isNameChar_of_mem_toDigits {base : Nat} (bounds : 1 < base ∧ base ≤ 16) (n : Nat) :
    ∀ c ∈ Nat.toDigits base n, isNameChar c = true := by
  have all : ∀ digit < 16, isNameChar digit.digitChar = true := by decide
  exact forall_mem_toDigits bounds.1 (fun digit small => all digit (by omega)) n

theorem hexValue?_digitChar {digit : Nat} (small : digit < 16) :
    hexValue? digit.digitChar = some digit := by
  have all : ∀ digit < 16, hexValue? digit.digitChar = some digit := by decide
  exact all digit small

theorem digitValue?_digitChar {digit : Nat} (small : digit < 10) :
    digitValue? digit.digitChar = some digit := by
  have all : ∀ digit < 10, digitValue? digit.digitChar = some digit := by decide
  exact all digit small

theorem isSpelling_of_mem_toDigits (n : Nat) : ∀ c ∈ Nat.toDigits 10 n, isSpelling c = true :=
  fun c member => isSpelling_of_isNameChar (isNameChar_of_mem_toDigits (by decide) n c member)

theorem isSpelling_of_mem_toString (n : Int) : ∀ c ∈ (toString n).toList, isSpelling c = true := by
  have hyphen : isSpelling '-' = true := by decide
  rw [Int.toString_eq_repr]
  cases n with
  | ofNat n =>
    simp only [Int.repr, Nat.repr_eq_ofList_toDigits, String.toList_ofList]
    exact isSpelling_of_mem_toDigits n
  | negSucc n =>
    simp only [Int.repr, Nat.repr_eq_ofList_toDigits, String.toList_append, String.toList_ofList]
    intro c member
    rcases List.mem_append.mp member with sign | digit
    · rw [List.mem_singleton.mp sign]
      exact hyphen
    · exact isSpelling_of_mem_toDigits _ c digit

end Text

namespace Binary64

open Text (isSpelling isSpelling_of_mem_toDigits)

/-- Writing a decimal adds zeros, a point, and an exponent with its sign. -/
theorem isSpelling_of_mem_write (layout : DecimalLayout) {digits : List Char}
    (spelled : ∀ c ∈ digits, isSpelling c = true) (point : Int) :
    ∀ c ∈ layout.write digits point, isSpelling c = true := by
  have zero : isSpelling '0' = true := by decide
  have dot : isSpelling '.' = true := by decide
  have letter : isSpelling 'e' = true := by decide
  have zeros (n : Nat) : ∀ c ∈ List.replicate n '0', isSpelling c = true := fun c member => by
    rw [List.eq_of_mem_replicate member]
    exact zero
  have size (exponent : Int) : ∀ c ∈ Text.padLeft '0' layout.exponentWidth
      (Nat.toDigits 10 exponent.natAbs), isSpelling c = true := by
    intro c member
    rcases List.mem_append.mp member with fill | digit
    · exact zeros _ c fill
    · exact isSpelling_of_mem_toDigits _ c digit
  have sign (exponent : Int) : isSpelling (if exponent < 0 then '-' else '+') = true := by
    split <;> decide
  unfold DecimalLayout.write
  split
  · split
    · simp only [List.forall_mem_cons, List.forall_mem_append]
      exact ⟨zero, dot, zeros _, spelled⟩
    · have whole : ∀ c ∈ digits.take point.toNat, isSpelling c = true := fun c member =>
        spelled c (List.mem_of_mem_take member)
      have rest : ∀ c ∈ digits.drop point.toNat, isSpelling c = true := fun c member =>
        spelled c (List.mem_of_mem_drop member)
      simp only [List.forall_mem_cons, List.forall_mem_append]
      refine ⟨⟨whole, zeros _⟩, dot, ?_⟩
      split
      · simpa using zero
      · exact rest
  · simp only [List.forall_mem_cons, List.forall_mem_append]
    refine ⟨?_, letter, sign _, size _⟩
    split
    · simpa using zero
    · exact spelled
    · simp only [List.forall_mem_cons] at spelled ⊢
      exact ⟨spelled.1, dot, spelled.2⟩

theorem isSpelling_of_mem_text (x : Binary64) : ∀ c ∈ x.text.toList, isSpelling c = true := by
  have hyphen : isSpelling '-' = true := by decide
  cases x with
  | nan => decide
  | infinity negative => cases negative <;> decide
  | finite negative significand exponent =>
    simp only [text, String.toList_ofList]
    have body : ∀ c ∈ (if significand = 0 then ['0', '.', '0'] else
        plainLayout.write (Nat.toDigits 10 (shortest significand exponent).digits)
          ((Nat.toDigits 10 (shortest significand exponent).digits).length +
            (shortest significand exponent).exponent)), isSpelling c = true := by
      split
      · decide
      · exact isSpelling_of_mem_write _ (isSpelling_of_mem_toDigits _) _
    split
    · exact List.forall_mem_cons.mpr ⟨hyphen, body⟩
    · exact body

end Binary64

namespace Style

open Text (isNameChar isSpelling)

theorem isSpelling_of_mem_floatText (x : Binary64) :
    ∀ c ∈ (floatText x).toList, isSpelling c = true := by
  unfold floatText
  split
  · split
    · exact Text.isSpelling_of_mem_toString _
    · exact x.isSpelling_of_mem_text
  · exact x.isSpelling_of_mem_text

/-- Whatever the id holds, its class is a name if what it starts with is one. -/
theorem isNameChar_of_mem_className (id : String) {start : String}
    (named : ∀ c ∈ start.toList, isNameChar c = true) :
    ∀ c ∈ (className id start).toList, isNameChar c = true := by
  have hyphen : isNameChar '-' = true := by decide
  have underscore : isNameChar '_' = true := by decide
  have classed (c : Char) (isClass : isClassChar c = true) : isNameChar c = true := by
    simp only [isClassChar, Bool.or_eq_true, decide_eq_true_eq] at isClass
    simp only [isNameChar, Text.isWord, Bool.or_eq_true, decide_eq_true_eq]
    exact isClass.imp_left fun letter => .inl (.inl letter)
  have each (c : Char) : ∀ d ∈ classChar c, isNameChar d = true := by
    unfold classChar
    split
    next isClass => simpa using classed c isClass
    next =>
      simp only [List.forall_mem_cons, List.forall_mem_append]
      exact ⟨underscore, Text.isNameChar_of_mem_toDigits (by decide) _, underscore, by simp⟩
  simp only [className, String.toList_append, String.toList_ofList, List.forall_mem_append]
  refine ⟨⟨named, by simpa using hyphen⟩, fun d member => ?_⟩
  obtain ⟨c, -, inChar⟩ := List.mem_flatMap.mp member
  exact each c d inChar

end Style

end StaticSite
