/-!
# Blank characters

The white space of every script, with the separators U+001C to U+001F and the next-line control.
Trimming and collapsing all use this one set.
-/

namespace StaticSite.Text

/-- What holds of the characters of a text is decided by looking at these alone. -/
instance (priority := high) decidableForallMem (p : Char → Prop) [DecidablePred p]
    (s : List Char) : Decidable (∀ c ∈ s, p c) :=
  List.decidableBAll p s

instance (priority := high) decidableForallMemOption (p : Char → Prop) [DecidablePred p]
    (c? : Option Char) : Decidable (∀ c ∈ c?, p c) :=
  match c? with
  | none => isTrue nofun
  | some c => decidable_of_iff (p c) (by simp)

def isBlank (c : Char) : Bool :=
  let n := c.toNat
  (9 ≤ n && n ≤ 13) || (28 ≤ n && n ≤ 32) || n == 0x85 || n == 0xA0 || n == 0x1680 ||
    (0x2000 ≤ n && n ≤ 0x200A) || n == 0x2028 || n == 0x2029 || n == 0x202F || n == 0x205F ||
    n == 0x3000

/-- The codes of the blank characters. -/
def blankCodes : List Nat :=
  [9, 10, 11, 12, 13, 28, 29, 30, 31, 32, 0x85, 0xA0, 0x1680, 0x2000, 0x2001, 0x2002, 0x2003, 0x2004,
    0x2005, 0x2006, 0x2007, 0x2008, 0x2009, 0x200A, 0x2028, 0x2029, 0x202F, 0x205F, 0x3000]

/-- Drops the longest tail whose characters all satisfy `p`. -/
def dropTail (p : Char → Bool) (s : List Char) : List Char :=
  (s.reverse.dropWhile p).reverse

/-- Drops the characters that satisfy `p` from both ends. -/
def trimBy (p : Char → Bool) (s : List Char) : List Char :=
  dropTail p (s.dropWhile p)

def trim (s : List Char) : List Char := trimBy isBlank s

def trimString (s : String) : String := String.ofList (trim s.toList)

/-! ## Kinds of characters -/

/-- What is a character of a kind differs from what is none. -/
theorem ne_of_kind {isKind : Char → Bool} {c d : Char} (kind : isKind c = true)
    (other : isKind d = false) : c ≠ d := by
  rintro rfl
  rw [kind] at other
  cases other

/-- What holds for the codes of the blank characters, one by one, holds for every one of them. -/
theorem forall_isBlank {p : Char → Prop} (each : ∀ n ∈ blankCodes, p (Char.ofNat n)) {c : Char}
    (blank : isBlank c = true) : p c := by
  have code : c.toNat ∈ blankCodes := by
    simp [isBlank, blankCodes] at blank ⊢
    omega
  have here := each _ code
  rwa [Char.ofNat_toNat] at here

/-- A kind that has none of the blank characters, one by one, has no blank character. -/
theorem isBlank_eq_false {isKind : Char → Bool}
    (none : ∀ n ∈ blankCodes, isKind (Char.ofNat n) = false) {c : Char} (kind : isKind c = true) :
    isBlank c = false := by
  rw [Bool.eq_false_iff]
  intro blank
  have other : isKind c = false := forall_isBlank (p := (isKind · = false)) none blank
  exact ne_of_kind kind other rfl

/-- Every character of core's own class is blank. -/
theorem isBlank_of_isWhitespace {c : Char} (h : c.isWhitespace = true) : isBlank c = true := by
  simp only [Char.isWhitespace, Bool.or_eq_true, decide_eq_true_eq] at h
  rcases h with ((h | h) | h) | h <;> subst h <;> decide

end StaticSite.Text
