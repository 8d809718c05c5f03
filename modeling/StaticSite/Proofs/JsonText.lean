import StaticSite.Json.Reader
import StaticSite.Json.Writer
import StaticSite.Proofs.Outcome
import StaticSite.Proofs.PageModes
import StaticSite.Proofs.PageShapes
import StaticSite.Proofs.Spelling

/-!
# Reading what was written

Data without doubles whose objects name each member once is read back from its indented text as it
was. One thing can go wrong: the reader refuses an integer of too many digits.
-/

namespace StaticSite

namespace Text

/-- The last of some hexadecimal digits, the places in front of which are filled. -/
theorem padLeft_hex_succ {width : Nat} (wide : 0 < width) (n : Nat) :
    padLeft '0' (width + 1) (hex n) = padLeft '0' width (hex (n / 16)) ++ [(n % 16).digitChar] := by
  by_cases small : n < 16
  · have quotient : n / 16 = 0 := Nat.div_eq_of_lt small
    have filled : List.replicate (width - 1) '0' ++ ['0'] = List.replicate width '0' := by
      rw [← List.replicate_succ', Nat.sub_add_cancel wide]
    rw [quotient, Nat.mod_eq_of_lt small, hex, Nat.toDigits_of_lt_base small, padLeft, padLeft, hex,
      Nat.toDigits_zero, List.length_singleton, List.length_singleton, Nat.add_sub_cancel, filled]
  · have digits : hex n = hex (n / 16) ++ [(n % 16).digitChar] :=
      Nat.toDigits_of_base_le (by decide) (by omega)
    rw [digits, padLeft, padLeft, List.length_append, List.length_singleton,
      Nat.add_sub_add_right, List.append_assoc]

theorem padLeft_hex {n : Nat} (small : n < 0x10000) :
    padLeft '0' 4 (hex n) = [(n / 16 / 16 / 16).digitChar, (n / 16 / 16 % 16).digitChar,
      (n / 16 % 16).digitChar, (n % 16).digitChar] := by
  have first : padLeft '0' 1 (hex (n / 16 / 16 / 16)) = [(n / 16 / 16 / 16).digitChar] := by
    rw [hex, Nat.toDigits_of_lt_base (by omega)]
    rfl
  rw [padLeft_hex_succ (by decide), padLeft_hex_succ (by decide), padLeft_hex_succ (by decide),
    first]
  rfl

end Text

namespace Json

open Text (hex isAsciiDigit padLeft)

/-! ## Strings -/

theorem takeHex4?_hex {n : Nat} (small : n < 0x10000) (rest : List Char) :
    takeHex4? (padLeft '0' 4 (hex n) ++ rest) = some (n, rest) := by
  rw [Text.padLeft_hex small]
  have first : Text.hexValue? (n / 16 / 16 / 16).digitChar = some (n / 16 / 16 / 16) :=
    Text.hexValue?_digitChar (by omega)
  have later (m : Nat) : Text.hexValue? (m % 16).digitChar = some (m % 16) :=
    Text.hexValue?_digitChar (Nat.mod_lt _ (by decide))
  have whole :
      Text.digitsValue 16 [n / 16 / 16 / 16, n / 16 / 16 % 16, n / 16 % 16, n % 16] = n := by
    simp only [Text.digitsValue, List.foldl_cons, List.foldl_nil]
    omega
  simp only [List.cons_append, List.nil_append, takeHex4?, first, later, whole, Option.bind_eq_bind,
    Option.bind_some]

theorem takeUnicodeEscape_single {n : Nat} (small : n < 0x10000)
    (notHigh : isHighSurrogate n = false)
    (notLow : isLowSurrogate n = false) (escape : List Char) {after : List Char}
    (more : after ≠ []) :
    takeUnicodeEscape escape (padLeft '0' 4 (hex n) ++ after) = .ok (Char.ofNat n, after) := by
  obtain ⟨first, rest, rfl⟩ := List.exists_cons_of_ne_nil more
  rw [takeUnicodeEscape, takeHex4?_hex small]
  simp only [notHigh, notLow, Bool.false_eq_true, if_false]

theorem takeUnicodeEscape_double {n m : Nat} (small : n < 0x10000) (high : isHighSurrogate n = true)
    (small' : m < 0x10000) (low : isLowSurrogate m = true) (escape : List Char)
    {after : List Char} (more : after ≠ []) :
    takeUnicodeEscape escape
        (padLeft '0' 4 (hex n) ++ ('\\' :: 'u' :: (padLeft '0' 4 (hex m) ++ after))) =
      .ok (Char.ofNat (0x10000 + (n - 0xD800) * 0x400 + (m - 0xDC00)), after) := by
  have long : ¬ (padLeft '0' 4 (hex m) ++ after).length < 5 := by
    have positive := List.length_pos_of_ne_nil more
    rw [Text.padLeft_hex small', List.length_append]
    simp only [List.length_cons, List.length_nil]
    omega
  rw [takeUnicodeEscape, takeHex4?_hex small]
  simp only [high, if_neg long, takeHex4?_hex small', low, if_true]

theorem isHighSurrogate_iff {n : Nat} : isHighSurrogate n = true ↔ 0xD800 ≤ n ∧ n < 0xDC00 := by
  rw [isHighSurrogate, Bool.and_eq_true, decide_eq_true_iff, decide_eq_true_iff]

theorem isLowSurrogate_iff {n : Nat} : isLowSurrogate n = true ↔ 0xDC00 ≤ n ∧ n < 0xE000 := by
  rw [isLowSurrogate, Bool.and_eq_true, decide_eq_true_iff, decide_eq_true_iff]

/-- No character is half of a surrogate pair. -/
theorem notSurrogate (c : Char) :
    isHighSurrogate c.toNat = false ∧ isLowSurrogate c.toNat = false := by
  have scalar : c.toNat < 0xD800 ∨ 0xDFFF < c.toNat :=
    c.valid.imp_right fun upper => upper.1
  rw [Bool.eq_false_iff, Bool.eq_false_iff, ne_eq, ne_eq, isHighSurrogate_iff, isLowSurrogate_iff]
  omega

theorem toNat_lt (c : Char) : c.toNat < 0x110000 := by
  rcases c.valid with lower | upper
  · exact Nat.lt_trans lower (by decide)
  · exact upper.2

/-- The two halves of what is beyond the basic plane. -/
theorem takeUnicodeEscape_pair {n : Nat} (beyond : 0x10000 ≤ n) (last : n < 0x110000)
    (escape : List Char) {after : List Char} (more : after ≠ []) :
    takeUnicodeEscape escape
        (padLeft '0' 4 (hex (0xD800 + (n - 0x10000) / 0x400)) ++
          ('\\' :: 'u' :: (padLeft '0' 4 (hex (0xDC00 + (n - 0x10000) % 0x400)) ++ after))) =
      .ok (Char.ofNat n, after) := by
  have sum : 0x10000 + (0xD800 + (n - 0x10000) / 0x400 - 0xD800) * 0x400 +
      (0xDC00 + (n - 0x10000) % 0x400 - 0xDC00) = n := by
    omega
  rw [takeUnicodeEscape_double (by omega) (isHighSurrogate_iff.mpr (by omega)) (by omega)
    (isLowSurrogate_iff.mpr (by omega)) escape more, sum]

theorem unicodeEscape_append (n : Nat) (after : List Char) :
    unicodeEscape n ++ after = '\\' :: 'u' :: (padLeft '0' 4 (hex n) ++ after) :=
  rfl

theorem takeString_plain {c : Char} (printed : 32 ≤ c.toNat) (noQuote : c ≠ '"')
    (noEscape : c ≠ '\\') (start : List Char) (fuel : Nat) (after : List Char) :
    takeString start (fuel + 1) (c :: after) =
      (takeString start fuel after).map fun (chars, rest) => (c :: chars, rest) := by
  rw [takeString.eq_def]
  simp only [noQuote, noEscape, Nat.not_lt.mpr printed, if_false]
  cases takeString start fuel after <;> rfl

theorem takeString_letter {e c : Char} (escaped : escapedChar? e = some c) (letter : e ≠ 'u')
    (start : List Char) (fuel : Nat) (after : List Char) :
    takeString start (fuel + 1) ('\\' :: e :: after) =
      (takeString start fuel after).map fun (chars, rest) => (c :: chars, rest) := by
  rw [takeString, if_neg (by decide), if_pos rfl]
  simp only [letter, if_false, escaped]
  cases takeString start fuel after <;> rfl

theorem takeString_unicode {digits after : List Char} {c : Char}
    (escaped : takeUnicodeEscape ('u' :: digits) digits = .ok (c, after))
    (start : List Char) (fuel : Nat) :
    takeString start (fuel + 1) ('\\' :: 'u' :: digits) =
      (takeString start fuel after).map fun (chars, rest) => (c :: chars, rest) := by
  rw [takeString, if_neg (by decide), if_pos rfl]
  simp only [if_true, escaped, bind, Except.bind]
  cases takeString start fuel after <;> rfl

/-- A written character is read as itself, whatever stands behind it. -/
theorem takeString_writeChar (start : List Char) (fuel : Nat) (c : Char) {after : List Char}
    (more : after ≠ []) :
    takeString start (fuel + 1) (writeChar c ++ after) =
      (takeString start fuel after).map fun (chars, rest) => (c :: chars, rest) := by
  unfold writeChar
  split
  next quote => exact takeString_letter (by rw [quote]; rfl) (by decide) start fuel after
  next noQuote =>
  split
  next slash => exact takeString_letter (by rw [slash]; rfl) (by decide) start fuel after
  next noSlash =>
  split
  next feed => exact takeString_letter (by rw [feed]; rfl) (by decide) start fuel after
  split
  next ret => exact takeString_letter (by rw [ret]; rfl) (by decide) start fuel after
  split
  next tab => exact takeString_letter (by rw [tab]; rfl) (by decide) start fuel after
  split
  next back => exact takeString_letter (by rw [back]; rfl) (by decide) start fuel after
  split
  next form => exact takeString_letter (by rw [form]; rfl) (by decide) start fuel after
  split
  next printed =>
    have low : 32 ≤ c.toNat := by
      rw [Bool.and_eq_true, decide_eq_true_eq] at printed
      exact printed.1
    exact takeString_plain low noQuote noSlash start fuel after
  split
  next basic =>
    have single := takeUnicodeEscape_single basic (notSurrogate c).1 (notSurrogate c).2
    rw [Char.ofNat_toNat] at single
    exact takeString_unicode (single _ more) start fuel
  next beyond =>
    have pair := takeUnicodeEscape_pair (Nat.le_of_not_lt beyond) (toNat_lt c)
    rw [Char.ofNat_toNat] at pair
    rw [List.append_assoc, unicodeEscape_append, unicodeEscape_append]
    exact takeString_unicode (pair _ more) start fuel

theorem length_writeChar_pos (c : Char) : 0 < (writeChar c).length := by
  unfold writeChar
  repeat' split
  all_goals exact Nat.succ_pos _

theorem length_le_flatMap_writeChar (chars : List Char) :
    chars.length ≤ (chars.flatMap writeChar).length := by
  induction chars with
  | nil => exact Nat.zero_le _
  | cons c chars ih =>
    have one := length_writeChar_pos c
    rw [List.flatMap_cons, List.length_append, List.length_cons]
    omega

theorem takeString_write (start : List Char) {fuel : Nat} {chars : List Char}
    (enough : chars.length < fuel) (rest : List Char) :
    takeString start fuel (chars.flatMap writeChar ++ '"' :: rest) = .ok (chars, rest) := by
  induction chars generalizing fuel with
  | nil =>
    obtain ⟨fuel, rfl⟩ : ∃ less, fuel = less + 1 := ⟨fuel - 1, by simp at enough; omega⟩
    rw [List.flatMap_nil, List.nil_append, takeString.eq_def]
    rfl
  | cons c chars ih =>
    obtain ⟨fuel, rfl⟩ : ∃ less, fuel = less + 1 := ⟨fuel - 1, by omega⟩
    rw [List.flatMap_cons, List.append_assoc, takeString_writeChar start fuel c (by simp),
      ih (by simpa using enough)]
    rfl

/-- The text behind the opening quote of a written string, read as the reader reads it. -/
theorem takeString_writeString (start : List Char) (s : String) (rest : List Char) :
    takeString start ((s.toList.flatMap writeChar ++ '"' :: rest).length + 1)
      (s.toList.flatMap writeChar ++ '"' :: rest) = .ok (s.toList, rest) := by
  apply takeString_write
  have bound := length_le_flatMap_writeChar s.toList
  rw [List.length_append]
  omega

/-! ## Integers -/

theorem isAsciiDigit_of_mem_toDigits {n : Nat} {c : Char} (member : c ∈ Nat.toDigits 10 n) :
    isAsciiDigit c = true := by
  have digit := Nat.isDigit_of_mem_toDigits (by decide) (by decide) member
  simpa [Char.isDigit, isAsciiDigit, UInt32.le_iff_toNat_le] using digit

theorem digitChars_toDigits (n : Nat) : digitChars (Nat.toDigits 10 n) = n := by
  have core : Nat.ofDigitChars 10 (Nat.toDigits 10 n) 0 = n :=
    Nat.ofDigitChars_toDigits (by decide) (by decide)
  calc digitChars (Nat.toDigits 10 n)
      = Nat.ofDigitChars 10 (Nat.toDigits 10 n) 0 := by
        simp only [digitChars, Text.digitsValue, List.foldl_map, Nat.ofDigitChars, Nat.mul_comm 10]
        rfl
    _ = n := core

/-- No number but zero starts with a zero. -/
theorem exists_toDigits {n : Nat} (positive : 0 < n) :
    ∃ c rest, Nat.toDigits 10 n = c :: rest ∧ c ≠ '0' := by
  induction n using Nat.strongRecOn with
  | ind n ih =>
    by_cases last : n < 10
    · have nonzero : ∀ n < 10, 0 < n → n.digitChar ≠ '0' := by decide
      exact ⟨n.digitChar, [], Nat.toDigits_of_lt_base last, nonzero n last positive⟩
    · have front : 0 < n / 10 := by omega
      obtain ⟨c, rest, digits, nonzero⟩ := ih (n / 10) (Nat.div_lt_self positive (by decide)) front
      refine ⟨c, rest ++ [(n % 10).digitChar], ?_, nonzero⟩
      rw [Nat.toDigits_of_base_le (by decide) (by omega), digits, List.cons_append]

/-- What stands behind a value in a written text: a comma, a line feed or nothing. -/
def IsBreak (rest : List Char) : Prop := ∀ c ∈ rest.head?, c = ',' ∨ c = '\n'

theorem isBreak_nil : IsBreak [] := nofun

theorem isBreak_comma (rest : List Char) : IsBreak (',' :: rest) := by
  intro c isHead
  exact .inl (Option.some.inj isHead).symm

theorem isBreak_newLine (depth : Nat) (rest : List Char) : IsBreak (newLine depth ++ rest) := by
  intro c isHead
  exact .inr (Option.some.inj isHead).symm

section

variable {rest : List Char}

theorem IsBreak.not_digit (ends : IsBreak rest) : ∀ c ∈ rest.head?, isAsciiDigit c = false := by
  intro c isHead
  rcases ends c isHead with rfl | rfl <;> rfl

theorem takeAsciiDigits_append {digits : List Char} (all : ∀ c ∈ digits, isAsciiDigit c = true)
    (ends : IsBreak rest) : takeAsciiDigits (digits ++ rest) = (digits, rest) := by
  have stops := ends.not_digit
  have nothing : rest.takeWhile isAsciiDigit = [] ∧ rest.dropWhile isAsciiDigit = rest := by
    cases rest with
    | nil => exact ⟨rfl, rfl⟩
    | cons c rest =>
      have notDigit : isAsciiDigit c = false := stops c rfl
      simp [notDigit]
  rw [takeAsciiDigits, List.span_eq_takeWhile_dropWhile, List.takeWhile_append_of_pos all,
    List.dropWhile_append_of_pos all, nothing.1, nothing.2, List.append_nil]

theorem takeWhole?_toDigits (n : Nat) (ends : IsBreak rest) :
    takeWhole? (Nat.toDigits 10 n ++ rest) = some (Nat.toDigits 10 n, rest) := by
  rcases Nat.eq_zero_or_pos n with rfl | positive
  · rfl
  · obtain ⟨c, more, digits, nonzero⟩ := exists_toDigits positive
    have run := takeAsciiDigits_append (fun _ => isAsciiDigit_of_mem_toDigits (n := n)) ends
    rw [digits, List.cons_append] at run ⊢
    unfold takeWhole?
    split
    next same => exact absurd (List.cons.inj same).1 nonzero
    next => rw [run]

theorem IsBreak.takePoint (ends : IsBreak rest) : takePoint rest = ([], rest) := by
  unfold Json.takePoint
  split
  next after => exact absurd (ends '.' rfl) (by decide)
  next => rfl

theorem IsBreak.takePower? (ends : IsBreak rest) : takePower? rest = none := by
  cases rest with
  | nil => rfl
  | cons c rest => rcases ends c rfl with rfl | rfl <;> rfl

theorem exists_toDigits_cons (n : Nat) :
    ∃ c more, Nat.toDigits 10 n = c :: more ∧ isAsciiDigit c = true := by
  obtain ⟨c, more, digits⟩ := List.exists_cons_of_ne_nil (Nat.toDigits_ne_nil (b := 10) (n := n))
  exact ⟨c, more, digits, isAsciiDigit_of_mem_toDigits (n := n) (digits ▸ List.mem_cons_self)⟩

theorem takeNumber_toDigits {n : Nat} (few : n < 10 ^ Number.digitLimit) (ends : IsBreak rest) :
    takeNumber (Nat.toDigits 10 n ++ rest) = .ok (.int n, rest) ∧
      takeNumber ('-' :: (Nat.toDigits 10 n ++ rest)) = .ok (.int (-n), rest) := by
  have short : ¬ Number.digitLimit < (Nat.toDigits 10 n).length :=
    Nat.not_lt.mpr ((Nat.length_toDigits_le_iff (by decide) (by decide)).mpr few)
  have whole := takeWhole?_toDigits n ends
  have unsigned (body : List Char) (same : Nat.toDigits 10 n ++ rest = '-' :: body) : False := by
    obtain ⟨c, more, digits, digit⟩ := exists_toDigits_cons n
    rw [digits, List.cons_append] at same
    rw [(List.cons.inj same).1] at digit
    exact absurd digit (by decide)
  constructor
  · unfold takeNumber
    split
    next negative body parts =>
      split at parts
      next same => exact (unsigned _ same).elim
      next =>
        cases parts
        simp only [whole, ends.takePoint, ends.takePower?, if_neg short, digitChars_toDigits,
          Number.signed, Bool.false_eq_true, if_false]
  · unfold takeNumber
    simp only [whole, ends.takePoint, ends.takePower?, if_neg short, digitChars_toDigits,
      Number.signed, if_true]

theorem takeConstant?_of_digit {c : Char} (digit : isAsciiDigit c = true) (s : List Char) :
    takeConstant? (c :: s) = none ∧ takeConstant? ('-' :: c :: s) = none := by
  have other (letter : Char) (notDigit : isAsciiDigit letter = false) : letter ≠ c :=
    (Text.ne_of_kind digit notDigit).symm
  simp [takeConstant?, constants, Text.dropMark?, other 'n' rfl, other 't' rfl, other 'f' rfl,
    other 'N' rfl, other 'I' rfl, other '-' rfl]

theorem takeValue_of_plain {c : Char} (noQuote : c ≠ '"') (noBracket : c ≠ '[')
    (noBrace : c ≠ '\x7b') (fuel : Nat) (s : List Char) :
    takeValue (fuel + 1) (c :: s) =
      match takeConstant? (c :: s) with
      | some found => .ok found
      | none => takeNumber (c :: s) := by
  unfold takeValue
  split
  next same => exact absurd (List.cons.inj same).1 noQuote
  next same => exact absurd (List.cons.inj same).1 noBracket
  next same => exact absurd (List.cons.inj same).1 noBrace
  next => rfl

theorem takeValue_toDigits {n : Nat} (few : n < 10 ^ Number.digitLimit) (ends : IsBreak rest)
    (fuel : Nat) :
    takeValue (fuel + 1) (Nat.toDigits 10 n ++ rest) = .ok (.int n, rest) ∧
      takeValue (fuel + 1) ('-' :: (Nat.toDigits 10 n ++ rest)) = .ok (.int (-n), rest) := by
  obtain ⟨unsigned, signed⟩ := takeNumber_toDigits few ends
  obtain ⟨c, more, digits, digit⟩ := exists_toDigits_cons n
  have other (mark : Char) (notDigit : isAsciiDigit mark = false) : c ≠ mark :=
    Text.ne_of_kind digit notDigit
  obtain ⟨noName, noSignedName⟩ := takeConstant?_of_digit digit (more ++ rest)
  rw [digits, List.cons_append] at unsigned signed ⊢
  constructor
  · rw [takeValue_of_plain (other _ rfl) (other _ rfl) (other _ rfl), noName]
    exact unsigned
  · rw [takeValue_of_plain (by decide) (by decide) (by decide), noSignedName]
    exact signed

end

theorem toList_toString (n : Int) :
    (toString n).toList =
      if n < 0 then '-' :: Nat.toDigits 10 n.natAbs else Nat.toDigits 10 n.natAbs := by
  rw [Int.toString_eq_repr]
  cases n with
  | ofNat n => simp [Int.repr, Nat.repr_eq_ofList_toDigits]
  | negSucc n => simp [Int.repr, Nat.repr_eq_ofList_toDigits, Int.negSucc_lt_zero]

/-! ## Values -/

/-- A character that does not keep the reader from reading a value: neither a blank nor an end. -/
def isStart (c : Char) : Bool := !isSpace c && c != ']' && c != '\ufeff'

theorem isSpace_of_isStart {c : Char} (start : isStart c = true) : isSpace c = false := by
  simp only [isStart, Bool.and_eq_true, Bool.not_eq_true'] at start
  exact start.1.1

/-- The value is read from its written text, whatever the break behind it. -/
structure Reads (json : Json) : Prop where
  starts : ∀ depth, ∃ c rest, writeIndented depth json = c :: rest ∧ isStart c = true
  takes : ∀ (depth fuel : Nat) (rest : List Char), IsBreak rest →
    (writeIndented depth json).length ≤ fuel + 1 →
      takeValue (fuel + 1) (writeIndented depth json ++ rest) = .ok (json, rest)

theorem isStart_of_isAsciiDigit {c : Char} (digit : isAsciiDigit c = true) : isStart c = true := by
  have other (mark : Char) (notDigit : isAsciiDigit mark = false) : c ≠ mark :=
    Text.ne_of_kind digit notDigit
  simp [isStart, isSpace, other ' ' rfl, other '\t' rfl, other '\n' rfl, other '\r' rfl,
    other ']' rfl, other '\ufeff' rfl]

theorem reads_null : Reads .null :=
  { starts := fun _ => ⟨'n', _, rfl, rfl⟩
    takes := fun _ _ _ _ _ => rfl }

theorem reads_bool (b : Bool) : Reads (.bool b) :=
  { starts := fun _ => by
      cases b
      · exact ⟨'f', _, rfl, rfl⟩
      · exact ⟨'t', _, rfl, rfl⟩
    takes := fun _ _ _ _ _ => by cases b <;> rfl }

theorem reads_str (s : String) : Reads (.str s) :=
  { starts := fun _ => ⟨'"', _, rfl, rfl⟩
    takes := fun depth fuel rest ends enough => by
      rw [writeIndented, writeString, List.cons_append, List.append_assoc, List.singleton_append,
        takeValue, takeString_writeString]
      simp only [bind, Except.bind, String.ofList_toList] }

theorem reads_int {n : Int} (few : n.natAbs < 10 ^ Number.digitLimit) : Reads (.int n) :=
  { starts := fun depth => by
      obtain ⟨c, more, digits⟩ :=
        List.exists_cons_of_ne_nil (Nat.toDigits_ne_nil (b := 10) (n := n.natAbs))
      have digit : isAsciiDigit c = true :=
        isAsciiDigit_of_mem_toDigits (n := n.natAbs) (digits ▸ List.mem_cons_self)
      rw [writeIndented, toList_toString]
      split
      · exact ⟨'-', _, rfl, rfl⟩
      · exact ⟨c, more, digits, isStart_of_isAsciiDigit digit⟩
    takes := fun depth fuel rest ends enough => by
      obtain ⟨unsigned, signed⟩ := takeValue_toDigits few ends fuel
      rw [writeIndented, toList_toString]
      split
      next negative =>
        rw [List.cons_append, signed]
        congr
        omega
      next positive =>
        rw [unsigned]
        congr
        omega }

theorem skipSpace_newLine (depth : Nat) (s : List Char) :
    skipSpace (newLine depth ++ s) = skipSpace s := by
  have blanks : ∀ c ∈ newLine depth, isSpace c = true := by
    intro c member
    rcases List.mem_cons.mp member with rfl | blank
    · rfl
    · rw [List.eq_of_mem_replicate blank]
      rfl
  rw [skipSpace, List.dropWhile_append_of_pos blanks, skipSpace]

theorem skipSpace_cons {c : Char} (solid : isSpace c = false) (s : List Char) :
    skipSpace (c :: s) = c :: s := by
  rw [skipSpace, List.dropWhile_cons_of_neg (by rw [solid]; decide)]

/-- The blanks in front of a written value are passed over. -/
theorem Reads.skipSpace_newLine {json : Json} (reads : Reads json) (depth : Nat) (s : List Char) :
    skipSpace (newLine depth ++ (writeIndented depth json ++ s)) =
      writeIndented depth json ++ s := by
  obtain ⟨c, rest, text, start⟩ := reads.starts depth
  rw [Json.skipSpace_newLine, text, List.cons_append, skipSpace_cons (isSpace_of_isStart start)]

theorem Reads.length_pos {json : Json} (reads : Reads json) (depth : Nat) :
    0 < (writeIndented depth json).length := by
  obtain ⟨c, rest, text, -⟩ := reads.starts depth
  rw [text]
  exact Nat.succ_pos _

theorem takeItems_write {items : List Json} {item : Json}
    (reads : ∀ each ∈ item :: items, Reads each) (depth outer : Nat) {fuel : Nat} (rest : List Char)
    (enough : (writeIndented depth item).length + (writeItems depth items).length ≤ fuel) :
    takeItems (fuel + 1)
        (writeIndented depth item ++ (writeItems depth items ++ (newLine outer ++ ']' :: rest))) =
      .ok (item :: items, rest) := by
  induction items generalizing item fuel with
  | nil =>
    have first := reads item List.mem_cons_self
    have written := first.length_pos depth
    obtain ⟨fuel, rfl⟩ : ∃ less, fuel = less + 1 := ⟨fuel - 1, by omega⟩
    have taken := first.takes depth fuel (newLine outer ++ ']' :: rest)
      (isBreak_newLine outer _) (by simpa [writeItems] using enough)
    rw [writeItems, List.nil_append, takeItems, taken]
    simp only [bind, Except.bind, Json.skipSpace_newLine]
    rfl
  | cons next items ih =>
    have first := reads item List.mem_cons_self
    have later := reads next (List.mem_cons_of_mem _ List.mem_cons_self)
    have written := first.length_pos depth
    obtain ⟨fuel, rfl⟩ : ∃ less, fuel = less + 1 := ⟨fuel - 1, by omega⟩
    simp only [writeItems, List.length_cons, List.length_append] at enough
    simp only [writeItems, List.cons_append, List.append_assoc]
    rw [takeItems, first.takes depth fuel _ (isBreak_comma _) (by omega)]
    simp only [bind, Except.bind, skipSpace_cons (show isSpace ',' = false from rfl)]
    rw [later.skipSpace_newLine, ih (fun each member => reads each (List.mem_cons_of_mem _ member))
      (by omega)]

theorem reads_arr {items : List Json} (reads : ∀ item ∈ items, Reads item) : Reads (.arr items) :=
  { starts := fun depth => by
      cases items with
      | nil => exact ⟨'[', _, rfl, rfl⟩
      | cons item items => exact ⟨'[', _, rfl, rfl⟩
    takes := fun depth fuel rest ends enough => by
      cases items with
      | nil => rfl
      | cons item items =>
        have first := reads item List.mem_cons_self
        have written := first.length_pos (depth + 1)
        obtain ⟨c, more, text, start⟩ := first.starts (depth + 1)
        simp only [writeIndented, List.length_cons, List.length_append] at enough
        obtain ⟨fuel, rfl⟩ : ∃ less, fuel = less + 1 := ⟨fuel - 1, by omega⟩
        simp only [writeIndented, List.cons_append, List.append_assoc, List.nil_append]
        rw [takeValue, first.skipSpace_newLine]
        split
        next rest same =>
          rw [text, List.cons_append] at same
          exact absurd (List.cons.inj same).1 (Text.ne_of_kind start rfl)
        next =>
          rw [takeItems_write reads (depth + 1) depth rest (by omega)]
          rfl }

theorem skipSpace_writeString (depth : Nat) (name : String) (s : List Char) :
    skipSpace (newLine depth ++ (writeString name ++ s)) = writeString name ++ s := by
  rw [skipSpace_newLine, writeString, List.cons_append, skipSpace_cons rfl]

/-- How reading goes on behind a member: with another one, or with the end of the object. -/
def takeOthers (fuel : Nat) (members : List (String × Json)) (s : List Char) :
    Except Failure (List (String × Json) × List Char) :=
  match skipSpace s with
  | '\x7d' :: rest => .ok (members, rest)
  | ',' :: rest => takeMembers fuel members (skipSpace rest)
  | rest => failAt .comma rest

/-- Reading one member leaves what stands behind its value. -/
theorem takeMembers_step {name : String} {value : Json} (reads : Reads value)
    {before : List (String × Json)} (fresh : name ∉ Ordered.names before) (depth : Nat) {fuel : Nat}
    (enough : (writeIndented depth value).length ≤ fuel + 1) {after : List Char}
    (ends : IsBreak after) :
    takeMembers (fuel + 2) before
        (writeString name ++ ':' :: ' ' :: (writeIndented depth value ++ after)) =
      takeOthers (fuel + 1) (before ++ [(name, value)]) after := by
  obtain ⟨c, more, text, start⟩ := reads.starts depth
  have blank : skipSpace (' ' :: (writeIndented depth value ++ after)) =
      writeIndented depth value ++ after := by
    rw [text, List.cons_append]
    exact skipSpace_cons (isSpace_of_isStart start) _
  rw [writeString, List.cons_append, List.append_assoc, List.singleton_append, takeMembers,
    takeString_writeString]
  simp only [bind, Except.bind, skipSpace_cons (show isSpace ':' = false from rfl), blank,
    reads.takes depth fuel after ends enough, String.ofList_toList,
    Ordered.put_of_not_mem fresh value]
  rfl

theorem takeMembers_write {members : List (String × Json)} {name : String} {value : Json}
    (reads : ∀ each ∈ (name, value) :: members, Reads each.2) {before : List (String × Json)}
    (distinct : (Ordered.names (before ++ (name, value) :: members)).Nodup)
    (depth outer : Nat) {fuel : Nat} (rest : List Char)
    (enough : (writeIndented depth value).length + (writeMembers depth members).length ≤ fuel) :
    takeMembers (fuel + 1) before
        (writeString name ++ ':' :: ' ' :: (writeIndented depth value ++
          (writeMembers depth members ++ (newLine outer ++ '\x7d' :: rest)))) =
      .ok (before ++ (name, value) :: members, rest) := by
  induction members generalizing name value before fuel with
  | nil =>
    have first : Reads value := reads (name, value) List.mem_cons_self
    have written := first.length_pos depth
    have fresh : name ∉ Ordered.names before := Ordered.not_mem_names_of_nodup distinct
    obtain ⟨fuel, rfl⟩ : ∃ less, fuel = less + 1 := ⟨fuel - 1, by omega⟩
    rw [writeMembers, List.nil_append, takeMembers_step first fresh depth (by omega)
      (isBreak_newLine outer _), takeOthers, skipSpace_newLine, skipSpace_cons rfl]
    rfl
  | cons next members ih =>
    obtain ⟨nextName, nextValue⟩ := next
    have first : Reads value := reads (name, value) List.mem_cons_self
    have written := first.length_pos depth
    have fresh : name ∉ Ordered.names before := Ordered.not_mem_names_of_nodup distinct
    obtain ⟨fuel, rfl⟩ : ∃ less, fuel = less + 1 := ⟨fuel - 1, by omega⟩
    simp only [writeMembers, List.length_cons, List.length_append] at enough
    simp only [writeMembers, List.cons_append, List.append_assoc]
    rw [takeMembers_step first fresh depth (by omega) (isBreak_comma _), takeOthers,
      skipSpace_cons rfl]
    simp only [skipSpace_writeString]
    rw [ih (fun each member => reads each (List.mem_cons_of_mem _ member))
      (by simpa using distinct) (by omega), List.append_assoc, List.singleton_append]

theorem reads_obj {members : List (String × Json)} (distinct : (Ordered.names members).Nodup)
    (reads : ∀ each ∈ members, Reads each.2) : Reads (.obj members) :=
  { starts := fun depth => by
      cases members with
      | nil => exact ⟨'\x7b', _, rfl, rfl⟩
      | cons member members => exact ⟨'\x7b', _, rfl, rfl⟩
    takes := fun depth fuel rest ends enough => by
      cases members with
      | nil => rfl
      | cons member members =>
        obtain ⟨name, value⟩ := member
        have first : Reads value := reads (name, value) List.mem_cons_self
        have written := first.length_pos (depth + 1)
        simp only [writeIndented, List.length_cons, List.length_append] at enough
        obtain ⟨fuel, rfl⟩ : ∃ less, fuel = less + 1 := ⟨fuel - 1, by omega⟩
        simp only [writeIndented, List.cons_append, List.append_assoc, List.nil_append]
        have alone : (Ordered.names ([] ++ (name, value) :: members)).Nodup := distinct
        have read := takeMembers_write reads alone (depth + 1) depth rest (show _ ≤ fuel by omega)
        rw [takeValue, skipSpace_writeString]
        split
        next rest same => exact absurd (List.cons.inj same).1 (by decide)
        next =>
          rw [read]
          rfl }

/-- Data without doubles, with no member twice in an object. -/
inductive IsPlain : Json → Prop
  | null : IsPlain .null
  | bool (b : Bool) : IsPlain (.bool b)
  | int (n : Int) : IsPlain (.int n)
  | str (s : String) : IsPlain (.str s)
  | arr {items : List Json} (each : ∀ item ∈ items, IsPlain item) : IsPlain (.arr items)
  | obj {members : List (String × Json)} (distinct : (Ordered.names members).Nodup)
      (each : ∀ member ∈ members, IsPlain member.2) : IsPlain (.obj members)

mutual

/-- The integers that data holds. -/
def integers : Json → List Int
  | .int n => [n]
  | .arr items => itemIntegers items
  | .obj members => memberIntegers members
  | _ => []

def itemIntegers : List Json → List Int
  | [] => []
  | item :: items => integers item ++ itemIntegers items

def memberIntegers : List (String × Json) → List Int
  | [] => []
  | (_, value) :: members => integers value ++ memberIntegers members

end

/-- The integers are small enough for the reader. -/
def IsShort (json : Json) : Prop := ∀ n ∈ json.integers, n.natAbs < 10 ^ Number.digitLimit

theorem isShort_int {n : Int} : IsShort (.int n) ↔ n.natAbs < 10 ^ Number.digitLimit := by
  simp [IsShort, integers]

theorem isShort_arr {items : List Json} : IsShort (.arr items) ↔ ∀ item ∈ items, IsShort item := by
  have split : ∀ items : List Json, (∀ n ∈ itemIntegers items, n.natAbs < 10 ^ Number.digitLimit) ↔
      ∀ item ∈ items, IsShort item := by
    intro items
    induction items with
    | nil => simp [itemIntegers]
    | cons item items ih =>
      simp only [itemIntegers, List.forall_mem_append, List.forall_mem_cons, ih]
      rfl
  rw [← split]
  rfl

theorem isShort_obj {members : List (String × Json)} :
    IsShort (.obj members) ↔ ∀ member ∈ members, IsShort member.2 := by
  have split : ∀ members : List (String × Json),
      (∀ n ∈ memberIntegers members, n.natAbs < 10 ^ Number.digitLimit) ↔
        ∀ member ∈ members, IsShort member.2 := by
    intro members
    induction members with
    | nil => simp [memberIntegers]
    | cons member members ih =>
      simp only [memberIntegers, List.forall_mem_append, List.forall_mem_cons, ih]
      rfl
  rw [← split]
  rfl

theorem reads_of_isPlain {json : Json} (plain : IsPlain json) (short : IsShort json) :
    Reads json := by
  induction plain with
  | null => exact reads_null
  | bool b => exact reads_bool b
  | int n => exact reads_int (isShort_int.mp short)
  | str s => exact reads_str s
  | arr each ih =>
    rw [isShort_arr] at short
    exact reads_arr fun item member => ih item member (short item member)
  | obj distinct each ih =>
    rw [isShort_obj] at short
    exact reads_obj distinct fun member inAll => ih member inAll (short member inAll)

/-! ## Digits that the reader takes -/

theorem digitChars_lt {digits : List Char} (all : ∀ c ∈ digits, isAsciiDigit c = true) :
    digitChars digits < 10 ^ digits.length := by
  have bound (start : Nat) : ∀ digits : List Char, (∀ c ∈ digits, isAsciiDigit c = true) →
      (digits.map (·.toNat - 48)).foldl (fun value digit => value * 10 + digit) start <
        (start + 1) * 10 ^ digits.length := by
    intro digits all
    induction digits generalizing start with
    | nil => simp
    | cons c digits ih =>
      have digit : c.toNat - 48 < 10 := by
        have isDigit := all c List.mem_cons_self
        simp only [isAsciiDigit, Bool.and_eq_true, decide_eq_true_eq] at isDigit
        omega
      calc ((c :: digits).map (·.toNat - 48)).foldl (fun value digit => value * 10 + digit) start
          < (start * 10 + (c.toNat - 48) + 1) * 10 ^ digits.length :=
            ih _ fun d member => all d (List.mem_cons_of_mem _ member)
        _ ≤ ((start + 1) * 10) * 10 ^ digits.length := Nat.mul_le_mul_right _ (by omega)
        _ = (start + 1) * 10 ^ (c :: digits).length := by
            rw [List.length_cons, Nat.pow_succ', Nat.mul_assoc]
  have whole := bound 0 digits all
  rwa [Nat.zero_add, Nat.one_mul] at whole

theorem isAsciiDigit_of_takeWhole? {s whole rest : List Char}
    (taken : takeWhole? s = some (whole, rest)) : ∀ c ∈ whole, isAsciiDigit c = true := by
  unfold takeWhole? at taken
  split at taken
  · cases taken
    decide
  · split at taken
    · cases taken
    next digits =>
      have same := Option.some.inj taken
      rw [takeAsciiDigits, List.span_eq_takeWhile_dropWhile] at same
      intro c member
      rw [← (Prod.mk.inj same).1] at member
      exact List.mem_takeWhile_imp member

theorem natAbs_signed (negative : Bool) (n : Nat) : (Number.signed negative n).natAbs = n := by
  cases negative <;> simp [Number.signed]

theorem isShort_of_takeNumber {s rest : List Char} {json : Json}
    (taken : takeNumber s = .ok (json, rest)) : IsShort json := by
  unfold takeNumber at taken
  split at taken
  split at taken
  · cases taken
  next whole rest isWhole =>
    split at taken
    split at taken
    · split at taken
      · cases taken
      next few =>
        cases taken
        rw [isShort_int, natAbs_signed]
        calc digitChars whole
            < 10 ^ whole.length := digitChars_lt (isAsciiDigit_of_takeWhole? isWhole)
          _ ≤ 10 ^ Number.digitLimit := Nat.pow_le_pow_right (by decide) (Nat.not_lt.mp few)
    · split at taken
      cases taken
      exact fun n member => absurd member List.not_mem_nil

theorem isShort_of_takeConstant? {s rest : List Char} {json : Json}
    (taken : takeConstant? s = some (json, rest)) : IsShort json := by
  obtain ⟨⟨name, value⟩, named, found⟩ := List.exists_of_findSome?_eq_some taken
  obtain ⟨behind, -, same⟩ := Option.map_eq_some_iff.mp found
  have all : ∀ constant ∈ constants, IsShort constant.2 := by
    simp [constants, IsShort, integers]
  rw [← (Prod.mk.inj same).1]
  exact all _ named

section

variable {fuel : Nat}
  (values : ∀ s json rest, takeValue fuel s = .ok (json, rest) → IsShort json)
  (items : ∀ s items rest, takeItems fuel s = .ok (items, rest) → ∀ item ∈ items, IsShort item)
  (members : ∀ before s members rest, (∀ member ∈ before, IsShort member.2) →
    takeMembers fuel before s = .ok (members, rest) → ∀ member ∈ members, IsShort member.2)

include items members in
theorem isShort_of_takeValue {s rest : List Char} {json : Json}
    (taken : takeValue (fuel + 1) s = .ok (json, rest)) : IsShort json := by
  unfold takeValue at taken
  split at taken
  · obtain ⟨found, -, same⟩ := exists_of_bind_eq_ok taken
    cases same
    exact nofun
  · split at taken
    · cases taken
      exact nofun
    · obtain ⟨found, inner, same⟩ := exists_of_bind_eq_ok taken
      cases same
      exact isShort_arr.mpr (items _ _ _ inner)
  · split at taken
    · cases taken
      exact nofun
    · obtain ⟨found, inner, same⟩ := exists_of_bind_eq_ok taken
      cases same
      exact isShort_obj.mpr (members _ _ _ _ (by simp) inner)
  · split at taken
    next found constant =>
      cases taken
      exact isShort_of_takeConstant? constant
    · exact isShort_of_takeNumber taken

include values items in
theorem isShort_of_takeItems {s rest : List Char} {found : List Json}
    (taken : takeItems (fuel + 1) s = .ok (found, rest)) : ∀ item ∈ found, IsShort item := by
  obtain ⟨⟨item, behind⟩, isItem, taken⟩ := exists_of_bind_eq_ok taken
  have short := values _ _ _ isItem
  dsimp only at taken
  split at taken
  · cases taken
    exact List.forall_mem_singleton.mpr short
  · obtain ⟨more, isMore, same⟩ := exists_of_bind_eq_ok taken
    cases same
    exact List.forall_mem_cons.mpr ⟨short, items _ _ _ isMore⟩
  · cases taken

include values members in
theorem isShort_of_takeMembers {before found : Ordered Json} {s rest : List Char}
    (short : ∀ member ∈ before, IsShort member.2)
    (taken : takeMembers (fuel + 1) before s = .ok (found, rest)) :
    ∀ member ∈ found, IsShort member.2 := by
  unfold takeMembers at taken
  split at taken
  · obtain ⟨⟨name, behind⟩, -, taken⟩ := exists_of_bind_eq_ok taken
    dsimp only at taken
    split at taken
    · obtain ⟨⟨held, behind⟩, isValue, taken⟩ := exists_of_bind_eq_ok taken
      have added : ∀ member ∈ Ordered.put before (String.ofList name) held,
          IsShort member.2 := by
        intro member inAll
        rcases Ordered.mem_of_mem_put inAll with rfl | old
        · exact values _ _ _ isValue
        · exact short member old
      dsimp only at taken
      split at taken
      · cases taken
        exact added
      · exact members _ _ _ _ added taken
      · cases taken
    · cases taken
  · cases taken

end

/-- What has been read is short, one level of fuel after the other. -/
theorem isShort_taken (fuel : Nat) :
    (∀ s json rest, takeValue fuel s = .ok (json, rest) → IsShort json) ∧
      (∀ s items rest, takeItems fuel s = .ok (items, rest) → ∀ item ∈ items, IsShort item) ∧
      ∀ before s members rest, (∀ member ∈ before, IsShort member.2) →
        takeMembers fuel before s = .ok (members, rest) → ∀ member ∈ members, IsShort member.2 := by
  induction fuel with
  | zero => exact ⟨nofun, nofun, nofun⟩
  | succ fuel ih =>
    obtain ⟨values, items, members⟩ := ih
    exact ⟨fun _ _ _ => isShort_of_takeValue items members,
      fun _ _ _ => isShort_of_takeItems values items,
      fun _ _ _ _ => isShort_of_takeMembers values members⟩

theorem isShort_of_readChars {s : List Char} {json : Json} (found : readChars s = .ok json) :
    IsShort json := by
  unfold readChars at found
  split at found
  · cases found
  · obtain ⟨⟨value, behind⟩, taken, found⟩ := exists_of_bind_eq_ok found
    have short := (isShort_taken _).1 _ _ _ taken
    dsimp only at found
    split at found
    · cases found
      exact short
    · cases found

theorem Reads.readChars {json : Json} (reads : Reads json) :
    readChars (writeIndented 0 json) = .ok json := by
  obtain ⟨c, rest, text, start⟩ := reads.starts 0
  have taken := reads.takes 0 (2 * (writeIndented 0 json).length) [] isBreak_nil (by omega)
  rw [List.append_nil] at taken
  have solid : skipSpace (writeIndented 0 json) = writeIndented 0 json := by
    rw [text]
    exact skipSpace_cons (isSpace_of_isStart start) rest
  unfold Json.readChars
  split
  next same =>
    rw [text] at same
    exact absurd (List.cons.inj same).1 (Text.ne_of_kind start rfl)
  next =>
    rw [solid, taken]
    rfl

/--
Plain data is read back from its indented text exactly if its integers have no more digits than the
reader takes.
-/
theorem read_indented_iff {json : Json} (plain : IsPlain json) :
    read json.indented = .ok json ↔ IsShort json := by
  rw [read, indented, String.toList_ofList]
  constructor
  · intro found
    cases chars : readChars (writeIndented 0 json) with
    | error failure =>
      rw [chars] at found
      cases found
    | ok value =>
      rw [chars] at found
      obtain rfl : value = json := Except.ok.inj found
      exact isShort_of_readChars chars
  · intro short
    rw [(reads_of_isPlain plain short).readChars]
    rfl

end Json

end StaticSite
