import Mathlib.Tactic.SplitIfs
import StaticSite.Markup.Node
import StaticSite.Renderer.Code
import StaticSite.Text.Word

/-!
# Character references

In text and in the values of attributes a reader takes references such as `&lt;` and `&#60;` for the
characters that they refer to. Escaped text reads back as the text, whatever stands behind it.
-/

namespace StaticSite.Markup

/--
The references that a reader knows. Some names end with a semicolon, and some count without it, too.
-/
structure References where
  named : List Char → Option (List Char)
  numbered : Nat → List Char
  named_amp : named ['a', 'm', 'p', ';'] = some ['&']
  named_lt : named ['l', 't', ';'] = some ['<']
  named_gt : named ['g', 't', ';'] = some ['>']
  named_quot : named ['q', 'u', 'o', 't', ';'] = some ['"']
  numbered_apostrophe : numbered 39 = ['\'']

namespace References

/-- The references that escaped text is written with. -/
def basic : References where
  named name :=
    [(['a', 'm', 'p', ';'], ['&']), (['l', 't', ';'], ['<']), (['g', 't', ';'], ['>']),
      (['q', 'u', 'o', 't', ';'], ['"'])].lookup name
  numbered n := [Char.ofNat n]
  named_amp := rfl
  named_lt := rfl
  named_gt := rfl
  named_quot := rfl
  numbered_apostrophe := rfl

variable (refs : References)

def isHexDigit (c : Char) : Bool :=
  let n := (Text.lowerAscii c).toNat
  Text.isAsciiDigit c || (97 ≤ n && n ≤ 102)

def digitValue (c : Char) : Nat :=
  if Text.isAsciiDigit c then c.toNat - 48 else (Text.lowerAscii c).toNat - 87

/-- The characters that names consist of. -/
def isNameChar (c : Char) : Bool := !(['\t', '\n', '\x0c', ' ', '<', '&', '#', ';'].contains c)

/-- A word at the start of the text, with the semicolon that may follow it. -/
def withSemicolon (word s : List Char) : List Char :=
  if (s.drop word.length).head? = some ';' then word ++ [';'] else word

/-- The text behind a number at the start of the text, and the length of the number. -/
def byNumber? (base : Nat) (isDigit : Char → Bool) (s : List Char) : Option (List Char × Nat) :=
  let digits := s.takeWhile isDigit
  if digits = [] then none
  else
    some (refs.numbered (digits.foldl (fun n c => base * n + digitValue c) 0),
      (withSemicolon digits s).length)

/--
The text behind a name at the start of the text, and the length of the name; of a word that is no
name the longest start that is one counts.
-/
def byName? (s : List Char) : Option (List Char × Nat) :=
  let word := withSemicolon ((s.takeWhile isNameChar).take 32) s
  if word = [] || word = [';'] then none
  else
    let lengths := word.length :: (List.range word.length).reverse.filter (2 ≤ ·)
    lengths.findSome? fun length => (refs.named (word.take length)).map (·, length)

/-- What an ampersand in front of the text refers to, and the length of the reference. -/
def reference? : List Char → Option (List Char × Nat)
  | '#' :: 'x' :: s => (refs.byNumber? 16 isHexDigit s).map fun (text, length) => (text, length + 2)
  | '#' :: 'X' :: s => (refs.byNumber? 16 isHexDigit s).map fun (text, length) => (text, length + 2)
  | '#' :: s =>
    (refs.byNumber? 10 Text.isAsciiDigit s).map fun (text, length) => (text, length + 1)
  | s => refs.byName? s

/-- Puts in what is referred to, skipping the characters of a reference that has been found. -/
def decodeFrom : Nat → List Char → List Char
  | _, [] => []
  | skip + 1, _ :: s => decodeFrom skip s
  | 0, c :: s =>
    if c = '&' then
      match refs.reference? s with
      | some (text, length) => text ++ decodeFrom length s
      | none => c :: decodeFrom 0 s
    else c :: decodeFrom 0 s

/-- The text with what its references refer to in their place. -/
def decode (s : List Char) : List Char := refs.decodeFrom 0 s

/-! ## Spellings -/

/-- Whether `raw` stands for `text`, whatever follows. -/
def Spells (raw text : List Char) : Prop :=
  ∀ rest, refs.decode (raw ++ rest) = text ++ refs.decode rest

variable {refs}

theorem decodeFrom_eq (skip : Nat) (s : List Char) :
    refs.decodeFrom skip s = refs.decode (s.drop skip) := by
  induction skip generalizing s with
  | zero => rfl
  | succ skip ih =>
    cases s with
    | nil => rfl
    | cons c s => exact ih s

theorem Spells.nil : refs.Spells [] [] := fun _ => rfl

theorem Spells.append {raw raw' text text' : List Char} (first : refs.Spells raw text)
    (second : refs.Spells raw' text') : refs.Spells (raw ++ raw') (text ++ text') := fun rest => by
  rw [List.append_assoc, first, second, List.append_assoc]

theorem Spells.decode_eq {raw text : List Char} (spells : refs.Spells raw text) :
    refs.decode raw = text := by
  have whole := spells []
  rwa [List.append_nil, show refs.decode [] = [] from rfl, List.append_nil] at whole

theorem spells_char {c : Char} (bare : c ≠ '&') : refs.Spells [c] [c] := fun rest => by
  simp only [List.cons_append, List.nil_append, decode, decodeFrom, if_neg bare]

theorem spells_self {s : List Char} (bare : '&' ∉ s) : refs.Spells s s := by
  induction s with
  | nil => exact .nil
  | cons c s ih =>
    rw [List.mem_cons, not_or] at bare
    exact (spells_char (Ne.symm bare.1)).append (ih bare.2)

theorem spells_reference {word text : List Char}
    (found : ∀ rest, refs.reference? (word ++ rest) = some (text, word.length)) :
    refs.Spells ('&' :: word) text := fun rest => by
  simp only [List.cons_append, decode, decodeFrom, found, if_true]
  rw [decodeFrom_eq, List.drop_left]
  rfl

theorem spells_flatMap {write : Char → List Char} (each : ∀ c, refs.Spells (write c) [c])
    (s : List Char) : refs.Spells (s.flatMap write) s := by
  induction s with
  | nil => exact .nil
  | cons c s ih => exact (each c).append ih

/-- A name with its semicolon is found before any shorter one. -/
theorem reference?_name {word text : List Char} (short : word.length ≤ 32) (filled : word ≠ [])
    (named : ∀ c ∈ word, isNameChar c = true) (known : refs.named (word ++ [';']) = some text)
    (rest : List Char) :
    refs.reference? (word ++ [';'] ++ rest) = some (text, (word ++ [';']).length) := by
  have taken : (word ++ [';'] ++ rest).takeWhile isNameChar = word := by
    rw [List.append_assoc, List.takeWhile_append_of_pos named, List.singleton_append,
      List.takeWhile_cons_of_neg (by decide), List.append_nil]
  have whole : withSemicolon word (word ++ [';'] ++ rest) = word ++ [';'] := by
    rw [withSemicolon, List.append_assoc, List.drop_left]
    rfl
  have byName : refs.byName? (word ++ [';'] ++ rest) = some (text, (word ++ [';']).length) := by
    have isWord : (word ++ [';'] = [] || word ++ [';'] = [';']) = false := by simpa using filled
    simp only [byName?, taken, List.take_of_length_le short, whole, isWord, List.findSome?_cons,
      List.take_length, known]
    rfl
  obtain ⟨c, word, rfl⟩ := List.exists_cons_of_ne_nil filled
  have noNumber : c ≠ '#' := by
    rintro rfl
    exact absurd (named '#' List.mem_cons_self) (by decide)
  rw [← byName]
  unfold reference?
  split
  next same => exact absurd (List.cons.inj same).1 noNumber
  next same => exact absurd (List.cons.inj same).1 noNumber
  next same => exact absurd (List.cons.inj same).1 noNumber
  next => rfl

theorem spells_name (word : List Char) {text : List Char} (short : word.length ≤ 32)
    (filled : word ≠ []) (named : ∀ c ∈ word, isNameChar c = true)
    (known : refs.named (word ++ [';']) = some text) :
    refs.Spells ('&' :: (word ++ [';'])) text :=
  spells_reference (reference?_name short filled named known)

/-- The apostrophe has no name that all readers know; its number can be written in two ways. -/
theorem spells_escaped (c : Char) {apostrophe : List Char}
    (numbered : refs.Spells apostrophe ['\'']) :
    refs.Spells (if c = '&' then "&amp;".toList else if c = '<' then "&lt;".toList
      else if c = '>' then "&gt;".toList else if c = '"' then "&quot;".toList
      else if c.toNat = 39 then apostrophe else [c]) [c] := by
  split_ifs with amp lt gt quot isApostrophe
  · subst amp
    exact spells_name ['a', 'm', 'p'] (by decide) (by decide) (by decide) refs.named_amp
  · subst lt
    exact spells_name ['l', 't'] (by decide) (by decide) (by decide) refs.named_lt
  · subst gt
    exact spells_name ['g', 't'] (by decide) (by decide) (by decide) refs.named_gt
  · subst quot
    exact spells_name ['q', 'u', 'o', 't'] (by decide) (by decide) (by decide) refs.named_quot
  · obtain rfl : c = '\'' := Char.toNat_inj.mp isApostrophe
    exact numbered
  · exact spells_char amp

theorem spells_escapeChars (s : List Char) : refs.Spells (escapeChars s) s := by
  have apostrophe : refs.Spells "&#x27;".toList ['\''] :=
    spells_reference fun rest => by
      change some (refs.numbered 39, 5) = _
      rw [refs.numbered_apostrophe]
      rfl
  exact spells_flatMap (fun c => spells_escaped c apostrophe) s

theorem spells_listing (s : List Char) : refs.Spells (s.flatMap Listing.escapeChar) s := by
  have apostrophe : refs.Spells "&#39;".toList ['\''] :=
    spells_reference fun rest => by
      change some (refs.numbered 39, 4) = _
      rw [refs.numbered_apostrophe]
      rfl
  exact spells_flatMap (fun c => spells_escaped c apostrophe) s

end References

end StaticSite.Markup
