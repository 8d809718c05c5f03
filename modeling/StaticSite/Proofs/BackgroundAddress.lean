import StaticSite.Proofs.Reduction
import StaticSite.Proofs.RenderedMarkup
import StaticSite.Proofs.SheetReading

/-!
# The address of a background

A section writes the address of its background as a string of a style, and the style as the value of
an attribute. Read back through both, the address is the one that was given, and the style declares
nothing else, unless the address holds a line end: a line end breaks a string off, and what follows
it is read as further declarations.
-/

namespace StaticSite.Style

/-! ## Strings -/

/-- How many of these characters are the one blank that they may start with. -/
def blankLength : List Char → Nat
  | [] => 0
  | '\r' :: '\n' :: _ => 2
  | c :: _ => if isNewline c || c = ' ' || c = '\t' then 1 else 0

/-- A character as it is read; NUL is replaced. -/
def readChar (c : Char) : Char := if c = '\x00' then '\ufffd' else c

/-- The character that hexadecimal digits name; one that does not exist is replaced. -/
def namedChar (digits : List Char) : Char :=
  readChar (Char.ofNat (Text.digitsValue 16 (digits.filterMap Text.hexValue?)))

/--
What a backslash in front of these characters stands for, and how many of them it takes: up to six
digits and a blank that ends them, a line end, which stands for nothing, or any other character.
-/
def escaped (s : List Char) : List Char × Nat :=
  let digits := (s.take 6).takeWhile fun c => (Text.hexValue? c).isSome
  if digits ≠ [] then ([namedChar digits], digits.length + blankLength (s.drop digits.length))
  else if s.head?.any isNewline then ([], blankLength s)
  else (s.head?.toList.map readChar, 1)

/--
The text up to the quote that ends a string, and what follows that quote, once `skip` characters
have been passed over; none if a line end breaks the string off, or if nothing ends it.
-/
def readString? : Nat → List Char → Option (List Char × List Char)
  | _, [] => none
  | skip + 1, _ :: s => readString? skip s
  | 0, c :: s =>
    if c = '"' then some ([], s)
    else if isNewline c then none
    else if c = '\\' then
      (readString? (escaped s).2 s).map fun (text, rest) => ((escaped s).1 ++ text, rest)
    else (readString? 0 s).map fun (text, rest) => (readChar c :: text, rest)

theorem escaped_mark {c : Char} (mark : c = '\\' ∨ c = '"') (s : List Char) :
    escaped (c :: s) = ([c], 1) := by
  rcases mark with rfl | rfl <;> rfl

/-- An address behind an opening quote is read up to its closing quote, or not at all. -/
theorem readString?_urlText (url rest : List Char) :
    readString? 0 (url.flatMap urlChar ++ '"' :: rest) =
      if url.any isNewline then none else some (url.map readChar, rest) := by
  induction url with
  | nil => rfl
  | cons c url ih =>
    by_cases mark : c = '\\' ∨ c = '"'
    · have written : urlChar c = ['\\', c] := by simp [urlChar, mark]
      have inLine : isNewline c = false := by rcases mark with rfl | rfl <;> decide
      have shown : readChar c = c := by rcases mark with rfl | rfl <;> decide
      have step (s : List Char) : readString? 0 ('\\' :: c :: s) =
          (readString? 0 s).map fun (text, rest) => (c :: text, rest) := by
        rw [readString?, if_neg (by decide), if_neg (by decide), if_pos rfl, escaped_mark mark]
        rfl
      rw [List.flatMap_cons, written, List.append_assoc]
      simp only [List.cons_append, List.nil_append, List.any_cons, inLine, Bool.false_or, step, ih]
      split <;> simp [shown]
    · obtain ⟨noEscape, noQuote⟩ := not_or.mp mark
      have written : urlChar c = [c] := by simp [urlChar, mark]
      rw [List.flatMap_cons, written, List.singleton_append, List.cons_append, readString?,
        if_neg noQuote, if_neg noEscape, ih]
      cases inLine : isNewline c
      · simp only [List.any_cons, inLine, Bool.false_or, Bool.false_eq_true, if_false]
        split <;> rfl
      · simp [inLine]

example : readString? 0 "\\62 c\\\n\\\"\";".toList = some ("bc\"".toList, [';']) := by decide +kernel

/-- What stands in front of the address in the style of a background. -/
def backgroundStart : List Char := "background-image: url(\"".toList

/-- The address that a style names as a background, and what follows it. -/
def readBackground? (style : String) : Option (List Char × List Char) := do
  let s ← style.toList.dropPrefix? backgroundStart
  let (url, s) ← readString? 0 s
  let rest ← s.dropPrefix? [')']
  return (url, rest)

/-- The style of a background. -/
def background (url : String) : String := "background-image: url(\"" ++ urlText url ++ "\")"

theorem toList_urlText (url : String) : (urlText url).toList = url.toList.flatMap urlChar :=
  String.toList_ofList

theorem toList_background (url : String) :
    (background url).toList = backgroundStart ++ url.toList.flatMap urlChar ++ ['"', ')'] := by
  change ("background-image: url(\"" ++ urlText url ++ "\")").toList = _
  rw [String.toList_append, String.toList_append, toList_urlText]
  rfl

theorem readBackground?_background (url : String) :
    readBackground? (background url) =
      if url.toList.any isNewline then none else some (url.toList.map readChar, []) := by
  have start : (background url).toList.dropPrefix? backgroundStart =
      some (url.toList.flatMap urlChar ++ ['"', ')']) := by
    rw [toList_background, List.append_assoc]
    exact List.dropPrefix?_eq_some_iff.mpr ⟨backgroundStart, rfl, BEq.rfl⟩
  rw [readBackground?, start, Option.bind_eq_bind, Option.bind_some, readString?_urlText]
  split <;> rfl

theorem readChar_eq_self_iff {c : Char} : readChar c = c ↔ c ≠ '\x00' := by
  unfold readChar
  split
  next isNul => exact iff_of_false (by rw [isNul]; decide) (not_not.mpr isNul)
  next notNul => exact iff_of_true rfl notNul

theorem readBackground?_eq_some_iff (url : String) :
    readBackground? (background url) = some (url.toList, []) ↔
      ∀ c ∈ url.toList, isNewline c = false ∧ c ≠ '\x00' := by
  have unchanged : url.toList.map readChar = url.toList ↔ ∀ c ∈ url.toList, c ≠ '\x00' := by
    simpa [readChar_eq_self_iff] using @List.map_inj_left _ _ url.toList readChar id
  rw [readBackground?_background, forall₂_and, ← unchanged]
  split
  next broken =>
    obtain ⟨c, member, newline⟩ := List.any_eq_true.mp broken
    refine iff_of_false nofun fun both => ?_
    rw [both.1 c member] at newline
    cases newline
  next inLine =>
    have inLine : ∀ c ∈ url.toList, isNewline c = false := by simpa using inLine
    rw [and_iff_right inLine, Option.some.injEq, Prod.mk.injEq, and_iff_left rfl]

/-! ## Declarations -/

/-- What the value of a style attribute declares. -/
def readStyle (style : String) : List (String × String) :=
  ((lexer.run .code style.toList).2.splitOn (.bare ';')).filterMap declaration?

/-- In a string that no line end breaks off, no character has a meaning. -/
theorem lexer_urlText {url : List Char} (inLine : ∀ c ∈ url, isNewline c = false) :
    lexer.run (.quoted '"') (url.flatMap urlChar) =
      (.quoted '"', (url.flatMap urlChar).map .held) := by
  induction url with
  | nil => rfl
  | cons c url ih =>
    obtain ⟨here, later⟩ := List.forall_mem_cons.mp inLine
    have first : lexer.run (.quoted '"') (urlChar c) = (.quoted '"', (urlChar c).map .held) := by
      by_cases mark : c = '\\' ∨ c = '"'
      · rcases mark with rfl | rfl <;> rfl
      · obtain ⟨noEscape, noQuote⟩ := not_or.mp mark
        have written : urlChar c = [c] := by simp [urlChar, mark]
        rw [written]
        exact Machine.run_singleton (by simp [lexer, Mode.step, here, noQuote, noEscape])
    rw [List.flatMap_cons, List.map_append]
    exact Machine.run_append first (ih later)

/-- The glyphs of a value that names this address. -/
def addressGlyphs (url : List Char) : List Glyph :=
  "url(".toList.map .bare ++ (['"'] ++ url.flatMap urlChar ++ ['"']).map .held ++
    [')'].map .bare

theorem lexer_background {url : String} (inLine : ∀ c ∈ url.toList, isNewline c = false) :
    lexer.run .code (background url).toList =
      (.code, "background-image".toList.map .bare ++ .bare ':' :: .bare ' ' ::
        addressGlyphs url.toList) := by
  have front : lexer.run .code backgroundStart =
      (.quoted '"', "background-image: url(".toList.map .bare ++ [.held '"']) := by decide
  have back : lexer.run (.quoted '"') ['"', ')'] = (.code, [.held '"', .bare ')']) := by decide
  rw [toList_background,
    Machine.run_append (Machine.run_append front (lexer_urlText inLine)) back]
  simp [addressGlyphs]

theorem plainText_addressGlyphs (url : String) :
    plainText (.bare ' ' :: addressGlyphs url.toList) = "url(\"" ++ urlText url ++ "\")" := by
  have shown : (addressGlyphs url.toList).map Glyph.char =
      ("url(\"" ++ urlText url ++ "\")").toList := by
    simp [addressGlyphs, urlText, Glyph.char, Function.comp_def]
  have ends : HasEnds Text.isBlank ("url(\"" ++ urlText url ++ "\")").toList := by
    constructor
    · simpa using (by decide : Text.isBlank 'u' = false)
    · simpa [List.getLast?_cons] using (by decide : Text.isBlank ')' = false)
  have trimmed := plainText_eq [.bare ' '] _ [] (by decide) (List.forall_mem_nil _) shown ends
  rwa [List.append_nil, List.singleton_append] at trimmed

/-- In this text only a semicolon outside the string would end a declaration. -/
theorem splitOn_semicolon {front held back : List Char} (noEnd : ';' ∉ front ∧ ';' ∉ back) :
    (front.map Glyph.bare ++ held.map Glyph.held ++ back.map Glyph.bare).splitOn (.bare ';') =
      [front.map Glyph.bare ++ held.map Glyph.held ++ back.map Glyph.bare] := by
  refine List.splitOnP_eq_singleton fun glyph member => ?_
  rw [beq_eq_false_iff_ne]
  rintro rfl
  simp [noEnd] at member

theorem readStyle_background {url : String} (inLine : ∀ c ∈ url.toList, isNewline c = false) :
    readStyle (background url) = [("background-image", "url(\"" ++ urlText url ++ "\")")] := by
  have oneDeclaration : (lexer.run .code (background url).toList).2.splitOn (.bare ';') =
      [(lexer.run .code (background url).toList).2] := by
    rw [lexer_background inLine]
    exact @splitOn_semicolon "background-image: url(".toList
      (['"'] ++ url.toList.flatMap urlChar ++ ['"']) [')'] (by decide)
  have named : ∀ c ∈ "background-image".toList, Text.isNameChar c = true := by decide
  have read := @declaration?_eq _ [] (addressGlyphs url.toList) named (List.forall_mem_nil _)
  rw [List.nil_append, plainText_addressGlyphs] at read
  rw [readStyle, oneDeclaration, lexer_background inLine]
  simp only [List.filterMap_cons, read, List.filterMap_nil]

end StaticSite.Style

namespace StaticSite.Markup

/-- The texts of the attributes of this name. -/
def Tag.values (tag : Tag) (name : String) : List String :=
  tag.attributes.filterMap fun
    | .value _ found text => if found = name.toList then some (String.ofList text) else none
    | .flag _ => none

@[simp] theorem Tag.values_opening (tag : String) (attributes : List Attribute) (name : String) :
    (Tag.opening tag attributes).values name = attributes.filterMap fun
      | .value found text => if found = name then some text else none
      | .flag _ => none := by
  rw [Tag.values, Tag.opening, List.filterMap_map]
  refine congrFun (congrArg List.filterMap (funext fun attr => ?_)) attributes
  cases attr with
  | value found text => simp [Attribute.found, String.toList_inj]
  | flag found => rfl

/-- The first tag that a reader finds in a written element is its own. -/
theorem elements_element (refs : References) {tag : String} {attributes : List Attribute}
    (plain : Tag.IsPlain tag attributes) (content : List Node) :
    ∃ rest, elements refs (Node.element tag attributes content).write =
      Tag.opening tag attributes :: rest := by
  have run := Machine.run_append (run_openTag plain)
    (m := (writeAll content).toList ++ ("</" ++ tag ++ ">").toList) rfl
  rw [elements_eq, openings_lexemes, toList_write_element, around, List.append_assoc, run,
    openings_append, List.map_append]
  have found : (openings [Lexeme.tag ((Tag.opening tag attributes).map escapeChars)]).map
      (Tag.map refs.decode) = [Tag.opening tag attributes] :=
    congrArg (fun found => [found]) (decode_escapeChars_tag _)
  rw [found]
  exact ⟨_, rfl⟩

end StaticSite.Markup

namespace StaticSite.Renderer

open Markup (Tag)

/-- The tag of a section holds its background in a style attribute, the only one. -/
theorem values_section (refs : Markup.References) (heap : Heap) (props : Entries)
    (children : Children) (context : Context) {url : String}
    (given : props.get "backgroundImage" = .str url) (filled : url ≠ "") :
    ∃ root rest, Markup.elements refs (sectionNode heap props children context).write =
      root :: rest ∧ root.values "style" = [Style.background url] := by
  have alike : (sectionNode heap props children context).Alike (words "Section")
      (fun _ _ => True) (sectionNode heap props children context) :=
    sectionNode_alike trivial trivial
  obtain ⟨-, -, allowed, -⟩ := alike
  obtain ⟨rest, elements⟩ :=
    Markup.elements_element refs (allowed.isPlain (words_arePlain "Section")) _
  refine ⟨_, rest, elements, ?_⟩
  have style : backgroundStyle (props.get "backgroundImage") =
      [.value "style" (Style.background url)] := by
    rw [given, backgroundStyle, if_neg filled]
    rfl
  have anchor : (Tag.opening "section" (Renderer.filled heap props "anchor" "id")).values "style" =
      [] := by
    rw [Renderer.filled]
    cases filledText? heap props "anchor" <;> rfl
  rw [Tag.values_opening] at anchor ⊢
  rw [style, List.filterMap_append, List.filterMap_append, anchor]
  rfl

/--
Whatever the address holds, the tag of the section has one style. A reader of styles finds the
address in it as it was given, with nothing behind it and no other declaration; only NUL is replaced
where it is read. An address with a line end it does not find at all.
-/
theorem sectionNode_background (refs : Markup.References) (heap : Heap) (props : Entries)
    (children : Children) (context : Context) {url : String}
    (given : props.get "backgroundImage" = .str url) (filled : url ≠ "") :
    ∃ root rest style,
      Markup.elements refs (sectionNode heap props children context).write = root :: rest ∧
      root.values "style" = [style] ∧
      Style.readBackground? style =
        (if url.toList.any Style.isNewline then none
          else some (url.toList.map Style.readChar, [])) ∧
      (Style.readBackground? style = some (url.toList, []) ↔
        ∀ c ∈ url.toList, Style.isNewline c = false ∧ c ≠ '\x00') ∧
      ((∀ c ∈ url.toList, Style.isNewline c = false) →
        Style.readStyle style = [("background-image", "url(\"" ++ Style.urlText url ++ "\")")]) := by
  obtain ⟨root, rest, elements, style⟩ :=
    values_section refs heap props children context given filled
  exact ⟨root, rest, _, elements, style, Style.readBackground?_background url,
    Style.readBackground?_eq_some_iff url, Style.readStyle_background⟩

/-- An address with everything that has a meaning in a style or in an attribute. -/
def hostileAddress : String := "\\\"); color: red; b: url(\"&quot;&#10;'\\a </section>"

theorem sectionNode_hostileAddress :
    Entries.get [(.str "backgroundImage", .str hostileAddress)] "backgroundImage" =
        .str hostileAddress ∧ hostileAddress ≠ "" ∧
      ∃ root rest style,
        Markup.elements .basic (sectionNode {}
          [(.str "backgroundImage", .str hostileAddress)] [] plainContext).write = root :: rest ∧
        root.values "style" = [style] ∧
        Style.readBackground? style = some (hostileAddress.toList, []) ∧
        Style.readStyle style =
          [("background-image", "url(\"" ++ Style.urlText hostileAddress ++ "\")")] := by
  have given : Entries.get [(.str "backgroundImage", .str hostileAddress)] "backgroundImage" =
      .str hostileAddress := rfl
  have filled : hostileAddress ≠ "" := by decide
  have inLine : ∀ c ∈ hostileAddress.toList, Style.isNewline c = false ∧ c ≠ '\x00' := by decide
  obtain ⟨root, rest, style, elements, values, -, read, only⟩ :=
    sectionNode_background .basic {} _ [] plainContext given filled
  exact ⟨given, filled, root, rest, style, elements, values, read.mpr inLine,
    only fun c member => (inLine c member).1⟩

/-- An address with a line end. -/
def brokenAddress : String := "a\n); color: red; b: url("

/-- A line end in an address makes a declaration of what follows it. -/
theorem sectionNode_brokenAddress :
    brokenAddress ≠ "" ∧ '\x00' ∉ brokenAddress.toList ∧
      ∃ root rest style,
        Markup.elements .basic (sectionNode {}
          [(.str "backgroundImage", .str brokenAddress)] [] plainContext).write = root :: rest ∧
        root.values "style" = [style] ∧
        Style.readBackground? style = none ∧ ("color", "red") ∈ Style.readStyle style := by
  have given : Entries.get [(.str "backgroundImage", .str brokenAddress)] "backgroundImage" =
      .str brokenAddress := rfl
  have filled : brokenAddress ≠ "" := by decide
  obtain ⟨root, rest, elements, values⟩ :=
    values_section .basic {} _ [] plainContext given filled
  refine ⟨filled, by decide, root, rest, _, elements, values, by decide +kernel, by decide +kernel⟩

end StaticSite.Renderer
