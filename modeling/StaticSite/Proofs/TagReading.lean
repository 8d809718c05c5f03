import StaticSite.Markup.Node
import StaticSite.Proofs.TagReader

/-!
# What a reader of tags makes of written markup

Whatever is written as a text or as the value of an attribute, the reader finds the tags and the
names that were written, each value in its quotes, and the texts and values as they were before
they were escaped.
-/

namespace StaticSite.Markup

/-! ## Names -/

/-- A character that names are written with: a small letter, a digit or a hyphen. -/
def isMark (c : Char) : Bool :=
  (97 ≤ c.toNat && c.toNat ≤ 122) || Text.isAsciiDigit c || c = '-'

/-- A name that every reader takes for the same name. -/
def isPlainName : List Char → Bool
  | [] => false
  | c :: s => (97 ≤ c.toNat && c.toNat ≤ 122) && s.all isMark

theorem isMark_of_mem_isPlainName {name : List Char} (plain : isPlainName name = true) :
    ∀ c ∈ name, isMark c = true := by
  cases name with
  | nil => nofun
  | cons c s =>
    simp only [isPlainName, Bool.and_eq_true, List.all_eq_true] at plain
    refine List.forall_mem_cons.mpr ⟨?_, plain.2⟩
    simp [isMark, plain.1]

theorem isSpace_of_isMark {c : Char} (mark : isMark c = true) : isSpace c = false := by
  have ne (d : Char) (other : isMark d = false) : c ≠ d := Text.ne_of_kind mark other
  simp [isSpace, ne ' ' (by decide), ne '\t' (by decide), ne '\n' (by decide),
    ne '\x0c' (by decide), ne '\r' (by decide)]

/-- A mark has no code in front of the hyphen's, none behind that of `z`, and no capital's. -/
theorem code_of_isMark {c : Char} (mark : isMark c = true) :
    45 ≤ c.toNat ∧ c.toNat ≤ 122 ∧ ¬(65 ≤ c.toNat ∧ c.toNat ≤ 90) := by
  simp only [isMark, Text.isAsciiDigit, Bool.or_eq_true, Bool.and_eq_true, decide_eq_true_eq]
    at mark
  rcases mark with (letter | digit) | rfl
  · omega
  · omega
  · decide

theorem lowerAscii_of_isMark {c : Char} (mark : isMark c = true) : Text.lowerAscii c = c := by
  have small := (code_of_isMark mark).2.2
  simp [Text.lowerAscii, small]

theorem gapStep_of_isMark {c : Char} (mark : isMark c = true) (tag : Tag) :
    gapStep tag c = (.attributeName tag [c], []) := by
  simp [gapStep, isSpace_of_isMark mark, Text.ne_of_kind mark (d := '/') (by decide),
    Text.ne_of_kind mark (d := '>') (by decide), lowerAscii_of_isMark mark]

theorem run_tagName {name : List Char} (marks : ∀ c ∈ name, isMark c = true) (tag : Tag) :
    tagLexer.run (.tagName tag) name = (.tagName { tag with name := tag.name ++ name }, []) := by
  let named (seen : List Char) : Mode := .tagName { tag with name := seen }
  have collects : ∀ seen, ∀ c ∈ name, tagLexer.step (named seen) c = (named (seen ++ [c]), []) := by
    intro seen c member
    have mark := marks c member
    simp [named, tagLexer, Mode.step, nameStep, isSpace_of_isMark mark,
      Text.ne_of_kind mark (d := '/') (by decide), Text.ne_of_kind mark (d := '>') (by decide),
      lowerAscii_of_isMark mark]
  exact Machine.run_of_collects collects tag.name

theorem run_attributeName {name : List Char} (marks : ∀ c ∈ name, isMark c = true) (tag : Tag)
    (start : List Char) :
    tagLexer.run (.attributeName tag start) name = (.attributeName tag (start ++ name), []) := by
  refine Machine.run_of_collects (fun seen c member => ?_) start
  have mark := marks c member
  simp [tagLexer, Mode.step, isSpace_of_isMark mark,
    Text.ne_of_kind mark (d := '/') (by decide), Text.ne_of_kind mark (d := '>') (by decide),
    Text.ne_of_kind mark (d := '=') (by decide), lowerAscii_of_isMark mark]

/-! ## Tags -/

/-- An attribute as it is found again. -/
def Attribute.found : Attribute → Found
  | .value name text => .value (some '"') name.toList text.toList
  | .flag name => .flag name.toList

def Attribute.name : Attribute → String
  | .value name _ => name
  | .flag name => name

def Tag.opening (name : String) (attributes : List Attribute) : Tag :=
  ⟨false, name.toList, attributes.map Attribute.found⟩

def Tag.ending (name : String) : Tag := ⟨true, name.toList, []⟩

namespace Mode

/-- Whether the reader would take a closing bracket for the end of this tag. -/
inductive Ends (tag : Tag) : Mode → Prop
  | name : Ends tag (.tagName tag)
  | gap : Ends tag (.gap tag)
  | flag {front : Tag} {name : List Char} (whole : tag = front.plus (.flag name)) :
      Ends tag (.attributeName front name)

variable {tag : Tag} {mode : Mode}

theorem Ends.step_bracket (ends : mode.Ends tag) : tagLexer.step mode '>' = finish tag := by
  cases ends with
  | name => rfl
  | gap => rfl
  | flag whole =>
    rw [whole]
    rfl

/-- Behind a blank any name is that of a new attribute. -/
theorem Ends.run_name (ends : mode.Ends tag) {name : List Char} (plain : isPlainName name = true) :
    tagLexer.run mode (' ' :: name) = (.attributeName tag name, []) := by
  have marks := isMark_of_mem_isPlainName plain
  cases name with
  | nil => cases plain
  | cons c name =>
    obtain ⟨mark, marks⟩ := List.forall_mem_cons.mp marks
    have inner := run_attributeName marks tag [c]
    have start : tagLexer.run mode [' ', c] = (.attributeName tag [c], []) := by
      cases ends with
      | name => exact Machine.run_cons rfl (Machine.run_singleton (gapStep_of_isMark mark tag))
      | gap => exact Machine.run_cons rfl (Machine.run_singleton (gapStep_of_isMark mark tag))
      | @flag front last whole =>
        have step : tagLexer.step (.afterAttribute front last) c =
            (.attributeName tag [c], []) := by
          simp [tagLexer, Mode.step, isSpace_of_isMark mark,
            Text.ne_of_kind mark (d := '=') (by decide), ← whole, gapStep_of_isMark mark]
        exact Machine.run_cons rfl (Machine.run_singleton step)
    exact Machine.run_append start inner

end Mode

theorem run_quoted {value : List Char} (inside : '"' ∉ value) (tag : Tag) (name : List Char)
    (start : List Char) :
    tagLexer.run (.quoted tag name '"' start) (value ++ ['"']) =
      (.gap (tag.plus (.value (some '"') name (start ++ value))), []) := by
  have text : tagLexer.run (.quoted tag name '"' start) value =
      (.quoted tag name '"' (start ++ value), []) := by
    refine Machine.run_of_collects (fun seen c member => ?_) start
    have other : c ≠ '"' := fun same => inside (same ▸ member)
    simp [tagLexer, Mode.step, other]
  exact Machine.run_append text (Machine.run_singleton rfl)

/-- Escaped text holds no quote and no bracket. -/
theorem not_mem_escapeChars (s : List Char) :
    '"' ∉ escapeChars s ∧ '<' ∉ escapeChars s ∧ '>' ∉ escapeChars s := by
  have each (c : Char) : '"' ∉ escapeChar c ∧ '<' ∉ escapeChar c ∧ '>' ∉ escapeChar c := by
    unfold escapeChar
    split_ifs with amp lt gt quot apostrophe
    · decide
    · decide
    · decide
    · decide
    · decide
    · simp [Ne.symm lt, Ne.symm gt, Ne.symm quot]
  simp only [escapeChars, List.mem_flatMap, not_exists, not_and]
  exact ⟨fun c _ => (each c).1, fun c _ => (each c).2.1, fun c _ => (each c).2.2⟩

@[simp] theorem toList_escape (s : String) : (escape s).toList = escapeChars s.toList :=
  String.toList_ofList

theorem toList_write_value (name text : String) :
    (Attribute.value name text).write.toList =
      ' ' :: name.toList ++ '=' :: '"' :: (escapeChars text.toList ++ ['"']) := by
  simp [Attribute.write]

theorem run_attribute {mode : Mode} {tag : Tag} (ends : mode.Ends tag) (attr : Attribute)
    (plain : isPlainName attr.name.toList = true) :
    ∃ next, tagLexer.run mode attr.write.toList = (next, []) ∧
      next.Ends (tag.plus (attr.found.map escapeChars)) := by
  cases attr with
  | value name text =>
    refine ⟨_, ?_, .gap⟩
    rw [toList_write_value]
    exact Machine.run_append (ends.run_name plain)
      (Machine.run_cons rfl (Machine.run_cons rfl
        (run_quoted (not_mem_escapeChars _).1 tag name.toList [])))
  | flag name =>
    refine ⟨.attributeName tag name.toList, ?_, .flag rfl⟩
    simpa [Attribute.write, Attribute.name] using ends.run_name plain

theorem run_attributes {attributes : List Attribute}
    (plain : ∀ attr ∈ attributes, isPlainName attr.name.toList = true) {mode : Mode} {tag : Tag}
    (ends : mode.Ends tag) :
    ∃ next, tagLexer.run mode (String.join (attributes.map Attribute.write)).toList = (next, []) ∧
      next.Ends { tag with
        attributes := tag.attributes ++ attributes.map fun attr => attr.found.map escapeChars } := by
  induction attributes generalizing mode tag with
  | nil => exact ⟨mode, rfl, by simpa using ends⟩
  | cons attr attributes ih =>
    obtain ⟨here, later⟩ := List.forall_mem_cons.mp plain
    obtain ⟨between, first, ends⟩ := run_attribute ends attr here
    obtain ⟨next, rest, ends⟩ := ih later ends
    refine ⟨next, ?_, ?_⟩
    · rw [List.map_cons, String.join_cons, String.toList_append]
      exact Machine.run_append first rest
    · simpa [Tag.plus] using ends

/-- A tag whose names every reader takes for the same, and behind which text follows. -/
structure Tag.IsPlain (tag : String) (attributes : List Attribute) : Prop where
  name : isPlainName tag.toList = true
  attributes : ∀ attr ∈ attributes, isPlainName attr.name.toList = true
  text : isRawElement tag.toList = false

theorem run_bracket {name : List Char} (plain : isPlainName name = true) :
    tagLexer.run .bracket name = (.tagName ⟨false, name, []⟩, []) ∧
      tagLexer.run .endBracket name = (.tagName ⟨true, name, []⟩, []) := by
  have marks := isMark_of_mem_isPlainName plain
  cases name with
  | nil => cases plain
  | cons c name =>
    obtain ⟨mark, marks⟩ := List.forall_mem_cons.mp marks
    simp only [isPlainName, Bool.and_eq_true, decide_eq_true_eq] at plain
    have letter : Text.isAsciiLetter c = true := by simp [Text.isAsciiLetter, plain.1]
    have lower := lowerAscii_of_isMark mark
    have opened : tagLexer.step .bracket c = (.tagName ⟨false, [c], []⟩, []) := by
      simp [tagLexer, Mode.step, letter, lower]
    have closed : tagLexer.step .endBracket c = (.tagName ⟨true, [c], []⟩, []) := by
      simp [tagLexer, Mode.step, letter, lower]
    exact ⟨Machine.run_cons opened (run_tagName marks _),
      Machine.run_cons closed (run_tagName marks _)⟩

theorem run_openTag {tag : String} {attributes : List Attribute}
    (plain : Tag.IsPlain tag attributes) :
    tagLexer.run .text (openTag tag attributes).toList =
      (.text, [.tag ((Tag.opening tag attributes).map escapeChars)]) := by
  have start : tagLexer.run .text ('<' :: tag.toList) = (.tagName ⟨false, tag.toList, []⟩, []) :=
    Machine.run_cons rfl (run_bracket plain.name).1
  have named : (Mode.tagName ⟨false, tag.toList, []⟩).Ends ⟨false, tag.toList, []⟩ := .name
  obtain ⟨mode, middle, ends⟩ := run_attributes plain.attributes named
  have last := Machine.run_singleton (ends.step_bracket)
  have whole := Machine.run_append (Machine.run_append start middle) last
  have written : (openTag tag attributes).toList = '<' :: tag.toList ++
      (String.join (attributes.map Attribute.write)).toList ++ ['>'] := by
    simp [openTag]
  rw [written, whole]
  simp [plain.text, Tag.opening, Tag.map, Function.comp_def]

theorem run_closeTag {tag : String} (plain : isPlainName tag.toList = true) :
    tagLexer.run .text ("</" ++ tag ++ ">").toList = (.text, [.tag (Tag.ending tag)]) := by
  have start : tagLexer.run .text ('<' :: '/' :: tag.toList) =
      (.tagName ⟨true, tag.toList, []⟩, []) :=
    Machine.run_cons rfl (Machine.run_cons rfl (run_bracket plain).2)
  have written : ("</" ++ tag ++ ">").toList = '<' :: '/' :: tag.toList ++ ['>'] := by simp
  rw [written]
  exact Machine.run_append start (Machine.run_singleton rfl)

/-! ## Readings -/

section

variable (refs : References)

/-- Whether lexemes show these items, however the characters of a text are written. -/
inductive Shows : List Lexeme → List Item → Prop
  | nil : Shows [] []
  | text {raw text : List Char} {lexemes : List Lexeme} {items : List Item}
      (spells : refs.Spells raw text) (rest : Shows lexemes items) :
      Shows (raw.map .char ++ lexemes) (.text text :: items)
  | tag (tag : Tag) {lexemes : List Lexeme} {items : List Item} (rest : Shows lexemes items) :
      Shows (.tag tag :: lexemes) (.tag (tag.map refs.decode) :: items)

/-- Whether the reader, in front of this text, finds these items and is then in front of text. -/
def Reads (s : List Char) (items : List Item) : Prop :=
  ∃ lexemes, tagLexer.run .text s = (.text, lexemes) ∧ Shows refs lexemes items

variable {refs}

theorem Shows.append {l m : List Lexeme} {a b : List Item} (first : Shows refs l a)
    (second : Shows refs m b) : Shows refs (l ++ m) (a ++ b) := by
  induction first with
  | nil => exact second
  | text spells _ ih =>
    rw [List.append_assoc]
    exact .text spells ih
  | tag tag _ ih => exact .tag tag ih

theorem itemsFrom_chars (s t : List Char) (lexemes : List Lexeme) :
    itemsFrom refs s (t.map .char ++ lexemes) = itemsFrom refs (s ++ t) lexemes := by
  induction t generalizing s with
  | nil => simp
  | cons c t ih =>
    rw [List.map_cons, List.cons_append, itemsFrom, ih, List.append_assoc, List.singleton_append]

theorem Shows.itemsFrom_eq {lexemes : List Lexeme} {items : List Item}
    (shows : Shows refs lexemes items) {raw text : List Char} (spells : refs.Spells raw text) :
    itemsFrom refs raw lexemes = mergedFrom text items := by
  induction shows generalizing raw text with
  | nil => rw [itemsFrom, mergedFrom, spells.decode_eq]
  | text here _ ih =>
    rw [itemsFrom_chars, mergedFrom, ih (spells.append here)]
  | tag tag _ ih => rw [itemsFrom, mergedFrom, spells.decode_eq, ih .nil]

theorem Reads.nil : Reads refs [] [] := ⟨[], rfl, .nil⟩

theorem Reads.append {s t : List Char} {a b : List Item} (first : Reads refs s a)
    (second : Reads refs t b) : Reads refs (s ++ t) (a ++ b) := by
  obtain ⟨l, run, shows⟩ := first
  obtain ⟨m, run', shows'⟩ := second
  exact ⟨l ++ m, Machine.run_append run run', shows.append shows'⟩

theorem items_of_reads {markup : String} {read : List Item}
    (reads : Reads refs markup.toList read) : items refs markup = merged read := by
  obtain ⟨l, run, shows⟩ := reads
  rw [items, lexemes, run, merged]
  simpa [Mode.held] using shows.itemsFrom_eq .nil

theorem reads_text {raw text : List Char} (bare : '<' ∉ raw) (spells : refs.Spells raw text) :
    Reads refs raw [.text text] := by
  refine ⟨raw.map .char, ?_, by simpa using Shows.text spells .nil⟩
  rw [← List.flatMap_singleton' (raw.map Lexeme.char), List.flatMap_map]
  refine Machine.run_of_stays fun c member => ?_
  have noBracket : c ≠ '<' := fun same => bare (same ▸ member)
  simp [tagLexer, Mode.step, textStep, noBracket]

theorem reads_escape (s : String) : Reads refs (escape s).toList [.text s.toList] := by
  rw [toList_escape]
  exact reads_text (not_mem_escapeChars _).2.1 (References.spells_escapeChars _)

theorem decode_escapeChars_tag (tag : Tag) : (tag.map escapeChars).map refs.decode = tag := by
  have each (found : Found) : (found.map escapeChars).map refs.decode = found := by
    cases found with
    | value quote name text =>
      simp only [Found.map, (References.spells_escapeChars text).decode_eq]
    | flag name => rfl
  cases tag
  simp [Tag.map, Function.comp_def, each]

theorem reads_openTag {tag : String} {attributes : List Attribute}
    (plain : Tag.IsPlain tag attributes) :
    Reads refs (openTag tag attributes).toList [.tag (Tag.opening tag attributes)] := by
  refine ⟨_, run_openTag plain, ?_⟩
  have shows : Shows refs _ _ := .tag ((Tag.opening tag attributes).map escapeChars) .nil
  rwa [decode_escapeChars_tag] at shows

theorem reads_closeTag {tag : String} (plain : isPlainName tag.toList = true) :
    Reads refs ("</" ++ tag ++ ">").toList [.tag (Tag.ending tag)] :=
  ⟨_, run_closeTag plain, .tag (Tag.ending tag) .nil⟩

/-- The characters of an element. -/
def around (tag : String) (attributes : List Attribute) (content : List Char) : List Char :=
  (openTag tag attributes).toList ++ content ++ ("</" ++ tag ++ ">").toList

/-- An element is read as its tags around what is read of its content. -/
theorem reads_around {tag : String} {attributes : List Attribute}
    (plain : Tag.IsPlain tag attributes) {content : List Char} {read : List Item}
    (inner : Reads refs content read) :
    Reads refs (around tag attributes content)
      (.tag (Tag.opening tag attributes) :: read ++ [.tag (Tag.ending tag)]) :=
  ((reads_openTag plain).append inner).append (reads_closeTag plain.name)

end

/-! ## Trees -/

mutual

/-- What is written for a tree; ready markup counts as text. -/
def Node.items : Node → List Item
  | .text s => [.text s.toList]
  | .ready markup => [.text markup.toList]
  | .void tag attributes => [.tag (.opening tag attributes)]
  | .element tag attributes content =>
    .tag (.opening tag attributes) :: itemsAll content ++ [.tag (.ending tag)]

def itemsAll : List Node → List Item
  | [] => []
  | node :: nodes => node.items ++ itemsAll nodes

end

theorem toList_write_element (tag : String) (attributes : List Attribute) (content : List Node) :
    (Node.element tag attributes content).write.toList =
      around tag attributes (writeAll content).toList := by
  simp [Node.write, around]

end StaticSite.Markup
