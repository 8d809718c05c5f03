import StaticSite.Proofs.SheetReader
import StaticSite.Proofs.SheetSafety

/-!
# Style sheets read back

What a reader of style sheets makes of a sheet that has been written, piece by piece: comments,
declarations, rules, and rules under a condition.
-/

namespace StaticSite.Style

open Text (isNameChar isSpelling)

/-! ## Text without comments, strings and escapes -/

/-- A character that opens no comment, no string and no escape. -/
def isPlain (c : Char) : Bool := c ≠ '/' && c ≠ '"' && c ≠ '\'' && c ≠ '\\'

theorem lexer_plain {s : List Char} (plain : ∀ c ∈ s, isPlain c = true) :
    lexer.run .code s = (.code, s.map .bare) := by
  have stays : ∀ c ∈ s, lexer.step .code c = (.code, [.bare c]) := by
    intro c member
    have isPlain := plain c member
    simp only [Style.isPlain, Bool.and_eq_true, decide_eq_true_eq] at isPlain
    obtain ⟨⟨⟨slash, double⟩, single⟩, backslash⟩ := isPlain
    simp [lexer, Mode.step, codeStep, slash, double, single, backslash]
  rw [Machine.run_of_stays stays, List.map_eq_flatMap]

/-- The inside of a comment and its end are passed over. -/
theorem lexer_commentEnd {label : List Char} (noStar : '*' ∉ label) :
    lexer.run .comment (label ++ ['*', '/']) = (.code, []) := by
  have inside : lexer.run .comment label = (.comment, label.flatMap fun _ => []) := by
    refine Machine.run_of_stays fun c member => ?_
    have notStar : c ≠ '*' := fun isStar => noStar (isStar ▸ member)
    simp [lexer, Mode.step, notStar]
  have silent : (label.flatMap fun _ => []) = ([] : List Glyph) :=
    List.flatMap_eq_nil_iff.mpr fun _ _ => rfl
  have closing : lexer.run .comment ['*', '/'] = (.code, []) := by decide
  rw [silent] at inside
  exact Machine.run_append inside closing

/-- A comment is passed over. -/
theorem lexer_comment {label : List Char} (noStar : '*' ∉ label) :
    lexer.run .code (['/', '*'] ++ label ++ ['*', '/']) = (.code, []) := by
  have opening : lexer.run .code ['/', '*'] = (.comment, []) := by decide
  rw [List.append_assoc]
  exact Machine.run_append opening (lexer_commentEnd noStar)

/-! ## Text between braces and semicolons -/

/-- A glyph at which the reader splits a sheet. -/
def Glyph.isMark (glyph : Glyph) : Bool :=
  glyph = .bare '\x7b' || glyph = .bare '\x7d' || glyph = .bare ';'

namespace Reader

variable {reader next : Reader} {glyphs more : List Glyph}

@[simp] theorem feed_nil (reader : Reader) : reader.feed [] = some reader := rfl

theorem feed_append (first : reader.feed glyphs = some next) :
    reader.feed (glyphs ++ more) = next.feed more := by
  rw [feed, List.foldlM_append]
  exact congrArg (· >>= fun r => r.feed more) first

theorem feed_singleton (glyph : Glyph) : reader.feed [glyph] = reader.step glyph := by
  simp [feed]

theorem feed_text (unmarked : ∀ glyph ∈ glyphs, glyph.isMark = false) :
    reader.feed glyphs = some { reader with text := reader.text ++ glyphs } := by
  induction glyphs generalizing reader with
  | nil => simp
  | cons glyph glyphs ih =>
    obtain ⟨here, later⟩ := List.forall_mem_cons.mp unmarked
    simp only [Glyph.isMark, Bool.or_eq_false_iff, decide_eq_false_iff_not] at here
    obtain ⟨⟨notOpening, notClosing⟩, notEnd⟩ := here
    have first : reader.feed [glyph] = some { reader with text := reader.text ++ [glyph] } := by
      rw [feed_singleton, step, if_neg notOpening, if_neg notClosing, if_neg notEnd]
    rw [← List.singleton_append, feed_append first, ih later, List.append_assoc]

end Reader

/-- The blanks around a text are not part of it. -/
theorem plainText_eq (front mid back : List Glyph) {s : String}
    (isFront : ∀ glyph ∈ front, Text.isBlank glyph.char = true)
    (isBack : ∀ glyph ∈ back, Text.isBlank glyph.char = true)
    (isText : mid.map Glyph.char = s.toList) (ends : HasEnds Text.isBlank s.toList) :
    plainText (front ++ mid ++ back) = s := by
  have trim : Text.trim ((front ++ mid ++ back).map Glyph.char) = s.toList := by
    rw [List.map_append, List.map_append, isText]
    exact trimmed_eq (by simpa using isFront) (by simpa using isBack) ends
  rw [plainText, trim, String.ofList_toList]

/-! ## Values read by themselves -/

/-- What a reader takes a value for; none if it leaves a comment, a string or an escape open. -/
def readValue? (value : String) : Option String :=
  match lexer.run .code value.toList with
  | (.code, glyphs) => some (plainText glyphs)
  | (.slash, glyphs) => some (plainText (glyphs ++ [.bare '/']))
  | _ => none

/-- A value that a reader takes for itself. -/
def IsSelfContained (value : String) : Prop := readValue? value = some value

instance (value : String) : Decidable (IsSelfContained value) :=
  inferInstanceAs (Decidable (readValue? value = some value))

theorem mem_codeStep {c : Char} {glyph : Glyph} (member : glyph ∈ (codeStep c).2) :
    glyph.char = c := by
  unfold codeStep at member
  split at member
  · cases member
  · split at member
    · rw [List.mem_singleton.mp member, Glyph.char]
    · split at member <;> rw [List.mem_singleton.mp member, Glyph.char]

/-- Nothing is read that does not stand there, except for a slash that has been waited with. -/
theorem mem_step {mode : Mode} {c : Char} {glyph : Glyph} (member : glyph ∈ (mode.step c).2) :
    glyph.char = c ∨ glyph = .bare '/' := by
  cases mode with
  | code => exact .inl (mem_codeStep member)
  | slash =>
    simp only [Mode.step] at member
    split at member
    · cases member
    · exact (List.mem_cons.mp member).elim .inr fun later => .inl (mem_codeStep later)
  | comment | star => cases member
  | quoted quote =>
    simp only [Mode.step] at member
    split at member
    · exact .inl (by rw [List.mem_singleton.mp member, Glyph.char])
    · split at member
      · exact .inl (by rw [List.mem_singleton.mp member, Glyph.char])
      · split at member <;> exact .inl (by rw [List.mem_singleton.mp member, Glyph.char])
  | quotedEscape quote | escape => exact .inl (by rw [List.mem_singleton.mp member, Glyph.char])

theorem mem_lexer {mode : Mode} {s : List Char} {glyph : Glyph}
    (member : glyph ∈ (lexer.run mode s).2) : glyph.char ∈ s ∨ glyph = .bare '/' := by
  induction s generalizing mode with
  | nil => cases member
  | cons c s ih =>
    rcases List.mem_append.mp member with here | later
    · exact (mem_step here).imp_left fun isFirst => by
        rw [isFirst]
        exact List.mem_cons_self ..
    · exact (ih later).imp_left (List.mem_cons_of_mem c)

/-- A value that can be read ends at the semicolon behind it. -/
theorem exists_of_readValue? {value shown : String} (read : readValue? value = some shown) :
    ∃ glyphs, lexer.run .code (value.toList ++ [';']) = (.code, glyphs ++ [.bare ';']) ∧
      plainText glyphs = shown ∧ ∀ glyph ∈ glyphs, glyph.char ∈ value.toList ∨ glyph = .bare '/' := by
  have known : ∀ glyph ∈ (lexer.run .code value.toList).2,
      glyph.char ∈ value.toList ∨ glyph = .bare '/' := fun _ member => mem_lexer member
  unfold readValue? at read
  split at read
  next glyphs run =>
    have semicolon : lexer.run .code [';'] = (.code, [.bare ';']) := by decide
    rw [run] at known
    exact ⟨glyphs, Machine.run_append run semicolon, Option.some.inj read, known⟩
  next glyphs run =>
    have semicolon : lexer.run .slash [';'] = (.code, [.bare '/', .bare ';']) := by decide
    rw [run] at known
    refine ⟨glyphs ++ [.bare '/'], ?_, Option.some.inj read, ?_⟩
    · simpa using Machine.run_append run semicolon
    · exact List.forall_mem_append.mpr ⟨known, by simp⟩
  · cases read

/-! ## Pieces of a sheet -/

/-- A character that ends nothing and opens nothing. -/
def isInert (c : Char) : Bool := isPlain c && !isUnsafe c

theorem isMark_bare {c : Char} (safe : isUnsafe c = false) : (Glyph.bare c).isMark = false := by
  simp only [isUnsafe, Bool.or_eq_false_iff, decide_eq_false_iff_not] at safe
  simp [Glyph.isMark, safe]

theorem isMark_of_char {glyph : Glyph} (safe : isUnsafe glyph.char = false) :
    glyph.isMark = false := by
  cases glyph with
  | bare c => exact isMark_bare safe
  | held c => simp [Glyph.isMark]

theorem isInert_of_isBlank {c : Char} (blank : Text.isBlank c = true) : isInert c = true :=
  Text.forall_isBlank (p := (isInert · = true)) (by decide) blank

theorem isInert_of_isSpelling {c : Char} (spelled : isSpelling c = true) : isInert c = true := by
  have others : ∀ d ∈ ['/', '"', '\'', '\\'], isSpelling d = false := by decide
  have differs (d : Char) (member : d ∈ ['/', '"', '\'', '\\']) : c ≠ d :=
    Text.ne_of_kind spelled (others d member)
  simp [isInert, isPlain, (not_unsafe_of_isSpelling spelled).1, differs]

theorem lexer_inert {s : List Char} (inert : ∀ c ∈ s, isInert c = true) :
    lexer.run .code s = (.code, s.map .bare) :=
  lexer_plain fun c member => (Bool.and_eq_true_iff.mp (inert c member)).1

theorem unmarked_inert {s : List Char} (inert : ∀ c ∈ s, isInert c = true) :
    ∀ glyph ∈ s.map Glyph.bare, glyph.isMark = false := by
  rw [List.forall_mem_map]
  intro c member
  have safe := (Bool.and_eq_true_iff.mp (inert c member)).2
  exact isMark_bare (by simpa using safe)

def AreBlank (glyphs : List Glyph) : Prop := ∀ glyph ∈ glyphs, Text.isBlank glyph.char = true

theorem areBlank_bare {s : List Char} (blank : ∀ c ∈ s, Text.isBlank c = true) :
    AreBlank (s.map .bare) := by
  intro glyph member
  obtain ⟨c, isChar, rfl⟩ := List.mem_map.mp member
  exact blank c isChar

theorem AreBlank.append {front back : List Glyph} (isFront : AreBlank front)
    (isBack : AreBlank back) : AreBlank (front ++ back) :=
  List.forall_mem_append.mpr ⟨isFront, isBack⟩

/--
Reading a piece of a sheet leads from one reader to another. The blanks that stand in front of the
piece or are left behind it do not count.
-/
def Leads (s : List Char) (first next : Reader) : Prop :=
  ∀ text, AreBlank text → ∃ glyphs rest, lexer.run .code s = (.code, glyphs) ∧ AreBlank rest ∧
    Reader.feed { first with text } glyphs = some { next with text := rest }

namespace Leads

variable {s t : List Char} {first next last : Reader}

theorem append (front : Leads s first next) (back : Leads t next last) :
    Leads (s ++ t) first last := by
  intro text blank
  obtain ⟨glyphs, rest, read, between, fed⟩ := front text blank
  obtain ⟨more, left, readMore, behind, fedMore⟩ := back rest between
  exact ⟨glyphs ++ more, left, Machine.run_append read readMore, behind,
    (Reader.feed_append fed).trans fedMore⟩

theorem blanks (blank : ∀ c ∈ s, Text.isBlank c = true) (reader : Reader) :
    Leads s reader reader := by
  have inert (c : Char) (member : c ∈ s) : isInert c = true := isInert_of_isBlank (blank c member)
  intro text before
  exact ⟨s.map .bare, text ++ s.map .bare, lexer_inert inert, before.append (areBlank_bare blank),
    Reader.feed_text (unmarked_inert inert)⟩

theorem comment {label : List Char} (noStar : '*' ∉ label) (reader : Reader) :
    Leads (['/', '*'] ++ label ++ ['*', '/']) reader reader :=
  fun text before => ⟨[], text, lexer_comment noStar, before, rfl⟩

/-- A text is read up to the mark behind it, which then decides. -/
theorem of_step {glyphs : List Glyph} {mark : Glyph}
    (read : lexer.run .code s = (.code, glyphs ++ [mark]))
    (unmarked : ∀ glyph ∈ glyphs, glyph.isMark = false)
    (decides : ∀ text, AreBlank text →
      Reader.step { first with text := text ++ glyphs } mark = some { next with text := [] }) :
    Leads s first next := by
  intro text before
  refine ⟨glyphs ++ [mark], [], read, by simp [AreBlank], ?_⟩
  rw [Reader.feed_append (Reader.feed_text unmarked), Reader.feed_singleton]
  exact decides text before

end Leads

/-- Text between blanks, without a special character. -/
structure IsName (name : String) : Prop where
  inert : ∀ c ∈ name.toList, isInert c = true
  ends : HasEnds Text.isBlank name.toList

theorem plainText_name {name : String} (isName : IsName name) {text : List Glyph}
    (before : AreBlank text) (front back : List Char)
    (isFront : ∀ c ∈ front, Text.isBlank c = true) (isBack : ∀ c ∈ back, Text.isBlank c = true) :
    plainText (text ++ (front ++ name.toList ++ back).map .bare) = name := by
  have chars : (name.toList.map Glyph.bare).map Glyph.char = name.toList := by
    rw [List.map_map]
    exact List.map_id _
  have parts : text ++ (front ++ name.toList ++ back).map Glyph.bare =
      (text ++ front.map .bare) ++ name.toList.map .bare ++ back.map .bare := by simp
  rw [parts]
  exact plainText_eq _ _ _ (before.append (areBlank_bare isFront)) (areBlank_bare isBack) chars
    isName.ends

/-- What stands in front of a brace opens a rule, or a condition if it starts with an at sign. -/
theorem leads_enter {name : String} (isName : IsName name) {front : List Char}
    (isFront : ∀ c ∈ front, Text.isBlank c = true) (reader : Reader)
    (closed : reader.opened = none) :
    Leads (front ++ name.toList ++ [' ', '\x7b']) reader
      (if name.toList.head? = some '@' then
        { reader with conditions := reader.conditions ++ [name] }
      else { reader with opened := some (name, []) }) := by
  have inert : ∀ c ∈ front ++ name.toList ++ [' '], isInert c = true := by
    simp only [List.forall_mem_append]
    exact ⟨⟨fun c member => isInert_of_isBlank (isFront c member), isName.inert⟩, by decide⟩
  have brace : lexer.run .code ['\x7b'] = (.code, [.bare '\x7b']) := by decide
  have read := Machine.run_append (lexer_inert inert) brace
  rw [List.append_assoc _ [' '], List.singleton_append] at read
  refine Leads.of_step read (unmarked_inert inert) fun text before => ?_
  have isText := plainText_name isName before front [' '] isFront (by decide)
  simp only [Reader.step, if_pos, Reader.enter, closed, isText]
  split <;> rfl

/-- A closing brace behind blanks closes what is open. -/
theorem leads_leave {reader next : Reader} {front : List Char}
    (isFront : ∀ c ∈ front, Text.isBlank c = true)
    (leaves : ∀ text, AreBlank text →
      Reader.leave { reader with text } = some { next with text := [] }) :
    Leads (front ++ ['\x7d']) reader next := by
  have inert (c : Char) (member : c ∈ front) : isInert c = true :=
    isInert_of_isBlank (isFront c member)
  have brace : lexer.run .code ['\x7d'] = (.code, [.bare '\x7d']) := by decide
  refine Leads.of_step (Machine.run_append (lexer_inert inert) brace) (unmarked_inert inert)
    fun text before => ?_
  exact leaves _ (before.append (areBlank_bare isFront))

theorem plainText_blank {text : List Glyph} (blank : AreBlank text) : plainText text = "" := by
  have ends : HasEnds Text.isBlank "".toList := hasEnds_of_forall (by simp)
  have isText := plainText_eq text [] [] blank (by simp) rfl ends
  simpa using isText

theorem plainText_blank_cons (glyphs : List Glyph) :
    plainText (.bare ' ' :: glyphs) = plainText glyphs := by
  rfl

theorem leads_leave_rule {front : List Char} (isFront : ∀ c ∈ front, Text.isBlank c = true)
    (reader : Reader) (selector : String) (declarations : List (String × String)) :
    Leads (front ++ ['\x7d']) { reader with opened := some (selector, declarations) }
      { reader with
        opened := none
        blocks := reader.blocks ++ [⟨reader.conditions, selector, declarations⟩] } := by
  refine leads_leave isFront fun text blank => ?_
  simp [Reader.leave, plainText_blank blank]

theorem leads_leave_condition {front : List Char} (isFront : ∀ c ∈ front, Text.isBlank c = true)
    (reader : Reader) (closed : reader.opened = none) (condition : String) :
    Leads (front ++ ['\x7d']) { reader with conditions := reader.conditions ++ [condition] }
      reader := by
  refine leads_leave isFront fun text blank => ?_
  simp [Reader.leave, plainText_blank blank, closed]

/-- A property, the colon behind it and the glyphs of a value, behind blanks. -/
theorem declaration?_eq {property : String} {text glyphs : List Glyph}
    (named : ∀ c ∈ property.toList, isNameChar c = true) (blank : AreBlank text) :
    declaration? (text ++ property.toList.map .bare ++ .bare ':' :: .bare ' ' :: glyphs) =
      some (property, plainText (.bare ' ' :: glyphs)) := by
  have colon : isSpelling ':' = false ∧ Text.isBlank ':' = false := by decide
  have spelled (c : Char) (member : c ∈ property.toList) : isSpelling c = true :=
    Text.isSpelling_of_isNameChar (named c member)
  have front : ∀ glyph ∈ text ++ property.toList.map Glyph.bare,
      decide (glyph ≠ .bare ':') = true := by
    simp only [List.forall_mem_append, List.forall_mem_map, decide_eq_true_eq]
    refine ⟨?_, ?_⟩
    · rintro glyph member rfl
      have isBlank := blank _ member
      rw [Glyph.char, colon.2] at isBlank
      cases isBlank
    · intro c member isColon
      have isSpelled := spelled c member
      rw [Glyph.bare.inj isColon, colon.1] at isSpelled
      cases isSpelled
  have isProperty : plainText (text ++ property.toList.map .bare) = property := by
    have ends : HasEnds Text.isBlank property.toList := hasEnds_of_forall fun c member =>
      (not_unsafe_of_isSpelling (spelled c member)).2
    have chars : (property.toList.map Glyph.bare).map Glyph.char = property.toList := by
      rw [List.map_map]
      exact List.map_id _
    have isName := plainText_eq text (property.toList.map .bare) [] blank (by simp) chars ends
    simpa using isName
  unfold declaration?
  rw [List.dropWhile_append_of_pos front, List.dropWhile_cons_of_neg (by simp),
    List.takeWhile_append_of_pos front, List.takeWhile_cons_of_neg (by simp), List.append_nil,
    isProperty]

/-- A declaration as a reader shows it. -/
def readDeclaration (declaration : String × String) : String × String :=
  (declaration.1, (readValue? declaration.2).getD "")

theorem leads_declare {declaration : String × String} (isDeclaration : IsDeclaration declaration)
    (ended : (readValue? declaration.2).isSome) {front : List Char}
    (isFront : ∀ c ∈ front, Text.isBlank c = true) (reader : Reader) (selector : String)
    (declarations : List (String × String)) :
    Leads (front ++ declaration.1.toList ++ [':', ' '] ++ declaration.2.toList ++ [';'])
      { reader with opened := some (selector, declarations) }
      { reader with opened := some (selector, declarations ++ [readDeclaration declaration]) } := by
  obtain ⟨shown, readValue⟩ := Option.isSome_iff_exists.mp ended
  obtain ⟨glyphs, read, isShown, known⟩ := exists_of_readValue? readValue
  have inert : ∀ c ∈ front ++ declaration.1.toList ++ [':', ' '], isInert c = true := by
    simp only [List.forall_mem_append]
    refine ⟨⟨fun c member => isInert_of_isBlank (isFront c member), fun c member => ?_⟩, by decide⟩
    exact isInert_of_isSpelling (Text.isSpelling_of_isNameChar (isDeclaration.property c member))
  have unmarked : ∀ glyph ∈ (front ++ declaration.1.toList ++ [':', ' ']).map Glyph.bare ++ glyphs,
      glyph.isMark = false := by
    refine List.forall_mem_append.mpr ⟨unmarked_inert inert, fun glyph member => ?_⟩
    rcases known glyph member with inValue | rfl
    · exact isMark_of_char (isDeclaration.value.safe _ inValue)
    · decide
  have whole := Machine.run_append (lexer_inert inert) read
  rw [← List.append_assoc, ← List.append_assoc] at whole
  refine Leads.of_step whole unmarked fun text before => ?_
  have parts : text ++ ((front ++ declaration.1.toList ++ [':', ' ']).map Glyph.bare ++ glyphs) =
      text ++ front.map .bare ++ declaration.1.toList.map .bare ++
        .bare ':' :: .bare ' ' :: glyphs := by simp
  have isRead : declaration? (text ++ ((front ++ declaration.1.toList ++ [':', ' ']).map Glyph.bare ++
      glyphs)) = some (readDeclaration declaration) := by
    rw [parts, declaration?_eq isDeclaration.property (before.append (areBlank_bare isFront)),
      plainText_blank_cons, isShown, readDeclaration, readValue]
    rfl
  have step (r : Reader) : r.step (.bare ';') = r.declare := rfl
  rw [step, Reader.declare]
  simp only [isRead, Option.map_some]

end StaticSite.Style
