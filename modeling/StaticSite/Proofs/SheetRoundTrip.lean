import StaticSite.Proofs.RuleReading

/-!
# When a style sheet reads back

Every declaration is written with one semicolon. A value that leaves a comment, a string or an
escape open takes the semicolon behind it away, and no other text can make up for it: a reader finds
too few declarations. So a sheet reads back as the rules it was written from exactly when a reader
takes each of their values for itself.
-/

namespace StaticSite.Style

open Text (isNameChar)

/-! ## Semicolons that a reader finds -/

/-- How many semicolons of a text are semicolons to a reader in this mode. -/
def semicolons (mode : Mode) (s : List Char) : Nat := (lexer.run mode s).2.count (.bare ';')

theorem semicolons_append (mode : Mode) (s t : List Char) :
    semicolons mode (s ++ t) = semicolons mode s + semicolons (lexer.run mode s).1 t := by
  have whole : lexer.run mode (s ++ t) = _ := Machine.run_append rfl rfl
  simp only [semicolons, whole, List.count_append]

/-- A semicolon counts in code, and behind a slash that opens no comment. -/
theorem count_step_semicolon (mode : Mode) : (mode.step ';').2.count (.bare ';') =
    if mode = .code ∨ mode = .slash then 1 else 0 := by
  cases mode with
  | code | slash | comment | star => decide
  | quotedEscape quote | escape => rfl
  | quoted quote =>
    have held : ((Mode.quoted quote).step ';').2 = [.held ';'] := by
      have noNewline : isNewline ';' = false := by decide
      have noBackslash : ';' ≠ '\\' := by decide
      simp only [Mode.step, noNewline, Bool.false_eq_true, if_false, if_neg noBackslash]
      split <;> rfl
    rw [held]
    rfl

theorem count_step_le (mode : Mode) (c : Char) :
    (mode.step c).2.count (.bare ';') ≤ [c].count ';' := by
  by_cases isSemicolon : c = ';'
  · rw [isSemicolon, count_step_semicolon]
    split <;> decide
  · have absent : .bare ';' ∉ (mode.step c).2 := by
      intro member
      rcases mem_step member with isChar | isSlash
      · exact isSemicolon isChar.symm
      · cases isSlash
    rw [List.count_eq_zero_of_not_mem absent]
    exact Nat.zero_le _

theorem semicolons_le (mode : Mode) (s : List Char) : semicolons mode s ≤ s.count ';' := by
  induction s generalizing mode with
  | nil => exact Nat.le_refl 0
  | cons c s ih =>
    have here := count_step_le mode c
    have later := ih (mode.step c).1
    have whole : semicolons mode (c :: s) =
        (mode.step c).2.count (.bare ';') + semicolons (mode.step c).1 s := List.count_append ..
    have chars : ([c] ++ s).count ';' = [c].count ';' + s.count ';' := List.count_append ..
    rw [List.singleton_append] at chars
    omega

theorem readValue?_isSome_iff {value : String} : (readValue? value).isSome = true ↔
    (lexer.run .code value.toList).1 = .code ∨ (lexer.run .code value.toList).1 = .slash := by
  unfold readValue?
  obtain ⟨mode, glyphs⟩ := lexer.run .code value.toList
  cases mode <;> simp

/-! ## Texts that cannot gain a semicolon -/

/--
A text has this number of declarations. Read from any mode it gives no more semicolons. Read as
code, it leaves the reader in code if its values are ended; otherwise a semicolon gets lost.
-/
structure Counts (s : List Char) (number : Nat) (ended : Prop) : Prop where
  atMost : ∀ mode, semicolons mode s ≤ number
  stays : ended → (lexer.run .code s).1 = .code
  fewer : ¬ ended → semicolons .code s < number

namespace Counts

variable {s t : List Char} {m n : Nat} {p q : Prop}

theorem append (front : Counts s m p) (back : Counts t n q) : Counts (s ++ t) (m + n) (p ∧ q) := by
  refine ⟨fun mode => ?_, fun ⟨here, later⟩ => ?_, fun lost => ?_⟩
  · have first := front.atMost mode
    have second := back.atMost (lexer.run mode s).1
    rw [semicolons_append]
    omega
  · have whole : lexer.run .code (s ++ t) = _ := Machine.run_append rfl rfl
    rw [whole, front.stays here]
    exact back.stays later
  · rw [semicolons_append]
    by_cases here : p
    · have first := front.atMost .code
      have second := back.fewer fun later => lost ⟨here, later⟩
      rw [front.stays here]
      omega
    · have first := front.fewer here
      have second := back.atMost (lexer.run .code s).1
      omega

theorem congr {other : Prop} (counts : Counts s n p) (same : p ↔ other) : Counts s n other :=
  propext same ▸ counts

/-- A text without semicolons that a reader of code reads as code. -/
theorem silent (stays : (lexer.run .code s).1 = .code) (free : ';' ∉ s) : Counts s 0 True := by
  refine ⟨fun mode => ?_, fun _ => stays, fun never => absurd trivial never⟩
  have most := semicolons_le mode s
  rw [List.count_eq_zero_of_not_mem free] at most
  exact most

theorem plain (inert : ∀ c ∈ s, isPlain c = true ∧ c ≠ ';') : Counts s 0 True :=
  silent (by rw [lexer_plain fun c member => (inert c member).1])
    fun member => (inert ';' member).2 rfl

/-- A value takes the semicolon behind it away if it is not ended. -/
theorem value {value : String} (safe : ∀ c ∈ value.toList, isUnsafe c = false) :
    Counts (value.toList ++ [';']) 1 ((readValue? value).isSome = true) := by
  have free : ';' ∉ value.toList := fun member => by
    have harmless := safe ';' member
    simp [isUnsafe] at harmless
  refine ⟨fun mode => ?_, fun ended => ?_, fun lost => ?_⟩
  · have most := semicolons_le mode (value.toList ++ [';'])
    rw [List.count_append, List.count_eq_zero_of_not_mem free] at most
    exact most
  · obtain ⟨shown, read⟩ := Option.isSome_iff_exists.mp ended
    obtain ⟨glyphs, run, -⟩ := exists_of_readValue? read
    rw [run]
  · have inside := semicolons_le .code value.toList
    rw [List.count_eq_zero_of_not_mem free] at inside
    have semicolon : semicolons (lexer.run .code value.toList).1 [';'] = 0 := by
      have counted := count_step_semicolon (lexer.run .code value.toList).1
      rw [if_neg (mt readValue?_isSome_iff.mpr lost)] at counted
      simpa [semicolons, Machine.run, lexer] using counted
    rw [semicolons_append]
    omega

theorem flatMap {α : Type} {l : List α} {f : α → List Char} {number : α → Nat} {ended : α → Prop}
    (each : ∀ a ∈ l, Counts (f a) (number a) (ended a)) :
    Counts (l.flatMap f) (l.map number).sum (∀ a ∈ l, ended a) := by
  induction l with
  | nil => exact (silent (s := []) rfl (by simp)).congr (by simp)
  | cons a l ih =>
    obtain ⟨here, later⟩ := List.forall_mem_cons.mp each
    rw [List.flatMap_cons, List.map_cons, List.sum_cons]
    exact (here.append (ih later)).congr List.forall_mem_cons.symm

theorem isPlain_of_isInert {c : Char} (inert : isInert c = true) : isPlain c = true ∧ c ≠ ';' := by
  simp only [isInert, isUnsafe, Bool.and_eq_true, Bool.not_eq_true', Bool.or_eq_false_iff,
    decide_eq_false_iff_not] at inert
  exact ⟨inert.1, inert.2.2⟩

theorem plain_of_inert {s : List Char} (inert : ∀ c ∈ s, isInert c = true) :
    ∀ c ∈ s, isPlain c = true ∧ c ≠ ';' := fun c member => isPlain_of_isInert (inert c member)

theorem declaration {declaration : String × String} (isDeclaration : IsDeclaration declaration)
    {indent : String} (blank : ∀ c ∈ indent.toList, Text.isBlank c = true) :
    Counts (declarationLine indent declaration) 1 ((readValue? declaration.2).isSome = true) := by
  have front : ∀ c ∈ '\n' :: indent.toList ++ [' ', ' '] ++ declaration.1.toList ++ [':', ' '],
      isInert c = true := by
    simp only [List.forall_mem_append, List.forall_mem_cons]
    refine ⟨⟨⟨⟨by decide, fun c member => isInert_of_isBlank (blank c member)⟩, by decide⟩,
      fun c member => ?_⟩, by decide⟩
    exact isInert_of_isSpelling (Text.isSpelling_of_isNameChar (isDeclaration.property c member))
  have line := (plain (plain_of_inert front)).append (Counts.value isDeclaration.value.safe)
  rw [declarationLine, List.append_assoc]
  exact line.congr (by simp)

theorem block {rule : Rule} (readable : rule.IsReadable) {indent : String}
    (blank : ∀ c ∈ indent.toList, Text.isBlank c = true) :
    Counts (rule.block indent).toList rule.declarations.length (AreEnded rule.declarations) := by
  have indented := plain_of_inert fun c member => isInert_of_isBlank (blank c member)
  have opening : ∀ c ∈ indent.toList ++ rule.selector.toList ++ [' ', '\x7b'],
      isPlain c = true ∧ c ≠ ';' := by
    simp only [List.forall_mem_append]
    exact ⟨⟨indented, plain_of_inert readable.selector.inert⟩, by decide⟩
  have closing : ∀ c ∈ '\n' :: indent.toList ++ ['\x7d'], isPlain c = true ∧ c ≠ ';' := by
    simp only [List.forall_mem_append, List.forall_mem_cons]
    exact ⟨⟨by decide, indented⟩, by decide⟩
  have lines := flatMap fun declaration member =>
    Counts.declaration (readable.declarations declaration member) blank
  have whole := ((plain opening).append lines).append (plain closing)
  rw [toList_block]
  simpa [AreEnded] using whole

theorem rule {rule : Rule} (readable : rule.IsReadable) :
    Counts rule.text.toList rule.declarations.length (AreEnded rule.declarations) := by
  unfold Rule.text
  split
  · exact block readable (by decide)
  next width _ =>
    have opening : ∀ c ∈ [] ++ (mediaCondition width).toList ++ [' ', '\x7b'],
        isPlain c = true ∧ c ≠ ';' := by
      rw [List.nil_append]
      exact List.forall_mem_append.mpr ⟨plain_of_inert (isName_mediaCondition width).inert, by decide⟩
    have gap : Counts ['\n'] 0 True := plain (by decide)
    have closing : Counts (['\n'] ++ ['\x7d']) 0 True := plain (by decide)
    have spaces : ∀ c ∈ "  ".toList, Text.isBlank c = true := by decide
    have inner := gap.append (block readable spaces)
    have whole := ((plain opening).append inner).append closing
    rw [toList_conditional]
    simpa using whole

theorem rules {separator : String} (blank : ∀ c ∈ separator.toList, Text.isBlank c = true)
    {rules : List Rule} (readable : ∀ rule ∈ rules, rule.IsReadable) :
    Counts (separator.intercalate (rules.map Rule.text)).toList
      (rules.map (·.declarations.length)).sum (∀ rule ∈ rules, AreEnded rule.declarations) := by
  cases rules with
  | nil => exact (plain (s := []) (by simp)).congr (by simp)
  | cons rule rules =>
    obtain ⟨here, later⟩ := List.forall_mem_cons.mp readable
    have gap : Counts separator.toList 0 True :=
      plain (plain_of_inert fun c member => isInert_of_isBlank (blank c member))
    have others := flatMap fun rule member => gap.append (Counts.rule (later rule member))
    rw [List.map_cons, toList_intercalate_cons, List.flatMap_map]
    have whole := (Counts.rule here).append others
    simpa using whole

/-- Behind an empty line a reader is in code, unless it is in a comment. -/
theorem mode_of_emptyLine (mode : Mode) :
    (lexer.run mode ['\n', '\n']).1 = .code ∨ (lexer.run mode ['\n', '\n']).1 = .comment := by
  cases mode with
  | comment | star => exact .inr rfl
  | code | slash | escape => exact .inl rfl
  | quoted quote | quotedEscape quote => exact .inl rfl

/--
A comment on a line of its own, behind an empty line. A reader that is still in a comment meets its
end; no semicolon of the label counts.
-/
theorem commentLine {label : List Char} (noStar : '*' ∉ label) :
    Counts (['\n', '\n'] ++ (['/', '*', ' '] ++ (label ++ ['*', '/'])) ++ ['\n']) 0 True := by
  have end' := lexer_commentEnd noStar
  have fromCode : lexer.run .code (['/', '*', ' '] ++ (label ++ ['*', '/'])) = (.code, []) :=
    Machine.run_append (by decide : lexer.run .code ['/', '*', ' '] = (.comment, [])) end'
  have fromComment : lexer.run .comment (['/', '*', ' '] ++ (label ++ ['*', '/'])) = (.code, []) :=
    Machine.run_append (by decide : lexer.run .comment ['/', '*', ' '] = (.comment, [])) end'
  have newline (mode : Mode) : semicolons mode ['\n'] ≤ 0 := semicolons_le mode ['\n']
  refine ⟨fun mode => ?_, fun _ => ?_, fun never => absurd trivial never⟩
  · have before : semicolons mode ['\n', '\n'] ≤ 0 := semicolons_le mode ['\n', '\n']
    have comment : semicolons (lexer.run mode ['\n', '\n']).1
        (['/', '*', ' '] ++ (label ++ ['*', '/'])) = 0 := by
      rcases mode_of_emptyLine mode with isCode | isComment
      · rw [isCode, semicolons, fromCode]
        rfl
      · rw [isComment, semicolons, fromComment]
        rfl
    have after := newline (lexer.run mode (['\n', '\n'] ++ (['/', '*', ' '] ++ (label ++ ['*', '/'])))).1
    rw [semicolons_append, semicolons_append]
    omega
  · have gap : lexer.run .code ['\n', '\n'] = (.code, [.bare '\n', .bare '\n']) := by decide
    have line : lexer.run .code ['\n'] = (.code, [.bare '\n']) := by decide
    rw [Machine.run_append (Machine.run_append gap fromCode) line]

theorem baseSheet :
    Counts Style.baseSheet.toList (baseRules.map (·.declarations.length)).sum True := by
  have comment : Counts "/* Generated page styles */\n".toList 0 True := silent (by decide) (by decide)
  have gap : ∀ c ∈ "\n\n".toList, Text.isBlank c = true := by decide
  have written := Counts.rules gap isReadable_baseRules
  have whole := comment.append written
  rw [Nat.zero_add, ← String.toList_append, ← baseSheet_eq] at whole
  exact whole.congr (iff_true_intro ⟨trivial, areEnded_baseRules⟩)

/-- The rules of a component, with the comment in front of them, behind an empty line. -/
theorem rulesText {options : Options} {component : Component} {rules : List Rule}
    (readable : ∀ rule ∈ rules, rule.IsReadable) :
    Counts ("\n\n".toList ++ (Style.rulesText options component rules).toList)
      (rules.map (·.declarations.length)).sum (∀ rule ∈ rules, AreEnded rule.declarations) := by
  have newline : ∀ c ∈ "\n".toList, Text.isBlank c = true := by decide
  have written := Counts.rules newline readable
  unfold Style.rulesText
  split
  · obtain ⟨label, isLabel⟩ : ∃ label, (commentLabel component).toList = ' ' :: label := by
      rw [commentLabel, String.toList_append, String.toList_append]
      exact ⟨_, rfl⟩
    have noStar : '*' ∉ label := fun member =>
      star_notMem_commentLabel component (isLabel ▸ List.mem_cons_of_mem _ member)
    have whole := (commentLine noStar).append written
    simpa [isLabel] using whole
  · have gap : Counts "\n\n".toList 0 True := plain (by decide)
    have whole := gap.append written
    rw [Nat.zero_add] at whole
    exact whole.congr (by simp)

theorem wholeSheet {blocks : List String} {rules : List (List Rule)}
    (each : List.Forall₂ (fun block rules => (block = "" ∧ rules = []) ∨ (block ≠ "" ∧
      Counts ("\n\n".toList ++ block.toList) (rules.map (·.declarations.length)).sum
        (∀ rule ∈ rules, AreEnded rule.declarations))) blocks rules) :
    Counts (Style.wholeSheet blocks).toList
      ((baseRules ++ rules.flatten).map (·.declarations.length)).sum
      (∀ rule ∈ rules.flatten, AreEnded rule.declarations) := by
  have others : Counts ((blocks.filter (· ≠ "")).flatMap fun block => "\n\n".toList ++ block.toList)
      (rules.flatten.map (·.declarations.length)).sum
      (∀ rule ∈ rules.flatten, AreEnded rule.declarations) := by
    induction each with
    | nil => exact (plain (s := []) (by simp)).congr (by simp)
    | @cons block rules _ _ here _ ih =>
      rcases here with ⟨rfl, rfl⟩ | ⟨nonempty, counts⟩
      · simpa using ih
      · rw [List.filter_cons_of_pos (by simpa using nonempty), List.flatMap_cons,
          List.flatten_cons, List.map_append, List.sum_append]
        exact (counts.append ih).congr List.forall_mem_append.symm
  have line : Counts "\n".toList 0 True := plain (by decide)
  have whole := (baseSheet.append others).append line
  rw [Style.wholeSheet, String.toList_append, toList_intercalate_cons, List.map_append,
    List.sum_append]
  exact whole.congr (by simp)

end Counts

/-! ## Declarations that a reader has found -/

/-- The number of declarations read so far. -/
def Reader.declared (reader : Reader) : Nat :=
  (reader.blocks.map (·.declarations.length)).sum +
    (reader.opened.map (·.2.length)).getD 0

/-- A reader finds one declaration at each semicolon. -/
theorem Reader.declared_step {reader next : Reader} {glyph : Glyph}
    (step : reader.step glyph = some next) :
    next.declared = reader.declared + [glyph].count (.bare ';') := by
  unfold Reader.step at step
  split at step
  next isOpening =>
    have notSemicolon : [glyph].count (.bare ';') = 0 := by rw [isOpening]; decide
    unfold Reader.enter at step
    split at step
    · cases step
    next closed =>
      split at step <;> cases step <;> simp [Reader.declared, closed, notSemicolon]
  · split at step
    next isClosing =>
      have notSemicolon : [glyph].count (.bare ';') = 0 := by rw [isClosing]; decide
      unfold Reader.leave at step
      split at step
      · cases step
      · split at step
        next opened =>
          cases step
          simp [Reader.declared, opened, notSemicolon]
        next closed =>
          split at step
          · cases step
          · cases step
            simp [Reader.declared, closed, notSemicolon]
    · split at step
      next isSemicolon =>
        unfold Reader.declare at step
        split at step
        next opened =>
          obtain ⟨declaration, -, rfl⟩ := Option.map_eq_some_iff.mp step
          simp [Reader.declared, opened, isSemicolon]
          omega
        · cases step
      next notSemicolon =>
        cases step
        simp [Reader.declared, notSemicolon]

theorem Reader.declared_feed {reader next : Reader} {glyphs : List Glyph}
    (fed : reader.feed glyphs = some next) :
    next.declared = reader.declared + glyphs.count (.bare ';') := by
  induction glyphs generalizing reader with
  | nil =>
    cases fed
    rfl
  | cons glyph glyphs ih =>
    obtain ⟨middle, step, rest⟩ := Option.bind_eq_some_iff.mp fed
    have here := Reader.declared_step step
    have later := ih rest
    have both : ([glyph] ++ glyphs).count (.bare ';') =
        [glyph].count (.bare ';') + glyphs.count (.bare ';') := List.count_append ..
    rw [List.singleton_append] at both
    omega

/-- A sheet that ends inside a comment, a string or an escape cannot be read. -/
theorem read?_eq_none {sheet : String} (unended : (lexer.run .code sheet.toList).1 ≠ .code) :
    read? sheet = none := by
  unfold read?
  split
  next run => exact absurd (congrArg Prod.fst run) unended
  · rfl

/-- The declarations of a sheet that can be read are as many as its semicolons. -/
theorem declarations_of_read? {sheet : String} {blocks : List Block}
    (read : read? sheet = some blocks) :
    (blocks.map (·.declarations.length)).sum = semicolons .code sheet.toList := by
  unfold read? at read
  unfold semicolons
  split at read
  next glyphs run =>
    obtain ⟨reader, fed, result⟩ := Option.bind_eq_some_iff.mp read
    have found := Reader.declared_feed fed
    unfold Reader.result? at result
    split at result
    next ended =>
      cases result
      rw [run]
      simpa [Reader.declared, ended.2.1] using found
    · cases result
  · cases read

/-! ## The round trip -/

theorem readDeclaration_eq_iff {declaration : String × String}
    (ended : (readValue? declaration.2).isSome = true) :
    readDeclaration declaration = declaration ↔ IsSelfContained declaration.2 := by
  obtain ⟨shown, read⟩ := Option.isSome_iff_exists.mp ended
  simp [readDeclaration, IsSelfContained, read, Prod.ext_iff]

/-- Ended rules are read as they were written exactly if a reader takes their values for themselves. -/
theorem map_read_eq_iff {rules : List Rule} (ended : ∀ rule ∈ rules, AreEnded rule.declarations) :
    rules.map Rule.read = rules.map Rule.shown ↔
      ∀ rule ∈ rules, ∀ declaration ∈ rule.declarations, IsSelfContained declaration.2 := by
  rw [List.map_inj_left]
  refine forall₂_congr fun rule member => ?_
  have each : rule.read = rule.shown ↔
      ∀ declaration ∈ rule.declarations, readDeclaration declaration = id declaration := by
    rw [← List.map_inj_left, List.map_id]
    simp [Rule.read, Rule.shown]
  rw [each]
  exact forall₂_congr fun declaration inRule =>
    readDeclaration_eq_iff (ended rule member declaration inRule)

section

variable {heap : Heap} {options : Options} {entries : List Entry}

/-- The rules of the components of a list, in order. -/
def AreRules (heap : Heap) (options : Options) (entries : List Entry)
    (rules : List (List Rule)) : Prop :=
  List.Forall₂ (fun entry rules => ∃ component, entry = .component component ∧
    componentRules heap options component = .ok rules) entries rules

theorem exists_areRules {blocks : List String}
    (named : ∀ c ∈ options.classStart.toList, isNameChar c = true)
    (each : List.Forall₂ (fun entry block => entryText heap options entry = .ok block) entries
      blocks) :
    ∃ rules, AreRules heap options entries rules ∧
      List.Forall₂ (fun block rules => (∀ rule ∈ rules, rule.IsReadable) ∧
        ∃ component, block = if rules.isEmpty then "" else rulesText options component rules)
        blocks rules := by
  induction each with
  | nil => exact ⟨[], .nil, .nil⟩
  | cons given _ ih =>
    obtain ⟨others, areRules, later⟩ := ih
    obtain ⟨component, rules, isComponent, isRules, isBlock⟩ := exists_of_entryText given
    have readable : ∀ rule ∈ rules, rule.IsReadable := fun rule member =>
      (isOf_of_componentRules isRules rule member).isReadable
        (isNameChar_of_mem_className component.id named)
    exact ⟨rules :: others, .cons ⟨component, isComponent, isRules⟩ areRules,
      .cons ⟨readable, component, isBlock⟩ later⟩

theorem brace_mem_text (rule : Rule) : '\x7d' ∈ rule.text.toList := by
  unfold Rule.text
  split
  · rw [toList_block]
    simp
  · rw [toList_conditional]
    simp

theorem rulesText_ne_empty (component : Component) {rules : List Rule} (nonempty : rules ≠ []) :
    rulesText options component rules ≠ "" := by
  obtain ⟨rule, member⟩ := List.exists_mem_of_ne_nil rules nonempty
  have brace : '\x7d' ∈ ("\n".intercalate (rules.map Rule.text)).toList :=
    (Text.infix_intercalate (List.mem_map_of_mem member)).subset (brace_mem_text rule)
  intro empty
  unfold rulesText at empty
  split at empty
  · simp at empty
  · rw [empty] at brace
    simp at brace

/--
A sheet is read as the rules that every page has, followed by the rules of its components in order,
exactly if a reader takes each value that the components give for itself.
-/
theorem read?_pageSheet_iff {sheet : String}
    (named : ∀ c ∈ options.classStart.toList, isNameChar c = true)
    (unreduced : options.minify = false) (written : pageSheet heap options entries = .ok sheet) :
    ∃ rules, AreRules heap options entries rules ∧
      (read? sheet = some ((baseRules ++ rules.flatten).map Rule.shown) ↔
        ∀ rule ∈ rules.flatten, ∀ declaration ∈ rule.declarations,
          IsSelfContained declaration.2) := by
  obtain ⟨blocks, traversed, isSheet⟩ := exists_of_pageSheet written
  rw [unreduced, if_neg (by decide)] at isSheet
  subst isSheet
  obtain ⟨rules, areRules, each⟩ :=
    exists_areRules named ((forall₂_of_mapM_eq_ok traversed).imp fun _ _ given => given.2)
  refine ⟨rules, areRules, ?_⟩
  have counts : Counts (wholeSheet blocks).toList
      ((baseRules ++ rules.flatten).map (·.declarations.length)).sum
      (∀ rule ∈ rules.flatten, AreEnded rule.declarations) := by
    refine Counts.wholeSheet (each.imp fun block rules => ?_)
    rintro ⟨readable, component, rfl⟩
    by_cases empty : rules = []
    · exact .inl (by simp [empty])
    · rw [if_neg (by simpa using empty)]
      exact .inr ⟨rulesText_ne_empty component empty, Counts.rulesText readable⟩
  have reading (ended : ∀ rule ∈ rules.flatten, AreEnded rule.declarations) :
      read? (wholeSheet blocks) = some ((baseRules ++ rules.flatten).map Rule.read) := by
    have endedEach : ∀ part ∈ rules, ∀ rule ∈ part, AreEnded rule.declarations :=
      fun part inRules rule member => ended rule (List.mem_flatten.mpr ⟨part, inRules, member⟩)
    have both := (List.forall₂_and_left (p := (· ∈ rules)) rules blocks).mpr
      ⟨fun _ member => member, each.flip⟩
    refine Shows.read?_eq (Shows.wholeSheet (both.flip.imp fun block part => ?_))
    rintro ⟨inRules, readable, component, rfl⟩
    by_cases empty : part = []
    · exact ⟨by simpa [empty] using Shows.blanks (s := []) (by simp), fun _ => empty⟩
    · rw [if_neg (by simpa using empty)]
      exact ⟨Shows.rulesText readable (endedEach part inRules),
        fun isEmpty => absurd isEmpty (rulesText_ne_empty component empty)⟩
  have same (ended : ∀ rule ∈ rules.flatten, AreEnded rule.declarations) :=
    map_read_eq_iff (List.forall_mem_append.mpr ⟨areEnded_baseRules, ended⟩)
  constructor
  · intro read
    have ended : ∀ rule ∈ rules.flatten, AreEnded rule.declarations := by
      by_contra lost
      have fewer := counts.fewer lost
      have found := declarations_of_read? read
      have all : (((baseRules ++ rules.flatten).map Rule.shown).map (·.declarations.length)).sum =
          ((baseRules ++ rules.flatten).map (·.declarations.length)).sum := by
        rw [List.map_map]
        rfl
      omega
    rw [reading ended, Option.some.injEq, same ended, List.forall_mem_append] at read
    exact read.2
  · intro selfContained
    have ended : ∀ rule ∈ rules.flatten, AreEnded rule.declarations := fun rule member =>
      areEnded_of_isSelfContained (selfContained rule member)
    rw [reading ended, Option.some.injEq, same ended, List.forall_mem_append]
    exact ⟨isSelfContained_baseRules, selfContained⟩

end

/-- A component with a quoted mark in a value; outside of the string it would open a comment. -/
def quotedMark : Component := ⟨"a", "T", .ref 0, []⟩

def quotedMarkProps : Heap := ⟨#[.dict [(.str "color", .str "'/*'"), (.str "width", .int 3)]]⟩

def quotedMarkRule : Rule :=
  { selector := ".dc-a", declarations := [("width", "3px"), ("color", "'/*'")] }

theorem read?_pageSheet_quotedMark :
    (∀ c ∈ ({} : Options).classStart.toList, isNameChar c = true) ∧
      ∃ sheet, pageSheet quotedMarkProps {} [.component quotedMark] = .ok sheet ∧
        read? sheet = some ((baseRules ++ [quotedMarkRule]).map Rule.shown) := by
  have named : ∀ c ∈ ({} : Options).classStart.toList, isNameChar c = true := by decide
  have isRules : componentRules quotedMarkProps {} quotedMark = .ok [quotedMarkRule] := by
    unfold componentRules breakpointRules
    rw [sortedBreakpoints_default]
    decide +kernel
  have text := componentText_eq isRules
  rw [if_neg (by decide)] at text
  have traversed : [Entry.component quotedMark].mapM (entryText quotedMarkProps {}) =
      .ok [rulesText {} quotedMark [quotedMarkRule]] := by
    rw [List.mapM_cons, entryText, text, List.mapM_nil]
    rfl
  have written := pageSheet_unreduced traversed
  obtain ⟨rules, each, reads⟩ := read?_pageSheet_iff named rfl written
  refine ⟨named, _, written, ?_⟩
  cases each with
  | cons here rest =>
    cases rest
    obtain ⟨component, isComponent, found⟩ := here
    cases isComponent
    cases isRules.symm.trans found
    exact reads.mpr (by decide)

/-- Two components, of which the first has a value that opens a comment. -/
def openComment : List Component := [⟨"a", "T", .ref 0, []⟩, ⟨"b", "T", .ref 1, []⟩]

def openCommentProps : Heap :=
  ⟨#[.dict [(.str "color", .str "/*")], .dict [(.str "color", .str "red")]]⟩

/-- The rules that these components are given. -/
def openCommentRules : List Rule :=
  [{ selector := ".dc-a", declarations := [("color", "/*")] },
   { selector := ".dc-b", declarations := [("color", "red")] }]

/-- Such a value passes, and the rules behind it are lost in the comment. -/
theorem read?_openComment_ne :
    (∃ sheet, pageSheet openCommentProps {} (openComment.map .component) = .ok sheet ∧
      read? sheet ≠ some ((baseRules ++ openCommentRules).map Rule.shown)) ∧
    List.Forall₂ (fun component rule => componentRules openCommentProps {} component = .ok [rule])
      openComment openCommentRules := by
  have first : componentRules openCommentProps {} ⟨"a", "T", .ref 0, []⟩ =
      .ok [{ selector := ".dc-a", declarations := [("color", "/*")] }] := by
    unfold componentRules breakpointRules
    rw [sortedBreakpoints_default]
    decide +kernel
  have second : componentRules openCommentProps {} ⟨"b", "T", .ref 1, []⟩ =
      .ok [{ selector := ".dc-b", declarations := [("color", "red")] }] := by
    unfold componentRules breakpointRules
    rw [sortedBreakpoints_default]
    decide +kernel
  have texts : componentText openCommentProps {} ⟨"a", "T", .ref 0, []⟩ =
        .ok ".dc-a \x7b\n  color: /*;\n\x7d" ∧
      componentText openCommentProps {} ⟨"b", "T", .ref 1, []⟩ =
        .ok ".dc-b \x7b\n  color: red;\n\x7d" := by
    rw [componentText_eq first, componentText_eq second]
    decide +kernel
  have traversed : (openComment.map Entry.component).mapM (entryText openCommentProps {}) =
      .ok [".dc-a \x7b\n  color: /*;\n\x7d", ".dc-b \x7b\n  color: red;\n\x7d"] := by
    rw [openComment, List.map_cons, List.map_cons, List.mapM_cons, entryText, texts.1,
      List.mapM_cons, entryText, texts.2]
    rfl
  refine ⟨⟨_, pageSheet_unreduced traversed, ?_⟩, .cons first (.cons second .nil)⟩
  obtain ⟨glyphs, -, base, -⟩ := Shows.baseSheet [] [] (by simp [AreBlank])
  have kept : [".dc-a \x7b\n  color: /*;\n\x7d", ".dc-b \x7b\n  color: red;\n\x7d"].filter (· ≠ "") =
      [".dc-a \x7b\n  color: /*;\n\x7d", ".dc-b \x7b\n  color: red;\n\x7d"] := by decide
  have tail : ([".dc-a \x7b\n  color: /*;\n\x7d", ".dc-b \x7b\n  color: red;\n\x7d"].flatMap
      fun block => "\n\n".toList ++ block.toList) ++ "\n".toList =
        "\n\n.dc-a \x7b\n  color: /*;\n\x7d\n\n.dc-b \x7b\n  color: red;\n\x7d\n".toList := by
    decide +kernel
  have rest : (lexer.run .code
      "\n\n.dc-a \x7b\n  color: /*;\n\x7d\n\n.dc-b \x7b\n  color: red;\n\x7d\n".toList).1 =
        .comment := by
    decide +kernel
  have unread : read? (wholeSheet [".dc-a \x7b\n  color: /*;\n\x7d",
      ".dc-b \x7b\n  color: red;\n\x7d"]) = none := by
    refine read?_eq_none ?_
    rw [wholeSheet, kept, String.toList_append, toList_intercalate_cons, List.append_assoc, tail,
      Machine.run_append base (Prod.ext rest rfl)]
    exact Mode.noConfusion
  rw [unread]
  exact (Option.some_ne_none _).symm

end StaticSite.Style
