import Mathlib
import StaticSite.Proofs.SheetReading

/-!
# Rules read back

A reader that meets a written rule adds it to those it has read, provided that each of its values
ends at its own semicolon; the comments and blanks between the rules add nothing. So a whole sheet
is read as the rules that every page has, followed by those of its components.
-/

namespace StaticSite.Style

open Text (isNameChar isSpelling)

/-! ## Rules -/

/-- The condition under which a breakpoint's rule stands. -/
def mediaCondition (width : Int) : String := "@media (min-width: " ++ toString width ++ "px)"

/-- A rule as a reader shows it. -/
def Rule.shown (rule : Rule) : Block :=
  { conditions := (rule.minWidth.map mediaCondition).toList
    selector := rule.selector
    declarations := rule.declarations }

/-- A rule as a reader takes it that reads each value by itself. -/
def Rule.read (rule : Rule) : Block :=
  { rule.shown with declarations := rule.declarations.map readDeclaration }

/-- Declarations of which none reaches past its own end. -/
def AreEnded (declarations : List (String × String)) : Prop :=
  ∀ declaration ∈ declarations, (readValue? declaration.2).isSome = true

/-- A rule that can be read when its declarations are ended. -/
structure Rule.IsReadable (rule : Rule) : Prop where
  selector : IsName rule.selector
  unconditional : rule.selector.toList.head? ≠ some '@'
  declarations : ∀ declaration ∈ rule.declarations, IsDeclaration declaration

theorem toList_intercalate_cons (separator first : String) (rest : List String) :
    (separator.intercalate (first :: rest)).toList =
      first.toList ++ rest.flatMap fun piece => separator.toList ++ piece.toList := by
  induction rest generalizing first with
  | nil => simp
  | cons next rest ih =>
    rw [String.intercalate_cons_cons, String.toList_append, String.toList_append, ih,
      List.flatMap_cons]
    simp only [List.append_assoc]

/-- The line of a declaration, with the end of the line in front of it. -/
def declarationLine (indent : String) (declaration : String × String) : List Char :=
  '\n' :: indent.toList ++ [' ', ' '] ++ declaration.1.toList ++ [':', ' '] ++
    declaration.2.toList ++ [';']

theorem toList_block (rule : Rule) (indent : String) :
    (rule.block indent).toList = indent.toList ++ rule.selector.toList ++ [' ', '\x7b'] ++
      rule.declarations.flatMap (declarationLine indent) ++ ('\n' :: indent.toList ++ ['\x7d']) := by
  have line (declaration : String × String) : "\n".toList ++ (indent ++ "  " ++ declaration.1 ++ ": " ++
      declaration.2 ++ ";").toList = declarationLine indent declaration := by
    simp [declarationLine]
  rw [Rule.block, List.append_assoc, List.singleton_append, toList_intercalate_cons,
    List.flatMap_append, List.flatMap_map]
  simp only [line]
  simp

theorem toList_mediaCondition (width : Int) : (mediaCondition width).toList =
    "@media (min-width: ".toList ++ (toString width).toList ++ "px)".toList := by
  unfold mediaCondition
  rw [String.toList_append, String.toList_append]

/-- The text of a breakpoint's rule. -/
theorem toList_conditional (width : Int) (block : String) :
    ("@media (min-width: " ++ toString width ++ "px) \x7b\n" ++ block ++ "\n\x7d").toList =
      [] ++ (mediaCondition width).toList ++ [' ', '\x7b'] ++ (['\n'] ++ block.toList) ++
        (['\n'] ++ ['\x7d']) := by
  have brace : "px) \x7b\n".toList = "px)".toList ++ [' ', '\x7b', '\n'] := by decide
  have closing : "\n\x7d".toList = ['\n', '\x7d'] := by decide
  rw [String.toList_append, String.toList_append, String.toList_append, String.toList_append,
    brace, closing, toList_mediaCondition]
  simp only [List.append_assoc, List.nil_append, List.cons_append]

theorem leads_declarations {declarations : List (String × String)}
    (each : ∀ declaration ∈ declarations, IsDeclaration declaration)
    (ended : AreEnded declarations) {indent : String}
    (blank : ∀ c ∈ indent.toList, Text.isBlank c = true) (reader : Reader) (selector : String)
    (before : List (String × String)) :
    Leads (declarations.flatMap (declarationLine indent))
      { reader with opened := some (selector, before) }
      { reader with opened := some (selector, before ++ declarations.map readDeclaration) } := by
  induction declarations generalizing before with
  | nil =>
    rw [List.map_nil, List.append_nil]
    exact Leads.blanks (by simp) _
  | cons declaration declarations ih =>
    obtain ⟨here, later⟩ := List.forall_mem_cons.mp each
    obtain ⟨endedHere, endedLater⟩ := List.forall_mem_cons.mp ended
    have isFront : ∀ c ∈ '\n' :: indent.toList ++ [' ', ' '], Text.isBlank c = true := by
      simp only [List.forall_mem_append, List.forall_mem_cons]
      exact ⟨⟨by decide, blank⟩, by decide⟩
    have line := leads_declare here endedHere isFront reader selector before
    have rest := ih later endedLater (before ++ [readDeclaration declaration])
    rw [List.append_assoc, List.singleton_append] at rest
    rw [List.flatMap_cons]
    exact line.append rest

theorem leads_block {rule : Rule} (readable : rule.IsReadable)
    (ended : AreEnded rule.declarations) {indent : String}
    (blank : ∀ c ∈ indent.toList, Text.isBlank c = true) (conditions : List String)
    (before : List Block) :
    Leads (rule.block indent).toList { conditions, blocks := before }
      { conditions
        blocks := before ++ [⟨conditions, rule.selector, rule.declarations.map readDeclaration⟩] } := by
  have opening := leads_enter readable.selector blank { conditions, blocks := before } rfl
  rw [if_neg readable.unconditional] at opening
  have lines := leads_declarations readable.declarations ended blank
    { conditions, blocks := before } rule.selector []
  have behind : ∀ c ∈ '\n' :: indent.toList, Text.isBlank c = true :=
    List.forall_mem_cons.mpr ⟨by decide, blank⟩
  have closing := leads_leave_rule behind { conditions, blocks := before } rule.selector
    (rule.declarations.map readDeclaration)
  rw [toList_block]
  exact (opening.append lines).append closing

theorem isName_mediaCondition (width : Int) : IsName (mediaCondition width) := by
  have digits : ∀ c ∈ (toString width).toList, isSpelling c = true :=
    Text.isSpelling_of_mem_toString width
  have parts : (mediaCondition width).toList =
      "@media (min-width:".toList ++ (' ' :: (toString width).toList) ++ "px)".toList := by
    have front : "@media (min-width: ".toList = "@media (min-width:".toList ++ [' '] := by decide
    rw [toList_mediaCondition, front, List.append_assoc _ [' '], List.singleton_append]
  constructor
  · rw [parts]
    simp only [List.forall_mem_append, List.forall_mem_cons]
    exact ⟨⟨by decide, by decide, fun c member => isInert_of_isSpelling (digits c member)⟩, by decide⟩
  · rw [parts]
    have front : HasEnds Text.isBlank "@media (min-width:".toList := ⟨by decide, by decide⟩
    have back : HasEnds Text.isBlank "px)".toList := ⟨by decide, by decide⟩
    exact front.append back (by decide) _

/-- A text that adds rules to those of a sheet. -/
def Shows (s : List Char) (blocks : List Block) : Prop :=
  ∀ before : List Block, Leads s { blocks := before } { blocks := before ++ blocks }

namespace Shows

variable {s t : List Char} {blocks more : List Block}

theorem append (front : Shows s blocks) (back : Shows t more) : Shows (s ++ t) (blocks ++ more) := by
  intro before
  rw [← List.append_assoc]
  exact (front before).append (back (before ++ blocks))

theorem blanks (blank : ∀ c ∈ s, Text.isBlank c = true) : Shows s [] := by
  intro before
  rw [List.append_nil]
  exact Leads.blanks blank _

theorem comment {label : List Char} (noStar : '*' ∉ label) :
    Shows (['/', '*'] ++ label ++ ['*', '/']) [] := by
  intro before
  rw [List.append_nil]
  exact Leads.comment noStar _

theorem rule {rule : Rule} (readable : rule.IsReadable) (ended : AreEnded rule.declarations) :
    Shows rule.text.toList [rule.read] := by
  intro before
  unfold Rule.text Rule.read Rule.shown
  cases rule.minWidth with
  | none => exact leads_block readable ended (by decide) [] before
  | some width =>
    have nothing : ∀ c ∈ ([] : List Char), Text.isBlank c = true := by simp
    have opening := leads_enter (isName_mediaCondition width) nothing { blocks := before } rfl
    have isCondition : (mediaCondition width).toList.head? = some '@' := by
      have front : "@media (min-width: ".toList = '@' :: "media (min-width: ".toList := by decide
      rw [toList_mediaCondition, front]
      rfl
    rw [if_pos isCondition] at opening
    have gap : ∀ c ∈ ['\n'], Text.isBlank c = true := by decide
    have spaces : ∀ c ∈ "  ".toList, Text.isBlank c = true := by decide
    have inner := (Leads.blanks gap { conditions := [mediaCondition width], blocks := before }).append
      (leads_block readable ended spaces [mediaCondition width] before)
    have closing := leads_leave_condition gap
      { blocks := before ++ [⟨[mediaCondition width], rule.selector,
          rule.declarations.map readDeclaration⟩] } rfl (mediaCondition width)
    have whole := (opening.append inner).append closing
    rw [toList_conditional]
    exact whole

/-- Rules with blanks between them are shown one after the other. -/
theorem intercalate {separator first : String} {rest : List String} {others : List (List Block)}
    (blank : ∀ c ∈ separator.toList, Text.isBlank c = true) (here : Shows first.toList blocks)
    (later : List.Forall₂ (fun piece blocks => Shows piece.toList blocks) rest others) :
    Shows (separator.intercalate (first :: rest)).toList (blocks ++ others.flatten) := by
  rw [toList_intercalate_cons]
  refine here.append ?_
  induction later with
  | nil => exact Shows.blanks (by simp)
  | cons next _ ih =>
    rw [List.flatMap_cons, List.flatten_cons]
    exact ((Shows.blanks blank).append next).append ih

theorem rules {separator : String} (blank : ∀ c ∈ separator.toList, Text.isBlank c = true)
    {rules : List Rule} (readable : ∀ rule ∈ rules, rule.IsReadable)
    (ended : ∀ rule ∈ rules, AreEnded rule.declarations) :
    Shows (separator.intercalate (rules.map Rule.text)).toList (rules.map Rule.read) := by
  cases rules with
  | nil => exact Shows.blanks (by simp)
  | cons rule rules =>
    obtain ⟨here, later⟩ := List.forall_mem_cons.mp readable
    obtain ⟨endedHere, endedLater⟩ := List.forall_mem_cons.mp ended
    have others : List.Forall₂ (fun piece blocks => Shows piece.toList blocks)
        (rules.map Rule.text) (rules.map fun rule => [rule.read]) := by
      rw [List.forall₂_map_left_iff, List.forall₂_map_right_iff, List.forall₂_same]
      exact fun rule member => Shows.rule (later rule member) (endedLater rule member)
    have shown : [rule.read] ++ (rules.map fun rule => [rule.read]).flatten =
        (rule :: rules).map Rule.read := by
      rw [← List.flatMap_def, ← List.map_eq_flatMap]
      rfl
    rw [← shown]
    exact Shows.intercalate blank (Shows.rule here endedHere) others

end Shows

/-! ## Sheets -/

/-- The rules that every page starts with. -/
def baseRules : List Rule :=
  [{ selector := "*,\n*::before,\n*::after", declarations := [("box-sizing", "border-box")] },
   { selector := "body"
     declarations := [("margin", "0"), ("font-family", "system-ui, -apple-system, sans-serif"),
       ("line-height", "1.5")] },
   { selector := "img,\nvideo", declarations := [("max-width", "100%"), ("height", "auto")] },
   { selector := "a", declarations := [("color", "inherit"), ("text-decoration", "none")] },
   { selector := "button", declarations := [("font", "inherit"), ("cursor", "pointer")] }]

theorem baseSheet_eq :
    baseSheet = "/* Generated page styles */\n" ++ "\n\n".intercalate (baseRules.map Rule.text) := by
  cbv

/-- The label of the comment in front of the rules that every page has. -/
def baseLabel : String := " Generated page styles "

theorem star_notMem_baseLabel : '*' ∉ baseLabel.toList := by decide

theorem toList_baseSheet : baseSheet.toList =
    ("/*" ++ baseLabel ++ "*/\n").toList ++
      ("\n\n".intercalate (baseRules.map Rule.text)).toList := by
  have line : "/* Generated page styles */\n" = "/*" ++ baseLabel ++ "*/\n" := by decide
  rw [baseSheet_eq, String.toList_append, line]

theorem isReadable_baseRules : ∀ rule ∈ baseRules, rule.IsReadable := by
  have selectors : ∀ rule ∈ baseRules, (∀ c ∈ rule.selector.toList, isInert c = true) ∧
      (∀ c ∈ rule.selector.toList.head?, Text.isBlank c = false) ∧
      (∀ c ∈ rule.selector.toList.getLast?, Text.isBlank c = false) ∧
      rule.selector.toList.head? ≠ some '@' := by decide +kernel
  have declarations : ∀ rule ∈ baseRules, ∀ declaration ∈ rule.declarations,
      (∀ c ∈ declaration.1.toList, isNameChar c = true) ∧
      (∀ c ∈ declaration.2.toList, isUnsafe c = false) ∧
      (∀ c ∈ declaration.2.toList.head?, Text.isBlank c = false) ∧
      (∀ c ∈ declaration.2.toList.getLast?, Text.isBlank c = false) := by decide +kernel
  intro rule member
  obtain ⟨inert, head, last, unconditional⟩ := selectors rule member
  refine ⟨⟨inert, head, last⟩, unconditional, fun declaration inRule => ?_⟩
  obtain ⟨property, safe, ends⟩ := declarations rule member declaration inRule
  exact ⟨property, safe, ends.1, ends.2⟩

theorem isSelfContained_baseRules : ∀ rule ∈ baseRules, ∀ declaration ∈ rule.declarations,
    IsSelfContained declaration.2 := by decide +kernel

theorem areEnded_of_isSelfContained {declarations : List (String × String)}
    (each : ∀ declaration ∈ declarations, IsSelfContained declaration.2) : AreEnded declarations :=
  fun declaration member => Option.isSome_iff_exists.mpr ⟨_, each declaration member⟩

theorem areEnded_baseRules : ∀ rule ∈ baseRules, AreEnded rule.declarations :=
  fun rule member => areEnded_of_isSelfContained (isSelfContained_baseRules rule member)

/-- The rules of a component can be read when their declarations are ended. -/
theorem Rule.IsOf.isReadable {name : String} {rule : Rule} (isOf : rule.IsOf ("." ++ name))
    (named : ∀ c ∈ name.toList, isNameChar c = true) : rule.IsReadable := by
  obtain ⟨pseudo, known, isSelector⟩ := isOf.selector
  have pseudos : ∀ pseudo ∈ selectorEnds, ∀ c ∈ pseudo.toList, isInert c = true ∧
      Text.isBlank c = false := by decide
  have chars : rule.selector.toList = '.' :: (name.toList ++ pseudo.toList) := by
    rw [isSelector, String.toList_append, String.toList_append]
    rfl
  have spelled (c : Char) (member : c ∈ name.toList) : isSpelling c = true :=
    Text.isSpelling_of_isNameChar (named c member)
  have each : ∀ c ∈ rule.selector.toList, isInert c = true ∧ Text.isBlank c = false := by
    rw [chars]
    simp only [List.forall_mem_cons, List.forall_mem_append]
    exact ⟨by decide, fun c member => ⟨isInert_of_isSpelling (spelled c member),
      (not_unsafe_of_isSpelling (spelled c member)).2⟩, pseudos pseudo known⟩
  refine ⟨⟨fun c member => (each c member).1, hasEnds_of_forall fun c member => (each c member).2⟩,
    ?_, isOf.declarations⟩
  simp [chars]

namespace Shows

/-- A comment on a line of its own. -/
theorem commentLine {label : String} (noStar : '*' ∉ label.toList) :
    Shows ("/*" ++ label ++ "*/\n").toList [] := by
  have comment := (Shows.comment noStar).append (Shows.blanks (s := ['\n']) (by decide))
  have isText : ("/*" ++ label ++ "*/\n").toList =
      ['/', '*'] ++ label.toList ++ ['*', '/'] ++ ['\n'] := by simp
  rw [isText]
  exact comment

theorem baseSheet : Shows Style.baseSheet.toList (baseRules.map Rule.read) := by
  have comment := Shows.commentLine star_notMem_baseLabel
  rw [toList_baseSheet]
  exact comment.append (Shows.rules (by decide) isReadable_baseRules areEnded_baseRules)

/-- The rules of a component, with the comment in front of them. -/
theorem rulesText {options : Options} {component : Component} {rules : List Rule}
    (readable : ∀ rule ∈ rules, rule.IsReadable)
    (ended : ∀ rule ∈ rules, AreEnded rule.declarations) :
    Shows (Style.rulesText options component rules).toList (rules.map Rule.read) := by
  have written : Shows ("\n".intercalate (rules.map Rule.text)).toList (rules.map Rule.read) :=
    Shows.rules (by decide) readable ended
  unfold Style.rulesText
  split
  · rw [String.toList_append]
    exact (Shows.commentLine (star_notMem_commentLabel component)).append written
  · exact written

/-- The rules of a sheet are those of its blocks; a block without rules is empty. -/
theorem wholeSheet {blocks : List String} {rules : List (List Rule)}
    (each : List.Forall₂ (fun block rules => Shows block.toList (rules.map Rule.read) ∧
      (block = "" → rules = [])) blocks rules) :
    Shows (Style.wholeSheet blocks).toList ((baseRules ++ rules.flatten).map Rule.read) := by
  have kept : ∃ others : List (List Block), others.flatten = rules.flatten.map Rule.read ∧
      List.Forall₂ (fun piece blocks => Shows piece.toList blocks) (blocks.filter (· ≠ "")) others := by
    induction each with
    | nil => exact ⟨[], rfl, .nil⟩
    | @cons block rules _ _ here _ ih =>
      obtain ⟨others, shown, ih⟩ := ih
      by_cases empty : block = ""
      · refine ⟨others, ?_, by simpa [empty] using ih⟩
        rw [here.2 empty, shown]
        rfl
      · refine ⟨rules.map Rule.read :: others, by simp [shown], ?_⟩
        rw [List.filter_cons_of_pos (by simpa using empty)]
        exact .cons here.1 ih
  obtain ⟨others, shown, each⟩ := kept
  have gap : ∀ c ∈ "\n\n".toList, Text.isBlank c = true := by decide
  have sheet := Shows.intercalate gap Shows.baseSheet each
  have ending := sheet.append (Shows.blanks (s := "\n".toList) (by decide))
  rw [Style.wholeSheet, String.toList_append, List.map_append, ← shown]
  rw [List.append_nil] at ending
  exact ending

/-- A text that shows rules is read as these rules. -/
theorem read?_eq {sheet : String} {blocks : List Block} (shows : Shows sheet.toList blocks) :
    read? sheet = some blocks := by
  obtain ⟨glyphs, rest, read, blank, fed⟩ := shows [] [] (by simp [AreBlank])
  unfold read?
  rw [read]
  have final : Reader.feed {} glyphs = some { text := rest, blocks := blocks } := fed
  simp [final, Reader.result?, plainText_blank blank]

end Shows

end StaticSite.Style
