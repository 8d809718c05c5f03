import StaticSite.Proofs.Emission
import StaticSite.Proofs.TwoRenderings

/-!
# Class names

A class name is read back character by character, so different ids have different classes, and what
stands behind the start of a class holds nothing that could end a name. Whether the class is one name
in a style sheet and one class of an element is up to the start alone.
-/

namespace StaticSite

namespace Text

theorem hex_injective : Function.Injective hex := by
  intro m n same
  have reads (n : Nat) : digitsValue 16 ((hex n).filterMap hexValue?) = n :=
    digitsValue_toDigits (by decide) (fun _ => hexValue?_digitChar) n
  rw [← reads m, same, reads]

end Text

namespace Style

/-! ## Reading a class back -/

/-- A character that the part behind the start of a class can hold. -/
def isClassPart (c : Char) : Bool := Text.isAsciiAlphanumeric c || c = '-' || c = '_'

theorem isAsciiAlphanumeric_of_mem_hex {n : Nat} :
    ∀ c ∈ Text.hex n, Text.isAsciiAlphanumeric c = true :=
  Text.forall_mem_toDigits (by decide) (by decide) n

theorem isClassPart_of_mem_classChar (c : Char) : ∀ d ∈ classChar c, isClassPart d = true := by
  unfold classChar
  split
  next plain =>
    simp only [isClassChar, Bool.or_eq_true] at plain
    rw [List.forall_mem_singleton, isClassPart, Bool.or_eq_true, Bool.or_eq_true]
    exact .inl plain
  next =>
    simp only [List.forall_mem_cons, List.forall_mem_append]
    refine ⟨by decide, fun d member => ?_, by decide, List.forall_mem_nil _⟩
    rw [isClassPart, isAsciiAlphanumeric_of_mem_hex d member]
    rfl

/-- An underscore starts and ends the code of a character, and stands for no character itself. -/
theorem classChar_append_inj {c d : Char} {s t : List Char}
    (same : classChar c ++ s = classChar d ++ t) : c = d ∧ s = t := by
  have underscore : isClassChar '_' = false := by decide
  have noUnderscore (n : Nat) : '_' ∉ Text.hex n := fun member => by
    have letter := isAsciiAlphanumeric_of_mem_hex '_' member
    cases letter
  unfold classChar at same
  split at same <;> split at same
  next => simpa using same
  next plain _ =>
    obtain ⟨rfl, -⟩ := List.cons.inj same
    rw [underscore] at plain
    cases plain
  next _ plain =>
    obtain ⟨rfl, -⟩ := List.cons.inj same
    rw [underscore] at plain
    cases plain
  next =>
    simp only [List.cons_append, List.append_assoc, List.nil_append, List.cons.injEq,
      true_and] at same
    have counts : (Text.hex c.toNat).count '_' = (Text.hex d.toNat).count '_' := by
      rw [List.count_eq_zero_of_not_mem (noUnderscore _),
        List.count_eq_zero_of_not_mem (noUnderscore _)]
    obtain ⟨code, rest⟩ := Text.append_cons_inj_of_count counts same
    exact ⟨Char.toNat_inj.mp (Text.hex_injective code), rest⟩

theorem flatMap_classChar_inj {s t : List Char}
    (same : s.flatMap classChar = t.flatMap classChar) : s = t := by
  have nonempty (c : Char) (s : List Char) : (c :: s).flatMap classChar ≠ [] := by
    rw [List.flatMap_cons, classChar]
    split <;> simp
  induction s generalizing t with
  | nil =>
    cases t with
    | nil => rfl
    | cons d t => exact absurd same.symm (nonempty d t)
  | cons c s ih =>
    cases t with
    | nil => exact absurd same (nonempty c s)
    | cons d t =>
      rw [List.flatMap_cons, List.flatMap_cons] at same
      obtain ⟨rfl, rest⟩ := classChar_append_inj same
      rw [ih rest]

/-- What stands behind the start of a class and its hyphen. -/
def classPart (id : String) : List Char := id.toList.flatMap classChar

theorem isClassPart_of_mem_classPart (id : String) : ∀ c ∈ classPart id, isClassPart c = true := by
  intro c member
  obtain ⟨d, -, inChar⟩ := List.mem_flatMap.mp member
  exact isClassPart_of_mem_classChar d c inChar

theorem toList_className (id start : String) :
    (className id start).toList = (start ++ "-").toList ++ classPart id := by
  rw [className, String.toList_append, String.toList_ofList, classPart]

theorem className_inj {a b start : String} (same : className a start = className b start) :
    a = b := by
  have parts := congrArg String.toList same
  rw [toList_className, toList_className] at parts
  exact String.toList_inj.mp (flatMap_classChar_inj (List.append_cancel_left parts))

/-! ## Selectors -/

/-- A character with which a name in a style sheet can start, without an escape. -/
def isIdentifierStart (c : Char) : Bool := Text.isAsciiLetter c || c = '_' || 128 ≤ c.toNat

/-- A character of names in a style sheet; a backslash would stand for another one. -/
def isIdentifierChar (c : Char) : Bool := isIdentifierStart c || Text.isAsciiDigit c || c = '-'

/-- Whether a style sheet reads a name here. -/
def startsIdentifier : List Char → Bool
  | [] => false
  | c :: s =>
    if c = '-' then s.head?.any fun d => d = '-' || isIdentifierStart d
    else isIdentifierStart c

/-- Whether a text is one name of a style sheet as it stands. -/
def isIdentifier (s : List Char) : Bool := startsIdentifier s && s.all isIdentifierChar

/-- The class that a selector starts with, and what follows it. -/
def selectorClass? : List Char → Option (List Char × List Char)
  | '.' :: s =>
    if startsIdentifier (s.takeWhile isIdentifierChar) then
      some (s.takeWhile isIdentifierChar, s.dropWhile isIdentifierChar)
    else none
  | _ => none

theorem startsIdentifier_append {s : List Char} (starts : startsIdentifier s = true)
    (t : List Char) : startsIdentifier (s ++ t) = true := by
  cases s with
  | nil => cases starts
  | cons c s =>
    rw [List.cons_append, startsIdentifier]
    rw [startsIdentifier] at starts
    split at starts
    next hyphen =>
      rw [if_pos hyphen]
      cases s with
      | nil => cases starts
      | cons d s => exact starts
    next noHyphen => rwa [if_neg noHyphen]

theorem isIdentifierChar_of_isClassPart {c : Char} (isPart : isClassPart c = true) :
    isIdentifierChar c = true := by
  simp only [isClassPart, Text.isAsciiAlphanumeric, Bool.or_eq_true, decide_eq_true_eq] at isPart
  simp only [isIdentifierChar, isIdentifierStart, Bool.or_eq_true, decide_eq_true_eq]
  rcases isPart with ((letter | digit) | hyphen) | underscore
  · exact .inl (.inl (.inl (.inl letter)))
  · exact .inl (.inr digit)
  · exact .inr hyphen
  · exact .inl (.inl (.inl (.inr underscore)))

/-- A pseudo-class is no part of the name in front of it. -/
theorem span_selectorEnd {pseudo : String} (known : pseudo ∈ selectorEnds) {s : List Char}
    (name : ∀ c ∈ s, isIdentifierChar c = true) :
    (s ++ pseudo.toList).takeWhile isIdentifierChar = s ∧
      (s ++ pseudo.toList).dropWhile isIdentifierChar = pseudo.toList := by
  have ends : ∀ pseudo ∈ selectorEnds, pseudo.toList.takeWhile isIdentifierChar = [] ∧
      pseudo.toList.dropWhile isIdentifierChar = pseudo.toList := by decide
  obtain ⟨none, all⟩ := ends pseudo known
  rw [List.takeWhile_append_of_pos name, List.dropWhile_append_of_pos name, none, all]
  exact ⟨List.append_nil s, rfl⟩

/-- Two selectors are the same only for the same id, whatever their class starts with. -/
theorem id_eq_of_selector_eq {a b start pseudo other : String} (known : pseudo ∈ selectorEnds)
    (known' : other ∈ selectorEnds)
    (same : "." ++ className a start ++ pseudo = "." ++ className b start ++ other) : a = b := by
  have chars := congrArg String.toList same
  simp only [String.toList_append, toList_className, List.append_assoc,
    List.append_cancel_left_eq] at chars
  have name (id : String) : ∀ c ∈ classPart id, isIdentifierChar c = true := fun c member =>
    isIdentifierChar_of_isClassPart (isClassPart_of_mem_classPart id c member)
  have parts := congrArg (List.takeWhile isIdentifierChar) chars
  rw [(span_selectorEnd known (name a)).1, (span_selectorEnd known' (name b)).1] at parts
  exact String.toList_inj.mp (flatMap_classChar_inj parts)

theorem isIdentifierChar_of_mem_className {start : String}
    (named : isIdentifier (start ++ "-").toList = true) (id : String) :
    ∀ c ∈ (className id start).toList, isIdentifierChar c = true := by
  rw [isIdentifier, Bool.and_eq_true, List.all_eq_true] at named
  rw [toList_className, List.forall_mem_append]
  exact ⟨named.2, fun c member =>
    isIdentifierChar_of_isClassPart (isClassPart_of_mem_classPart id c member)⟩

theorem selectorClass?_className {start pseudo : String}
    (named : isIdentifier (start ++ "-").toList = true) (id : String)
    (known : pseudo ∈ selectorEnds) :
    selectorClass? ("." ++ className id start ++ pseudo).toList =
      some ((className id start).toList, pseudo.toList) := by
  have starts : startsIdentifier (className id start).toList = true := by
    rw [toList_className]
    exact startsIdentifier_append (Bool.and_eq_true_iff.mp named).1 _
  obtain ⟨name, rest⟩ := span_selectorEnd known (isIdentifierChar_of_mem_className named id)
  have chars : ("." ++ className id start ++ pseudo).toList =
      '.' :: ((className id start).toList ++ pseudo.toList) := by
    rw [String.toList_append, String.toList_append]
    rfl
  rw [chars, selectorClass?, name, rest, if_pos starts]

example : isIdentifier "dc-".toList = true := by decide

end Style

/-! ## Classes of elements -/

namespace Markup

/-- The classes that the value of a class attribute names. -/
def classTokens (s : List Char) : List (List Char) :=
  (s.splitOnP isSpace).filter (· ≠ [])

/-- The value of a class attribute; without one it is empty. -/
def Found.class? (found : Found) : Option (List Char) :=
  if found.name = "class".toList then
    match found with
    | .value _ _ text => some text
    | .flag _ => some []
  else none

/-- The classes of a tag; of several class attributes the first one counts. -/
def Tag.classes (tag : Tag) : List (List Char) :=
  classTokens ((tag.attributes.findSome? Found.class?).getD [])

/-- The classes of the element that markup starts with. -/
def rootClasses (refs : References) (markup : String) : List (List Char) :=
  match items refs markup with
  | .tag tag :: _ => tag.classes
  | _ => []

theorem classTokens_append {name : List Char} (nonempty : name ≠ [])
    (solid : ∀ c ∈ name, isSpace c = false) (others : List Char) :
    classTokens name = [name] ∧ classTokens (name ++ ' ' :: others) = name :: classTokens others := by
  have space : isSpace ' ' = true := by decide
  constructor
  · rw [classTokens, List.splitOnP_eq_singleton solid]
    simp [nonempty]
  · rw [classTokens, List.splitOnP_append_cons_of_forall_mem solid _ space]
    simp [nonempty, classTokens]

theorem rootClasses_openTag {refs : References} {tag : String} {attributes : List Attribute}
    (plain : Tag.IsPlain tag attributes) (more : String) :
    rootClasses refs (openTag tag attributes ++ more) = (Tag.opening tag attributes).classes := by
  obtain ⟨mode, lexemes, rest⟩ : ∃ mode lexemes, tagLexer.run .text more.toList = (mode, lexemes) :=
    ⟨_, _, rfl⟩
  have whole := Machine.run_append (run_openTag plain) rest
  rw [← String.toList_append] at whole
  rw [rootClasses, items, Markup.lexemes, whole, List.append_assoc, List.singleton_append, itemsFrom,
    decode_escapeChars_tag]
  rfl

end Markup

namespace Rendering

open Markup (References Tag rootClasses classTokens)
open Renderer (classEnds)

/-- The element of a component has its class, and at most one of the common classes. -/
theorem rootClasses_componentMarkup (refs : References) {heap : Heap} {options : Options}
    {component : Component} {children : Children} {markup : String}
    (written : componentMarkup heap Renderer.core options component children = .ok markup) :
    ∃ more ∈ classEnds, rootClasses refs markup =
      classTokens (Style.className component.id options.classStart ++ more).toList := by
  unfold componentMarkup at written
  split at written
  next => cases written
  next renderer found =>
    have listed := Ordered.mem_of_get?_eq_some found
    obtain ⟨node, rendered, isMarkup⟩ := exists_of_bind_eq_ok written
    obtain ⟨tag, attributes, more, known, isRoot⟩ := Renderer.root?_core listed rendered
    have plain := Renderer.isPlain_root_core listed rendered isRoot
    obtain ⟨rest, isNode⟩ := Markup.Node.exists_write_eq isRoot
    refine ⟨more, known, ?_⟩
    have isMarkup := Except.ok.inj isMarkup
    subst isMarkup
    have named : Markup.isPlainName "data-component-id".toList = true := by decide
    rw [isNode]
    split
    · rw [Markup.addRootAttribute_openTag plain.name, Markup.rootClasses_openTag]
      · rfl
      · exact ⟨plain.name, List.forall_mem_cons.mpr ⟨named, plain.attributes⟩, plain.text⟩
    · rw [Markup.rootClasses_openTag plain]
      rfl

end Rendering

/-! ## One class for a component -/

namespace Style

open Markup (References rootClasses classTokens)
open Renderer (classEnds commonClasses)
open Rendering (componentMarkup)

/-- Whether every rule and the element of a component name the same class, that of the component. -/
structure NamesItsClass (refs : References) (start : String) (component : Component) : Prop where
  rules : ∀ heap options rules, options.classStart = start →
    componentRules heap options component = .ok rules → ∀ rule ∈ rules, ∃ pseudo ∈ selectorEnds,
      selectorClass? rule.selector.toList =
        some ((className component.id start).toList, pseudo.toList)
  element : ∀ heap options children markup, options.classStart = start →
    componentMarkup heap Renderer.core options component children = .ok markup →
      ∃ others, rootClasses refs markup = (className component.id start).toList :: others ∧
        (others = [] ∨ ∃ common ∈ commonClasses, others = [common.toList])

theorem isSpace_of_isIdentifierChar {c : Char} (name : isIdentifierChar c = true) :
    Markup.isSpace c = false := by
  have spaces : ∀ d ∈ [' ', '\t', '\n', '\x0c', '\r'], isIdentifierChar d = false := by decide
  rw [Bool.eq_false_iff]
  intro space
  have member : c ∈ [' ', '\t', '\n', '\x0c', '\r'] := by
    simpa [Markup.isSpace, or_assoc] using space
  rw [spaces c member] at name
  cases name

theorem toList_className_ne_nil (id start : String) : (className id start).toList ≠ [] := by
  rw [toList_className, String.toList_append]
  simp

/-- A class that is a name is one class, whatever common class stands beside it. -/
theorem classTokens_className {start more : String}
    (named : isIdentifier (start ++ "-").toList = true) (id : String) (known : more ∈ classEnds) :
    ∃ others, classTokens (className id start ++ more).toList =
        (className id start).toList :: others ∧
      (others = [] ∨ ∃ common ∈ commonClasses, others = [common.toList]) := by
  have solid : ∀ c ∈ (className id start).toList, Markup.isSpace c = false := fun c member =>
    isSpace_of_isIdentifierChar (isIdentifierChar_of_mem_className named id c member)
  have common : ∀ common ∈ commonClasses, classTokens common.toList = [common.toList] := by
    decide +kernel
  have tokens := Markup.classTokens_append (toList_className_ne_nil id start) solid
  rcases List.mem_cons.mp known with rfl | known
  · exact ⟨[], by rw [String.append_empty]; exact (tokens []).1, .inl rfl⟩
  · obtain ⟨beside, listed, rfl⟩ := List.mem_map.mp known
    have text : (className id start ++ (" " ++ beside)).toList =
        (className id start).toList ++ ' ' :: beside.toList := by
      rw [String.toList_append, String.toList_append]
      rfl
    refine ⟨[beside.toList], ?_, .inr ⟨beside, listed, rfl⟩⟩
    rw [text, (tokens beside.toList).2, common beside listed]

theorem namesItsClass_of_isIdentifier (refs : References) {start : String}
    (named : isIdentifier (start ++ "-").toList = true) (component : Component) :
    NamesItsClass refs start component := by
  constructor
  · rintro heap options rules rfl given rule member
    obtain ⟨pseudo, known, isSelector⟩ := (isOf_of_componentRules given rule member).selector
    exact ⟨pseudo, known, by rw [isSelector, selectorClass?_className named component.id known]⟩
  · rintro heap options children markup rfl written
    obtain ⟨more, known, classes⟩ := Rendering.rootClasses_componentMarkup refs written
    rw [classes]
    exact classTokens_className named component.id known

/-- A selector that is nothing but a class can only have a name for its class. -/
theorem isIdentifier_of_selectorClass? {name rest : List Char}
    (reads : selectorClass? ('.' :: name) = some (name, rest)) : isIdentifier name = true := by
  rw [selectorClass?] at reads
  split at reads
  next starts =>
    obtain ⟨whole, -⟩ := Prod.mk.inj (Option.some.inj reads)
    rw [whole] at starts
    rw [isIdentifier, starts, Bool.true_and, List.all_eq_true]
    intro c member
    rw [← whole] at member
    exact List.mem_takeWhile_imp member
  next => cases reads

/-- A component with one declaration, whose class has nothing behind the start. -/
def plainComponent : Component := ⟨"", "Text", .ref 0, []⟩

def plainHeap : Heap := ⟨#[.dict [(.str "width", .int 1)]]⟩

theorem isIdentifier_of_namesItsClass {refs : References} {start : String}
    (named : NamesItsClass refs start plainComponent) :
    isIdentifier (start ++ "-").toList = true := by
  have rules : componentRules plainHeap { classStart := start, includeResponsive := false }
      plainComponent = .ok [⟨"." ++ className "" start, [("width", "1px")], none⟩] := rfl
  obtain ⟨pseudo, -, reads⟩ := named.rules _ _ _ rfl rules _ (List.mem_cons_self ..)
  have bare : (className "" start).toList = (start ++ "-").toList := by
    rw [toList_className]
    exact List.append_nil _
  rw [String.toList_append] at reads
  have isIdentifier := isIdentifier_of_selectorClass? reads
  rwa [← bare]

/-- A class with a hyphen that is one of the common ones is that of rich text. -/
theorem className_eq_of_mem_commonClasses {id start : String}
    (common : (className id start).toList ∈ commonClasses.map String.toList) :
    className id start = "rich-text" := by
  have hyphen : '-' ∈ (className id start).toList := by
    rw [toList_className, String.toList_append]
    simp
  have only : ∀ name ∈ commonClasses, '-' ∈ name.toList → name = "rich-text" := by decide +kernel
  obtain ⟨name, known, same⟩ := List.mem_map.mp common
  rw [← String.toList_inj.mp same]
  exact only name known (same ▸ hyphen)

/--
Different ids have different classes, of the letters, digits, hyphens and underscores of ASCII behind
their start, and no two components have a rule of the same selector. If and only if the start and its
hyphen are a name in a style sheet, the rules and the element of every component name its class; and
then an element has the class of no other component, or it is one that rich text always has.
-/
theorem className_identifies (refs : References) (start : String) :
    (∀ a b, className a start = className b start → a = b) ∧
    (∀ id, ∃ part, (className id start).toList = start.toList ++ '-' :: part ∧
      ∀ c ∈ part, Text.isAsciiAlphanumeric c = true ∨ c = '-' ∨ c = '_') ∧
    (∀ heap options a b rules others, options.classStart = start →
      componentRules heap options a = .ok rules → componentRules heap options b = .ok others →
        ∀ rule ∈ rules, ∀ other ∈ others, rule.selector = other.selector → a.id = b.id) ∧
    ((∀ component, NamesItsClass refs start component) ↔
      isIdentifier (start ++ "-").toList = true) ∧
    (isIdentifier (start ++ "-").toList = true →
      ∀ heap options component children markup other, options.classStart = start →
        componentMarkup heap Renderer.core options component children = .ok markup →
        (className other start).toList ∈ rootClasses refs markup →
          other = component.id ∨ className other start = "rich-text") := by
  refine ⟨fun a b => className_inj, fun id => ⟨classPart id, ?_, fun c member => ?_⟩, ?_,
    ⟨fun each => isIdentifier_of_namesItsClass (each plainComponent),
      namesItsClass_of_isIdentifier refs⟩, ?_⟩
  · rw [toList_className, String.toList_append, List.append_assoc]
    rfl
  · simpa [isClassPart, or_assoc] using isClassPart_of_mem_classPart id c member
  · rintro heap options a b rules others rfl given given' rule member other member' same
    obtain ⟨pseudo, known, isSelector⟩ := (isOf_of_componentRules given rule member).selector
    obtain ⟨pseudo', known', isSelector'⟩ := (isOf_of_componentRules given' other member').selector
    rw [isSelector, isSelector'] at same
    exact id_eq_of_selector_eq known known' same
  · intro named heap options component children markup other hasStart written member
    obtain ⟨others, classes, few⟩ := (namesItsClass_of_isIdentifier refs named component).element
      heap options children markup hasStart written
    rw [classes, List.mem_cons] at member
    rcases member with same | inOthers
    · exact .inl (className_inj (String.toList_inj.mp same))
    · refine .inr (className_eq_of_mem_commonClasses ?_)
      rcases few with rfl | ⟨common, known, rfl⟩
      · cases inOthers
      · rw [List.mem_singleton.mp inOthers]
        exact List.mem_map_of_mem known

/--
With a blank in the start, the rule of a component reads as one for another class, and its element
has two classes of which neither is its own. With the start `rich`, the element of rich text has the
class of the component `text`, whatever its own id is.
-/
theorem className_not_one_class :
    ¬ NamesItsClass .basic "a b" plainComponent ∧
    componentRules plainHeap { classStart := "a b", includeResponsive := false } plainComponent =
      .ok [⟨".a b-", [("width", "1px")], none⟩] ∧
    selectorClass? ".a b-".toList = some ("a".toList, " b-".toList) ∧
    componentMarkup {} Renderer.core { classStart := "a b" } ⟨"x", "Divider", .null, []⟩ [] =
      .ok "<hr class=\"a b-x\">" ∧
    rootClasses .basic "<hr class=\"a b-x\">" = ["a".toList, "b-x".toList] ∧
    componentMarkup {} Renderer.core { classStart := "rich" } ⟨"b", "RichText", .null, []⟩ [] =
      .ok "<div class=\"rich-b rich-text\">\n\n</div>" ∧
    (className "text" "rich").toList ∈
      rootClasses .basic "<div class=\"rich-b rich-text\">\n\n</div>" := by
  refine ⟨fun named => ?_, by decide +kernel, by decide +kernel, by decide +kernel,
    by decide +kernel, by decide +kernel, by decide +kernel⟩
  have isName := isIdentifier_of_namesItsClass named
  revert isName
  decide

end Style

end StaticSite
