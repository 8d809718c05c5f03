import StaticSite.Calendar
import StaticSite.Proofs.FailFast
import StaticSite.Proofs.PageModes

/-!
# The style sheet inside the document

A document can carry the rules of its style sheet in a style element. A reader of tags finds in that
element what stands in the sheet's own file; a document that is reduced has lost the characters of
code zero, also there.
-/

namespace StaticSite

namespace Markup

/-! ## Reading style elements -/

/-- The characters of an element without markup of its own, up to its closing tag. -/
def rawText : List Lexeme → List Char
  | .raw c :: lexemes => c :: rawText lexemes
  | _ => []

/-- What the first style element holds. -/
def styleText? : List Lexeme → Option (List Char)
  | [] => none
  | lexeme :: lexemes =>
    match lexeme.opening? with
    | some tag => if tag.name = styleName then some (rawText lexemes) else styleText? lexemes
    | none => styleText? lexemes

/-- What the first style element of a document holds, as a reader of tags finds it. -/
def firstStyle? (document : String) : Option String :=
  (styleText? (lexemes document.toList)).map String.ofList

example : firstStyle? "<title><style>a</title><style>b<c</style>" = some "b<c" := by
  decide +kernel

theorem styleText?_append {l : List Lexeme} (other : ∀ tag ∈ openings l, tag.name ≠ styleName)
    (m : List Lexeme) : styleText? (l ++ m) = styleText? m := by
  induction l with
  | nil => rfl
  | cons lexeme l ih =>
    cases opens : lexeme.opening? with
    | none =>
      have rest : openings (lexeme :: l) = openings l := List.filterMap_cons_none opens
      rw [rest] at other
      simp only [List.cons_append, styleText?, opens, ih other]
    | some tag =>
      have first : openings (lexeme :: l) = tag :: openings l := List.filterMap_cons_some opens
      rw [first, List.forall_mem_cons] at other
      simp only [List.cons_append, styleText?, opens, if_neg other.1, ih other.2]

theorem rawText_append (s : List Char) (tag : Tag) (lexemes : List Lexeme) :
    rawText (s.map .raw ++ .tag tag :: lexemes) = s := by
  induction s with
  | nil => rfl
  | cons c s ih => rw [List.map_cons, List.cons_append, rawText, ih]

/-- The rules in a style element are read one by one. -/
theorem run_styleElement {s : List Char} (bare : '<' ∉ s) :
    tagLexer.run .text (styleElement s) =
      (.text, .tag ⟨false, styleName, []⟩ :: (s.map .raw ++ [.tag ⟨true, styleName, []⟩])) := by
  have stays : ∀ c ∈ s, tagLexer.step (.raw styleName) c = (.raw styleName, [Lexeme.raw c]) := by
    intro c member
    have other : c ≠ '<' := fun same => bare (same ▸ member)
    simp [tagLexer, Mode.step, rawStep, other]
  have front : tagLexer.run .text "<style>".toList =
      (.raw styleName, [.tag ⟨false, styleName, []⟩]) := by
    decide
  have back : tagLexer.run (.raw styleName) "</style>".toList =
      (.text, [.tag ⟨true, styleName, []⟩]) := by
    decide
  have inner := Machine.run_of_stays stays
  have characters : s.flatMap (fun c => [Lexeme.raw c]) = s.map .raw := by
    rw [← List.map_eq_flatMap]
  rw [characters] at inner
  exact Machine.run_append (Machine.run_append front inner) back

/-- The first style element is found behind a part without any. -/
theorem styleText?_behind {front s : List Char} {tags : List Tag}
    (leads : Leads .text front .text tags) (other : ∀ tag ∈ tags, tag.name ≠ styleName) (bare : '<' ∉ s) (rest : List Char) :
    styleText? (lexemes (front ++ styleElement s ++ rest)) = some s := by
  obtain ⟨l, run, rfl⟩ := leads
  have read := Machine.run_append (Machine.run_append run (run_styleElement bare))
    (rfl : tagLexer.run .text rest = (_, _))
  rw [lexemes, read, List.append_assoc, List.append_assoc, styleText?_append other]
  simp only [List.cons_append, styleText?, Lexeme.opening?, Bool.false_eq_true, if_false, if_true,
    List.append_assoc, List.nil_append, rawText_append]

/-- A sheet without the characters of code zero. -/
def withoutNuls (sheet : String) : String := String.ofList (dropNuls sheet.toList)

section

variable {front : List Char} {sheet : String}

theorem firstStyle?_whole (styleless : IsStyleless front) (bare : '<' ∉ sheet.toList)
    (rest : List Char) :
    firstStyle? (String.ofList (doctype ++ front ++ styleElement sheet.toList ++ rest)) =
      some sheet := by
  obtain ⟨tags, leads, other⟩ := styleless.whole
  have read := styleText?_behind (leads_doctype.append leads) other bare rest
  rw [firstStyle?, String.toList_ofList, read, Option.map_some, String.ofList_toList]

/-- Reducing a document leaves the rules inside as they are, but for the characters of code zero. -/
theorem firstStyle?_minify (styleless : IsStyleless front) (bare : '<' ∉ sheet.toList)
    (rest : List Char) :
    firstStyle? (minify (String.ofList (doctype ++ front ++ styleElement sheet.toList ++ rest))) =
      some (withoutNuls sheet) := by
  obtain ⟨ps, left, each⟩ := styleless.reduced
  have bare' : '<' ∉ dropNuls sheet.toList := fun member => bare (mem_of_mem_dropNuls member)
  have split : leftOf (doctype ++ front ++ styleElement sheet.toList ++ rest) =
      doctype.map .char ++ (ps ++ [.raw (styleElement (dropNuls sheet.toList))]) ++
        leftOf rest := by
    rw [← List.append_assoc]
    exact ((isLeftOf_doctype.append left).append (isLeftOf_styleElement bare)) rest
  obtain ⟨last, reduced⟩ := exists_of_leftOf split
  obtain ⟨tags, leads, other⟩ := each (some (.char '>'), false)
  -- A blank may stand in front of the element; it leads past no tag.
  obtain ⟨gap, noTag, element⟩ : ∃ gap, Leads .text gap .text [] ∧
      (tightener.run (tightener.run (some (.char '>'), false) ps).1
        [.raw (styleElement (dropNuls sheet.toList))]).2.flatMap Piece.text =
          gap ++ styleElement (dropNuls sheet.toList) := by
    have solid := @tightener_solid (.raw (styleElement (dropNuls sheet.toList))) rfl
    rw [Machine.run_singleton (solid _), List.flatMap_append, List.flatMap_singleton]
    refine ⟨_, ?_, rfl⟩
    split
    · exact Mode.Rests.text.leads (by decide)
    · exact .nil
  have whole := (leads_doctype.append leads).append noTag
  rw [List.nil_append, List.append_nil] at whole
  have read := styleText?_behind whole other bare' last
  rw [text_run_append, element, ← List.append_assoc, ← List.append_assoc] at reduced
  rw [firstStyle?, minify, String.toList_ofList, String.toList_ofList, reduced, read]
  rfl

end

end Markup

namespace Page

open Markup (firstStyle?)

section

variable {page : Page} {heap : Heap} {body styles document : String} {around : Surroundings}

/--
Whether none of the texts up to the tags of the style sheet (the language, the title, the
description, the address and these tags) holds a slot that is filled later.
-/
def FillsStyles (page : Page) (heap : Heap) (body styles : String) (around : Surroundings) : Prop :=
  ∀ description base, descriptionTag heap page.description = .ok (descriptionLine description) →
    baseText heap around.baseUrl = .ok base →
    (Markup.rescanned (slotTexts page description base body styles around)).take 5 =
      (slotTexts page description base body styles around).take 5

/-- The first texts stand as they are if none of them holds a slot that is filled later. -/
theorem take_rescanned {name text : String} {later : Ordered String} {n : Nat} :
    (Markup.rescanned ((name, text) :: later)).take (n + 1) =
        ((name, text) :: later).take (n + 1) ↔
      later.foldl Markup.fillSlot text.toList = text.toList ∧
        (Markup.rescanned later).take n = later.take n := by
  have sameText : String.ofList (later.foldl Markup.fillSlot text.toList) = text ↔
      later.foldl Markup.fillSlot text.toList = text.toList := by
    rw [← String.toList_inj, String.toList_ofList]
  rw [Markup.rescanned, List.take_succ_cons, List.take_succ_cons, List.cons.injEq, Prod.mk.injEq,
    sameText]
  simp only [true_and]

/-- The links behind the style element, one of them for readers that run no scripts. -/
def sheetLinks : List Char :=
  "\n".toList ++ '<' :: (preloadInside ++ ['>']) ++ "\n".toList ++
    "<noscript><link rel=\"stylesheet\" href=\"styles.css\"></noscript>".toList

theorem toList_styleTags (sheet : String) :
    (styleTags sheet true stylesheetName).toList =
      Markup.styleElement sheet.toList ++ sheetLinks := by
  have opened : (Markup.openTag "style" []).toList = "<style>".toList := by decide
  have fallback : (Markup.openTag "noscript" [] ++ (stylesheetLink stylesheetName).write ++
      ("</" ++ "noscript" ++ ">")).toList =
        "<noscript><link rel=\"stylesheet\" href=\"styles.css\"></noscript>".toList := by
    decide +kernel
  have parts (a b c d e f : String) : (a ++ sheet ++ b ++ c ++ d ++ e ++ f).toList =
      a.toList ++ sheet.toList ++ b.toList ++
        (c.toList ++ d.toList ++ e.toList ++ f.toList) := by
    simp only [String.toList_append, List.append_assoc]
  rw [styleTags_inlined, parts, opened, toList_preloadLink, fallback]
  rfl

/-- A document that carries its rules in a style element has it behind a part without any. -/
theorem exists_styleless {sheet : String}
    (once : FillsStyles page heap body (styleTags sheet true stylesheetName) around)
    (written : page.document heap body (styleTags sheet true stylesheetName) around =
      .ok document) :
    ∃ front back, Markup.IsStyleless front ∧
      document = String.ofList
        (Markup.doctype ++ front ++ Markup.styleElement sheet.toList ++ back) := by
  obtain ⟨description, base, described, based, whole⟩ := exists_rescanned written
  have again := once description base described based
  generalize isTexts : slotTexts page description base body
    (styleTags sheet true stylesheetName) around = texts at again whole
  have parted : Markup.rescanned texts = texts.take 5 ++ (Markup.rescanned texts).drop 5 := by
    rw [← again, List.take_append_drop]
  rw [parted] at whole
  -- Whatever the later slots hold, the first five hold their own texts.
  generalize (Markup.rescanned texts).drop 5 = later at whole
  subst isTexts
  obtain ⟨back, split⟩ := write_layout (Markup.content ((slotTexts page description base body
    (styleTags sheet true stylesheetName) around).take 5 ++ later))
  have inLang : Markup.content ((slotTexts page description base body
      (styleTags sheet true stylesheetName) around).take 5 ++ later) "lang" =
        (Markup.escape around.lang).toList := rfl
  have inTitle : Markup.content ((slotTexts page description base body
      (styleTags sheet true stylesheetName) around).take 5 ++ later) "title" =
        (Markup.escape (page.title.getD "")).toList := rfl
  have inDescription : Markup.content ((slotTexts page description base body
      (styleTags sheet true stylesheetName) around).take 5 ++ later) "description" =
        (descriptionLine description).toList := rfl
  have inCanonical : Markup.content ((slotTexts page description base body
      (styleTags sheet true stylesheetName) around).take 5 ++ later) "canonical" =
        (Markup.escape (page.address base)).toList := rfl
  have inStyles : Markup.content ((slotTexts page description base body
      (styleTags sheet true stylesheetName) around).take 5 ++ later) "styles" =
        (styleTags sheet true stylesheetName).toList := rfl
  generalize Markup.content ((slotTexts page description base body
    (styleTags sheet true stylesheetName) around).take 5 ++ later) = texts at *
  rw [Markup.toList_escape] at inLang inTitle inCanonical
  refine ⟨headStart texts, sheetLinks ++ "\n".toList ++ texts "head_content" ++
    "\n</head>\n<body>\n".toList ++ texts "body" ++ back,
    isStyleless_headStart inLang ?_ ?_ inCanonical, ?_⟩
  · rw [inTitle]
    exact (Markup.not_mem_escapeChars _).2.1
  · rw [inDescription]
    exact isStyleless_descriptionLine description
  · rw [whole, split, front_eq, inStyles, toList_styleTags]
    simp only [List.append_assoc]

end

end Page

namespace Build

open Markup (firstStyle? withoutNuls)

namespace Setting

variable {setting : Setting} {draft : Draft} {result : Result} {events : List Log.Event}

/--
Whether the texts of a page's document up to its style sheet stand in their own slots, as none of
them holds a slot that is filled later.
-/
def FillsStyles (setting : Setting) (draft : Draft) : Prop :=
  ∀ styled body state, setting.style draft = .ok styled →
    setting.render draft.page styled = (.ok body, state) →
    draft.page.FillsStyles setting.heap body
      (Page.styleTags (setting.criticalSheet styled) setting.options.inlineCriticalCss
        Page.stylesheetName)
      { baseUrl := setting.options.baseUrl, headContent := setting.options.headContent
        bodyScripts := setting.options.bodyScripts }

theorem firstStyle?_document {styled : Styled} {page : Page} {body document : String}
    (inlined : setting.options.inlineCriticalCss = true) (done : setting.style draft = .ok styled)
    (once : page.FillsStyles setting.heap body
      (Page.styleTags (setting.criticalSheet styled) setting.options.inlineCriticalCss
        Page.stylesheetName)
      { baseUrl := setting.options.baseUrl, headContent := setting.options.headContent
        bodyScripts := setting.options.bodyScripts })
    (written : setting.document page styled body = .ok document) :
    firstStyle? (setting.reduced Markup.minify document) =
      some (setting.reduced withoutNuls styled.sheet) := by
  have bare := not_mem_criticalSheet done
  have critical : setting.criticalSheet styled = styled.sheet := if_pos inlined
  rw [Setting.document, critical, inlined] at written
  rw [critical] at bare
  rw [critical, inlined] at once
  obtain ⟨front, back, styleless, rfl⟩ := Page.exists_styleless once written
  dsimp only [reduced]
  split
  · exact Markup.firstStyle?_minify styleless bare back
  · exact Markup.firstStyle?_whole styleless bare back

/-- The first style element of a built document holds the rules of the style sheet's file. -/
theorem firstStyle?_documentFile (inlined : setting.options.inlineCriticalCss = true)
    (once : setting.FillsStyles draft) (built : buildPage setting draft = (result, events))
    (succeeded : result.failure = none) :
    ∃ sheet ∈ result.files, sheet.path = draft.page.pathSegment ++ "/" ++ Page.stylesheetName ∧
      ∃ document ∈ result.files, document.path = documentPath draft.page ∧
        firstStyle? document.content = some (setting.reduced withoutNuls sheet.content) := by
  obtain ⟨styled, body, state, isStyled, rendered, finished⟩ := buildPage_ok built succeeded
  obtain ⟨document, manifest, written, files⟩ := finish_ok finished
  rw [files]
  exact ⟨_, List.mem_cons_self, rfl, _, List.mem_cons_of_mem _ List.mem_cons_self, rfl,
    firstStyle?_document inlined isStyled (once styled body state isStyled rendered) written⟩

end Setting

/-! ## A sheet with a character of code zero -/

/-- The props of a component whose colour holds a character of code zero. -/
def paintedHeap : Heap := ⟨#[.dict [(.str "color", .str "r\x00d")]]⟩

def paintedDraft (title : String) : Draft :=
  { page := { id := "p", slug := none, title := some title }
    entries := [.component ⟨"c", "Text", .ref 0, []⟩] }

def paintedSetting (mode : Mode) (bodyScripts : String) : Setting :=
  { heap := paintedHeap, catalog := {}, registry := [], tree := ⟨[], []⟩, assetRoot := none
    now := .ofEpoch 0, options := { mode, bodyScripts } }

/-- The sheet before it is reduced. -/
def paintedSheet : String := Style.wholeSheet [".dc-c \x7b\n  color: r\x00d;\n\x7d"]

def paintedStyled (setting : Setting) : Styled :=
  { heap := paintedHeap.withCopy, entries := [.component ⟨"c", "Text", .ref 1, []⟩], assets := []
    rawSheet := paintedSheet, sheet := setting.reduced Style.minify paintedSheet }

theorem pageSheet_painted :
    Style.pageSheet paintedHeap.withCopy {} [.component ⟨"c", "Text", .ref 1, []⟩] =
      .ok paintedSheet := by
  have rules : Style.componentRules paintedHeap.withCopy {} ⟨"c", "Text", .ref 1, []⟩ =
      .ok [{ selector := ".dc-c", declarations := [("color", "r\x00d")] }] := by
    unfold Style.componentRules Style.breakpointRules
    rw [Style.sortedBreakpoints_default]
    decide +kernel
  have text : Style.componentText paintedHeap.withCopy {} ⟨"c", "Text", .ref 1, []⟩ =
      .ok ".dc-c \x7b\n  color: r\x00d;\n\x7d" := by
    rw [Style.componentText_eq rules]
    decide +kernel
  have traversed : [Entry.component ⟨"c", "Text", .ref 1, []⟩].mapM
      (Style.entryText paintedHeap.withCopy {}) = .ok [".dc-c \x7b\n  color: r\x00d;\n\x7d"] := by
    rw [List.mapM_cons, Style.entryText, text]
    rfl
  exact Style.pageSheet_unreduced traversed

theorem style_painted (mode : Mode) (bodyScripts title : String) :
    (paintedSetting mode bodyScripts).style (paintedDraft title) =
      .ok (paintedStyled (paintedSetting mode bodyScripts)) := by
  have loaded : (paintedSetting mode bodyScripts).load
      ((paintedSetting mode bodyScripts).found (paintedDraft title)) = .ok ⟨[], []⟩ := rfl
  have optimized : (paintedSetting mode bodyScripts).optimize ⟨[], []⟩ = .ok [] := by
    cases mode <;> rfl
  have relinked : Relink.relink paintedHeap (some {}) [] (paintedDraft title).entries =
      .ok (paintedHeap.withCopy, [.component ⟨"c", "Text", .ref 1, []⟩]) := rfl
  exact Setting.style_eq loaded optimized relinked pageSheet_painted

/-- The texts of the document, where no description, no address and no markup is given. -/
def paintedTexts (mode : Mode) (bodyScripts title : String) : Ordered String :=
  Page.slotTexts (paintedDraft title).page none "" ""
    (Page.styleTags (paintedStyled (paintedSetting mode bodyScripts)).sheet true
      Page.stylesheetName)
    { bodyScripts }

theorem slotTexts_painted {mode : Mode} {bodyScripts title body base : String}
    {description : Option String} {state : Rendering.State}
    (rendered : (paintedSetting mode bodyScripts).render (paintedDraft title).page
      (paintedStyled (paintedSetting mode bodyScripts)) = (.ok body, state))
    (described : Page.descriptionTag paintedHeap (paintedDraft title).page.description =
      .ok (Page.descriptionLine description))
    (based : baseText paintedHeap (.str "") = .ok base) :
    Page.slotTexts (paintedDraft title).page description base body
        (Page.styleTags (paintedStyled (paintedSetting mode bodyScripts)).sheet true
          Page.stylesheetName)
        { bodyScripts } =
      paintedTexts mode bodyScripts title := by
  have noMarkup : body = "" := (Except.ok.inj (Prod.mk.inj rendered).1).symm
  have noLine : Page.descriptionLine description = Page.descriptionLine none :=
    (Except.ok.inj described).symm
  have noBase : base = "" := (Except.ok.inj based).symm
  rw [noMarkup, noBase, Page.slotTexts, noLine]
  rfl

theorem fillsStyles_painted {mode : Mode} {bodyScripts title : String}
    (once : (Markup.rescanned (paintedTexts mode bodyScripts title)).take 5 =
      (paintedTexts mode bodyScripts title).take 5) :
    (paintedSetting mode bodyScripts).FillsStyles (paintedDraft title) := by
  intro styled body state done rendered description base described based
  obtain rfl := Except.ok.inj ((style_painted mode bodyScripts title).symm.trans done)
  exact (slotTexts_painted rendered described based).symm ▸ once

theorem failure_painted (mode : Mode) (bodyScripts title : String) :
    (buildPage (paintedSetting mode bodyScripts) (paintedDraft title)).1.failure = none :=
  failure_buildPage_of_written (DateTime.isUniversal_ofEpoch 0)
    (style_painted mode bodyScripts title) rfl rfl

/-- The sheet in pieces that are short enough to be looked into. -/
theorem toList_paintedSheet : paintedSheet.toList =
    "/* Generated page styles */\n".toList ++
    "*,\n*::before,\n*::after \x7b\n  box-sizing: border-box;\n\x7d\n\n".toList ++
    "body \x7b\n  margin: 0;\n  font-family: system-ui, -apple-system, sans-serif;\n".toList ++
    "  line-height: 1.5;\n\x7d\n\n".toList ++
    "img,\nvideo \x7b\n  max-width: 100%;\n  height: auto;\n\x7d\n\n".toList ++
    "a \x7b\n  color: inherit;\n  text-decoration: none;\n\x7d\n\n".toList ++
    "button \x7b\n  font: inherit;\n  cursor: pointer;\n\x7d".toList ++
    ("\n\n".toList ++ ".dc-c \x7b\n  color: r\x00d;\n\x7d".toList) ++ "\n".toList := by
  have pieces (a b c d e f g h i j : String) :
      (String.intercalate h [a ++ b ++ c ++ d ++ e ++ f ++ g, i] ++ j).toList =
        a.toList ++ b.toList ++ c.toList ++ d.toList ++ e.toList ++ f.toList ++ g.toList ++
          (h.toList ++ i.toList) ++ j.toList := by
    simp only [String.intercalate_cons_cons, String.intercalate_singleton, String.toList_append,
      List.append_assoc]
  exact pieces _ _ _ _ _ _ _ _ _ _

theorem fillsStyles_reduced : (paintedSetting .production "").FillsStyles (paintedDraft "") := by
  apply fillsStyles_painted
  simp only [paintedTexts, Page.slotTexts, Page.take_rescanned, List.take_zero, and_true]
  refine ⟨by decide, by decide, by decide, by decide, ?_⟩
  have sheet : (paintedStyled (paintedSetting .production "")).sheet = Style.minify paintedSheet :=
    rfl
  rw [sheet, Page.toList_styleTags, Style.minify, String.toList_ofList, toList_paintedSheet]
  decide +kernel

theorem firstStyle?_documentFile_painted :
    (paintedSetting .production "").options.inlineCriticalCss = true ∧
      (paintedSetting .production "").FillsStyles (paintedDraft "") ∧
      ∃ result events, buildPage (paintedSetting .production "") (paintedDraft "") =
        (result, events) ∧ result.failure = none ∧
      ∃ sheet ∈ result.files, sheet.path = "p/styles.css" ∧
        ∃ document ∈ result.files, document.path = "p/index.html" ∧
          firstStyle? document.content = some (withoutNuls sheet.content) := by
  have found := Setting.firstStyle?_documentFile rfl fillsStyles_reduced (Prod.eta _).symm
    (failure_painted .production "" "")
  obtain ⟨sheet, isFile, sheetPath, document, isFile', documentPath, read⟩ := found
  exact ⟨rfl, fillsStyles_reduced, _, _, (Prod.eta _).symm, failure_painted .production "" "",
    sheet, isFile, sheetPath, document, isFile', documentPath, read⟩

/-- Whether the document of a page carries other rules than the page's style sheet. -/
def Result.CarriesOther (result : Result) (page : Page) : Prop :=
  result.failure = none ∧
    ∃ sheet ∈ result.files, sheet.path = page.pathSegment ++ "/" ++ Page.stylesheetName ∧
      ∃ document ∈ result.files, document.path = documentPath page ∧
        firstStyle? document.content ≠ some sheet.content

theorem nul_mem_paintedSheet : '\x00' ∈ Style.minifyChars paintedSheet.toList := by
  rw [toList_paintedSheet]
  decide +kernel

/-- What stands in front of the scripts when they are put into the title. -/
def scriptedFront : List Char :=
  Markup.doctype ++ "\n<html lang=\"en\">".toList ++ Page.metaTags.toList ++
    "<title></title>".toList

/-- The scripts that a title can be filled with. -/
def closingScripts : String := "</title><style>x</style>"

/-- The name of the slot for the scripts as a title. -/
def scriptsTitle : String := "\x7b\x7bscripts\x7d\x7d"

theorem firstStyle?_scripted {styled : Styled} {body document : String} {state : Rendering.State}
    (done : (paintedSetting .development closingScripts).style (paintedDraft scriptsTitle) =
      .ok styled)
    (rendered : (paintedSetting .development closingScripts).render (paintedDraft scriptsTitle).page
      styled = (.ok body, state))
    (written : (paintedSetting .development closingScripts).document
      (paintedDraft scriptsTitle).page styled body = .ok document) :
    firstStyle? document = some "x" := by
  obtain rfl := Except.ok.inj
    ((style_painted .development closingScripts scriptsTitle).symm.trans done)
  obtain ⟨description, base, described, based, rfl⟩ := Page.exists_rescanned written
  change firstStyle? (String.ofList (Page.layout.write (Markup.content
    (Markup.rescanned (Page.slotTexts (paintedDraft scriptsTitle).page description base body
      (Page.styleTags (paintedStyled (paintedSetting .development closingScripts)).sheet true
        Page.stylesheetName) { bodyScripts := closingScripts }))))) = some "x"
  rw [slotTexts_painted rendered described based]
  have inLang : Markup.content
      (Markup.rescanned (paintedTexts .development closingScripts scriptsTitle)) "lang" =
        "en".toList := by
    decide +kernel
  have inTitle : Markup.content
      (Markup.rescanned (paintedTexts .development closingScripts scriptsTitle)) "title" =
        closingScripts.toList := by
    decide +kernel
  generalize Markup.content (Markup.rescanned
    (paintedTexts .development closingScripts scriptsTitle)) = texts at inLang inTitle
  obtain ⟨back, split⟩ := Page.write_layout texts
  have front : Markup.doctype ++ ("\n".toList ++ ("<html lang=\"".toList ++ "en".toList ++
      "\">".toList) ++ Page.metaTags.toList ++ ("<title>".toList ++ closingScripts.toList)) =
      scriptedFront ++ Markup.styleElement ['x'] := by
    decide +kernel
  obtain ⟨rest, shape⟩ : ∃ rest, Page.layout.write texts =
      scriptedFront ++ Markup.styleElement ['x'] ++ rest := by
    rw [split, Page.front_eq, Page.headStart, inLang, inTitle, ← front]
    simp only [List.append_assoc, List.append_cancel_left_eq, exists_eq']
  have leads := Markup.leads_of_run
    (show (Markup.tagLexer.run .text scriptedFront).1 = .text by decide +kernel)
  have read := Markup.styleText?_behind leads (by decide +kernel) (show '<' ∉ ['x'] by decide) rest
  rw [shape, firstStyle?, String.toList_ofList, read]
  rfl

/--
A reduced document loses the character of code zero; and a title that is the slot for the scripts
lets them open a style element of their own.
-/
theorem carriesOther_painted :
    (buildPage (paintedSetting .production "") (paintedDraft "")).1.CarriesOther
        (paintedDraft "").page ∧
      (buildPage (paintedSetting .development closingScripts)
        (paintedDraft scriptsTitle)).1.CarriesOther (paintedDraft scriptsTitle).page := by
  constructor
  · refine ⟨failure_painted .production "" "", ?_⟩
    obtain ⟨styled, body, state, isStyled, rendered, finished⟩ :=
      buildPage_ok (Prod.eta _).symm (failure_painted .production "" "")
    obtain ⟨document, manifest, written, files⟩ := finish_ok finished
    have read := Setting.firstStyle?_document rfl isStyled
      (fillsStyles_reduced styled body state isStyled rendered) written
    obtain rfl := Except.ok.inj ((style_painted .production "" "").symm.trans isStyled)
    rw [files]
    refine ⟨_, List.mem_cons_self, rfl, _, List.mem_cons_of_mem _ List.mem_cons_self, rfl, ?_⟩
    dsimp only [Setting.sheetFile]
    rw [read]
    intro same
    have kept : Markup.dropNuls (Style.minify paintedSheet).toList =
        (Style.minify paintedSheet).toList := by
      rw [← String.ofList_inj, String.ofList_toList]
      exact Option.some.inj same
    have nul : '\x00' ∈ Markup.dropNuls (Style.minify paintedSheet).toList := by
      rw [kept, Style.minify, String.toList_ofList]
      exact nul_mem_paintedSheet
    exact absurd (List.mem_filter.mp nul).2 (by decide)
  · refine ⟨failure_painted .development closingScripts scriptsTitle, ?_⟩
    obtain ⟨styled, body, state, isStyled, rendered, finished⟩ :=
      buildPage_ok (Prod.eta _).symm (failure_painted .development closingScripts scriptsTitle)
    obtain ⟨document, manifest, written, files⟩ := finish_ok finished
    have read := firstStyle?_scripted isStyled rendered written
    obtain rfl := Except.ok.inj
      ((style_painted .development closingScripts scriptsTitle).symm.trans isStyled)
    rw [files]
    refine ⟨_, List.mem_cons_self, rfl, _, List.mem_cons_of_mem _ List.mem_cons_self, rfl, ?_⟩
    change firstStyle? document ≠ some paintedSheet
    rw [read]
    intro same
    have first : paintedSheet.toList.head? = some '/' := by
      rw [toList_paintedSheet]
      rfl
    rw [← Option.some.inj same] at first
    exact absurd first (by decide)

end Build

end StaticSite
