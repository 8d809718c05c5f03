import StaticSite.Proofs.Document
import StaticSite.Proofs.SheetSafety
import StaticSite.Proofs.TwoRenderings

/-!
# A document as it is and reduced

What stands in front of a page's markup is self-contained, and what follows the markup changes
nothing in front of it. So the tags of the markup are found in the document, and what is left of
them in the reduced one.
-/

namespace StaticSite.Markup

theorem IsReducedTo.isSelfContained {markup : String} (self : IsReducedTo markup markup) :
    IsSelfContained markup.toList := by
  obtain ⟨tags, leads, leads'⟩ := self.leads
  exact leads.isSelfContained leads'

/-- What is read of two documents that hold a page's markup, the second one reduced. -/
theorem IsReducedTo.exists_elements {body other : String} (related : IsReducedTo body other)
    (refs : References) {front front' : List Char} (self : IsSelfContained front)
    (self' : IsSelfContained front') (rest rest' : List Char) :
    ∃ before after before' after',
      elements refs (String.ofList (doctype ++ front ++ body.toList ++ rest)) =
          before ++ elements refs body ++ after ∧
        elements refs (minify (String.ofList (doctype ++ front' ++ other.toList ++ rest'))) =
          before' ++ (elements refs body).map Tag.reduced ++ after' := by
  obtain ⟨tags, leads, leads'⟩ := related.leads
  have inBody : elements refs body = tags := by
    obtain ⟨read, run, opened⟩ := leads
    rw [elements_eq, openings_lexemes, run, opened, List.map_map]
    simp [Function.comp_def, decode_escapeChars_tag]
  obtain ⟨before, first⟩ := self.whole
  obtain ⟨after, opened⟩ := exists_openings (leads_doctype.append first) leads rest
  obtain ⟨first', middle, last, before', split, leadsFront, leadsMiddle⟩ :=
    exists_minifyChars self' leads' rest'
  obtain ⟨after', opened'⟩ := exists_openings leadsFront leadsMiddle last
  refine ⟨before.map (Tag.map refs.decode), after.map (Tag.map refs.decode),
    before'.map (Tag.map refs.decode), after'.map (Tag.map refs.decode), ?_, ?_⟩
  · rw [elements_eq, String.toList_ofList, opened, inBody]
    simp [Function.comp_def, decode_escapeChars_tag]
  · rw [elements_eq, minify, String.toList_ofList, String.toList_ofList, split, opened', inBody]
    simp [Function.comp_def, decode_escapeChars_tag]

/-! ## Self-contained parts -/

theorem isSelfContained_append {a b : String} (front : IsSelfContained a.toList)
    (back : IsSelfContained b.toList) : IsSelfContained (a ++ b).toList := by
  rw [String.toList_append]
  exact front.append back

theorem isSelfContained_bare {s : List Char} (bare : '<' ∉ s) : IsSelfContained s :=
  (Mode.Rests.text.leads bare).isSelfContained (Mode.Rests.text.leadsReduced bare)

theorem isSelfContained_closeTag {tag : String} (plain : isPlainName tag.toList = true) :
    IsSelfContained ("</" ++ tag ++ ">").toList :=
  (leads_closeTag plain).isSelfContained (leadsReduced_closeTag plain)

theorem isSelfContained_styleElement {s : String} (bare : '<' ∉ s.toList) :
    IsSelfContained (openTag "style" [] ++ s ++ "</style>").toList := by
  have opened : (openTag "style" []).toList = "<style>".toList := by decide
  rw [String.toList_append, String.toList_append, opened]
  exact (leads_styleElement bare).isSelfContained (leadsReduced_styleElement bare)

/-! ## Parts without style elements -/

/-- The name of the elements that hold style sheets. -/
def styleName : List Char := "style".toList

/-- A self-contained part in which no style element is opened, whether it is reduced or not. -/
structure IsStyleless (s : List Char) : Prop where
  whole : ∃ tags, Leads .text s .text tags ∧ ∀ tag ∈ tags, tag.name ≠ styleName
  reduced : ∃ ps, IsLeftOf s ps ∧
    ∀ state, ∃ tags, Leads .text ((tightener.run state ps).2.flatMap Piece.text) .text tags ∧
      ∀ tag ∈ tags, tag.name ≠ styleName

section

variable {s t : List Char} {a b : List Tag}

theorem IsStyleless.isSelfContained (styleless : IsStyleless s) : IsSelfContained s := by
  obtain ⟨⟨tags, leads, -⟩, ps, left, each⟩ := styleless
  refine ⟨⟨tags, leads⟩, ps, left, fun state => ?_⟩
  obtain ⟨tags, leads, -⟩ := each state
  exact ⟨tags, leads⟩

theorem IsStyleless.append (front : IsStyleless s) (back : IsStyleless t) :
    IsStyleless (s ++ t) := by
  obtain ⟨⟨a, leads, other⟩, ps, left, each⟩ := front
  obtain ⟨⟨b, leads', other'⟩, qs, left', each'⟩ := back
  refine ⟨⟨a ++ b, leads.append leads', List.forall_mem_append.mpr ⟨other, other'⟩⟩,
    ps ++ qs, left.append left', fun state => ?_⟩
  obtain ⟨tags, first, other⟩ := each state
  obtain ⟨more, second, other'⟩ := each' (tightener.run state ps).1
  rw [text_run_append]
  exact ⟨tags ++ more, first.append second, List.forall_mem_append.mpr ⟨other, other'⟩⟩

theorem Leads.isStyleless (leads : Leads .text s .text a) (reduced : LeadsReduced .text s .text b)
    (other : ∀ tag ∈ a, tag.name ≠ styleName) (other' : ∀ tag ∈ b, tag.name ≠ styleName) :
    IsStyleless s := by
  obtain ⟨ps, left, leads'⟩ := reduced
  exact ⟨⟨a, leads, other⟩, ps, left, fun state => ⟨b, leads' state, other'⟩⟩

theorem isStyleless_bare (bare : '<' ∉ s) : IsStyleless s :=
  (Mode.Rests.text.leads bare).isStyleless (Mode.Rests.text.leadsReduced bare) nofun nofun

theorem isStyleless_openTag {tag : String} {attributes : List Attribute}
    (free : Tag.IsFree tag attributes) (other : tag.toList ≠ styleName) :
    IsStyleless (openTag tag attributes).toList :=
  (leads_openTag free.toIsPlain).isStyleless (leadsReduced_openTag free)
    (List.forall_mem_singleton.mpr other) (List.forall_mem_singleton.mpr other)

/-- The content of a title is taken as it is, and its blanks are squeezed. -/
theorem isStyleless_title (bare : '<' ∉ s) :
    IsStyleless ("<title>".toList ++ s ++ "</title>".toList) := by
  have ordinary : IsOrdinary "title".toList := ⟨by decide, by decide, by decide, by decide⟩
  have ordinary' : IsOrdinary "/title".toList := ⟨by decide, by decide, by decide, by decide⟩
  have front : Leads .text "<title>".toList (.raw "title".toList) [⟨false, "title".toList, []⟩] :=
    ⟨[.tag ⟨false, "title".toList, []⟩], by decide, rfl⟩
  have back : Leads (.raw "title".toList) "</title>".toList .text [] :=
    ⟨[.tag ⟨true, "title".toList, []⟩], by decide, rfl⟩
  have front' : LeadsReduced .text "<title>".toList (.raw "title".toList)
      [⟨false, "title".toList, []⟩] := ordinary.leadsReduced .text front
  have back' : LeadsReduced (.raw "title".toList) "</title>".toList .text [] :=
    ordinary'.leadsReduced (.raw _) back
  exact ((front.append ((Mode.Rests.raw _).leads bare)).append back).isStyleless
    ((front'.append ((Mode.Rests.raw _).leadsReduced bare)).append back') (by decide) (by decide)

end

end StaticSite.Markup

namespace StaticSite.Page

open Markup (IsSelfContained IsStyleless isSelfContained_append Words Attribute openTag)

/-- The tags in front of the markup of a page. -/
def headWords : Words :=
  [("html", ["lang"]), ("head", []), ("meta", ["charset", "name", "content"]),
   ("link", ["rel", "href"]), ("noscript", []), ("body", [])]

theorem isStyleless_headTag {tag : String} {attributes : List Attribute}
    (allowed : headWords.Allow tag attributes) : IsStyleless (openTag tag attributes).toList := by
  have free := allowed.isFree (by decide) (by decide)
  have others : ∀ entry ∈ headWords, entry.1.toList ≠ Markup.styleName := by decide
  obtain ⟨names, listed, -⟩ := allowed
  exact Markup.isStyleless_openTag free (others _ listed)

theorem isSelfContained_headTag {tag : String} {attributes : List Attribute}
    (allowed : headWords.Allow tag attributes) : IsSelfContained (openTag tag attributes).toList :=
  (isStyleless_headTag allowed).isSelfContained

/-- The tags of a document that are the same for all pages. -/
def metaTags : String :=
  "\n<head>\n<meta charset=\"utf-8\">\n" ++
    "<meta name=\"viewport\" content=\"width=device-width, initial-scale=1\">\n"

theorem isStyleless_metaTags : IsStyleless metaTags.toList := by
  have lineEnd : IsStyleless "\n".toList := Markup.isStyleless_bare (by decide)
  have line {tag : String} {attributes : List Attribute}
      (allowed : headWords.Allow tag attributes) :
      IsStyleless ((openTag tag attributes).toList ++ "\n".toList) :=
    (isStyleless_headTag allowed).append lineEnd
  have head : headWords.Allow "head" [] := ⟨[], by decide, nofun⟩
  have charset : headWords.Allow "meta" [.value "charset" "utf-8"] :=
    ⟨["charset", "name", "content"], by decide, by decide⟩
  have viewport : headWords.Allow "meta" [.value "name" "viewport",
      .value "content" "width=device-width, initial-scale=1"] :=
    ⟨["charset", "name", "content"], by decide, by decide⟩
  have whole := ((lineEnd.append (line head)).append (line charset)).append (line viewport)
  have same : "\n" ++ (openTag "head" [] ++ "\n") ++
      (openTag "meta" [.value "charset" "utf-8"] ++ "\n") ++
      (openTag "meta" [.value "name" "viewport",
        .value "content" "width=device-width, initial-scale=1"] ++ "\n") = metaTags := by
    cbv
  simpa only [← same, String.toList_append] using whole

theorem isSelfContained_bodyTag : IsSelfContained "\n</head>\n<body>\n".toList := by
  have lineEnd : IsSelfContained "\n".toList := Markup.isSelfContained_bare (by decide)
  have headEnd : IsSelfContained ("</" ++ "head" ++ ">").toList :=
    Markup.isSelfContained_closeTag (by decide)
  have body : headWords.Allow "body" [] := ⟨[], by decide, nofun⟩
  have whole := isSelfContained_append (isSelfContained_append (isSelfContained_append lineEnd
    headEnd) lineEnd) (isSelfContained_append (isSelfContained_headTag body) lineEnd)
  have same : "\n" ++ ("</" ++ "head" ++ ">") ++ "\n" ++ (openTag "body" [] ++ "\n") =
      "\n</head>\n<body>\n" := by cbv
  rwa [same] at whole

theorem isStyleless_descriptionLine (description : Option String) :
    IsStyleless (descriptionLine description).toList := by
  have lineEnd : IsStyleless "\n".toList := Markup.isStyleless_bare (by decide)
  have absent : IsStyleless "".toList := Markup.isStyleless_bare (by decide)
  cases description with
  | none => exact absent
  | some text =>
    have tag : headWords.Allow "meta" [.value "name" "description", .value "content" text] :=
      ⟨["charset", "name", "content"], by decide, by simp [Attribute.name]⟩
    have line := (isStyleless_headTag tag).append lineEnd
    have name : Markup.escape "description" = "description" := by cbv
    by_cases empty : text = ""
    · rw [descriptionLine, if_pos empty]
      exact absent
    · rw [descriptionLine, if_neg empty]
      simpa [openTag, Attribute.write, name] using line

/-- What stands in the link whose event handler has quotes in its value. -/
def preloadInside : List Char :=
  ("link rel=\"preload\" href=\"styles.css\" as=\"style\" " ++
    "onload=\"this.onload=null;this.rel='stylesheet'\"").toList

theorem toList_preloadLink :
    (preloadLink stylesheetName).write.toList = '<' :: (preloadInside ++ ['>']) := by
  cbv

theorem isSelfContained_preloadLink :
    IsSelfContained (preloadLink stylesheetName).write.toList := by
  have ordinary : Markup.IsOrdinary preloadInside :=
    ⟨by decide +kernel, by decide +kernel, by decide +kernel, by decide +kernel⟩
  have leads := Markup.leads_of_run
    (show (Markup.tagLexer.run .text ('<' :: (preloadInside ++ ['>']))).1 = .text by decide +kernel)
  have squashed : Markup.squash Text.isBlank false (Markup.dropNuls preloadInside ++ ['>']) =
      preloadInside ++ ['>'] := by cbv
  have reduced := leads
  rw [← squashed] at reduced
  rw [toList_preloadLink]
  exact leads.isSelfContained (ordinary.leadsReduced .text reduced)

/-- The tags of an inlined sheet, one after the other. -/
theorem styleTags_inlined (sheet href : String) :
    styleTags sheet true href =
      openTag "style" [] ++ sheet ++ "</style>" ++ "\n" ++ (preloadLink href).write ++ "\n" ++
        (openTag "noscript" [] ++ (stylesheetLink href).write ++ ("</" ++ "noscript" ++ ">")) := by
  have styleEnd : "</style>" = "</" ++ "style" ++ ">" := by decide
  -- With the links as variables, nothing looks into the texts that they are written with.
  have written (a b : Markup.Node) :
      Markup.writeAll [.element "style" [] [.ready sheet], Markup.line, a, Markup.line,
        .element "noscript" [] [b]] =
      openTag "style" [] ++ sheet ++ "</style>" ++ "\n" ++ a.write ++ "\n" ++
        (openTag "noscript" [] ++ b.write ++ ("</" ++ "noscript" ++ ">")) := by
    simp only [Markup.writeAll, Markup.Node.write, Markup.line, String.append_empty,
      String.append_assoc, styleEnd]
  exact written _ _

/-- The tags that bring in a sheet without brackets. -/
theorem isSelfContained_styleTags {sheet : String} (bare : '<' ∉ sheet.toList) (inlined : Bool) :
    IsSelfContained (styleTags sheet inlined stylesheetName).toList := by
  have lineEnd : IsSelfContained "\n".toList := Markup.isSelfContained_bare (by decide)
  have link : headWords.Allow "link" [.value "rel" "stylesheet", .value "href" stylesheetName] :=
    ⟨["rel", "href"], by decide, by decide⟩
  have linked : IsSelfContained (stylesheetLink stylesheetName).write.toList :=
    isSelfContained_headTag link
  have noscript : headWords.Allow "noscript" [] := ⟨[], by decide, nofun⟩
  have noscriptEnd : IsSelfContained ("</" ++ "noscript" ++ ">").toList :=
    Markup.isSelfContained_closeTag (by decide)
  cases inlined with
  | false => exact linked
  | true =>
    have style := Markup.isSelfContained_styleElement bare
    have preload := isSelfContained_preloadLink
    have fallback := isSelfContained_append
      (isSelfContained_append (isSelfContained_headTag noscript) linked) noscriptEnd
    rw [styleTags_inlined]
    exact isSelfContained_append (isSelfContained_append (isSelfContained_append
      (isSelfContained_append style lineEnd) preload) lineEnd) fallback

/-! ## Fronts -/

/-- What stands in front of the first hole of a document, behind the document type. -/
def opening : List Char := "\n<html lang=\"".toList

/-- The holes in front of the markup of a page. -/
def headHoles : List (String × List Char) := layout.holes.take 6

/-- The texts of a document in front of the markup of its page, behind the document type. -/
def front (texts : String → List Char) : List Char :=
  opening ++ Markup.Layout.written headHoles texts

theorem write_layout (texts : String → List Char) :
    ∃ back, layout.write texts = Markup.doctype ++ front texts ++ texts "body" ++ back := by
  have opened : layout.opening = Markup.doctype ++ opening := by cbv
  obtain ⟨middle, last, split⟩ : ∃ middle last, layout.holes =
      headHoles ++ [("body", middle), ("scripts", last)] :=
    ⟨"\n".toList, "\n</body>\n</html>\n".toList, by cbv⟩
  refine ⟨middle ++ (texts "scripts" ++ last), ?_⟩
  rw [Markup.Layout.write, opened, split]
  simp only [front, Markup.Layout.written, List.flatMap_append, List.flatMap_cons, List.flatMap_nil,
    List.append_nil, List.append_assoc]

theorem toList_htmlTag (lang : String) : (openTag "html" [.value "lang" lang]).toList =
    "<html lang=\"".toList ++ Markup.escapeChars lang.toList ++ "\">".toList := by
  simp [openTag, Attribute.write]

theorem toList_canonicalTag (href : String) :
    (openTag "link" [.value "rel" "canonical", .value "href" href]).toList =
      "<link rel=\"canonical\" href=\"".toList ++ Markup.escapeChars href.toList ++
        "\">".toList := by
  have rel : Markup.escape "canonical" = "canonical" := by cbv
  simp [openTag, Attribute.write, rel]

/-- The texts of a head in front of the style sheet's tags. -/
def headStart (texts : String → List Char) : List Char :=
  "\n".toList ++ ("<html lang=\"".toList ++ texts "lang" ++ "\">".toList) ++
    metaTags.toList ++ ("<title>".toList ++ texts "title" ++ "</title>".toList) ++ "\n".toList ++
    texts "description" ++
    ("<link rel=\"canonical\" href=\"".toList ++ texts "canonical" ++ "\">".toList) ++ "\n".toList

/-- The texts of a head, with the tags and elements that the literal texts leave open. -/
theorem front_eq (texts : String → List Char) :
    front texts = headStart texts ++ texts "styles" ++ "\n".toList ++ texts "head_content" ++
      "\n</head>\n<body>\n".toList := by
  have opened : opening = "\n".toList ++ "<html lang=\"".toList := by cbv
  have holes : headHoles =
      [("lang", "\">".toList ++ metaTags.toList ++ "<title>".toList),
       ("title", "</title>".toList ++ "\n".toList),
       ("description", "<link rel=\"canonical\" href=\"".toList),
       ("canonical", "\">".toList ++ "\n".toList), ("styles", "\n".toList),
       ("head_content", "\n</head>\n<body>\n".toList)] := by
    cbv
  rw [front, headStart, opened, holes]
  generalize "\n".toList = lineEnd, "<html lang=\"".toList = html, "\">".toList = tagEnd,
    metaTags.toList = metas, "<title>".toList = title, "</title>".toList = titleEnd,
    "<link rel=\"canonical\" href=\"".toList = link, "\n</head>\n<body>\n".toList = body
  simp only [Markup.Layout.written, List.flatMap_cons, List.flatMap_nil, List.append_nil,
    List.append_assoc]

section

variable {texts : String → List Char} {lang canonical : String}

/-- No style element stands in front of the style sheet's. -/
theorem isStyleless_headStart (inLang : texts "lang" = Markup.escapeChars lang.toList)
    (inTitle : '<' ∉ texts "title") (inDescription : IsStyleless (texts "description"))
    (inCanonical : texts "canonical" = Markup.escapeChars canonical.toList) :
    IsStyleless (headStart texts) := by
  have lineEnd : IsStyleless "\n".toList := Markup.isStyleless_bare (by decide)
  have html : headWords.Allow "html" [.value "lang" lang] :=
    ⟨["lang"], by decide, by simp [Attribute.name]⟩
  have link : headWords.Allow "link" [.value "rel" "canonical", .value "href" canonical] :=
    ⟨["rel", "href"], by decide, by simp [Attribute.name]⟩
  have inHtml := isStyleless_headTag html
  rw [toList_htmlTag, ← inLang] at inHtml
  have inLink := isStyleless_headTag link
  rw [toList_canonicalTag, ← inCanonical] at inLink
  exact ((((((lineEnd.append inHtml).append isStyleless_metaTags).append
    (Markup.isStyleless_title inTitle)).append lineEnd).append inDescription).append
    inLink).append lineEnd

theorem isSelfContained_front (inLang : texts "lang" = Markup.escapeChars lang.toList)
    (inTitle : '<' ∉ texts "title") (inDescription : IsStyleless (texts "description"))
    (inCanonical : texts "canonical" = Markup.escapeChars canonical.toList)
    (inStyles : IsSelfContained (texts "styles"))
    (inHead : IsSelfContained (texts "head_content")) :
    IsSelfContained (front texts) := by
  have lineEnd : IsSelfContained "\n".toList := Markup.isSelfContained_bare (by decide)
  have start := (isStyleless_headStart inLang inTitle inDescription inCanonical).isSelfContained
  rw [front_eq]
  exact (((start.append inStyles).append lineEnd).append inHead).append isSelfContained_bodyTag

end

/-! ## Documents -/

section

variable {page : Page} {heap : Heap} {body styles document : String} {around : Surroundings}

/-- Whether none of the texts that a document is written with holds a slot that is filled later. -/
def FillsOnce (page : Page) (heap : Heap) (body styles : String) (around : Surroundings) : Prop :=
  ∀ description base, descriptionTag heap page.description = .ok (descriptionLine description) →
    baseText heap around.baseUrl = .ok base →
    Markup.rescanned (slotTexts page description base body styles around) =
      slotTexts page description base body styles around

theorem exists_descriptionLine {description : Value} {tag : String}
    (written : descriptionTag heap description = .ok tag) :
    ∃ text, tag = descriptionLine text := by
  cases description with
  | str text =>
    have line := descriptionTag_value heap (some text)
    exact ⟨some text, Except.ok.inj (written.symm.trans line)⟩
  | _ =>
    refine ⟨none, ?_⟩
    unfold descriptionTag at written
    split at written
    · cases written
    · cases written
      rfl

/-- A document holds its texts, each searched for the slots filled later. -/
theorem exists_rescanned (written : page.document heap body styles around = .ok document) :
    ∃ description base, descriptionTag heap page.description = .ok (descriptionLine description) ∧
      baseText heap around.baseUrl = .ok base ∧
      document = String.ofList (layout.write (Markup.content
        (Markup.rescanned (slotTexts page description base body styles around)))) := by
  obtain ⟨tag, described, written⟩ := exists_of_bind_eq_ok written
  obtain ⟨base, based, written⟩ := exists_of_bind_eq_ok written
  obtain ⟨description, rfl⟩ := exists_descriptionLine described
  have filled : document = Markup.fill template
      (slotTexts page description base body styles around) := (Except.ok.inj written).symm
  have suits : layout.suits (Ordered.names (slotTexts page description base body styles around)) =
    true := layout_suits
  rw [← Markup.names_rescanned] at suits
  rw [fill_slotTexts, rescannedTexts, Markup.fillOnce_layout template_eq_write suits] at filled
  exact ⟨description, base, described, based, filled⟩

theorem document_eq_write (once : FillsOnce page heap body styles around)
    (written : page.document heap body styles around = .ok document) :
    ∃ description base, descriptionTag heap page.description = .ok (descriptionLine description) ∧
      baseText heap around.baseUrl = .ok base ∧
      document = String.ofList
        (layout.write (Markup.content (slotTexts page description base body styles around))) := by
  obtain ⟨description, base, described, based, whole⟩ := exists_rescanned written
  rw [once description base described based] at whole
  exact ⟨description, base, described, based, whole⟩

/-- A document whose texts are filled in at once has the markup of the page behind its front. -/
theorem exists_front (once : FillsOnce page heap body styles around)
    (inStyles : IsSelfContained styles.toList)
    (inHead : IsSelfContained around.headContent.toList)
    (written : page.document heap body styles around = .ok document) :
    ∃ front back, document = String.ofList (Markup.doctype ++ front ++ body.toList ++ back) ∧
      IsSelfContained front := by
  obtain ⟨description, base, -, -, rfl⟩ := document_eq_write once written
  obtain ⟨back, split⟩ := write_layout
    (Markup.content (slotTexts page description base body styles around))
  refine ⟨front (Markup.content (slotTexts page description base body styles around)), back, ?_, ?_⟩
  · rw [split]
    rfl
  · have inLang : Markup.content (slotTexts page description base body styles around) "lang" =
        (Markup.escape around.lang).toList := rfl
    have inCanonical : Markup.content (slotTexts page description base body styles around)
        "canonical" = (Markup.escape (page.address base)).toList := rfl
    have inTitle : '<' ∉ (Markup.escape (page.title.getD "")).toList := by
      rw [Markup.toList_escape]
      exact (Markup.not_mem_escapeChars _).2.1
    rw [Markup.toList_escape] at inLang inCanonical
    exact isSelfContained_front inLang inTitle (isStyleless_descriptionLine description)
      inCanonical inStyles inHead

end

end StaticSite.Page
