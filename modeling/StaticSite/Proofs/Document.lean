import Mathlib
import StaticSite.Page.Document
import StaticSite.Proofs.Slot

/-!
# The document of a page

The document is its template with the texts of the page put in, after each text has been searched
for the slots that are filled later. It is the template filled at once exactly when that search
changes none of the texts.
-/

namespace StaticSite.Page

open Markup (Layout)

/-- The literal texts of the template and the slots between them. -/
def layout : Layout where
  opening := "<!DOCTYPE html>\n<html lang=\"".toList
  holes :=
    [("lang", ("\">\n<head>\n<meta charset=\"utf-8\">\n" ++
        "<meta name=\"viewport\" content=\"width=device-width, initial-scale=1\">\n" ++
        "<title>").toList),
     ("title", "</title>\n".toList),
     ("description", "<link rel=\"canonical\" href=\"".toList),
     ("canonical", "\">\n".toList),
     ("styles", "\n".toList),
     ("head_content", "\n</head>\n<body>\n".toList),
     ("body", "\n".toList),
     ("scripts", "\n</body>\n</html>\n".toList)]

def slotNames : List String := layout.holes.map (·.1)

theorem template_eq_ofList : template = String.ofList (layout.write Markup.slot) := by
  cbv

theorem template_eq_write : template.toList = layout.write Markup.slot := by
  rw [template_eq_ofList, String.toList_ofList]

theorem layout_suits : layout.suits slotNames := by decide +kernel

/-- A description as page data; a page without one holds `null`. -/
def descriptionValue : Option String → Value
  | some text => .str text
  | none => .null

/-- The line of a description, escaped; an empty description has none. -/
def descriptionLine : Option String → String
  | some text =>
    if text = "" then ""
    else "<meta name=\"description\" content=\"" ++ Markup.escape text ++ "\">\n"
  | none => ""

/-- The text for each slot, in the order in which the slots are filled. -/
def slotTexts (page : Page) (description : Option String) (base body styles : String)
    (around : Surroundings) : Ordered String :=
  [("lang", Markup.escape around.lang), ("title", Markup.escape (page.title.getD "")),
   ("description", descriptionLine description),
   ("canonical", Markup.escape (page.address base)), ("styles", styles),
   ("head_content", around.headContent), ("body", body), ("scripts", around.bodyScripts)]

theorem descriptionTag_value (heap : Heap) (description : Option String) :
    descriptionTag heap (descriptionValue description) = .ok (descriptionLine description) := by
  cases description with
  | none => rfl
  | some text =>
    by_cases empty : text = ""
    · simp [descriptionTag, descriptionValue, descriptionLine, Heap.isTruthy, empty]
    · have name : Markup.escape "description" = "description" := by cbv
      simp [descriptionTag, descriptionValue, descriptionLine, Heap.isTruthy, empty,
        Markup.writeAll, Markup.Node.write, Markup.openTag, Markup.Attribute.write, Markup.line,
        String.join, name, ← String.toList_inj]

theorem document_eq_fill (page : Page) (heap : Heap) (description : Option String)
    (base body styles : String) (around : Surroundings) :
    document { page with description := descriptionValue description } heap body styles
        { around with baseUrl := .str base } =
      .ok (Markup.fill template (slotTexts page description base body styles around)) := by
  simp only [document, descriptionTag_value, baseText]
  rfl

/-- A description takes up lines of its own, or none. -/
theorem descriptionLine_lined (description : Option String) :
    (descriptionLine description).toList = [] ∨
      ∃ s, (descriptionLine description).toList = s ++ ['\n'] := by
  cases description with
  | none => exact .inl rfl
  | some text =>
    by_cases empty : text = ""
    · exact .inl (by simp [descriptionLine, empty])
    · refine .inr
        ⟨("<meta name=\"description\" content=\"" ++ Markup.escape text ++ "\">").toList, ?_⟩
      simp [descriptionLine, empty]

/-- The texts as they are put into the document, each searched for the slots filled later. -/
def rescannedTexts (page : Page) (description : Option String) (base body styles : String)
    (around : Surroundings) : Ordered String :=
  Markup.rescanned (slotTexts page description base body styles around)

theorem fill_slotTexts (page : Page) (description : Option String) (base body styles : String)
    (around : Surroundings) :
    Markup.fill template (slotTexts page description base body styles around) =
      Markup.fillOnce template (rescannedTexts page description base body styles around) := by
  have order : Markup.fillOrder (slotTexts page description base body styles around) =
    slotTexts page description base body styles around := rfl
  have filled := Markup.fill_eq_fillOnce_rescanned template_eq_write
    (by rw [order]; exact layout_suits)
  rwa [order] at filled

theorem document_eq_rescanned (page : Page) (heap : Heap) (description : Option String)
    (base body styles : String) (around : Surroundings) :
    document { page with description := descriptionValue description } heap body styles
        { around with baseUrl := .str base } =
      .ok (Markup.fillOnce template
        (rescannedTexts page description base body styles around)) := by
  rw [← fill_slotTexts]
  exact document_eq_fill page heap description base body styles around

/-- Two texts in one document differ in it, since its literal texts keep them apart. -/
theorem fillOnce_rescannedTexts_iff (page : Page) (description : Option String)
    (base body styles : String) (around : Surroundings) :
    let texts := slotTexts page description base body styles around
    Markup.fillOnce template (rescannedTexts page description base body styles around) =
        Markup.fillOnce template texts ↔
      rescannedTexts page description base body styles around = texts := by
  intro texts
  have names : Ordered.names texts = slotNames := rfl
  refine Markup.fillOnce_rescanned_eq_iff template_eq_write (by rw [names]; exact layout_suits)
    (by rw [names]; decide) ?_ ?_
  · rw [names]
    decide
  · intro hole member
    by_cases inWall : '\n' ∈ hole.2
    · exact .inl inWall
    · have unclosed : ∀ hole ∈ layout.holes, '\n' ∉ hole.2 → hole.1 = "description" := by
        decide +kernel
      rw [unclosed hole member inWall]
      exact .inr (descriptionLine_lined description)

/--
A document is always written, with every text in its own slot after the later slots have been
filled within the text. It is the template filled at once exactly when no text holds anything for
these later slots to change.
-/
theorem document_eq_fillOnce_iff (page : Page) (heap : Heap) (description : Option String)
    (base body styles : String) (around : Surroundings) :
    let texts := slotTexts page description base body styles around
    let written := document { page with description := descriptionValue description } heap body
      styles { around with baseUrl := .str base }
    written = .ok (Markup.fillOnce template (Markup.rescanned texts)) ∧
      (written = .ok (Markup.fillOnce template texts) ↔ Markup.rescanned texts = texts) := by
  intro texts written
  have result : written = .ok (Markup.fillOnce template (Markup.rescanned texts)) :=
    document_eq_rescanned page heap description base body styles around
  refine ⟨result, ?_⟩
  rw [result, Except.ok.injEq]
  exact fillOnce_rescannedTexts_iff page description base body styles around

/-- A page that is titled with the name of the slot for the markup. -/
def slotTitled : Page := { id := "p", slug := some "home", title := some "\x7b\x7bbody\x7d\x7d" }

/-- The markup of the page stands, unescaped, where its title should. -/
theorem title_filled_again :
    document slotTitled {} "<p>x</p>" "" {} =
        .ok (Markup.fillOnce template
          (Ordered.put (slotTexts slotTitled none "" "<p>x</p>" "" {}) "title" "<p>x</p>")) ∧
      document slotTitled {} "<p>x</p>" "" {} ≠
        .ok (Markup.fillOnce template (slotTexts slotTitled none "" "<p>x</p>" "" {})) := by
  have written : document slotTitled {} "<p>x</p>" "" {} =
      .ok (Markup.fillOnce template (rescannedTexts slotTitled none "" "<p>x</p>" "" {})) :=
    document_eq_rescanned slotTitled {} none "" "<p>x</p>" "" {}
  have again : rescannedTexts slotTitled none "" "<p>x</p>" "" {} =
      Ordered.put (slotTexts slotTitled none "" "<p>x</p>" "" {}) "title" "<p>x</p>" := by
    cbv
  refine ⟨by rw [written, again], fun same => ?_⟩
  rw [written, Except.ok.injEq] at same
  have unchanged := (fillOnce_rescannedTexts_iff slotTitled none "" "<p>x</p>" "" {}).mp same
  rw [again] at unchanged
  exact absurd unchanged (by decide +kernel)

end StaticSite.Page
