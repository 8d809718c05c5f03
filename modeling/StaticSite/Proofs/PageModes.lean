import StaticSite.Proofs.PageFiles
import StaticSite.Proofs.ReducedDocument

/-!
# A page in development and in production

A development build and a production build that leaves assets as they are render the same
components from the same props. Their documents have the same tags for them, apart from the
attribute that names a component and from what reducing does to the values.
-/

namespace StaticSite.Ordered

variable {α : Type}

theorem mem_of_mem_put {map : Ordered α} {name : String} {value : α} {entry : String × α}
    (member : entry ∈ put map name value) : entry = (name, value) ∨ entry ∈ map := by
  induction map with
  | nil => exact .inl (List.mem_singleton.mp member)
  | cons first map ih =>
    rw [put] at member
    split at member
    next same =>
      rcases List.mem_cons.mp member with rfl | later
      · exact .inl (by rw [← same])
      · exact .inr (List.mem_cons_of_mem _ later)
    next =>
      rcases List.mem_cons.mp member with rfl | later
      · exact .inr List.mem_cons_self
      · exact (ih later).imp_right (List.mem_cons_of_mem _)

theorem mem_of_mem_ofList {pairs : List (String × α)} {entry : String × α}
    (member : entry ∈ ofList pairs) : entry ∈ pairs := by
  have within (pairs : List (String × α)) (map : Ordered α) (inAll : entry ∈ putAll map pairs) :
      entry ∈ map ∨ entry ∈ pairs := by
    induction pairs generalizing map with
    | nil => exact .inl inAll
    | cons pair pairs ih =>
      rcases ih (put map pair.1 pair.2) inAll with inMap | later
      · rcases mem_of_mem_put inMap with rfl | before
        · exact .inr List.mem_cons_self
        · exact .inl before
      · exact .inr (List.mem_cons_of_mem _ later)
  exact (within pairs [] member).resolve_left nofun

end StaticSite.Ordered

namespace StaticSite.Build

open Markup (IsSelfContained elements)
open Renderer (isTemplated)

namespace Setting

/-- The same build for development. -/
def inDevelopment (setting : Setting) : Setting :=
  { setting with options := { setting.options with mode := .development } }

/-- The same build for production, with reduced texts, that leaves the assets as they are. -/
def inProduction (setting : Setting) : Setting :=
  { setting with options :=
      { setting.options with mode := .production, minify := true, optimizeAssets := false } }

theorem shouldMinify_inDevelopment (setting : Setting) :
    setting.inDevelopment.options.shouldMinify = false := by
  simp [inDevelopment, Options.shouldMinify, Options.isProduction]

theorem shouldMinify_inProduction (setting : Setting) :
    setting.inProduction.options.shouldMinify = true := by
  simp [inProduction, Options.shouldMinify, Options.isProduction]

section

variable {setting : Setting} {draft : Draft} {styled : Styled}

theorem style_eq {loaded : Asset.Loaded} {assets : List Asset} {heap : Heap} {entries : List Entry}
    {rawSheet : String} (isLoaded : setting.load (setting.found draft) = .ok loaded)
    (optimized : setting.optimize loaded = .ok assets)
    (relinked : Relink.relink setting.heap (some setting.catalog) assets draft.entries =
      .ok (heap, entries))
    (written : Style.pageSheet heap
      { annotate := setting.options.sourceMaps && !setting.options.shouldMinify } entries =
        .ok rawSheet) :
    setting.style draft =
      .ok ⟨heap, entries, assets, rawSheet, setting.reduced Style.minify rawSheet⟩ := by
  simp only [style, isLoaded, bind, Except.bind, optimized, relinked, written]
  rfl

/-- No bracket stands in the rules that a document carries. -/
theorem not_mem_criticalSheet (done : setting.style draft = .ok styled) :
    '<' ∉ (setting.criticalSheet styled).toList := by
  obtain ⟨loaded, -, -, -, isSheet, reduced⟩ := style_ok done
  have named : ∀ c ∈ "dc".toList, Text.isNameChar c = true := by decide
  have raw := Style.isTagFree_pageSheet named isSheet
  have free : Style.IsTagFree styled.sheet.toList := by
    rw [reduced, Setting.reduced]
    split
    · exact Style.isTagFree_minify raw
    · exact raw
  unfold criticalSheet
  split
  · exact fun member => (free _ member).1 rfl
  · decide

/-- Both builds give the components the same addresses. -/
theorem style_agrees {styled' : Styled} (done : setting.inDevelopment.style draft = .ok styled)
    (done' : setting.inProduction.style draft = .ok styled') :
    styled.heap = styled'.heap ∧ styled.entries = styled'.entries := by
  obtain ⟨loaded, isLoaded, optimized, relinked, -⟩ := style_ok done
  obtain ⟨loaded', isLoaded', optimized', relinked', -⟩ := style_ok done'
  obtain rfl : loaded = loaded' := Except.ok.inj (isLoaded.symm.trans isLoaded')
  have same : styled.assets = styled'.assets := by
    simp only [optimize, inDevelopment, inProduction, Options.isProduction] at optimized optimized'
    simp at optimized optimized'
    rw [← optimized, ← optimized']
  rw [← same] at relinked'
  exact Prod.mk.inj (Except.ok.inj (relinked.symm.trans relinked'))

/-- Relinking changes no type of a component. -/
theorem exists_of_relinked (done : setting.style draft = .ok styled) {entry : Entry}
    {component : Component} (member : entry ∈ styled.entries)
    (isComponent : entry.component? = some component) :
    ∃ first ∈ draft.entries, ∃ original, first.component? = some original ∧
      original.type = component.type := by
  obtain ⟨-, -, -, relinked, -⟩ := style_ok done
  have shifted : styled.entries =
      draft.entries.map (Relink.shiftEntry setting.heap.objects.size) := by
    unfold Relink.relink at relinked
    dsimp only at relinked
    split at relinked
    · exact (Prod.mk.inj (Except.ok.inj relinked)).2.symm
    · obtain ⟨visits, -, done⟩ := exists_of_bind_eq_ok relinked
      exact (Prod.mk.inj (Except.ok.inj done)).2.symm
  rw [shifted] at member
  obtain ⟨first, isFirst, rfl⟩ := List.mem_map.mp member
  cases first with
  | component original =>
    cases isComponent
    exact ⟨_, isFirst, original, rfl, rfl⟩
  | nameless type props zones => cases isComponent
  | stray value => cases isComponent

/-- The components of a page by id. -/
def components (entries : List Entry) : Ordered Component :=
  Ordered.ofList ((entries.filterMap Entry.component?).map fun c => (c.id, c))

theorem render_ok {page : Page} {body : String} {state : Rendering.State}
    (done : setting.render page styled = (.ok body, state)) :
    Rendering.renderIds ⟨styled.heap, components styled.entries, setting.registry,
      { minify := setting.options.shouldMinify, annotate := !setting.options.shouldMinify }⟩
      page.roots {} = (.ok body, state) := by
  unfold render at done
  dsimp only at done
  split at done
  · cases done
  next scene opened =>
    unfold Rendering.Scene.ofEntries at opened
    dsimp only at opened
    split at opened
    · cases opened
    · cases opened
      exact done

/-- The markup that both builds render. -/
theorem render_isReducedTo {styled' : Styled} (core : setting.registry = Renderer.core)
    (templated : ∀ entry ∈ draft.entries, ∀ component, entry.component? = some component →
      isTemplated component.type = true)
    (done : setting.inDevelopment.style draft = .ok styled)
    (done' : setting.inProduction.style draft = .ok styled') {body body' : String}
    {state state' : Rendering.State}
    (rendered : setting.inDevelopment.render draft.page styled = (.ok body, state))
    (rendered' : setting.inProduction.render draft.page styled' = (.ok body', state')) :
    Markup.IsReducedTo body body' := by
  obtain ⟨sameHeap, sameEntries⟩ := style_agrees done done'
  have pass := render_ok rendered
  have pass' := render_ok rendered'
  have kinds : ∀ entry ∈ components styled.entries, isTemplated entry.2.type = true := by
    intro entry member
    obtain ⟨component, isComponent, rfl⟩ := List.mem_map.mp (Ordered.mem_of_mem_ofList member)
    obtain ⟨first, inEntries, found⟩ := List.mem_filterMap.mp isComponent
    obtain ⟨original, isOriginal, before, same, type⟩ := exists_of_relinked done inEntries found
    rw [← type]
    exact templated original isOriginal before same
  have registry : setting.inDevelopment.registry = Renderer.core := core
  have registry' : setting.inProduction.registry = Renderer.core := core
  rw [shouldMinify_inDevelopment, registry] at pass
  rw [shouldMinify_inProduction, registry', ← sameHeap, ← sameEntries] at pass'
  exact (Rendering.renderIds_isReducedTo kinds false true draft.page.roots pass pass').2

end

/--
Whether each text that a build puts into the document of a page stands in its own slot, as none of
them holds a slot that is filled later.
-/
def FillsOnce (setting : Setting) (draft : Draft) : Prop :=
  ∀ styled body state, setting.style draft = .ok styled →
    setting.render draft.page styled = (.ok body, state) →
    draft.page.FillsOnce setting.heap body
      (Page.styleTags (setting.criticalSheet styled) setting.options.inlineCriticalCss
        Page.stylesheetName)
      { baseUrl := setting.options.baseUrl, headContent := setting.options.headContent
        bodyScripts := setting.options.bodyScripts }

theorem exists_front {setting : Setting} {draft : Draft} {styled : Styled} {body document : String}
    {state : Rendering.State} (once : setting.FillsOnce draft)
    (head : IsSelfContained setting.options.headContent.toList)
    (styledOk : setting.style draft = .ok styled)
    (rendered : setting.render draft.page styled = (.ok body, state))
    (written : setting.document draft.page styled body = .ok document) :
    ∃ front back, document = String.ofList (Markup.doctype ++ front ++ body.toList ++ back) ∧
      IsSelfContained front :=
  Page.exists_front (once styled body state styledOk rendered)
    (Page.isSelfContained_styleTags (not_mem_criticalSheet styledOk) _) head written

end Setting

/-- The path of the document among the files of a page. -/
def documentPath (page : Page) : String := page.pathSegment ++ "/index.html"

namespace Setting

/-- The text of the document that a build writes for a page. -/
def documentText (setting : Setting) (draft : Draft) : Except Fault String := do
  let styled ← setting.style draft
  let body ← (setting.render draft.page styled).1
  let document ← setting.document draft.page styled body
  return setting.reduced Markup.minify document

/-- Whether a build of a page that succeeds has this text as the document among its files. -/
def Publishes (setting : Setting) (draft : Draft) (text : String) : Prop :=
  ∀ result events, buildPage setting draft = (result, events) → result.failure = none →
    ∃ file ∈ result.files, file.path = documentPath draft.page ∧ file.content = text

variable {setting : Setting} {draft : Draft} {text : String}

theorem documentText_ok (written : setting.documentText draft = .ok text) :
    ∃ styled body state document, setting.style draft = .ok styled ∧
      setting.render draft.page styled = (.ok body, state) ∧
      setting.document draft.page styled body = .ok document ∧
      text = setting.reduced Markup.minify document := by
  obtain ⟨styled, isStyled, written⟩ := exists_of_bind_eq_ok written
  obtain ⟨body, rendered, written⟩ := exists_of_bind_eq_ok written
  obtain ⟨document, isDocument, written⟩ := exists_of_bind_eq_ok written
  exact ⟨styled, body, _, document, isStyled, Prod.ext rendered rfl, isDocument,
    (Except.ok.inj written).symm⟩

theorem publishes_of_documentText (written : setting.documentText draft = .ok text) :
    setting.Publishes draft text := by
  intro result events built succeeded
  obtain ⟨styled, body, state, document, isStyled, rendered, isDocument, rfl⟩ :=
    documentText_ok written
  obtain ⟨styled', body', state', isStyled', rendered', finished⟩ := buildPage_ok built succeeded
  cases isStyled.symm.trans isStyled'
  cases rendered.symm.trans rendered'
  obtain ⟨document', manifest, isDocument', files⟩ := finish_ok finished
  cases isDocument.symm.trans isDocument'
  rw [files]
  exact ⟨_, List.mem_cons_of_mem _ List.mem_cons_self, rfl, rfl⟩

end Setting

/-! ## An image with two blanks in a row -/

def spacedImage (props : Value) : Component := ⟨"c", "Image", props, []⟩

/-- The props of an image whose description has two blanks in a row. -/
def spacedHeap : Heap := ⟨#[.dict [(.str "alt", .str "a  b")]]⟩

def spacedDraft : Draft :=
  ⟨{ id := "p", slug := none, title := none, roots := ["c"] }, [.component (spacedImage (.ref 0))]⟩

def spacedSetting (headContent bodyScripts : String) : Setting :=
  { heap := spacedHeap, catalog := .core, registry := Renderer.core, tree := ⟨[], []⟩
    assetRoot := none, now := ⟨⟨2024, 1, 1⟩, ⟨12, 0, 0, 0⟩, none⟩
    options := { inlineCriticalCss := false, headContent, bodyScripts } }

/-- What the first stage leaves of the page. -/
def spacedStyled (sheet : String) : Styled :=
  { heap := spacedHeap.withCopy, entries := [.component (spacedImage (.ref 1))], assets := []
    rawSheet := Style.wholeSheet [""], sheet }

/-- The markup of the image; the one for development names it. -/
def spacedBody (named : Bool) : String :=
  let component := if named then " data-component-id=\"c\"" else ""
  "<img" ++ component ++ " class=\"dc-c\" src=\"\" alt=\"a  b\" loading=\"lazy\">"

/-- The texts of the document around that markup. -/
def spacedTexts (headContent bodyScripts : String) (named : Bool) : Ordered String :=
  Page.slotTexts spacedDraft.page none "" (spacedBody named)
    (Page.styleTags "" false Page.stylesheetName) { headContent, bodyScripts }

def spacedDocument (headContent bodyScripts : String) (named : Bool) : List Char :=
  Page.layout.write (Markup.content (spacedTexts headContent bodyScripts named))

theorem pageSheet_spaced :
    Style.pageSheet spacedHeap.withCopy {} [.component (spacedImage (.ref 1))] =
      .ok (Style.wholeSheet [""]) := by
  have rules : Style.componentRules spacedHeap.withCopy {} (spacedImage (.ref 1)) = .ok [] := by
    unfold Style.componentRules Style.breakpointRules
    rw [Style.sortedBreakpoints_default]
    cbv
  have traversed : [Entry.component (spacedImage (.ref 1))].mapM
      (Style.entryText spacedHeap.withCopy {}) = .ok [""] := by
    rw [List.mapM_cons, Style.entryText, Style.componentText_eq rules]
    rfl
  exact Style.pageSheet_unreduced traversed

section

variable (headContent bodyScripts : String)

/-- The build that names the image, and the one that does not. -/
def spacedBuild (named : Bool) : Setting :=
  if named then (spacedSetting headContent bodyScripts).inDevelopment
  else (spacedSetting headContent bodyScripts).inProduction

theorem style_spaced (named : Bool) : ∃ sheet,
    (spacedBuild headContent bodyScripts named).style spacedDraft = .ok (spacedStyled sheet) := by
  have loaded : (spacedSetting headContent bodyScripts).load
      ((spacedSetting headContent bodyScripts).found spacedDraft) = .ok ⟨[], []⟩ := rfl
  have relinked : Relink.relink spacedHeap (some .core) [] spacedDraft.entries =
      .ok (spacedHeap.withCopy, [.component (spacedImage (.ref 1))]) := rfl
  cases named with
  | true => exact ⟨_, Setting.style_eq loaded rfl relinked pageSheet_spaced⟩
  | false => exact ⟨_, Setting.style_eq loaded rfl relinked pageSheet_spaced⟩

theorem render_spaced (named : Bool) (sheet : String) :
    ∃ state, (spacedBuild headContent bodyScripts named).render spacedDraft.page
      (spacedStyled sheet) = (.ok (spacedBody named), state) := by
  have same :
      (spacedBuild headContent bodyScripts named).render spacedDraft.page (spacedStyled sheet) =
        (spacedBuild "" "" named).render spacedDraft.page (spacedStyled "") := by
    cases named <;> rfl
  have markup : ((spacedBuild "" "" named).render spacedDraft.page (spacedStyled "")).1.toOption =
      some (spacedBody named) := by
    cases named <;> decide +kernel
  rw [same]
  cases rendered : (spacedBuild "" "" named).render spacedDraft.page (spacedStyled "") with
  | mk body state =>
    rw [rendered] at markup
    cases body with
    | error fault => cases markup
    | ok body => exact ⟨state, by rw [Option.some.inj markup]⟩

variable {headContent bodyScripts} {named : Bool}

/-- The page has no description, and the build has no base address. -/
theorem slotTexts_spaced {description : Option String} {base : String}
    (described : Page.descriptionTag spacedHeap spacedDraft.page.description =
      .ok (Page.descriptionLine description))
    (based : baseText spacedHeap (.str "") = .ok base) :
    Page.slotTexts spacedDraft.page description base (spacedBody named)
        (Page.styleTags "" false Page.stylesheetName) { headContent, bodyScripts } =
      spacedTexts headContent bodyScripts named := by
  have noLine : Page.descriptionLine description = Page.descriptionLine none :=
    (Except.ok.inj described).symm
  have noBase : base = "" := (Except.ok.inj based).symm
  rw [Page.slotTexts, noLine, noBase]
  rfl

theorem fillsOnce_spaced (once : Markup.rescanned (spacedTexts headContent bodyScripts named) =
      spacedTexts headContent bodyScripts named) :
    spacedDraft.page.FillsOnce spacedHeap (spacedBody named)
      (Page.styleTags "" false Page.stylesheetName) { headContent, bodyScripts } := by
  intro description base described based
  rw [slotTexts_spaced described based]
  exact once

variable (headContent bodyScripts named)

theorem documentText_spaced
    (once : Markup.rescanned (spacedTexts headContent bodyScripts named) =
      spacedTexts headContent bodyScripts named) :
    (spacedBuild headContent bodyScripts named).FillsOnce spacedDraft ∧
      (spacedBuild headContent bodyScripts named).documentText spacedDraft =
        .ok ((spacedBuild headContent bodyScripts named).reduced Markup.minify
          (String.ofList (spacedDocument headContent bodyScripts named))) := by
  obtain ⟨sheet, isStyled⟩ := style_spaced headContent bodyScripts named
  obtain ⟨state, rendered⟩ := render_spaced headContent bodyScripts named sheet
  have around (body : String) : (spacedBuild headContent bodyScripts named).document
      spacedDraft.page (spacedStyled sheet) body = spacedDraft.page.document spacedHeap body
        (Page.styleTags "" false Page.stylesheetName) { headContent, bodyScripts } := by
    cases named <;> rfl
  constructor
  · intro styled body state' isStyled' rendered'
    cases isStyled.symm.trans isStyled'
    cases rendered.symm.trans rendered'
    cases named <;> exact fillsOnce_spaced once
  · obtain ⟨document, written⟩ : ∃ document, spacedDraft.page.document spacedHeap (spacedBody named)
        (Page.styleTags "" false Page.stylesheetName) { headContent, bodyScripts } =
          .ok document := ⟨_, rfl⟩
    obtain ⟨description, base, described, based, rfl⟩ :=
      Page.document_eq_write (fillsOnce_spaced once) written
    rw [slotTexts_spaced described based, ← around] at written
    rw [Setting.documentText, isStyled]
    simp only [bind, Except.bind, rendered, written]
    rfl

end

/-- The values of an attribute, wherever an element has it. -/
def valuesOf (name : String) (tags : List Markup.Tag) : List (List Char) :=
  tags.flatMap fun tag => tag.attributes.filterMap fun
    | .value _ other value => if other = name.toList then some value else none
    | .flag _ => none

/-- The tag of the image, with the description that a document has. -/
def spacedTag (named : Bool) (alt : String) : Markup.Tag :=
  let component := if named then [Markup.Attribute.value "data-component-id" "c"] else []
  .opening "img" (component ++ [.value "class" "dc-c", .value "src" "", .value "alt" alt,
    .value "loading" "lazy"])

/-- What is read in both documents of the image, as they are before anything is read. -/
theorem exists_spacedDocument (headContent bodyScripts : String)
    (once : ∀ named, Markup.rescanned (spacedTexts headContent bodyScripts named) =
      spacedTexts headContent bodyScripts named) :
    ∃ text text',
      (spacedSetting headContent bodyScripts).inDevelopment.documentText spacedDraft = .ok text ∧
      (spacedSetting headContent bodyScripts).inProduction.documentText spacedDraft = .ok text' ∧
      text.toList = spacedDocument headContent bodyScripts true ∧
      text'.toList = Markup.minifyChars (spacedDocument headContent bodyScripts false) := by
  refine ⟨_, _, (documentText_spaced _ _ true (once true)).2,
    (documentText_spaced _ _ false (once false)).2, ?_, ?_⟩
  · have build : spacedBuild headContent bodyScripts true =
      (spacedSetting headContent bodyScripts).inDevelopment := rfl
    rw [build, Setting.reduced, Setting.shouldMinify_inDevelopment, if_neg nofun,
      String.toList_ofList]
  · have build : spacedBuild headContent bodyScripts false =
      (spacedSetting headContent bodyScripts).inProduction := rfl
    rw [build, Setting.reduced, Setting.shouldMinify_inProduction, if_pos rfl, Markup.minify,
      String.toList_ofList, String.toList_ofList]

/-! ## Both documents -/

/--
Both documents have the tags of the page's markup in their order. In the production document no tag
names its component, and of each value there is what reducing leaves: no character of code zero, and
one space for each run of blanks.
-/
theorem documents_elements {setting : Setting} {draft : Draft} {text text' : String}
    (refs : Markup.References) (core : setting.registry = Renderer.core)
    (templated : ∀ entry ∈ draft.entries, ∀ component, entry.component? = some component →
      isTemplated component.type = true)
    (head : IsSelfContained setting.options.headContent.toList)
    (once : setting.inDevelopment.FillsOnce draft) (once' : setting.inProduction.FillsOnce draft)
    (written : setting.inDevelopment.documentText draft = .ok text)
    (written' : setting.inProduction.documentText draft = .ok text') :
    setting.inDevelopment.Publishes draft text ∧ setting.inProduction.Publishes draft text' ∧
      ∃ styled body state, setting.inDevelopment.style draft = .ok styled ∧
        setting.inDevelopment.render draft.page styled = (.ok body, state) ∧
        ∃ before after before' after',
          elements refs text = before ++ elements refs body ++ after ∧
          elements refs text' =
            before' ++ (elements refs body).map Markup.Tag.reduced ++ after' := by
  refine ⟨Setting.publishes_of_documentText written, Setting.publishes_of_documentText written', ?_⟩
  obtain ⟨styled, body, state, document, isStyled, rendered, isDocument, content⟩ :=
    Setting.documentText_ok written
  obtain ⟨styled', body', state', document', isStyled', rendered', isDocument', content'⟩ :=
    Setting.documentText_ok written'
  obtain ⟨front, back, rfl, self⟩ := Setting.exists_front once head isStyled rendered isDocument
  obtain ⟨front', back', rfl, self'⟩ :=
    Setting.exists_front once' head isStyled' rendered' isDocument'
  have related := Setting.render_isReducedTo core templated isStyled isStyled' rendered rendered'
  obtain ⟨before, after, before', after', whole, reduced⟩ :=
    related.exists_elements refs self self' back back'
  refine ⟨styled, body, state, isStyled, rendered, before, after, before', after', ?_, ?_⟩
  · rw [content, Setting.reduced, Setting.shouldMinify_inDevelopment]
    exact whole
  · rw [content', Setting.reduced, Setting.shouldMinify_inProduction]
    exact reduced

theorem documents_elements_spaced :
    ∃ text text', (spacedSetting "" "").inDevelopment.documentText spacedDraft = .ok text ∧
      (spacedSetting "" "").inProduction.documentText spacedDraft = .ok text' ∧
      ∃ before after before' after',
        elements .basic text = before ++ [spacedTag true "a  b"] ++ after ∧
        elements .basic text' = before' ++ [spacedTag false "a b"] ++ after' := by
  obtain ⟨once, written⟩ := documentText_spaced "" "" true (by decide +kernel)
  obtain ⟨once', written'⟩ := documentText_spaced "" "" false (by decide +kernel)
  have templated : ∀ entry ∈ spacedDraft.entries, ∀ component, entry.component? = some component →
      isTemplated component.type = true := by
    intro entry member component isComponent
    cases List.mem_singleton.mp member
    cases isComponent
    decide
  have head : IsSelfContained "".toList := Markup.isSelfContained_bare (by decide)
  obtain ⟨-, -, styled, body, state, isStyled, rendered, before, after, before', after', whole,
    reduced⟩ := documents_elements .basic rfl templated head once once' written written'
  obtain ⟨sheet, isStyled'⟩ := style_spaced "" "" true
  obtain ⟨state', rendered'⟩ := render_spaced "" "" true sheet
  cases isStyled'.symm.trans isStyled
  cases rendered'.symm.trans rendered
  have tags : elements .basic (spacedBody true) = [spacedTag true "a  b"] := by decide +kernel
  have tags' : [spacedTag true "a  b"].map Markup.Tag.reduced = [spacedTag false "a b"] := by
    cbv
  rw [tags] at whole reduced
  rw [tags'] at reduced
  exact ⟨_, _, written, written', before, after, before', after', whole, reduced⟩

/--
Two blanks in a value become one. A mark in the head that opens a comment only for what reduces the
document takes the whole page with it, if a closing mark follows.
-/
theorem alt_of_spaced_changed :
    (∃ text text', (spacedSetting "" "").inDevelopment.documentText spacedDraft = .ok text ∧
      (spacedSetting "" "").inProduction.documentText spacedDraft = .ok text' ∧
      valuesOf "alt" (elements .basic text) = ["a  b".toList] ∧
      valuesOf "alt" (elements .basic text') = ["a b".toList]) ∧
    ∃ text text', (spacedSetting "<meta content=\"<!--\">" "-->").inDevelopment.documentText
        spacedDraft = .ok text ∧
      (spacedSetting "<meta content=\"<!--\">" "-->").inProduction.documentText spacedDraft =
        .ok text' ∧
      valuesOf "alt" (elements .basic text) = ["a  b".toList] ∧
      valuesOf "alt" (elements .basic text') = [] := by
  constructor
  · obtain ⟨text, text', written, written', shown, shown'⟩ :=
      exists_spacedDocument "" "" (by decide +kernel)
    refine ⟨text, text', written, written', ?_, ?_⟩
    · rw [Markup.elements_eq, shown]
      decide +kernel
    · rw [Markup.elements_eq, shown']
      decide +kernel
  · obtain ⟨text, text', written, written', shown, shown'⟩ :=
      exists_spacedDocument "<meta content=\"<!--\">" "-->" (by decide +kernel)
    refine ⟨text, text', written, written', ?_, ?_⟩
    · rw [Markup.elements_eq, shown]
      decide +kernel
    · rw [Markup.elements_eq, shown']
      decide +kernel

end StaticSite.Build
