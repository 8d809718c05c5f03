import Mathlib
import StaticSite.Proofs.Outcome
import StaticSite.Proofs.TagReading
import StaticSite.Renderer.Core

/-!
# The shape of what renderers build

A renderer builds a tree of tags that its template names. What it puts in as it is are line ends,
the markup of the zones and finished listings, so trees built of different markup in the zones have
the same shape.
-/

namespace StaticSite.Ordered

theorem mem_of_get?_eq_some {α : Type} {map : Ordered α} {name : String} {value : α}
    (found : get? map name = some value) : (name, value) ∈ map := by
  induction map with
  | nil => cases found
  | cons entry map ih =>
    rw [get?] at found
    split at found
    next same =>
      cases found
      exact List.mem_cons.mpr (.inl (by rw [← same]))
    next => exact List.mem_cons_of_mem _ (ih found)

end StaticSite.Ordered

namespace StaticSite.Markup

/-- The tags of a template, each with the attributes that it may have. -/
abbrev Words := List (String × List String)

/-- Whether a template writes this tag. -/
def Words.Allow (words : Words) (tag : String) (attributes : List Attribute) : Prop :=
  ∃ names, (tag, names) ∈ words ∧ ∀ attr ∈ attributes, attr.name ∈ names

section

variable (words : Words) (R : String → String → Prop)

mutual

/-- Trees of the same tags and texts, whose ready markup is related. -/
def Node.Alike : Node → Node → Prop
  | .text s, .text t => s = t
  | .ready markup, .ready other => R markup other
  | .void tag attributes, .void tag' attributes' =>
    tag = tag' ∧ attributes = attributes' ∧ words.Allow tag attributes
  | .element tag attributes content, .element tag' attributes' content' =>
    tag = tag' ∧ attributes = attributes' ∧ words.Allow tag attributes ∧ AllAlike content content'
  | _, _ => False

def AllAlike : List Node → List Node → Prop
  | [], [] => True
  | node :: nodes, node' :: nodes' => node.Alike node' ∧ AllAlike nodes nodes'
  | _, _ => False

end

variable {words R}

theorem alike_element {tag : String} {attributes : List Attribute} {content content' : List Node}
    (allowed : words.Allow tag attributes) (alike : AllAlike words R content content') :
    (Node.element tag attributes content).Alike words R (.element tag attributes content') :=
  ⟨rfl, rfl, allowed, alike⟩

theorem AllAlike.single {node node' : Node} (alike : node.Alike words R node') :
    AllAlike words R [node] [node'] := ⟨alike, trivial⟩

theorem AllAlike.append {a a' b b' : List Node} (first : AllAlike words R a a')
    (second : AllAlike words R b b') : AllAlike words R (a ++ b) (a' ++ b') := by
  induction a generalizing a' with
  | nil =>
    cases a' with
    | nil => exact second
    | cons => exact first.elim
  | cons node a ih =>
    cases a' with
    | nil => exact first.elim
    | cons node' a' => exact ⟨first.1, ih first.2⟩

theorem AllAlike.intersperse {node node' : Node} (between : node.Alike words R node')
    {a a' : List Node} (alike : AllAlike words R a a') :
    AllAlike words R (a.intersperse node) (a'.intersperse node') := by
  induction a generalizing a' with
  | nil =>
    cases a' with
    | nil => exact trivial
    | cons => exact alike.elim
  | cons first a ih =>
    cases a' with
    | nil => exact alike.elim
    | cons first' a' =>
      obtain ⟨here, later⟩ := alike
      have rest := ih later
      cases a with
      | nil =>
        cases a' with
        | nil => exact ⟨here, trivial⟩
        | cons => exact later.elim
      | cons second a =>
        cases a' with
        | nil => exact later.elim
        | cons second' a' => exact ⟨here, between, rest⟩

theorem AllAlike.map {α : Type} {f g : α → Node} {l m : List α} {related : α → α → Prop}
    (each : ∀ a b, related a b → (f a).Alike words R (g b)) (all : List.Forall₂ related l m) :
    AllAlike words R (l.map f) (m.map g) := by
  induction all with
  | nil => exact trivial
  | cons here _ ih => exact ⟨each _ _ here, ih⟩

theorem AllAlike.of_forall {nodes : List Node} (each : ∀ node ∈ nodes, node.Alike words R node) :
    AllAlike words R nodes nodes := by
  induction nodes with
  | nil => exact trivial
  | cons node nodes ih =>
    obtain ⟨here, later⟩ := List.forall_mem_cons.mp each
    exact ⟨here, ih later⟩

end

/-- The tag and the attributes of the element that a node is. -/
def Node.root? : Node → Option (String × List Attribute)
  | .void tag attributes => some (tag, attributes)
  | .element tag attributes _ => some (tag, attributes)
  | _ => none

theorem Node.exists_write_eq {node : Node} {tag : String} {attributes : List Attribute}
    (isRoot : node.root? = some (tag, attributes)) :
    ∃ more, node.write = openTag tag attributes ++ more := by
  cases node with
  | text s => cases isRoot
  | ready markup => cases isRoot
  | void tag attributes =>
    cases isRoot
    exact ⟨"", by rw [Node.write, String.append_empty]⟩
  | element tag attributes content =>
    cases isRoot
    exact ⟨writeAll content ++ ("</" ++ tag ++ ">"), by simp only [Node.write, String.append_assoc]⟩

end StaticSite.Markup

namespace StaticSite.Renderer

open Markup (Node Attribute Words AllAlike)

/-! ## Templates -/

/-- The attributes of an image that follow from props. -/
def imageNames : List String := ["src", "alt", "width", "height", "loading"]

/-- What the templates of the core renderers name. -/
def templates : Ordered Words :=
  [("Section", [("section", ["class", "id", "style"]), ("h2", [])]),
   ("Container", containerTags.map (·, ["class"])),
   ("Columns", [("div", ["class"])]),
   ("Heading", ["h1", "h2", "h3", "h4", "h5", "h6"].map (·, ["class"])),
   ("Text", [("p", ["class"]), ("br", [])]),
   ("Image", [("a", ["class", "href"]), ("img", "class" :: imageNames)]),
   ("Gallery", [("div", ["class"]), ("figure", []), ("img", imageNames), ("figcaption", [])]),
   ("Button", [("a", ["class", "href"]), ("button", ["class", "type"])]),
   ("Link", [("a", ["class", "href", "target", "rel"])]),
   ("Video", [("video", ["class", "src", "poster", "controls", "autoplay", "loop", "muted"])]),
   ("Spacer", [("div", ["class", "style", "aria-hidden"])]),
   ("Divider", [("hr", ["class"])]),
   ("CodeBlock", [("div", ["class", "data-lang"]), ("pre", []), ("code", []), ("span", ["class"]),
     ("table", ["class"]), ("tr", []), ("td", ["class"])])]

/-- What the template of a type names; nothing if the type has none. -/
def words (type : String) : Words := (Ordered.get? templates type).getD []

theorem name_of_mem_filled {heap : Heap} {props : Entries} {key name : String} {attr : Attribute}
    (member : attr ∈ filled heap props key name) : attr.name = name := by
  simp only [filled, Option.mem_toList, Option.map_eq_some_iff] at member
  obtain ⟨text, -, rfl⟩ := member
  rfl

theorem name_of_mem_backgroundStyle {value : Value} {attr : Attribute}
    (member : attr ∈ backgroundStyle value) : attr.name = "style" := by
  unfold backgroundStyle at member
  split at member
  · split at member
    · cases member
    · rw [List.mem_singleton.mp member]
      rfl
  · cases member

section

variable {R : String → String → Prop} {heap : Heap} {props : Entries}
  {children children' : Children} {context : Context}

theorem onLines_alike {template : Words} (line : R "\n" "\n") {nodes nodes' : List Node}
    (alike : AllAlike template R nodes nodes') :
    AllAlike template R (onLines nodes) (onLines nodes') := by
  have between : Markup.line.Alike template R Markup.line := line
  exact .append (.append ⟨line, trivial⟩ (.intersperse between alike)) ⟨line, trivial⟩

theorem sectionNode_alike (line : R "\n" "\n") (joined : R children.joined children'.joined) :
    (sectionNode heap props children context).Alike (words "Section") R
      (sectionNode heap props children' context) := by
  have anchor (attr : Attribute) (member : attr ∈ filled heap props "anchor" "id") :
      attr.name ∈ ["class", "id", "style"] := by simp [name_of_mem_filled member]
  have style (attr : Attribute) (member : attr ∈ backgroundStyle (props.get "backgroundImage")) :
      attr.name ∈ ["class", "id", "style"] := by simp [name_of_mem_backgroundStyle member]
  have root : (words "Section").Allow "section" ([classOf context] ++
      filled heap props "anchor" "id" ++ backgroundStyle (props.get "backgroundImage")) := by
    refine ⟨["class", "id", "style"], by decide, ?_⟩
    simp only [List.forall_mem_append]
    exact ⟨⟨by simp [classOf, Attribute.name], anchor⟩, style⟩
  have heading : (words "Section").Allow "h2" [] := ⟨[], by decide, List.forall_mem_nil _⟩
  refine Markup.alike_element root (.append (.append ⟨line, trivial⟩ ?_) ⟨joined, line, trivial⟩)
  split
  · exact ⟨⟨rfl, rfl, heading, rfl, trivial⟩, line, trivial⟩
  · exact trivial

/-- Whatever the prop holds, the tag is one of the six. -/
theorem containerTag_mem {tag : String} (found : containerTag heap props = .ok tag) :
    tag ∈ containerTags := by
  unfold containerTag at found
  split at found
  · cases found
    split
    next allowed => exact allowed
    · decide
  · cases found
    decide
  · split at found
    · cases found
    · cases found
      decide

theorem containerNode_alike (line : R "\n" "\n") (joined : R children.joined children'.joined)
    {node : Node} (rendered : containerNode heap props children context = .ok node) :
    ∃ node', containerNode heap props children' context = .ok node' ∧
      node.Alike (words "Container") R node' := by
  obtain ⟨tag, found, built⟩ := exists_of_bind_eq_ok rendered
  cases built
  have allowed : (words "Container").Allow tag [classOf context] :=
    ⟨["class"], List.mem_map_of_mem (containerTag_mem found),
      by simp [classOf, Attribute.name]⟩
  refine ⟨_, by rw [containerNode, found]; rfl, ?_⟩
  exact Markup.alike_element allowed ⟨line, joined, line, trivial⟩

theorem columnsNode_alike (line : R "\n" "\n")
    (zones : List.Forall₂ R (Ordered.values children) (Ordered.values children')) :
    (columnsNode children context).Alike (words "Columns") R (columnsNode children' context) := by
  have root : (words "Columns").Allow "div" [classWith context "columns"] :=
    ⟨["class"], by decide, by simp [classWith, Attribute.name]⟩
  have column : (words "Columns").Allow "div" [.value "class" "column"] :=
    ⟨["class"], by decide, by simp [Attribute.name]⟩
  exact Markup.alike_element root (onLines_alike line
    (.map (fun _ _ related => Markup.alike_element column ⟨related, trivial⟩) zones))

theorem headingNode_alike {node : Node} (rendered : headingNode heap props context = .ok node) :
    node.Alike (words "Heading") R node := by
  obtain ⟨level, found, built⟩ := exists_of_bind_eq_ok rendered
  cases built
  have bounds : 1 ≤ level ∧ level ≤ 6 := by
    obtain ⟨n, -, clamped⟩ := exists_of_bind_eq_ok found
    cases clamped
    omega
  have tag : ("h" ++ toString level, ["class"]) ∈ words "Heading" := by
    obtain ⟨low, high⟩ := bounds
    interval_cases level <;> decide
  exact Markup.alike_element ⟨_, tag, by simp [classOf, Attribute.name]⟩ ⟨rfl, trivial⟩

theorem textNode_alike : (textNode heap props context).Alike (words "Text") R
    (textNode heap props context) := by
  have root : (words "Text").Allow "p" [classOf context] :=
    ⟨["class"], by decide, by simp [classOf, Attribute.name]⟩
  have lineBreak : (Node.void "br" []).Alike (words "Text") R (.void "br" []) :=
    ⟨rfl, rfl, [], by decide, List.forall_mem_nil _⟩
  refine Markup.alike_element root (.intersperse lineBreak (.of_forall ?_))
  intro node member
  obtain ⟨s, -, rfl⟩ := List.mem_map.mp member
  exact rfl

theorem imageNode_alike {template : Words} (names : List String) {attributes : List Attribute}
    (tag : ("img", names) ∈ template) (image : imageNames ⊆ names)
    (more : ∀ attr ∈ attributes, attr.name ∈ names) :
    (imageNode heap props attributes).Alike template R (imageNode heap props attributes) := by
  have size (key : String) (known : key ∈ imageNames) (attr : Attribute)
      (member : attr ∈ filled heap props key key) : attr.name ∈ names := by
    rw [name_of_mem_filled member]
    exact image known
  refine ⟨rfl, rfl, names, tag, ?_⟩
  simp only [List.forall_mem_append]
  refine ⟨⟨⟨⟨more, ?_⟩, size "width" (by decide)⟩, size "height" (by decide)⟩, ?_⟩
  · simp only [List.forall_mem_cons, Attribute.name]
    exact ⟨image (by decide), image (by decide), List.forall_mem_nil _⟩
  · split
    · rw [List.forall_mem_singleton]
      exact image (by decide)
    · exact List.forall_mem_nil _

theorem linkedImageNode_alike : (linkedImageNode heap props context).Alike (words "Image") R
    (linkedImageNode heap props context) := by
  have image {attributes : List Attribute} (more : ∀ attr ∈ attributes, attr.name = "class") :
      (imageNode heap props attributes).Alike (words "Image") R (imageNode heap props attributes) :=
    imageNode_alike ("class" :: imageNames) (by decide) (List.subset_cons_self _ _)
      fun attr member => by simp [more attr member]
  unfold linkedImageNode
  split
  · exact Markup.alike_element ⟨["class", "href"], by decide, by simp [classOf, Attribute.name]⟩
      ⟨image nofun, trivial⟩
  · exact image (by simp [classOf, Attribute.name])

theorem figureNode?_alike {item : Value} {node : Node} (shown : figureNode? heap item = some node) :
    node.Alike (words "Gallery") R node := by
  simp only [figureNode?, Option.bind_eq_bind, Option.bind_eq_some_iff, Option.some.injEq] at shown
  obtain ⟨props, -, -, -, rfl⟩ := shown
  have image : (imageNode heap props []).Alike (words "Gallery") R (imageNode heap props []) :=
    imageNode_alike imageNames (by decide) (List.Subset.refl _) nofun
  have figure : (words "Gallery").Allow "figure" [] := ⟨[], by decide, nofun⟩
  have caption : (words "Gallery").Allow "figcaption" [] := ⟨[], by decide, nofun⟩
  refine Markup.alike_element figure ⟨image, ?_⟩
  split
  · exact ⟨Markup.alike_element caption ⟨rfl, trivial⟩, trivial⟩
  · exact trivial

theorem galleryNode_alike (line : R "\n" "\n") {node : Node}
    (rendered : galleryNode heap props context = .ok node) :
    node.Alike (words "Gallery") R node := by
  obtain ⟨items, -, built⟩ := exists_of_bind_eq_ok rendered
  cases built
  have root : (words "Gallery").Allow "div" [classWith context "gallery"] :=
    ⟨["class"], by decide, by simp [classWith, Attribute.name]⟩
  refine Markup.alike_element root (onLines_alike line (.of_forall fun node member => ?_))
  obtain ⟨item, -, shown⟩ := List.mem_filterMap.mp member
  exact figureNode?_alike shown

theorem buttonNode_alike : (buttonNode heap props context).Alike (words "Button") R
    (buttonNode heap props context) := by
  unfold buttonNode
  split
  · exact Markup.alike_element ⟨["class", "href"], by decide, by simp [classWith, Attribute.name]⟩
      ⟨rfl, trivial⟩
  · exact Markup.alike_element ⟨["class", "type"], by decide, by simp [classOf, Attribute.name]⟩
      ⟨rfl, trivial⟩

theorem linkNode_alike : (linkNode heap props context).Alike (words "Link") R
    (linkNode heap props context) := by
  refine Markup.alike_element ⟨["class", "href", "target", "rel"], by decide, ?_⟩ ⟨rfl, trivial⟩
  rw [List.forall_mem_append]
  refine ⟨by simp [classOf, Attribute.name], ?_⟩
  split
  · simp [Attribute.name]
  · exact List.forall_mem_nil _

theorem videoNode_alike : (videoNode heap props context).Alike (words "Video") R
    (videoNode heap props context) := by
  refine Markup.alike_element
    ⟨["class", "src", "poster", "controls", "autoplay", "loop", "muted"], by decide, ?_⟩ trivial
  simp only [List.forall_mem_append]
  refine ⟨⟨by simp [classOf, Attribute.name], fun attr member => ?_⟩, fun attr member => ?_⟩
  · simp [name_of_mem_filled member]
  · obtain ⟨flag, kept, rfl⟩ := List.mem_map.mp member
    have known : flag ∈ ["controls", "autoplay", "loop", "muted"] := (List.mem_filter.mp kept).1
    simp only [List.mem_cons, List.not_mem_nil, or_false] at known
    rcases known with rfl | rfl | rfl | rfl <;> decide

theorem spacerNode_alike {node : Node} (rendered : spacerNode props context = .ok node) :
    node.Alike (words "Spacer") R node := by
  obtain ⟨height, -, built⟩ := exists_of_bind_eq_ok rendered
  cases built
  exact Markup.alike_element
    ⟨["class", "style", "aria-hidden"], by decide, by simp [classOf, Attribute.name]⟩ trivial

end

/-! ## Cases on the type -/

/-- The core component types one by one, each with its renderer. -/
theorem core_cases {motive : ∀ type renderer, (type, renderer) ∈ core → Prop}
    (sectioned : ∀ listed, motive "Section" ⟨"section", fun heap props children context =>
      .ok (sectionNode heap props children context)⟩ listed)
    (container : ∀ listed, motive "Container" ⟨"container", containerNode⟩ listed)
    (columns : ∀ listed, motive "Columns" ⟨"columns", fun _ _ children context =>
      .ok (columnsNode children context)⟩ listed)
    (heading : ∀ listed, motive "Heading" ⟨"heading", fun heap props _ context =>
      headingNode heap props context⟩ listed)
    (text : ∀ listed, motive "Text" ⟨"text", fun heap props _ context =>
      .ok (textNode heap props context)⟩ listed)
    (richText : ∀ listed, motive "RichText" ⟨"rich_text", fun heap props _ context =>
      .ok (richTextNode heap props context)⟩ listed)
    (image : ∀ listed, motive "Image" ⟨"image", fun heap props _ context =>
      .ok (linkedImageNode heap props context)⟩ listed)
    (gallery : ∀ listed, motive "Gallery" ⟨"gallery", fun heap props _ context =>
      galleryNode heap props context⟩ listed)
    (button : ∀ listed, motive "Button" ⟨"button", fun heap props _ context =>
      .ok (buttonNode heap props context)⟩ listed)
    (link : ∀ listed, motive "Link" ⟨"link", fun heap props _ context =>
      .ok (linkNode heap props context)⟩ listed)
    (video : ∀ listed, motive "Video" ⟨"video", fun heap props _ context =>
      .ok (videoNode heap props context)⟩ listed)
    (spacer : ∀ listed, motive "Spacer" ⟨"spacer", fun _ props _ context =>
      spacerNode props context⟩ listed)
    (divider : ∀ listed, motive "Divider" ⟨"divider", fun _ _ _ context =>
      .ok (.void "hr" [classOf context])⟩ listed)
    (code : ∀ listed, motive "CodeBlock" ⟨"code_block", fun heap props _ context =>
      .ok (codeNode heap props context)⟩ listed)
    (html : ∀ listed, motive "Html" ⟨"html", fun heap props _ context =>
      .ok (rawNode heap props context)⟩ listed)
    {type : String} {renderer : Renderer} (listed : (type, renderer) ∈ core) :
    motive type renderer listed := by
  have known := listed
  simp only [core, List.mem_cons, Prod.mk.injEq, List.not_mem_nil, or_false] at known
  rcases known with ⟨rfl, rfl⟩ | ⟨rfl, rfl⟩ | ⟨rfl, rfl⟩ | ⟨rfl, rfl⟩ | ⟨rfl, rfl⟩ | ⟨rfl, rfl⟩ |
    ⟨rfl, rfl⟩ | ⟨rfl, rfl⟩ | ⟨rfl, rfl⟩ | ⟨rfl, rfl⟩ | ⟨rfl, rfl⟩ | ⟨rfl, rfl⟩ | ⟨rfl, rfl⟩ |
    ⟨rfl, rfl⟩ | ⟨rfl, rfl⟩
  exacts [sectioned _, container _, columns _, heading _, text _, richText _, image _, gallery _,
    button _, link _, video _, spacer _, divider _, code _, html _]

/-! ## The element -/

/-- The classes that some elements have beside that of their component. -/
def commonClasses : List String := ["columns", "rich-text", "gallery", "button"]

/-- What can follow the class of the component in the class attribute of its element. -/
def classEnds : List String := "" :: commonClasses.map (" " ++ ·)

section

variable {type : String} {renderer : Renderer} {heap : Heap} {props : Entries}
  {children : Children} {context : Context} {node : Node}

/-- Every core renderer makes one element, and starts its attributes with the component's class. -/
theorem root?_core (listed : (type, renderer) ∈ core)
    (rendered : renderer.render heap props children context = .ok node) :
    ∃ tag attributes, ∃ more ∈ classEnds,
      node.root? = some (tag, .value "class" (context.className ++ more) :: attributes) := by
  have alone {tag : String} {attributes : List Attribute}
      (isRoot : node.root? = some (tag, classOf context :: attributes)) :
      ∃ tag attributes, ∃ more ∈ classEnds,
        node.root? = some (tag, .value "class" (context.className ++ more) :: attributes) :=
    ⟨tag, attributes, "", List.mem_cons_self .., by rw [isRoot, String.append_empty]; rfl⟩
  have beside (common : String) {tag : String} {attributes : List Attribute}
      (known : common ∈ commonClasses)
      (isRoot : node.root? = some (tag, classWith context common :: attributes)) :
      ∃ tag attributes, ∃ more ∈ classEnds,
        node.root? = some (tag, .value "class" (context.className ++ more) :: attributes) :=
    ⟨tag, attributes, " " ++ common, List.mem_cons_of_mem _ (List.mem_map_of_mem known), by
      rw [isRoot, ← String.append_assoc]; rfl⟩
  cases listed using core_cases with
  | sectioned =>
    cases rendered
    exact alone rfl
  | container =>
    obtain ⟨tag, -, built⟩ := exists_of_bind_eq_ok rendered
    cases built
    exact alone rfl
  | columns =>
    cases rendered
    exact beside "columns" (by decide) rfl
  | heading =>
    obtain ⟨level, -, built⟩ := exists_of_bind_eq_ok rendered
    cases built
    exact alone rfl
  | text =>
    cases rendered
    exact alone rfl
  | richText =>
    cases rendered
    exact beside "rich-text" (by decide) rfl
  | image =>
    cases rendered
    cases link : filledText? heap props "href" with
    | some href => exact alone (by simp only [linkedImageNode, link]; rfl)
    | none => exact alone (by simp only [linkedImageNode, link]; rfl)
  | gallery =>
    obtain ⟨items, -, built⟩ := exists_of_bind_eq_ok rendered
    cases built
    exact beside "gallery" (by decide) rfl
  | button =>
    cases rendered
    cases link : filledText? heap props "href" with
    | some href => exact beside "button" (by decide) (by simp only [buttonNode, link]; rfl)
    | none => exact alone (by simp only [buttonNode, link]; rfl)
  | link =>
    cases rendered
    exact alone rfl
  | video =>
    cases rendered
    exact alone rfl
  | spacer =>
    obtain ⟨height, -, built⟩ := exists_of_bind_eq_ok rendered
    cases built
    exact alone rfl
  | divider =>
    cases rendered
    exact alone rfl
  | code =>
    cases rendered
    exact alone rfl
  | html =>
    cases rendered
    exact alone rfl

end

/-! ## Templated types -/

/-- The types whose renderers put in no finished markup but that of the zones. -/
def isTemplated (type : String) : Bool := !(["RichText", "CodeBlock", "Html"].contains type)

/-- What a templated renderer makes of different zones has the same shape. -/
theorem render_alike {R : String → String → Prop} {type : String} {renderer : Renderer}
    (listed : (type, renderer) ∈ core) (templated : isTemplated type = true) {heap : Heap}
    {props : Entries} {children children' : Children} {context : Context} (line : R "\n" "\n")
    (joined : R children.joined children'.joined)
    (zones : List.Forall₂ R (Ordered.values children) (Ordered.values children')) {node : Node}
    (rendered : renderer.render heap props children context = .ok node) :
    ∃ node', renderer.render heap props children' context = .ok node' ∧
      node.Alike (words type) R node' := by
  cases listed using core_cases with
  | sectioned =>
    cases rendered
    exact ⟨_, rfl, sectionNode_alike line joined⟩
  | container => exact containerNode_alike line joined rendered
  | columns =>
    cases rendered
    exact ⟨_, rfl, columnsNode_alike line zones⟩
  | heading => exact ⟨_, rendered, headingNode_alike rendered⟩
  | text =>
    cases rendered
    exact ⟨_, rfl, textNode_alike⟩
  | image =>
    cases rendered
    exact ⟨_, rfl, linkedImageNode_alike⟩
  | gallery => exact ⟨_, rendered, galleryNode_alike line rendered⟩
  | button =>
    cases rendered
    exact ⟨_, rfl, buttonNode_alike⟩
  | link =>
    cases rendered
    exact ⟨_, rfl, linkNode_alike⟩
  | video =>
    cases rendered
    exact ⟨_, rfl, videoNode_alike⟩
  | spacer => exact ⟨_, rendered, spacerNode_alike rendered⟩
  | divider =>
    cases rendered
    exact ⟨_, rfl, ⟨rfl, rfl, ["class"], by decide, by simp [classOf, Attribute.name]⟩⟩
  | richText => exact absurd templated (by decide)
  | code => exact absurd templated (by decide)
  | html => exact absurd templated (by decide)

end StaticSite.Renderer
