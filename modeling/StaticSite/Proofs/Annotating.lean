import StaticSite.Proofs.Folding
import StaticSite.Proofs.TwoRenderings

/-!
# Places of annotations

Markup is written with or without the ids of its components. What both writings have in common is
markup in which the places of the ids are marked: each component has one, behind the name of its own
first tag. The renderers put such markup together from that of the zones, if they show the zones at
all.
-/

namespace StaticSite.Markup

theorem writeAll_append (nodes others : List Node) :
    writeAll (nodes ++ others) = writeAll nodes ++ writeAll others := by
  induction nodes with
  | nil => exact (String.empty_append ..).symm
  | cons node nodes ih => rw [List.cons_append, writeAll, writeAll, ih, String.append_assoc]

end StaticSite.Markup

namespace StaticSite.Rendering

open Markup (Attribute Node componentAttribute isPlainName openTag writeAll)
open Renderer (core)

/-! ## Signs -/

/-- A character of markup, or the place of the id of a component. -/
inductive Sign where
  | char (c : Char)
  | place (id : String)
deriving DecidableEq, Repr

/-- What a sign is written as. -/
def Sign.text (annotate : Bool) : Sign → List Char
  | .char c => [c]
  | .place id => if annotate then (Attribute.value componentAttribute id).write.toList else []

def Sign.place? : Sign → Option String
  | .char _ => none
  | .place id => some id

/-- The markup of signs, with or without the ids that have their places in it. -/
def written (annotate : Bool) (signs : List Sign) : String :=
  String.ofList (signs.flatMap (Sign.text annotate))

/-- The ids that have their places among these signs. -/
def places (signs : List Sign) : List String := signs.filterMap Sign.place?

/-- The element of a component: the place of its id is behind the name of its first tag. -/
def rooted (id : String) (name : List Char) (inside : List Sign) : List Sign :=
  .char '<' :: (name.map .char ++ .place id :: inside)

theorem written_append (annotate : Bool) (s t : List Sign) :
    written annotate (s ++ t) = written annotate s ++ written annotate t := by
  rw [written, List.flatMap_append, String.ofList_append]
  rfl

theorem written_chars (annotate : Bool) (s : List Char) :
    written annotate (s.map .char) = String.ofList s := by
  rw [written, List.flatMap_map]
  exact congrArg String.ofList (List.flatMap_singleton' s)

theorem places_append (s t : List Sign) : places (s ++ t) = places s ++ places t :=
  List.filterMap_append

theorem places_chars (s : List Char) : places (s.map .char) = [] := by
  rw [places, List.filterMap_map]
  exact List.filterMap_none s

theorem places_rooted (id : String) (name : List Char) (inside : List Sign) :
    places (rooted id name inside) = id :: places inside := by
  change places (name.map .char ++ ([.place id] ++ inside)) = _
  rw [places_append, places_append, places_chars]
  rfl

/-! ## Marked markup -/

/-- The types whose renderers show what the zones hold. -/
def showsZones (type : String) : Bool := ["Section", "Container", "Columns"].contains type

def Forest.branches : Forest → List Branch
  | .nil => []
  | .cons first rest => first :: rest.branches

def Zones.branches : Zones → List Branch
  | .nil => []
  | .cons _ forest rest => forest.branches ++ rest.branches

/-- The branches that a component shows. -/
def shown (component : Component) (zones : Zones) : List Branch :=
  if showsZones component.type then zones.branches else []

/-- The scene with or without annotations. -/
def Scene.annotating (scene : Scene) (annotate : Bool) : Scene :=
  { scene with options := { scene.options with annotate } }

/--
Signs that are the markup of branches. Each branch has a part of its own; in that of a component the
place of its id is behind the name of the first tag, and behind it stands what the component shows.
-/
inductive Marks (scene : Scene) : List Branch → List Sign → Prop
  | text (s : List Char) : Marks scene [] (s.map .char)
  | append {front back : List Branch} {s t : List Sign} (isFront : Marks scene front s)
      (isBack : Marks scene back t) : Marks scene (front ++ back) (s ++ t)
  | stray (id : String) : Marks scene [.stray id] []
  | root {component : Component} {zones : Zones} {name : List Char} {inside : List Sign}
      (isName : isPlainName name = true)
      (ends : inside.head? = some (.char ' ') ∨ inside.head? = some (.char '>'))
      (inner : Marks scene (shown component zones) inside)
      (own : ∀ annotate, (Branch.node component zones).markup (scene.annotating annotate) =
        .ok (written annotate (rooted component.id name inside))) :
      Marks scene [.node component zones] (rooted component.id name inside)

variable {scene : Scene}

theorem Marks.written_eq_empty_iff {branches : List Branch} {signs : List Sign}
    (marks : Marks scene branches signs) (annotate : Bool) :
    written annotate signs = "" ↔ signs = [] := by
  induction marks with
  | text s => rw [written_chars, String.ofList_eq_empty_iff, List.map_eq_nil_iff]
  | append _ _ front back =>
    rw [written_append, String.append_eq_empty_iff, front, back, List.append_eq_nil_iff]
  | stray id => exact iff_of_true rfl rfl
  | root => exact iff_of_false (by simp [written, rooted, Sign.text]) nofun

/-- Whether these are the two markups of branches, the one without ids and the one with them. -/
def IsMarkup (scene : Scene) (branches : List Branch) (text : Bool → String) : Prop :=
  ∃ signs, Marks scene branches signs ∧ ∀ annotate, text annotate = written annotate signs

namespace IsMarkup

variable {front back : List Branch} {f g : Bool → String}

theorem const (s : String) : IsMarkup scene [] fun _ => s :=
  ⟨s.toList.map .char, .text _, fun annotate => by rw [written_chars, String.ofList_toList]⟩

theorem append (isFront : IsMarkup scene front f) (isBack : IsMarkup scene back g) :
    IsMarkup scene (front ++ back) fun annotate => f annotate ++ g annotate := by
  obtain ⟨s, marks, writes⟩ := isFront
  obtain ⟨t, marks', writes'⟩ := isBack
  refine ⟨s ++ t, marks.append marks', fun annotate => ?_⟩
  rw [written_append, ← writes, ← writes']

/-- Markup between two texts that do not depend on the zones. -/
theorem between (before after : String) (isMarkup : IsMarkup scene front f) :
    IsMarkup scene front fun annotate => before ++ f annotate ++ after := by
  have whole := ((const before).append isMarkup).append (const after)
  rwa [List.nil_append, List.append_nil] at whole

/-- Markup is empty with the ids where it is empty without them. -/
theorem eq_empty_or (isMarkup : IsMarkup scene front f) :
    (∀ annotate, f annotate = "") ∨ ∀ annotate, f annotate ≠ "" := by
  obtain ⟨signs, marks, writes⟩ := isMarkup
  simp only [writes, ne_eq, marks.written_eq_empty_iff, forall_const]
  exact em _

end IsMarkup

theorem joined_cons (markup : String) (markups : List String) :
    joined (markup :: markups) =
      if markup = "" then joined markups
      else if joined markups = "" then markup else markup ++ "\n" ++ joined markups := by
  unfold joined
  by_cases isEmpty : markup = ""
  · simp [isEmpty]
  · rw [List.filter_cons_of_pos (by simp [isEmpty]), if_neg isEmpty]
    cases filled : markups.filter (· ≠ "") with
    | nil => simp [String.intercalate_singleton]
    | cons next others =>
      have isFilled : next ≠ "" := by
        have member : next ∈ markups.filter (· ≠ "") := filled ▸ List.mem_cons_self ..
        simpa using (List.mem_filter.mp member).2
      have more : "\n".intercalate (next :: others) ≠ "" := by
        cases others with
        | nil => simpa [String.intercalate_singleton] using isFilled
        | cons _ _ =>
          rw [String.intercalate_cons_cons]
          simp [String.append_eq_empty_iff]
      rw [String.intercalate_cons_cons, if_neg more]

/-- The markups of several parts, one after the other. -/
theorem IsMarkup.joined {parts : List (List Branch)} {texts : List (Bool → String)}
    (each : List.Forall₂ (IsMarkup scene) parts texts) :
    IsMarkup scene parts.flatten fun annotate => Rendering.joined (texts.map (· annotate)) := by
  induction each with
  | nil => exact .const ""
  | @cons part text parts texts here _ ih =>
    simp only [List.map_cons, joined_cons, List.flatten_cons]
    rcases here.eq_empty_or with isEmpty | filled
    · simpa [isEmpty] using here.append ih
    · rcases ih.eq_empty_or with none | more
      · simpa [filled, none] using here.append ih
      · simpa [filled, more] using (here.append (.const "\n")).append ih

/-! ## Renderers -/

/-- The zones of a component in one of the two markups. -/
def childrenIn (texts : Ordered (Bool → String)) (annotate : Bool) : Children :=
  texts.map fun entry => (entry.1, entry.2 annotate)

theorem values_childrenIn (texts : Ordered (Bool → String)) (annotate : Bool) :
    Ordered.values (childrenIn texts annotate) = (Ordered.values texts).map (· annotate) := by
  simp [childrenIn, Ordered.values]

section

variable {type : String} {renderer : Renderer} {heap : Heap} {props : Entries}
  {children : Children} {context : Renderer.Context} {node : Node}

/-- A renderer that does not show the zones does not look at them. -/
theorem render_unread (listed : (type, renderer) ∈ core) (closed : showsZones type = false)
    (others : Children) :
    renderer.render heap props children context = renderer.render heap props others context := by
  cases listed using Renderer.core_cases <;>
    first
    | rfl
    | exact absurd closed (by decide)

/-- The renderers that show the zones. -/
theorem showsZones_cases (listed : (type, renderer) ∈ core) (shows : showsZones type = true) :
    (type = "Section" ∧ renderer = ⟨"section", fun heap props children context =>
      .ok (Renderer.sectionNode heap props children context)⟩) ∨
    (type = "Container" ∧ renderer = ⟨"container", Renderer.containerNode⟩) ∨
    (type = "Columns" ∧ renderer = ⟨"columns", fun _ _ children context =>
      .ok (Renderer.columnsNode children context)⟩) := by
  have kept : (type, renderer) ∈ core.filter fun entry => showsZones entry.1 :=
    List.mem_filter.mpr ⟨listed, shows⟩
  have three : (core.filter fun entry => showsZones entry.1) = core.take 3 := rfl
  rw [three] at kept
  simpa [core] using kept

/-- What the zones hold does not decide whether a component can be rendered. -/
theorem render_succeeds (listed : (type, renderer) ∈ core)
    (rendered : renderer.render heap props children context = .ok node) (others : Children) :
    ∃ other, renderer.render heap props others context = .ok other := by
  cases shows : showsZones type with
  | false => exact ⟨node, (render_unread listed shows others).symm.trans rendered⟩
  | true =>
    rcases showsZones_cases listed shows with ⟨rfl, rfl⟩ | ⟨rfl, rfl⟩ | ⟨rfl, rfl⟩
    · exact ⟨_, rfl⟩
    · obtain ⟨tag, found, -⟩ := exists_of_bind_eq_ok rendered
      exact ⟨_, congrArg (· >>= _) found⟩
    · exact ⟨_, rfl⟩

/-- What any renderer builds is one element, with a name that every reader takes for the same. -/
theorem render_root (listed : (type, renderer) ∈ core)
    (rendered : renderer.render heap props children context = .ok node) :
    ∃ tag attributes more, isPlainName tag.toList = true ∧
      node.write = openTag tag attributes ++ more := by
  obtain ⟨tag, attributes, more, -, isRoot⟩ := Renderer.root?_core listed rendered
  obtain ⟨rest, writes⟩ := Markup.Node.exists_write_eq isRoot
  exact ⟨tag, _, rest, (Renderer.isPlain_root_core listed rendered isRoot).name, writes⟩

/-- A tag around nodes that are markup of branches, and others that do not depend on the zones. -/
theorem IsMarkup.element (tag : String) (attributes : List Attribute) {branches : List Branch}
    {content : Bool → List Node}
    (isMarkup : IsMarkup scene branches fun annotate => writeAll (content annotate))
    (before after : List Node) :
    ∃ body, IsMarkup scene branches body ∧ ∀ annotate,
      (Node.element tag attributes (before ++ content annotate ++ after)).write =
        openTag tag attributes ++ body annotate := by
  refine ⟨_, isMarkup.between (writeAll before) (writeAll after ++ ("</" ++ tag ++ ">")), ?_⟩
  intro annotate
  simp only [Node.write, Markup.writeAll_append, String.append_assoc]

/-- Markup in a column of its own. -/
def column (markup : String) : Node := .element "div" [.value "class" "column"] [.ready markup]

theorem write_column (markup : String) :
    (column markup).write = openTag "div" [.value "class" "column"] ++ markup ++ "</div>" := by
  rw [column, Node.write, writeAll, writeAll, Node.write, String.append_empty]
  simp only [String.append_assoc]
  rfl

theorem IsMarkup.columns {parts : List (List Branch)} {texts : List (Bool → String)}
    (each : List.Forall₂ (IsMarkup scene) parts texts) :
    IsMarkup scene parts.flatten fun annotate =>
      writeAll ((texts.map fun text => column (text annotate)).intersperse Markup.line) := by
  induction each with
  | nil => exact .const ""
  | @cons part text parts texts here later ih =>
    have first : IsMarkup scene part fun annotate => (column (text annotate)).write := by
      simp only [write_column]
      exact here.between _ _
    cases later with
    | nil => simpa [writeAll] using first
    | cons _ _ =>
      have whole := (first.append (.const Markup.line.write)).append ih
      simpa [writeAll, String.append_assoc] using whole

theorem exists_sectionNode_eq (heap : Heap) (props : Entries) (context : Renderer.Context) :
    ∃ attributes before, ∀ children, Renderer.sectionNode heap props children context =
      .element "section" attributes (before ++ [.ready children.joined] ++ [Markup.line]) :=
  ⟨_, _, fun children => congrArg (Node.element "section" _)
    (List.append_assoc _ [Node.ready children.joined] [Markup.line]).symm⟩

variable {parts : List (List Branch)} {texts : Ordered (Bool → String)}

/--
What a renderer builds of the zones in one mode it builds in both: the same tag, and behind it
markup of what the zones hold, or nothing of it.
-/
theorem render_isMarkup (listed : (type, renderer) ∈ core)
    (each : List.Forall₂ (IsMarkup scene) parts (Ordered.values texts)) {annotate : Bool}
    (rendered : renderer.render heap props (childrenIn texts annotate) context = .ok node) :
    ∃ tag attributes body, isPlainName tag.toList = true ∧
      IsMarkup scene (if showsZones type then parts.flatten else []) body ∧
      ∀ annotate, ∃ node, renderer.render heap props (childrenIn texts annotate) context = .ok node ∧
        node.write = openTag tag attributes ++ body annotate := by
  have joined : IsMarkup scene parts.flatten fun annotate =>
      writeAll [.ready (childrenIn texts annotate).joined] := by
    simp only [writeAll, Node.write, String.append_empty, Children.joined, values_childrenIn]
    exact .joined each
  cases shows : showsZones type with
  | false =>
    obtain ⟨tag, attributes, more, plain, writes⟩ := render_root listed rendered
    refine ⟨tag, attributes, fun _ => more, plain, .const more, fun _ => ⟨node, ?_, writes⟩⟩
    rw [← rendered]
    exact render_unread listed shows _
  | true =>
    rcases showsZones_cases listed shows with ⟨rfl, rfl⟩ | ⟨rfl, rfl⟩ | ⟨rfl, rfl⟩
    · obtain ⟨attributes, before, built⟩ := exists_sectionNode_eq heap props context
      obtain ⟨body, isMarkup, writes⟩ := joined.element "section" attributes before [Markup.line]
      refine ⟨"section", attributes, body, by decide, isMarkup, fun annotate => ⟨_, rfl, ?_⟩⟩
      rw [built, writes]
    · obtain ⟨tag, found, -⟩ := exists_of_bind_eq_ok rendered
      have plain : isPlainName tag.toList = true := by
        have all : ∀ tag ∈ Renderer.containerTags, isPlainName tag.toList = true := by decide
        exact all tag (Renderer.containerTag_mem found)
      obtain ⟨body, isMarkup, writes⟩ :=
        joined.element tag [Renderer.classOf context] [Markup.line] [Markup.line]
      refine ⟨tag, _, body, plain, isMarkup, fun annotate => ⟨_, ?_, writes annotate⟩⟩
      change Renderer.containerNode _ _ _ _ = _
      rw [Renderer.containerNode, found]
      rfl
    · obtain ⟨body, isMarkup, writes⟩ := (IsMarkup.columns each).element "div"
        [Renderer.classWith context "columns"] [Markup.line] [Markup.line]
      refine ⟨"div", [Renderer.classWith context "columns"], body, by decide, isMarkup,
        fun annotate => ⟨_, rfl, ?_⟩⟩
      rw [← writes, Renderer.columnsNode, values_childrenIn, List.map_map]
      rfl

end

/-! ## Components -/

/-- What stands behind the name of a tag. -/
def tagRest (attributes : List Attribute) : List Char :=
  (String.join (attributes.map Attribute.write)).toList ++ ['>']

theorem head?_tagRest (attributes : List Attribute) :
    (tagRest attributes).head? = some ' ' ∨ (tagRest attributes).head? = some '>' := by
  cases attributes with
  | nil => exact .inr rfl
  | cons attr attributes =>
    obtain ⟨rest, blank⟩ := Markup.exists_toList_write attr
    rw [tagRest, List.map_cons, String.join_cons, String.toList_append, blank]
    exact .inl rfl

theorem written_rooted (annotate : Bool) (id tag : String) (attributes : List Attribute)
    (signs : List Sign) :
    written annotate (rooted id tag.toList ((tagRest attributes).map .char ++ signs)) =
      openTag tag (if annotate then .value componentAttribute id :: attributes else attributes) ++
        written annotate signs := by
  have whole : rooted id tag.toList ((tagRest attributes).map .char ++ signs) =
      ('<' :: tag.toList).map .char ++ ([.place id] ++ ((tagRest attributes).map .char ++ signs)) :=
    rfl
  rw [whole, written_append, written_append, written_append, written_chars, written_chars,
    ← String.toList_inj]
  cases annotate <;> simp [written, Sign.text, openTag, tagRest]

/-- What the renderer of a component is told about it, in either mode. -/
def Scene.context (scene : Scene) (component : Component) : Renderer.Context :=
  { id := component.id, type := component.type, minify := scene.options.minify
    className := Style.className component.id scene.options.classStart }

theorem componentMarkup_annotating (isCore : scene.registry = core) {component : Component}
    {renderer : Renderer} (found : Registry.get? core component.type = some renderer)
    (annotate : Bool) (children : Children) :
    componentMarkup scene.heap scene.registry (scene.annotating annotate).options component
        children =
      (renderer.render scene.heap (component.entries scene.heap) children
        (scene.context component)).map fun node =>
          if annotate then Markup.addRootAttribute node.write componentAttribute component.id
          else node.write := by
  rw [componentMarkup, isCore, found]
  change (renderer.render scene.heap (component.entries scene.heap) children
    (scene.context component) >>= _) = _
  cases renderer.render scene.heap (component.entries scene.heap) children
    (scene.context component) <;> rfl

/--
The markup of a component, if it has any in one mode, has a place for the id of the component and
the markup of what the component shows.
-/
theorem componentMarkup_rooted (isCore : scene.registry = core) {component : Component}
    {zones : Zones} {parts : List (List Branch)} (held : parts.flatten = zones.branches)
    {texts : Ordered (Bool → String)}
    (each : List.Forall₂ (IsMarkup scene) parts (Ordered.values texts)) {annotate : Bool}
    {markup : String} (rendered : componentMarkup scene.heap scene.registry
      (scene.annotating annotate).options component (childrenIn texts annotate) = .ok markup) :
    ∃ name inside, isPlainName name = true ∧
      (inside.head? = some (.char ' ') ∨ inside.head? = some (.char '>')) ∧
      Marks scene (shown component zones) inside ∧
      ∀ annotate, componentMarkup scene.heap scene.registry (scene.annotating annotate).options
        component (childrenIn texts annotate) =
          .ok (written annotate (rooted component.id name inside)) := by
  cases found : Registry.get? core component.type with
  | none =>
    rw [componentMarkup, isCore, found] at rendered
    cases rendered
  | some renderer =>
    rw [componentMarkup_annotating isCore found] at rendered
    obtain ⟨node, built, -⟩ := exists_of_map_eq_ok rendered
    obtain ⟨tag, attributes, body, plain, ⟨signs, marks, writes⟩, builds⟩ :=
      render_isMarkup (Ordered.mem_of_get?_eq_some found) each built
    rw [held] at marks
    have inner : Marks scene (shown component zones) ((tagRest attributes).map .char ++ signs) :=
      (Marks.text _).append marks
    refine ⟨tag.toList, _, plain, ?_, inner, fun other => ?_⟩
    · rcases head?_tagRest attributes with blank | bracket
      · exact .inl (by rw [List.head?_append, List.head?_map, blank]; rfl)
      · exact .inr (by rw [List.head?_append, List.head?_map, bracket]; rfl)
    · obtain ⟨node, built, write⟩ := builds other
      rw [componentMarkup_annotating isCore found, built, written_rooted, ← writes]
      cases other with
      | false => exact congrArg Except.ok write
      | true =>
        have added := @Markup.addRootAttribute_openTag tag attributes plain componentAttribute
          component.id (body true)
        rw [← write] at added
        exact congrArg Except.ok added

end StaticSite.Rendering
