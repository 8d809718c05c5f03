import Mathlib.Tactic.Tauto
import StaticSite.Proofs.ReducedTags
import StaticSite.Proofs.RenderedMarkup
import StaticSite.Proofs.RenderingPass

/-!
# One page rendered twice

Rendering for a reduced document leaves out the attribute that names the component, and is the same
otherwise. In the reduced document the tags are those of the other one, with what reducing leaves of
their values.
-/

namespace StaticSite.Markup

/-- The attribute with the id of a component. -/
def componentAttribute : String := "data-component-id"

/-- What is left of a tag in reduced markup, where no tag names its component. -/
def Tag.reduced (tag : Tag) : Tag :=
  { tag with attributes :=
      (tag.attributes.filter (·.name ≠ componentAttribute.toList)).map (Found.map reducedText) }

/--
Whether the second markup, reduced as a part of a document, has what is left of the tags of the
first.
-/
structure IsReducedTo (markup other : String) : Prop where
  empty : markup = "" ↔ other = ""
  leads : ∃ tags : List Tag, Leads .text markup.toList .text (tags.map (Tag.map escapeChars)) ∧
    LeadsReduced .text other.toList .text (tags.map fun tag => tag.reduced.map escapeChars)

namespace IsReducedTo

theorem nil : IsReducedTo "" "" := ⟨Iff.rfl, [], .nil, .nil⟩

theorem append {a a' b b' : String} (first : IsReducedTo a a') (second : IsReducedTo b b') :
    IsReducedTo (a ++ b) (a' ++ b') := by
  obtain ⟨tags, leads, leads'⟩ := first.leads
  obtain ⟨more, leadsMore, leadsMore'⟩ := second.leads
  refine ⟨?_, tags ++ more, ?_, ?_⟩
  · rw [String.append_eq_empty_iff, String.append_eq_empty_iff, first.empty, second.empty]
  · rw [String.toList_append, List.map_append]
    exact leads.append leadsMore
  · rw [String.toList_append, List.map_append]
    exact leads'.append leadsMore'

/-- Text leads past no tags. -/
theorem text {s : String} (bare : '<' ∉ s.toList) : IsReducedTo s s :=
  ⟨Iff.rfl, [], Mode.Rests.text.leads bare, Mode.Rests.text.leadsReduced bare⟩

theorem closeTag {tag : String} (plain : isPlainName tag.toList = true) :
    IsReducedTo ("</" ++ tag ++ ">") ("</" ++ tag ++ ">") :=
  ⟨Iff.rfl, [], leads_closeTag plain, leadsReduced_closeTag plain⟩

theorem intercalate {parts others : List String} (all : List.Forall₂ IsReducedTo parts others) :
    IsReducedTo ("\n".intercalate parts) ("\n".intercalate others) := by
  have lineEnd : IsReducedTo "\n" "\n" := text (by decide)
  induction all with
  | nil => exact nil
  | @cons part other parts others here later ih =>
    cases later with
    | nil => simpa [String.intercalate_singleton] using here
    | cons _ _ =>
      rw [String.intercalate_cons_cons, String.intercalate_cons_cons]
      exact (here.append lineEnd).append ih

/-- What is left out when parts are joined is left out of both. -/
theorem filled {parts others : List String} (all : List.Forall₂ IsReducedTo parts others) :
    List.Forall₂ IsReducedTo (parts.filter (· ≠ "")) (others.filter (· ≠ "")) := by
  induction all with
  | nil => exact .nil
  | @cons part other parts others here _ ih =>
    by_cases isEmpty : part = ""
    · rw [List.filter_cons_of_neg (by simp [isEmpty]),
        List.filter_cons_of_neg (by simp [here.empty.mp isEmpty])]
      exact ih
    · have otherFilled : other ≠ "" := fun same => isEmpty (here.empty.mpr same)
      rw [List.filter_cons_of_pos (by simp [isEmpty]),
        List.filter_cons_of_pos (by simp [otherFilled])]
      exact .cons here ih

end IsReducedTo

/-! ## Trees -/

/-- The names of a template open no kept element, and none of them names the component. -/
def Words.AreFree (words : Words) : Prop :=
  ∀ entry ∈ words, rawName? (entry.1.toList ++ ['>']) = none ∧ componentAttribute ∉ entry.2

instance (words : Words) : Decidable words.AreFree :=
  inferInstanceAs (Decidable (∀ entry ∈ words, rawName? (entry.1.toList ++ ['>']) = none ∧
    componentAttribute ∉ entry.2))

section

variable {words : Words} {tag : String} {attributes : List Attribute}

theorem Words.Allow.isFree (allowed : words.Allow tag attributes) (plain : words.ArePlain)
    (free : words.AreFree) : Tag.IsFree tag attributes := by
  have isPlain := allowed.isPlain plain
  obtain ⟨names, listed, -⟩ := allowed
  exact ⟨isPlain, (free _ listed).1⟩

theorem Words.Allow.unnamed (allowed : words.Allow tag attributes) (free : words.AreFree) :
    ∀ attr ∈ attributes, attr.name ≠ componentAttribute := by
  obtain ⟨names, listed, named⟩ := allowed
  rintro attr member same
  exact (free _ listed).2 (same ▸ named attr member)

theorem name_found (attr : Attribute) : attr.found.name = attr.name.toList := by
  cases attr <;> rfl

theorem reduced_opening (unnamed : ∀ attr ∈ attributes, attr.name ≠ componentAttribute) :
    (Tag.opening tag attributes).reduced = Tag.opening tag (attributes.map Attribute.reduced) := by
  have kept : (attributes.map Attribute.found).filter (·.name ≠ componentAttribute.toList) =
      attributes.map Attribute.found := by
    refine List.filter_eq_self.mpr fun found member => ?_
    obtain ⟨attr, isAttr, rfl⟩ := List.mem_map.mp member
    have other : attr.name.toList ≠ componentAttribute.toList := fun same =>
      unnamed attr isAttr (String.toList_inj.mp same)
    simpa [name_found] using other
  rw [Tag.reduced, Tag.opening, kept]
  simp only [Tag.opening, List.map_map, Function.comp_def, found_reduced]

theorem IsReducedTo.openTag (free : Tag.IsFree tag attributes)
    (unnamed : ∀ attr ∈ attributes, attr.name ≠ componentAttribute) :
    IsReducedTo (openTag tag attributes) (openTag tag attributes) := by
  refine ⟨Iff.rfl, [Tag.opening tag attributes], leads_openTag free.toIsPlain, ?_⟩
  rw [List.map_singleton, reduced_opening unnamed]
  exact leadsReduced_openTag free

/-- The opening tag of a component that only one of two markups names. -/
theorem IsReducedTo.namedTag (free : Tag.IsFree tag attributes)
    (unnamed : ∀ attr ∈ attributes, attr.name ≠ componentAttribute) (id : String) :
    IsReducedTo (Markup.openTag tag (.value componentAttribute id :: attributes))
      (Markup.openTag tag attributes) := by
  have name : isPlainName componentAttribute.toList = true := by decide
  have plain : Tag.IsPlain tag (.value componentAttribute id :: attributes) :=
    ⟨free.name, List.forall_mem_cons.mpr ⟨name, free.attributes⟩, free.text⟩
  refine ⟨by simp [Markup.openTag],
    [Tag.opening tag (.value componentAttribute id :: attributes)], leads_openTag plain, ?_⟩
  have reduced : (Tag.opening tag (.value componentAttribute id :: attributes)).reduced =
      (Tag.opening tag attributes).reduced := by
    simp [Tag.opening, Tag.reduced, Attribute.found, Found.name]
  rw [List.map_singleton, reduced, reduced_opening unnamed]
  exact leadsReduced_openTag free

mutual

theorem Node.Alike.isReducedTo (plain : words.ArePlain) (free : words.AreFree) :
    ∀ {node other : Node}, node.Alike words IsReducedTo other → IsReducedTo node.write other.write
  | .text s, .text _, alike => by
    obtain rfl : s = _ := alike
    refine .text ?_
    rw [Node.write, toList_escape]
    exact (not_mem_escapeChars s.toList).2.1
  | .ready _, .ready _, alike => alike
  | .void tag attributes, .void _ _, alike => by
    obtain ⟨rfl, rfl, allowed⟩ := alike
    exact .openTag (allowed.isFree plain free) (allowed.unnamed free)
  | .element tag attributes content, .element _ _ others, alike => by
    obtain ⟨rfl, rfl, allowed, inner⟩ := alike
    have free' := allowed.isFree plain free
    have whole := ((IsReducedTo.openTag free' (allowed.unnamed free)).append
      (inner.isReducedTo plain free)).append (.closeTag free'.name)
    simpa only [Node.write, String.append_assoc] using whole

theorem AllAlike.isReducedTo (plain : words.ArePlain) (free : words.AreFree) :
    ∀ {nodes others : List Node}, AllAlike words IsReducedTo nodes others →
      IsReducedTo (writeAll nodes) (writeAll others)
  | [], [], _ => .nil
  | _ :: _, _ :: _, alike =>
    (alike.1.isReducedTo plain free).append (alike.2.isReducedTo plain free)

end

/-- The name of an opening tag is found where a blank or the end of the tag follows it. -/
theorem tagName?_append {name : List Char} (plain : isPlainName name = true) {c : Char}
    (ends : c = ' ' ∨ c = '>') (rest : List Char) :
    tagName? (name ++ c :: rest) = some (name, c :: rest) := by
  have marks := isMark_of_mem_isPlainName plain
  have isTag (d : Char) (member : d ∈ name) : isTagChar d = true := by
    have mark := marks d member
    simp only [isMark, Bool.or_eq_true, Bool.and_eq_true, decide_eq_true_eq] at mark
    simp only [isTagChar, Text.isAsciiAlphanumeric, Text.isAsciiLetter, Bool.or_eq_true,
      Bool.and_eq_true, decide_eq_true_eq]
    tauto
  have stops : isTagChar c = false := by rcases ends with rfl | rfl <;> decide
  have isEnd : endsName (c :: rest) = true := by
    rcases ends with rfl | rfl
    · simp [endsName]
      decide
    · simp [endsName]
  have span : (name ++ c :: rest).span isTagChar = (name, c :: rest) := by
    rw [List.span_eq_takeWhile_dropWhile, List.takeWhile_append_of_pos isTag,
      List.dropWhile_append_of_pos isTag, List.takeWhile_cons_of_neg (by simp [stops]),
      List.dropWhile_cons_of_neg (by simp [stops]), List.append_nil]
  obtain ⟨d, name, rfl⟩ := List.exists_cons_of_ne_nil (l := name) (by rintro rfl; cases plain)
  have letter : Text.isAsciiLetter d = true := by
    simp only [isPlainName, Bool.and_eq_true, decide_eq_true_eq] at plain
    simp [Text.isAsciiLetter, plain.1]
  rw [List.cons_append] at span ⊢
  rw [tagName?, if_pos letter, span]
  simp [isEnd]

/-- The added attribute is the first one of the first tag. -/
theorem addRootAttribute_openTag (plain : isPlainName tag.toList = true)
    (name value more : String) :
    addRootAttribute (openTag tag attributes ++ more) name value =
      openTag tag (.value name value :: attributes) ++ more := by
  have ends : ∃ c rest, (c = ' ' ∨ c = '>') ∧
      (String.join (attributes.map Attribute.write)).toList ++ '>' :: more.toList = c :: rest := by
    cases attributes with
    | nil => exact ⟨'>', _, .inr rfl, rfl⟩
    | cons attr attributes =>
      obtain ⟨rest, blank⟩ := exists_toList_write attr
      refine ⟨' ', rest ++ (String.join (attributes.map Attribute.write)).toList ++
        '>' :: more.toList, .inl rfl, ?_⟩
      rw [List.map_cons, String.join_cons, String.toList_append, blank]
      rfl
  obtain ⟨c, rest, isEnd, split⟩ := ends
  have whole : (openTag tag attributes ++ more).toList = '<' :: (tag.toList ++ c :: rest) := by
    simp [openTag, ← split]
  have found := tagName?_append plain isEnd rest
  rw [addRootAttribute, whole, insertInFirstTag, if_pos rfl, found, ← String.toList_inj,
    String.toList_ofList]
  simp [openTag, Attribute.write, ← split]

/-- Whether a node is written as a tag, with or without content. -/
def Node.isElement : Node → Bool
  | .void _ _ => true
  | .element _ _ _ => true
  | _ => false

/-- Naming the component in the first tag of an element is undone by reducing. -/
theorem Node.Alike.isReducedTo_named {words : Words} (plain : words.ArePlain)
    (free : words.AreFree) (id : String) :
    ∀ {node other : Node}, node.Alike words IsReducedTo other → node.isElement = true →
      IsReducedTo (addRootAttribute node.write componentAttribute id) other.write
  | .text _, _, _, isElement => nomatch isElement
  | .ready _, _, _, isElement => nomatch isElement
  | .void tag attributes, .void _ _, alike, _ => by
    obtain ⟨rfl, rfl, allowed⟩ := alike
    have free' := allowed.isFree plain free
    have added : addRootAttribute (openTag tag attributes ++ "") componentAttribute id = _ :=
      addRootAttribute_openTag free'.name componentAttribute id ""
    rw [String.append_empty, String.append_empty] at added
    rw [Node.write, added]
    exact .namedTag free' (allowed.unnamed free) id
  | .element tag attributes content, .element _ _ others, alike, _ => by
    obtain ⟨rfl, rfl, allowed, inner⟩ := alike
    have free' := allowed.isFree plain free
    have added : addRootAttribute (openTag tag attributes ++ (writeAll content ++
        ("</" ++ tag ++ ">"))) componentAttribute id = _ :=
      addRootAttribute_openTag free'.name componentAttribute id _
    have whole := (IsReducedTo.namedTag free' (allowed.unnamed free) id).append
      ((inner.isReducedTo plain free).append (.closeTag free'.name))
    rw [← added] at whole
    simpa only [Node.write, String.append_assoc] using whole

end

end StaticSite.Markup

namespace StaticSite.Renderer

open Markup (Node IsReducedTo)

/-- The tags that templates name open no kept element. -/
theorem words_areFree {type : String} (templated : isTemplated type = true) :
    (words type).AreFree := by
  have all : ∀ entry ∈ templates, isTemplated entry.1 = true → entry.2.AreFree := by decide +kernel
  unfold words
  cases found : Ordered.get? templates type with
  | none => nofun
  | some template => exact all _ (Ordered.mem_of_get?_eq_some found) templated

section

variable {type : String} {renderer : Renderer} {heap : Heap} {props : Entries}
  {children : Children} {context : Context}

theorem isElement_render (listed : (type, renderer) ∈ core) {node : Node}
    (rendered : renderer.render heap props children context = .ok node) :
    node.isElement = true := by
  obtain ⟨tag, attributes, more, -, isRoot⟩ := root?_core listed rendered
  cases node with
  | void tag attributes => rfl
  | element tag attributes content => rfl
  | _ => cases isRoot

/-- No core renderer looks whether the document is reduced. -/
theorem render_minify (listed : (type, renderer) ∈ core) (heap : Heap) (props : Entries)
    (children : Children) (context : Context) (minify : Bool) :
    renderer.render heap props children { context with minify } =
      renderer.render heap props children context := by
  cases listed using core_cases <;> rfl

end

end StaticSite.Renderer

namespace StaticSite.Rendering

open Markup (IsReducedTo)
open Renderer (core isTemplated words)

theorem isJoined_isReducedTo : IsJoined IsReducedTo :=
  ⟨.nil, fun related => .intercalate (IsReducedTo.filled related)⟩

/-- A component rendered with its name, and without it in a document that may be reduced. -/
theorem componentMarkup_isReducedTo {heap : Heap} {component : Component} (minify minify' : Bool)
    (templated : isTemplated component.type = true) {children others : Children}
    (zones : List.Forall₂ IsReducedTo (Ordered.values children) (Ordered.values others))
    {markup markup' : String} (written :
      componentMarkup heap core { minify, annotate := true } component children = .ok markup)
    (written' : componentMarkup heap core { minify := minify' } component others = .ok markup') :
    IsReducedTo markup markup' := by
  unfold componentMarkup at written written'
  cases found : Registry.get? core component.type with
  | none =>
    rw [found] at written
    cases written
  | some renderer =>
    rw [found] at written written'
    obtain ⟨node, rendered, shown⟩ := exists_of_bind_eq_ok written
    obtain ⟨node', rendered', shown'⟩ := exists_of_bind_eq_ok written'
    cases shown
    cases shown'
    have listed := Ordered.mem_of_get?_eq_some found
    have lineEnd : IsReducedTo "\n" "\n" := .text (by decide)
    obtain ⟨other, same, alike⟩ := Renderer.render_alike listed templated lineEnd
      (isJoined_isReducedTo.joined zones) zones rendered
    have unread := Renderer.render_minify listed heap (component.entries heap) others
      ⟨component.id, component.type, Style.className component.id "dc", minify⟩ minify'
    obtain rfl : other = node' := Except.ok.inj (same.symm.trans (unread.symm.trans rendered'))
    exact alike.isReducedTo_named (Renderer.words_arePlain _) (Renderer.words_areFree templated)
      component.id (Renderer.isElement_render listed rendered)

/-- The components of a page rendered for both kinds of documents. -/
theorem renderIds_isReducedTo {heap : Heap} {components : Ordered Component}
    (templated : ∀ entry ∈ components, isTemplated entry.2.type = true) (minify minify' : Bool)
    (ids : List String) :
    Step.Agree IsReducedTo
      (renderIds ⟨heap, components, core, { minify, annotate := true }⟩ ids)
      (renderIds ⟨heap, components, core, { minify := minify' }⟩ ids) := by
  refine renderIdsBy_agrees isJoined_isReducedTo (fun id => ?_) ids
  refine renderWith_agrees isJoined_isReducedTo core { minify := minify' } ?_ _ id
  intro entry member children others markup markup' zones written written'
  exact componentMarkup_isReducedTo minify minify' (templated entry member) zones written written'

end StaticSite.Rendering
