import StaticSite.Proofs.Annotating

/-!
# One pass with and without annotations

A pass over core components succeeds with annotations where it succeeds without them, and goes
through the same ids. The two markups differ in the ids that stand behind the name of the first tag
of each component, one for each component that a section, a container or columns show, or that is a
root. What stands in the zones of other components is rendered as well, but left out of both.
-/

namespace StaticSite

/-- The component with the zones that its renderer shows. -/
def Component.displayed (component : Component) : Component :=
  if Rendering.showsZones component.type then component else { component with zones := [] }

theorem Component.id_displayed (component : Component) : component.displayed.id = component.id := by
  unfold displayed
  split <;> rfl

namespace Rendering

open Markup (Attribute componentAttribute)
open Renderer (core)

/-! ## Trees -/

section

variable {scene : Scene} {annotate : Bool}

mutual

/-- A tree that has markup in one mode has it in both. -/
theorem Branch.isMarkup (isCore : scene.registry = core) :
    ∀ {branch : Branch} {markup : String}, branch.markup (scene.annotating annotate) = .ok markup →
      ∃ text, IsMarkup scene [branch] text ∧
        ∀ annotate, branch.markup (scene.annotating annotate) = .ok (text annotate)
  | .stray id, _, _ => ⟨fun _ => "", ⟨[], .stray id, fun _ => rfl⟩, fun _ => rfl⟩
  | .node component zones, markup, rendered => by
    obtain ⟨children, here, markup⟩ := exists_of_bind_eq_ok rendered
    obtain ⟨parts, texts, held, each, made⟩ := Zones.isMarkup isCore here
    cases here.symm.trans (made annotate)
    obtain ⟨name, inside, isName, ends, inner, writes⟩ :=
      componentMarkup_rooted isCore held each markup
    have own (other : Bool) : (Branch.node component zones).markup (scene.annotating other) =
        .ok (written other (rooted component.id name inside)) := by
      rw [Branch.markup, made other]
      exact writes other
    exact ⟨_, ⟨_, .root isName ends inner own, fun _ => rfl⟩, own⟩

theorem Forest.isMarkup (isCore : scene.registry = core) :
    ∀ {forest : Forest} {markups : List String},
      forest.markups (scene.annotating annotate) = .ok markups →
      ∃ texts, List.Forall₂ (IsMarkup scene) (forest.branches.map ([·])) texts ∧
        ∀ annotate, forest.markups (scene.annotating annotate) = .ok (texts.map (· annotate))
  | .nil, _, _ => ⟨[], .nil, fun _ => rfl⟩
  | .cons first rest, _, rendered => by
    obtain ⟨markup, here, more⟩ := exists_of_bind_eq_ok rendered
    obtain ⟨others, later, -⟩ := exists_of_bind_eq_ok more
    obtain ⟨text, isFirst, made⟩ := Branch.isMarkup isCore here
    obtain ⟨texts, areRest, made'⟩ := Forest.isMarkup isCore later
    refine ⟨text :: texts, .cons isFirst areRest, fun other => ?_⟩
    rw [Forest.markups, made, made']
    rfl

theorem Zones.isMarkup (isCore : scene.registry = core) :
    ∀ {zones : Zones} {children : Children},
      zones.children (scene.annotating annotate) = .ok children →
      ∃ parts texts, parts.flatten = zones.branches ∧
        List.Forall₂ (IsMarkup scene) parts (Ordered.values texts) ∧
        ∀ annotate, zones.children (scene.annotating annotate) = .ok (childrenIn texts annotate)
  | .nil, _, _ => ⟨[], [], rfl, .nil, fun _ => rfl⟩
  | .cons zone forest rest, _, rendered => by
    obtain ⟨markups, here, more⟩ := exists_of_bind_eq_ok rendered
    obtain ⟨others, later, -⟩ := exists_of_bind_eq_ok more
    obtain ⟨texts, isForest, made⟩ := Forest.isMarkup isCore here
    obtain ⟨parts, areRest, held, each, made'⟩ := Zones.isMarkup isCore later
    have isZone := IsMarkup.joined isForest
    rw [← List.flatMap_def, List.flatMap_singleton'] at isZone
    refine ⟨forest.branches :: parts,
      (zone, fun annotate => joined (texts.map (· annotate))) :: areRest,
      congrArg (forest.branches ++ ·) held, .cons isZone each, fun other => ?_⟩
    rw [Zones.children, made, made']
    rfl

end

/-- A forest that has markup in one mode is marked markup, read in either mode. -/
theorem Forest.exists_marks (isCore : scene.registry = core) {forest : Forest} {markup : String}
    (made : forest.markup (scene.annotating annotate) = .ok markup) :
    ∃ signs, Marks scene forest.branches signs ∧
      ∀ annotate, forest.markup (scene.annotating annotate) = .ok (written annotate signs) := by
  obtain ⟨markups, each, -⟩ := exists_of_bind_eq_ok made
  obtain ⟨texts, areMarkup, both⟩ := Forest.isMarkup isCore each
  have isMarkup := IsMarkup.joined areMarkup
  rw [← List.flatMap_def, List.flatMap_singleton'] at isMarkup
  obtain ⟨signs, marks, writes⟩ := isMarkup
  refine ⟨signs, marks, fun other => ?_⟩
  rw [Forest.markup, both other, ← writes]
  rfl

end

/-! ## Passes -/

/-- Whether a step succeeds, and leaves the same state, where another one does. -/
def Step.SucceedsAs {α : Type} (step other : Step α) : Prop :=
  ∀ ⦃state result last⦄, other state = (.ok result, last) →
    ∃ result', step state = (.ok result', last)

section

variable {enter other : String → Step String}

theorem renderEach_succeedsAs (each : ∀ id, (enter id).SucceedsAs (other id)) (ids : List String) :
    Step.SucceedsAs (renderEach enter ids) (renderEach other ids) := by
  induction ids with
  | nil =>
    rintro state parts last ⟨⟩
    exact ⟨[], rfl⟩
  | cons id ids ih =>
    intro state parts last done
    obtain ⟨markup, others, next, entered, later, rfl⟩ := renderEach_cons_ok done
    obtain ⟨markup', entered'⟩ := each id entered
    obtain ⟨others', later'⟩ := ih later
    exact ⟨markup' :: others', by rw [renderEach, entered']; dsimp only; rw [later']⟩

theorem renderIdsBy_succeedsAs (each : ∀ id, (enter id).SucceedsAs (other id)) (ids : List String) :
    Step.SucceedsAs (renderIdsBy enter ids) (renderIdsBy other ids) := by
  intro state markup last done
  obtain ⟨parts, here, rfl⟩ := renderIdsBy_ok done
  obtain ⟨parts', here'⟩ := renderEach_succeedsAs each ids here
  exact ⟨_, by rw [renderIdsBy, here']⟩

theorem renderZones_succeedsAs (each : ∀ id, (enter id).SucceedsAs (other id))
    (zones : Ordered (List String)) :
    Step.SucceedsAs (renderZones enter zones) (renderZones other zones) := by
  induction zones with
  | nil =>
    rintro state children last ⟨⟩
    exact ⟨[], rfl⟩
  | cons zone zones ih =>
    intro state children last done
    obtain ⟨markup, others, next, here, later, rfl⟩ := renderZones_cons_ok done
    obtain ⟨markup', here'⟩ := renderIdsBy_succeedsAs each zone.2 here
    obtain ⟨others', later'⟩ := ih later
    exact ⟨(zone.1, markup') :: others', by rw [renderZones, here']; dsimp only; rw [later']⟩

theorem renderFound_registered {scene : Scene} {component : Component} {state last : State}
    {markup : String} (done : renderFound scene enter component state = (.ok markup, last)) :
    Ordered.contains scene.registry component.type = true := by
  by_contra unregistered
  rw [renderFound, if_neg unregistered] at done
  cases done

/-- Passes succeed together if no component depends on the markup of its zones to be rendered. -/
theorem renderWith_succeedsAs {scene : Scene} {options options' : Options}
    (markups : ∀ ⦃component children markup⦄,
      componentMarkup scene.heap scene.registry options component children = .ok markup →
        ∀ others, ∃ markup',
          componentMarkup scene.heap scene.registry options' component others = .ok markup')
    (fuel : Nat) (id : String) :
    Step.SucceedsAs (renderWith { scene with options := options' } fuel id)
      (renderWith { scene with options } fuel id) := by
  induction fuel generalizing id with
  | zero => rintro state markup last ⟨⟩
  | succ fuel ih =>
    intro state markup last done
    obtain ⟨unvisited, ⟨missing, rfl, rfl⟩ | ⟨component, found, done⟩⟩ := renderWith_ok done
    · refine ⟨"", ?_⟩
      rw [renderWith, if_neg unvisited]
      dsimp only at missing ⊢
      rw [missing]
    · have registered := renderFound_registered done
      obtain ⟨children, next, inside, written, rfl⟩ := renderFound_ok done
      obtain ⟨others, inside'⟩ := renderZones_succeedsAs ih component.zones inside
      obtain ⟨markup', written'⟩ := markups written others
      refine ⟨markup', ?_⟩
      rw [renderWith, if_neg unvisited]
      dsimp only at found registered ⊢
      rw [found]
      dsimp only
      rw [renderFound, if_pos registered, inside']
      dsimp only
      rw [written']

end

theorem componentMarkup_succeeds {scene : Scene} (isCore : scene.registry = core)
    {component : Component} {children : Children} {annotate : Bool} {markup : String}
    (rendered : componentMarkup scene.heap scene.registry (scene.annotating annotate).options
      component children = .ok markup) (other : Bool) (others : Children) :
    ∃ markup', componentMarkup scene.heap scene.registry (scene.annotating other).options
      component others = .ok markup' := by
  cases found : Registry.get? core component.type with
  | none =>
    rw [componentMarkup, isCore, found] at rendered
    cases rendered
  | some renderer =>
    rw [componentMarkup_annotating isCore found] at rendered ⊢
    obtain ⟨node, built, -⟩ := exists_of_map_eq_ok rendered
    obtain ⟨node', built'⟩ := render_succeeds (Ordered.mem_of_get?_eq_some found) built others
    exact ⟨_, congrArg (Except.map _) built'⟩

/-- A pass over core components succeeds with annotations where it succeeds without them. -/
theorem renderIds_succeedsAs {scene : Scene} (isCore : scene.registry = core)
    (annotate other : Bool) (ids : List String) :
    Step.SucceedsAs (renderIds (scene.annotating annotate) ids)
      (renderIds (scene.annotating other) ids) := by
  refine renderIdsBy_succeedsAs (fun id => renderWith_succeedsAs ?_ _ id) ids
  exact fun _ _ _ rendered => componentMarkup_succeeds isCore rendered annotate

/-! ## What is shown -/

/-- What ids name, without the zones that are not shown. -/
def displayed (named : String → Option Component) (id : String) : Option Component :=
  (named id).map Component.displayed

mutual

/-- The tree without what stands in zones that are not shown. -/
def Branch.pruned : Branch → Branch
  | .stray id => .stray id
  | .node component zones =>
    .node component.displayed (if showsZones component.type then zones.pruned else .nil)

def Forest.pruned : Forest → Forest
  | .nil => .nil
  | .cons first rest => .cons first.pruned rest.pruned

def Zones.pruned : Zones → Zones
  | .nil => .nil
  | .cons zone forest rest => .cons zone forest.pruned rest.pruned

end

theorem Branch.id_pruned (branch : Branch) : branch.pruned.id = branch.id := by
  cases branch with
  | stray id => rfl
  | node component zones => exact component.id_displayed

theorem Forest.ids_pruned : ∀ forest : Forest, forest.pruned.ids = forest.ids
  | .nil => rfl
  | .cons first rest => congrArg₂ List.cons first.id_pruned rest.ids_pruned

theorem Zones.ids_pruned : ∀ zones : Zones, zones.pruned.ids = zones.ids
  | .nil => rfl
  | .cons zone forest rest =>
    congrArg₂ (fun ids more => (zone, ids) :: more) forest.ids_pruned rest.ids_pruned

section

variable {named : String → Option Component}

mutual

theorem Branch.IsOf.pruned : ∀ {branch : Branch}, branch.IsOf named →
    branch.pruned.IsOf (displayed named)
  | .stray id, absent => congrArg (Option.map Component.displayed) absent
  | .node component zones, ⟨isNamed, ids, isOf⟩ => by
    refine ⟨?_, ?_⟩
    · rw [Component.id_displayed, displayed, isNamed, Option.map_some]
    · rw [Component.displayed]
      split
      · exact ⟨zones.ids_pruned.trans ids, isOf.pruned⟩
      · exact ⟨rfl, trivial⟩

theorem Forest.IsOf.pruned : ∀ {forest : Forest}, forest.IsOf named →
    forest.pruned.IsOf (displayed named)
  | .nil, _ => trivial
  | .cons _ _, ⟨here, later⟩ => ⟨here.pruned, later.pruned⟩

theorem Zones.IsOf.pruned : ∀ {zones : Zones}, zones.IsOf named →
    zones.pruned.IsOf (displayed named)
  | .nil, _ => trivial
  | .cons _ _ _, ⟨here, later⟩ => ⟨here.pruned, later.pruned⟩

end

mutual

theorem Branch.postorder_pruned_sublist : ∀ branch : Branch,
    branch.pruned.postorder.Sublist branch.postorder
  | .stray id => List.Sublist.refl _
  | .node component zones => by
    rw [Branch.pruned, Branch.postorder, Branch.postorder, Component.id_displayed]
    split
    · exact zones.postorder_pruned_sublist.append_right _
    · exact (List.nil_sublist _).append_right _

theorem Forest.postorder_pruned_sublist : ∀ forest : Forest,
    forest.pruned.postorder.Sublist forest.postorder
  | .nil => List.Sublist.refl _
  | .cons first rest => first.postorder_pruned_sublist.append rest.postorder_pruned_sublist

theorem Zones.postorder_pruned_sublist : ∀ zones : Zones,
    zones.pruned.postorder.Sublist zones.postorder
  | .nil => List.Sublist.refl _
  | .cons _ forest rest => forest.postorder_pruned_sublist.append rest.postorder_pruned_sublist

end

theorem Forest.postorder_pruned : ∀ forest : Forest,
    forest.pruned.postorder = forest.branches.flatMap fun branch => branch.pruned.postorder
  | .nil => rfl
  | .cons first rest => by
    rw [Forest.branches, List.flatMap_cons, ← rest.postorder_pruned]
    rfl

theorem Zones.postorder_pruned : ∀ zones : Zones,
    zones.pruned.postorder = zones.branches.flatMap fun branch => branch.pruned.postorder
  | .nil => rfl
  | .cons zone forest rest => by
    rw [Zones.branches, List.flatMap_append, ← forest.postorder_pruned, ← rest.postorder_pruned]
    rfl

/-- The components that have a place are those of the branches and of what they show. -/
theorem Marks.places_perm {scene : Scene} {branches : List Branch} {signs : List Sign}
    (marks : Marks scene branches signs) :
    (places signs).Perm (branches.flatMap fun branch => branch.pruned.postorder) := by
  induction marks with
  | text s => rw [places_chars]; exact .nil
  | append _ _ front back =>
    rw [places_append, List.flatMap_append]
    exact front.append back
  | stray id => exact .nil
  | @root component zones name inside _ _ _ _ inner =>
    have below : (shown component zones).flatMap (fun branch => branch.pruned.postorder) =
        (if showsZones component.type then zones.pruned else .nil).postorder := by
      rw [shown]
      split
      · exact zones.postorder_pruned.symm
      · rfl
    rw [below] at inner
    rw [places_rooted, List.flatMap_singleton, Branch.pruned, Branch.postorder,
      Component.id_displayed]
    exact (inner.cons component.id).trans (List.perm_append_singleton _ _).symm

/-- Where only zones that are shown hold anything, everything that can be reached is shown. -/
theorem reachable_displayed {roots : List String}
    (bare : ∀ id component, named id = some component → showsZones component.type = false →
      component.zones.flatMap (·.2) = []) :
    reachable (displayed named) roots = reachable named roots := by
  have same : Contains (displayed named) = Contains named := by
    funext id inner
    rw [Contains, Contains, contained, contained, displayed]
    cases isNamed : named id with
    | none => rfl
    | some component =>
      rw [Option.map_some, Option.map_some, Option.map_some, Component.displayed]
      split
      next => rfl
      next hidden =>
        rw [bare id component isNamed (Bool.eq_false_iff.mpr hidden)]
        rfl
  ext id
  simp [reachable, same, displayed]

variable {scene : Scene} {forest : Forest} {signs : List Sign}

theorem Marks.mem_places_iff (marks : Marks scene forest.branches signs) (isOf : forest.IsOf named)
    (id : String) : id ∈ places signs ↔ id ∈ reachable (displayed named) forest.ids := by
  rw [marks.places_perm.mem_iff, ← forest.postorder_pruned, isOf.pruned.mem_postorder_iff,
    forest.ids_pruned]

theorem Marks.nodup_places (marks : Marks scene forest.branches signs)
    (once : forest.postorder.Nodup) : (places signs).Nodup := by
  rw [marks.places_perm.nodup_iff, ← forest.postorder_pruned]
  exact once.sublist forest.postorder_pruned_sublist

theorem Marks.places_perm_postorder (marks : Marks scene forest.branches signs)
    (isOf : forest.IsOf named) (once : forest.postorder.Nodup)
    (bare : ∀ id component, named id = some component → showsZones component.type = false →
      component.zones.flatMap (·.2) = []) : (places signs).Perm forest.postorder := by
  refine (List.perm_ext_iff_of_nodup (marks.nodup_places once) once).mpr fun id => ?_
  rw [marks.mem_places_iff isOf, isOf.mem_postorder_iff, reachable_displayed bare]

end

/-- A pass that starts with nothing visited renders no component twice. -/
theorem Adds.nodup_postorder {named : String → Option Component} {forest : Forest} {last : State}
    (isOf : forest.IsOf named) (adds : Adds forest.preorder forest.postorder {} last) :
    forest.postorder.Nodup := by
  have visited : last.visited = forest.preorder.reverse := adds.visited.trans (List.append_nil _)
  have preorder : forest.preorder.Nodup :=
    List.nodup_reverse.mp (visited ▸ adds.once List.nodup_nil)
  exact isOf.postorder_perm.nodup_iff.mpr (preorder.filter _)

/--
A pass that succeeds in one mode succeeds in both, with the same ids. The two markups are one text
in which the id of every component that is shown has its place, once, behind the name of the first
tag of the component. If only the zones that are shown hold anything, these are all the components
that have been rendered.
-/
theorem renderIds_annotated {heap : Heap} {components : List Component} {options : Options}
    {scene : Scene}
    (isScene : Scene.ofEntries heap (components.map .component) core options = .ok scene)
    {annotate : Bool} {roots : List String} {markup : String} {last : State}
    (done : renderIds (scene.annotating annotate) roots {} = (.ok markup, last)) :
    ∃ (forest : Forest) (signs : List Sign),
      forest.IsOf (Component.lastNamed components) ∧ forest.ids = roots ∧
      (∀ other, renderIds (scene.annotating other) roots {} = (.ok (written other signs), last)) ∧
      Marks scene forest.branches signs ∧ (places signs).Nodup ∧
      (∀ id, id ∈ places signs ↔
        id ∈ reachable (displayed (Component.lastNamed components)) roots) ∧
      ((∀ component ∈ components, showsZones component.type = false →
        component.zones.flatMap (·.2) = []) → (places signs).length = last.rendered) := by
  obtain ⟨named, isKeyed, isCore⟩ := Scene.named_of_ofEntries isScene
  have unfolds (other : Bool) {markup : String} {last : State}
      (done : renderIds (scene.annotating other) roots {} = (.ok markup, last)) :
      ∃ forest : Forest, forest.ids = roots ∧ forest.IsOf (Component.lastNamed components) ∧
        forest.markup (scene.annotating other) = .ok markup ∧
          Adds forest.preorder forest.postorder {} last := by
    obtain ⟨forest, ids, isOf, made, -, adds⟩ :=
      renderIdsBy_unfolds (@renderWith_unfolds (scene.annotating other) isKeyed _) done
    exact ⟨forest, ids, named ▸ isOf, made, adds⟩
  obtain ⟨forest, rfl, isOf, made, adds⟩ := unfolds annotate done
  obtain ⟨signs, marks, writes⟩ := Forest.exists_marks isCore made
  -- The ids determine the forest, so it is the same one in both modes.
  have passes (other : Bool) :
      renderIds (scene.annotating other) forest.ids {} = (.ok (written other signs), last) := by
    obtain ⟨markup', done'⟩ := renderIds_succeedsAs isCore other annotate _ done
    obtain ⟨forest', ids, isOf', made', -⟩ := unfolds other done'
    obtain rfl : forest' = forest := isOf'.unique isOf ids
    rw [done', Except.ok.inj (made'.symm.trans (writes other))]
  have once : forest.postorder.Nodup := adds.nodup_postorder isOf
  refine ⟨forest, signs, isOf, rfl, passes, marks, marks.nodup_places once,
    marks.mem_places_iff isOf, fun bare => ?_⟩
  have all : (places signs).Perm forest.postorder :=
    marks.places_perm_postorder isOf once fun id component isNamed =>
      bare component (List.mem_reverse.mp (List.mem_of_find?_eq_some isNamed))
  rw [all.length_eq, adds.rendered]
  exact (Nat.zero_add _).symm

/-- Columns in a section, with a text in one of them and finished markup in the other. -/
def letterHeap : Heap :=
  ⟨#[.dict [], .dict [(.str "text", .str "a<b")], .dict [(.str "html", .str "<b>raw</b>")]]⟩

def letter : List Component :=
  [⟨"s", "Section", .ref 0, [("main", ["c", "none"])]⟩,
   ⟨"c", "Columns", .ref 0, [("left", ["t"]), ("right", ["h"])]⟩,
   ⟨"t", "Text", .ref 1, []⟩, ⟨"h", "Html", .ref 2, []⟩]

theorem renderIds_annotated_letter :
    ∃ scene markup last, Scene.ofEntries letterHeap (letter.map .component) core {} = .ok scene ∧
      renderIds (scene.annotating true) ["s"] {} = (.ok markup, last) ∧
      ∃ (forest : Forest) (signs : List Sign), forest.ids = ["s"] ∧
        (∀ other, renderIds (scene.annotating other) ["s"] {} = (.ok (written other signs), last)) ∧
        Marks scene forest.branches signs ∧ (places signs).Nodup ∧ (places signs).length = 4 := by
  have isScene := ofEntries_map_component letterHeap letter core {}
  obtain ⟨forest, signs, -, ids, passes, marks, nodup, -, count⟩ := renderIds_annotated isScene
    (show renderIds (Scene.annotating _ true) ["s"] {} = (.ok _, _) from rfl)
  exact ⟨_, _, _, isScene, rfl, forest, signs, ids, passes, marks, nodup, count (by decide)⟩

/-- A text in a zone of a heading. -/
def captionHeap : Heap :=
  ⟨#[.dict [(.str "text", .str "T")], .dict [(.str "text", .str "lost")]]⟩

def caption : List Component :=
  [⟨"h", "Heading", .ref 0, [("main", ["x"])]⟩, ⟨"x", "Text", .ref 1, []⟩]

/-- Both components are rendered, but the second one has no place in the markup. -/
theorem renderIds_annotated_caption :
    ∃ scene last, Scene.ofEntries captionHeap (caption.map .component) core {} = .ok scene ∧
      renderIds (scene.annotating false) ["h"] {} = (.ok "<h2 class=\"dc-h\">T</h2>", last) ∧
      renderIds (scene.annotating true) ["h"] {} =
        (.ok "<h2 data-component-id=\"h\" class=\"dc-h\">T</h2>", last) ∧
      last.visited = ["x", "h"] ∧ last.rendered = 2 ∧
      ¬ (Attribute.value componentAttribute "x").write.toList <:+:
        "<h2 data-component-id=\"h\" class=\"dc-h\">T</h2>".toList :=
  ⟨_, ⟨["x", "h"], 2, []⟩, ofEntries_map_component captionHeap caption core {},
    by decide +kernel, by decide +kernel, rfl, rfl, by decide +kernel⟩

end Rendering

end StaticSite
