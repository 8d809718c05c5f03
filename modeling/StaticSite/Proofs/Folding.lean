import Mathlib.Data.Set.Card
import StaticSite.Proofs.Traversal

/-!
# The fold that a rendering pass computes

A pass that succeeds has rendered the containment of its roots as a tree: what it keeps about the
ids that it has visited leaves no trace in the markup. The tree also tells in which order the
components were rendered.
-/

namespace StaticSite.Rendering

/-! ## Containment as a tree -/

mutual

/-- What an id stands for: nothing, or a component over what its zones hold. -/
inductive Branch where
  | stray (id : String)
  | node (component : Component) (zones : Zones)

/-- What a list of ids stands for. -/
inductive Forest where
  | nil
  | cons (first : Branch) (rest : Forest)

/-- What the ids in the zones of a component stand for. -/
inductive Zones where
  | nil
  | cons (zone : String) (forest : Forest) (rest : Zones)

end

def Branch.id : Branch → String
  | .stray id => id
  | .node component _ => component.id

def Forest.ids : Forest → List String
  | .nil => []
  | .cons first rest => first.id :: rest.ids

def Zones.ids : Zones → Ordered (List String)
  | .nil => []
  | .cons zone forest rest => (zone, forest.ids) :: rest.ids

section

variable (named : String → Option Component)

mutual

/-- Whether the ids of a tree stand for what they name. -/
def Branch.IsOf : Branch → Prop
  | .stray id => named id = none
  | .node component zones =>
    named component.id = some component ∧ zones.ids = component.zones ∧ zones.IsOf

def Forest.IsOf : Forest → Prop
  | .nil => True
  | .cons first rest => first.IsOf ∧ rest.IsOf

def Zones.IsOf : Zones → Prop
  | .nil => True
  | .cons _ forest rest => forest.IsOf ∧ rest.IsOf

end

end

/-- The markups that are not empty, each on lines of its own. -/
def joined (markups : List String) : String := "\n".intercalate (markups.filter (· ≠ ""))

section

variable (scene : Scene)

mutual

/-- The markup of a tree: that of a component is made from that of its zones. -/
def Branch.markup : Branch → Except Fault String
  | .stray _ => .ok ""
  | .node component zones => do
    let children ← zones.children
    componentMarkup scene.heap scene.registry scene.options component children

def Forest.markups : Forest → Except Fault (List String)
  | .nil => .ok []
  | .cons first rest => do
    let markup ← first.markup
    let others ← rest.markups
    return markup :: others

def Zones.children : Zones → Except Fault Children
  | .nil => .ok []
  | .cons zone forest rest => do
    let markups ← forest.markups
    let others ← rest.children
    return (zone, joined markups) :: others

end

def Forest.markup (forest : Forest) : Except Fault String := do
  let markups ← forest.markups scene
  return joined markups

end

mutual

/-- The ids of a tree, each in front of those below it. -/
def Branch.preorder : Branch → List String
  | .stray id => [id]
  | .node component zones => component.id :: zones.preorder

def Forest.preorder : Forest → List String
  | .nil => []
  | .cons first rest => first.preorder ++ rest.preorder

def Zones.preorder : Zones → List String
  | .nil => []
  | .cons _ forest rest => forest.preorder ++ rest.preorder

end

mutual

/-- The ids of the components of a tree, each behind those below it. -/
def Branch.postorder : Branch → List String
  | .stray _ => []
  | .node component zones => zones.postorder ++ [component.id]

def Forest.postorder : Forest → List String
  | .nil => []
  | .cons first rest => first.postorder ++ rest.postorder

def Zones.postorder : Zones → List String
  | .nil => []
  | .cons _ forest rest => forest.postorder ++ rest.postorder

end

/-- Whether a component has an id in one of its zones. -/
def Contains (named : String → Option Component) (id inner : String) : Prop :=
  inner ∈ contained named id

/-- The components that can be reached from some roots, by their ids. -/
def reachable (named : String → Option Component) (roots : List String) : Set String :=
  {id | (∃ component, named id = some component) ∧
    ∃ root ∈ roots, Relation.ReflTransGen (Contains named) root id}

section

variable {named : String → Option Component}

theorem contained_of_eq_some {id : String} {component : Component}
    (isNamed : named id = some component) : contained named id = component.zones.flatMap (·.2) := by
  rw [contained, isNamed]
  rfl

theorem contained_of_eq_none {id : String} (absent : named id = none) :
    contained named id = [] := by
  rw [contained, absent]
  rfl

/-! ### One tree for the same ids -/

mutual

theorem Branch.IsOf.unique : ∀ {branch other : Branch}, branch.IsOf named → other.IsOf named →
    branch.id = other.id → branch = other
  | .stray _, .stray _, _, _, same => congrArg Branch.stray same
  | .stray id, .node component zones, absent, ⟨isNamed, _, _⟩, same => by
    simp only [Branch.id] at same
    subst same
    cases absent.symm.trans isNamed
  | .node component zones, .stray id, ⟨isNamed, _, _⟩, absent, same => by
    simp only [Branch.id] at same
    subst same
    cases absent.symm.trans isNamed
  | .node component zones, .node component' zones', ⟨isNamed, ids, isOf⟩, ⟨isNamed', ids', isOf'⟩,
      same => by
    simp only [Branch.id] at same
    rw [same] at isNamed
    obtain rfl : component = component' := Option.some.inj (isNamed.symm.trans isNamed')
    rw [Zones.IsOf.unique isOf isOf' (ids.trans ids'.symm)]

theorem Forest.IsOf.unique : ∀ {forest other : Forest}, forest.IsOf named → other.IsOf named →
    forest.ids = other.ids → forest = other
  | .nil, .nil, _, _, _ => rfl
  | .nil, .cons _ _, _, _, same => by cases same
  | .cons _ _, .nil, _, _, same => by cases same
  | .cons first rest, .cons first' rest', ⟨here, later⟩, ⟨here', later'⟩, same => by
    obtain ⟨head, tail⟩ := List.cons.inj same
    rw [Branch.IsOf.unique here here' head, Forest.IsOf.unique later later' tail]

theorem Zones.IsOf.unique : ∀ {zones other : Zones}, zones.IsOf named → other.IsOf named →
    zones.ids = other.ids → zones = other
  | .nil, .nil, _, _, _ => rfl
  | .nil, .cons _ _ _, _, _, same => by cases same
  | .cons _ _ _, .nil, _, _, same => by cases same
  | .cons zone forest rest, .cons zone' forest' rest', ⟨here, later⟩, ⟨here', later'⟩, same => by
    obtain ⟨head, tail⟩ := List.cons.inj same
    obtain ⟨name, ids⟩ := Prod.mk.inj head
    rw [name, Forest.IsOf.unique here here' ids, Zones.IsOf.unique later later' tail]

end

/-! ### What is in a tree -/

theorem Branch.id_mem_preorder (branch : Branch) : branch.id ∈ branch.preorder := by
  cases branch with
  | stray id => exact List.mem_cons_self ..
  | node component zones => exact List.mem_cons_self ..

theorem Forest.ids_subset_preorder : ∀ forest : Forest, forest.ids ⊆ forest.preorder
  | .nil => List.Subset.refl _
  | .cons first rest => by
    rw [Forest.ids, Forest.preorder]
    exact List.cons_subset.mpr ⟨List.mem_append_left _ first.id_mem_preorder,
      List.subset_append_of_subset_right _ rest.ids_subset_preorder⟩

theorem Zones.ids_subset_preorder : ∀ zones : Zones, zones.ids.flatMap (·.2) ⊆ zones.preorder
  | .nil => List.Subset.refl _
  | .cons zone forest rest => by
    rw [Zones.ids, List.flatMap_cons, Zones.preorder]
    exact List.append_subset.mpr
      ⟨List.subset_append_of_subset_left _ forest.ids_subset_preorder,
        List.subset_append_of_subset_right _ rest.ids_subset_preorder⟩

mutual

/-- Whatever a component of a tree contains is in the tree. -/
theorem Branch.IsOf.closed {id inner : String} (contains : Contains named id inner) :
    ∀ {branch : Branch}, branch.IsOf named → id ∈ branch.preorder → inner ∈ branch.preorder
  | .stray other, absent, member => by
    cases List.mem_singleton.mp member
    rw [Contains, contained_of_eq_none absent] at contains
    cases contains
  | .node component zones, ⟨isNamed, ids, isOf⟩, member => by
    refine List.mem_cons_of_mem _ ?_
    rcases List.mem_cons.mp member with rfl | below
    · rw [Contains, contained_of_eq_some isNamed, ← ids] at contains
      exact zones.ids_subset_preorder contains
    · exact isOf.closed contains below

theorem Forest.IsOf.closed {id inner : String} (contains : Contains named id inner) :
    ∀ {forest : Forest}, forest.IsOf named → id ∈ forest.preorder → inner ∈ forest.preorder
  | .nil, _, member => by cases member
  | .cons _ _, ⟨here, later⟩, member =>
    List.mem_append.mpr
      ((List.mem_append.mp member).imp (here.closed contains) (later.closed contains))

theorem Zones.IsOf.closed {id inner : String} (contains : Contains named id inner) :
    ∀ {zones : Zones}, zones.IsOf named → id ∈ zones.preorder → inner ∈ zones.preorder
  | .nil, _, member => by cases member
  | .cons _ _ _, ⟨here, later⟩, member =>
    List.mem_append.mpr
      ((List.mem_append.mp member).imp (here.closed contains) (later.closed contains))

end

mutual

/-- Whatever is in a tree can be reached from its roots. -/
theorem Branch.IsOf.reached {id : String} :
    ∀ {branch : Branch}, branch.IsOf named → id ∈ branch.preorder →
      Relation.ReflTransGen (Contains named) branch.id id
  | .stray other, _, member => by
    cases List.mem_singleton.mp member
    exact .refl
  | .node component zones, ⟨isNamed, ids, isOf⟩, member => by
    rcases List.mem_cons.mp member with rfl | below
    · exact .refl
    · obtain ⟨root, isRoot, path⟩ := isOf.reached below
      refine .head ?_ path
      rw [Branch.id, Contains, contained_of_eq_some isNamed, ← ids]
      exact isRoot

theorem Forest.IsOf.reached {id : String} :
    ∀ {forest : Forest}, forest.IsOf named → id ∈ forest.preorder →
      ∃ root ∈ forest.ids, Relation.ReflTransGen (Contains named) root id
  | .nil, _, member => by cases member
  | .cons first rest, ⟨here, later⟩, member => by
    rcases List.mem_append.mp member with inFirst | inRest
    · exact ⟨first.id, List.mem_cons_self .., here.reached inFirst⟩
    · obtain ⟨root, isRoot, path⟩ := later.reached inRest
      exact ⟨root, List.mem_cons_of_mem _ isRoot, path⟩

theorem Zones.IsOf.reached {id : String} :
    ∀ {zones : Zones}, zones.IsOf named → id ∈ zones.preorder →
      ∃ root ∈ zones.ids.flatMap (·.2), Relation.ReflTransGen (Contains named) root id
  | .nil, _, member => by cases member
  | .cons zone forest rest, ⟨here, later⟩, member => by
    rw [Zones.ids, List.flatMap_cons]
    rcases List.mem_append.mp member with inForest | inRest
    · obtain ⟨root, isRoot, path⟩ := here.reached inForest
      exact ⟨root, List.mem_append_left _ isRoot, path⟩
    · obtain ⟨root, isRoot, path⟩ := later.reached inRest
      exact ⟨root, List.mem_append_right _ isRoot, path⟩

end

/-- The ids of a forest are those that can be reached from its roots. -/
theorem Forest.IsOf.mem_preorder_iff {forest : Forest} (isOf : forest.IsOf named) {id : String} :
    id ∈ forest.preorder ↔
      ∃ root ∈ forest.ids, Relation.ReflTransGen (Contains named) root id := by
  refine ⟨isOf.reached, ?_⟩
  rintro ⟨root, isRoot, path⟩
  induction path with
  | refl => exact forest.ids_subset_preorder isRoot
  | tail _ step ih => exact isOf.closed step ih

mutual

/-- In the second order stand the components of the first. -/
theorem Branch.IsOf.postorder_perm : ∀ {branch : Branch}, branch.IsOf named →
    branch.postorder.Perm (branch.preorder.filter fun id => (named id).isSome)
  | .stray id, absent => by
    have noComponent : ¬ (named id).isSome = true := by rw [show named id = none from absent]; simp
    rw [Branch.postorder, Branch.preorder,
      List.filter_cons_of_neg (p := fun id => (named id).isSome) noComponent]
    exact .refl _
  | .node component zones, ⟨isNamed, _, isOf⟩ => by
    have isComponent : (named component.id).isSome = true := by rw [isNamed]; rfl
    rw [Branch.postorder, Branch.preorder,
      List.filter_cons_of_pos (p := fun id => (named id).isSome) isComponent]
    exact (List.perm_append_singleton _ _).trans (isOf.postorder_perm.cons _)

theorem Forest.IsOf.postorder_perm : ∀ {forest : Forest}, forest.IsOf named →
    forest.postorder.Perm (forest.preorder.filter fun id => (named id).isSome)
  | .nil, _ => .refl _
  | .cons _ _, ⟨here, later⟩ => by
    rw [Forest.postorder, Forest.preorder, List.filter_append]
    exact here.postorder_perm.append later.postorder_perm

theorem Zones.IsOf.postorder_perm : ∀ {zones : Zones}, zones.IsOf named →
    zones.postorder.Perm (zones.preorder.filter fun id => (named id).isSome)
  | .nil, _ => .refl _
  | .cons _ _ _, ⟨here, later⟩ => by
    rw [Zones.postorder, Zones.preorder, List.filter_append]
    exact here.postorder_perm.append later.postorder_perm

end

theorem Forest.IsOf.mem_postorder_iff {forest : Forest} (isOf : forest.IsOf named) {id : String} :
    id ∈ forest.postorder ↔ id ∈ reachable named forest.ids := by
  rw [isOf.postorder_perm.mem_iff, List.mem_filter, isOf.mem_preorder_iff, and_comm,
    Option.isSome_iff_exists]
  rfl

/-! ### What stands in front of an id -/

/-- In front of an id stand all components below it. -/
def Descends (named : String → Option Component) (order : List String) : Prop :=
  ∀ before id after, order = before ++ id :: after → ∀ inner,
    Relation.TransGen (Contains named) id inner → (∃ component, named inner = some component) →
      inner ∈ before

theorem Descends.nil : Descends named [] := by
  intro before id after split
  cases before <;> cases split

theorem Descends.append {order more : List String} (here : Descends named order)
    (later : Descends named more) : Descends named (order ++ more) := by
  intro before id after split inner below isNamed
  rcases List.append_eq_append_iff.mp split with ⟨front, rfl, rest⟩ | ⟨back, whole, rest⟩
  · exact List.mem_append_right _ (later front id after rest inner below isNamed)
  · cases back with
    | nil =>
      have atEnd : more = [] ++ id :: after := rest.symm
      exact absurd (later [] id after atEnd inner below isNamed) (List.not_mem_nil)
    | cons first back =>
      cases rest
      exact here before id back whole inner below isNamed

theorem Descends.concat {order : List String} {id : String} (here : Descends named order)
    (last : ∀ inner, Relation.TransGen (Contains named) id inner →
      (∃ component, named inner = some component) → inner ∈ order) :
    Descends named (order ++ [id]) := by
  intro before other after split inner below isNamed
  rcases List.eq_nil_or_concat after with rfl | ⟨after, final, rfl⟩
  · obtain ⟨rfl, same⟩ := List.append_inj' split rfl
    cases same
    exact last inner below isNamed
  · rw [List.concat_eq_append, ← List.cons_append, ← List.append_assoc] at split
    obtain ⟨rfl, -⟩ := List.append_inj' split rfl
    exact here before other after rfl inner below isNamed

/-- The components below a component are those in its zones. -/
theorem Zones.IsOf.mem_postorder_of_below {component : Component} {zones : Zones}
    (isOf : zones.IsOf named) (isNamed : named component.id = some component)
    (ids : zones.ids = component.zones) {inner : String}
    (below : Relation.TransGen (Contains named) component.id inner)
    (isComponent : ∃ other, named inner = some other) : inner ∈ zones.postorder := by
  obtain ⟨next, first, path⟩ := Relation.TransGen.head'_iff.mp below
  rw [Contains, contained_of_eq_some isNamed, ← ids] at first
  have inside : inner ∈ zones.preorder := by
    clear below isComponent
    induction path with
    | refl => exact zones.ids_subset_preorder first
    | tail _ step ih => exact isOf.closed step ih
  exact isOf.postorder_perm.mem_iff.mpr
    (List.mem_filter.mpr ⟨inside, Option.isSome_iff_exists.mpr isComponent⟩)

mutual

theorem Branch.IsOf.descends : ∀ {branch : Branch}, branch.IsOf named →
    Descends named branch.postorder
  | .stray _, _ => .nil
  | .node _ _, ⟨isNamed, ids, isOf⟩ =>
    isOf.descends.concat fun _ below => isOf.mem_postorder_of_below isNamed ids below

theorem Forest.IsOf.descends : ∀ {forest : Forest}, forest.IsOf named →
    Descends named forest.postorder
  | .nil, _ => .nil
  | .cons _ _, ⟨here, later⟩ => here.descends.append later.descends

theorem Zones.IsOf.descends : ∀ {zones : Zones}, zones.IsOf named →
    Descends named zones.postorder
  | .nil, _ => .nil
  | .cons _ _ _, ⟨here, later⟩ => here.descends.append later.descends

end

end

/-! ## The order of a pass -/

section

variable (scene : Scene) (enter : String → Step String) (calls : String → State → List String)

/-- The components that are rendered while a pass goes through ids, in their order. -/
def callsEach : List String → State → List String
  | [], _ => []
  | id :: ids, state =>
    calls id state ++
      match enter id state with
      | (.error _, _) => []
      | (.ok _, next) => callsEach ids next

def callsZones : Ordered (List String) → State → List String
  | [], _ => []
  | (_, ids) :: zones, state =>
    callsEach enter calls ids state ++
      match renderIdsBy enter ids state with
      | (.error _, _) => []
      | (.ok _, next) => callsZones zones next

/-- A component is rendered after its zones, if it can be rendered. -/
def callsFound (component : Component) (state : State) : List String :=
  if Ordered.contains scene.registry component.type then
    callsZones enter calls component.zones state ++
      match renderZones enter component.zones state with
      | (.error _, _) => []
      | (.ok _, _) => [component.id]
  else []

end

/-- The components whose renderers are called for an id, in the order of the calls. -/
def callsWith (scene : Scene) : Nat → String → State → List String
  | 0, _, _ => []
  | fuel + 1, id, state =>
    if id ∈ state.visited then []
    else
      match Ordered.get? scene.components id with
      | none => []
      | some component =>
        callsFound scene (renderWith scene fuel) (callsWith scene fuel) component
          { state with visited := id :: state.visited }

/-- The components whose renderers a pass over some roots calls, in the order of the calls. -/
def calls (scene : Scene) (roots : List String) : List String :=
  callsEach (renderId scene) (callsWith scene (scene.components.length + 1)) roots {}

/-- What a part of a pass has added to the state. -/
structure Adds (visits made : List String) (state last : State) : Prop where
  visited : last.visited = visits.reverse ++ state.visited
  rendered : last.rendered = state.rendered + made.length
  once : state.visited.Nodup → last.visited.Nodup

theorem Adds.nil (state : State) : Adds [] [] state state := ⟨rfl, rfl, id⟩

theorem Adds.append {visits made visits' made' : List String} {state next last : State}
    (here : Adds visits made state next) (later : Adds visits' made' next last) :
    Adds (visits ++ visits') (made ++ made') state last where
  visited := by rw [later.visited, here.visited, List.reverse_append, List.append_assoc]
  rendered := by rw [later.rendered, here.rendered, List.length_append, Nat.add_assoc]
  once := fun once => later.once (here.once once)

section

variable {scene : Scene} {enter : String → Step String} {calls : String → State → List String}
  {state last : State}

/-- A step over an id that has succeeded has rendered what the id stands for. -/
def Unfolds (scene : Scene) (enter : String → Step String)
    (calls : String → State → List String) : Prop :=
  ∀ ⦃id state markup last⦄, enter id state = (.ok markup, last) →
    ∃ branch : Branch, branch.id = id ∧ branch.IsOf (Ordered.get? scene.components) ∧
      branch.markup scene = .ok markup ∧ calls id state = branch.postorder ∧
        Adds branch.preorder branch.postorder state last

theorem renderEach_unfolds (each : Unfolds scene enter calls) {ids markups : List String}
    (done : renderEach enter ids state = (.ok markups, last)) :
    ∃ forest : Forest, forest.ids = ids ∧ forest.IsOf (Ordered.get? scene.components) ∧
      forest.markups scene = .ok markups ∧ callsEach enter calls ids state = forest.postorder ∧
        Adds forest.preorder forest.postorder state last := by
  induction ids generalizing state markups with
  | nil =>
    cases done
    exact ⟨.nil, rfl, trivial, rfl, rfl, .nil last⟩
  | cons id ids ih =>
    obtain ⟨markup, others, next, entered, later, rfl⟩ := renderEach_cons_ok done
    obtain ⟨first, rfl, isFirst, made, order, adds⟩ := each entered
    obtain ⟨rest, rfl, isRest, made', order', adds'⟩ := ih later
    refine ⟨.cons first rest, rfl, ⟨isFirst, isRest⟩, ?_, ?_, adds.append adds'⟩
    · rw [Forest.markups, made, made']
      rfl
    · rw [callsEach, entered, order, Forest.postorder, ← order']

theorem renderIdsBy_unfolds (each : Unfolds scene enter calls) {ids : List String} {markup : String}
    (done : renderIdsBy enter ids state = (.ok markup, last)) :
    ∃ forest : Forest, forest.ids = ids ∧ forest.IsOf (Ordered.get? scene.components) ∧
      forest.markup scene = .ok markup ∧ callsEach enter calls ids state = forest.postorder ∧
        Adds forest.preorder forest.postorder state last := by
  obtain ⟨markups, parts, rfl⟩ := renderIdsBy_ok done
  obtain ⟨forest, ids, isOf, made, order, adds⟩ := renderEach_unfolds each parts
  refine ⟨forest, ids, isOf, ?_, order, adds⟩
  rw [Forest.markup, made]
  rfl

theorem renderZones_unfolds (each : Unfolds scene enter calls) {layout : Ordered (List String)}
    {children : Children} (done : renderZones enter layout state = (.ok children, last)) :
    ∃ zones : Zones, zones.ids = layout ∧ zones.IsOf (Ordered.get? scene.components) ∧
      zones.children scene = .ok children ∧ callsZones enter calls layout state = zones.postorder ∧
        Adds zones.preorder zones.postorder state last := by
  induction layout generalizing state children with
  | nil =>
    cases done
    exact ⟨.nil, rfl, trivial, rfl, rfl, .nil last⟩
  | cons zone layout ih =>
    obtain ⟨zone, ids⟩ := zone
    obtain ⟨markup, others, next, here, later, rfl⟩ := renderZones_cons_ok done
    obtain ⟨forest, rfl, isForest, made, order, adds⟩ := renderIdsBy_unfolds each here
    obtain ⟨rest, rfl, isRest, made', order', adds'⟩ := ih later
    obtain ⟨markups, each, joined⟩ := exists_of_bind_eq_ok made
    cases joined
    refine ⟨.cons zone forest rest, rfl, ⟨isForest, isRest⟩, ?_, ?_, adds.append adds'⟩
    · rw [Zones.children, each, made']
      rfl
    · rw [callsZones, here, order, Zones.postorder, ← order']

theorem renderFound_unfolds (each : Unfolds scene enter calls) {component : Component}
    {markup : String} (isNamed : Ordered.get? scene.components component.id = some component)
    (done : renderFound scene enter component state = (.ok markup, last)) :
    ∃ zones : Zones, (Branch.node component zones).IsOf (Ordered.get? scene.components) ∧
      (Branch.node component zones).markup scene = .ok markup ∧
      callsFound scene enter calls component state = (Branch.node component zones).postorder ∧
        Adds zones.preorder (Branch.node component zones).postorder state last := by
  have registered : Ordered.contains scene.registry component.type = true := by
    by_contra unregistered
    rw [renderFound, if_neg unregistered] at done
    cases done
  obtain ⟨children, next, inside, written, rfl⟩ := renderFound_ok done
  obtain ⟨zones, ids, isOf, made, order, adds⟩ := renderZones_unfolds each inside
  refine ⟨zones, ⟨isNamed, ids, isOf⟩, ?_, ?_, ?_⟩
  · rw [Branch.markup, made]
    exact written
  · rw [callsFound, if_pos registered, inside, order, Branch.postorder]
  · refine ⟨adds.visited, ?_, adds.once⟩
    rw [adds.rendered, Branch.postorder, List.length_append]
    rfl

end

theorem renderWith_unfolds {scene : Scene}
    (isKeyed : scene.IsKeyed)
    (fuel : Nat) : Unfolds scene (renderWith scene fuel) (callsWith scene fuel) := by
  induction fuel with
  | zero => rintro id state markup last ⟨⟩
  | succ fuel ih =>
    intro id state markup last done
    obtain ⟨unvisited, ⟨missing, rfl, rfl⟩ | ⟨component, found, done⟩⟩ := renderWith_ok done
    · refine ⟨.stray id, rfl, missing, rfl, ?_, rfl, rfl, fun once => once.cons unvisited⟩
      rw [callsWith, if_neg unvisited, missing]
      rfl
    · obtain rfl : component.id = id := isKeyed id component found
      obtain ⟨zones, isOf, made, order, adds⟩ := renderFound_unfolds ih found done
      refine ⟨.node component zones, rfl, isOf, made, ?_, ?_, adds.rendered,
        fun once => adds.once (once.cons unvisited)⟩
      · rw [callsWith, if_neg unvisited, found]
        exact order
      · rw [adds.visited, Branch.preorder, List.reverse_cons, List.append_assoc]
        rfl

/--
A pass that succeeds gives the fold of the one tree that its roots stand for, and has called the
renderer of every component that can be reached from the roots, each once and after all the
components below it.
-/
theorem renderIds_folds {heap : Heap} {components : List Component} {registry : Registry}
    {options : Options} {scene : Scene}
    (isScene : Scene.ofEntries heap (components.map .component) registry options = .ok scene)
    {roots : List String} {markup : String} {last : State}
    (done : renderIds scene roots {} = (.ok markup, last)) :
    (∃ forest : Forest, forest.IsOf (Component.lastNamed components) ∧ forest.ids = roots ∧
      forest.markup scene = .ok markup ∧
      ∀ other : Forest, other.IsOf (Component.lastNamed components) → other.ids = roots →
        other = forest) ∧
    last.rendered = (reachable (Component.lastNamed components) roots).ncard ∧
    (calls scene roots).Nodup ∧
    (∀ id, id ∈ calls scene roots ↔ id ∈ reachable (Component.lastNamed components) roots) ∧
    Descends (Component.lastNamed components) (calls scene roots) := by
  obtain ⟨named, isKeyed, -⟩ := Scene.named_of_ofEntries isScene
  obtain ⟨forest, rfl, isOf, made, order, adds⟩ :=
    renderIdsBy_unfolds (renderWith_unfolds isKeyed (scene.components.length + 1)) done
  rw [named] at isOf
  have once : forest.postorder.Nodup := by
    have visited : last.visited = forest.preorder.reverse := adds.visited.trans (List.append_nil _)
    have preorder : forest.preorder.Nodup :=
      List.nodup_reverse.mp (visited ▸ adds.once List.nodup_nil)
    exact isOf.postorder_perm.nodup_iff.mpr (preorder.filter _)
  have inOrder (id : String) :
      id ∈ forest.postorder ↔ id ∈ reachable (Component.lastNamed components) forest.ids :=
    isOf.mem_postorder_iff
  rw [show calls scene forest.ids = forest.postorder from order]
  refine ⟨⟨forest, isOf, rfl, made, fun other isOther ids => isOther.unique isOf ids⟩, ?_, once,
    inOrder, isOf.descends⟩
  have all : reachable (Component.lastNamed components) forest.ids =
      (forest.postorder.toFinset : Set String) := by
    ext id
    rw [← inOrder, List.coe_toFinset]
    rfl
  rw [all, Set.ncard_coe_finset, List.toFinset_card_of_nodup once, adds.rendered]
  exact Nat.zero_add _

/-- A box that holds two others, one of which holds a third, and an id that names nothing. -/
def nestedBoxes : List Component :=
  [box "a" [("main", ["b", "none"]), ("side", ["c"])], box "b" [], box "c" [("main", ["d"])],
    box "d" []]

theorem renderIds_folds_nested :
    ∃ scene markup last, ∃ forest : Forest,
      Scene.ofEntries {} (nestedBoxes.map .component) boxes {} = .ok scene ∧
      renderIds scene ["a"] {} = (.ok markup, last) ∧ forest.ids = ["a"] ∧
      forest.markup scene = .ok markup ∧ calls scene ["a"] = ["b", "d", "c", "a"] ∧
      4 = (reachable (Component.lastNamed nestedBoxes) ["a"]).ncard ∧
      Descends (Component.lastNamed nestedBoxes) (calls scene ["a"]) := by
  obtain ⟨⟨forest, -, ids, made, -⟩, count, -, -, descends⟩ := renderIds_folds
    (ofEntries_map_component {} nestedBoxes boxes {})
    (show renderIds _ ["a"] {} = (.ok _, _) from rfl)
  exact ⟨_, _, _, forest, rfl, rfl, ids, made, rfl, count, descends⟩

end StaticSite.Rendering
