import StaticSite.Proofs.ScalarText
import StaticSite.Proofs.SiteDefects
import StaticSite.Proofs.Traversal

/-!
# References that survive loading

The lists of a page refer to components by the texts of their values. A component has the text of
what identifies it as its id, but trimmed; so a reference leads to the component that the same
scalar identifies exactly if the scalar's text has no blanks around it.
-/

namespace StaticSite

theorem Checked.of_ok {α : Type} {outcome : Except Fault α} {defects : List Fault}
    {result value : α} (checked : Checked outcome defects result) (done : outcome = .ok value) :
    defects = [] ∧ value = result := by
  unfold Checked at checked
  rw [done] at checked
  cases defects with
  | nil => exact ⟨rfl, Except.ok.inj checked⟩
  | cons fault later => cases checked

theorem Component.isSome_lastNamed (components : List Component) (id : String) :
    (lastNamed components id).isSome = true ↔ id ∈ components.map (·.id) := by
  simp [lastNamed, List.find?_isSome]

namespace Site

/-! ## Where references are listed -/

section

variable (heap : Heap) (data : Entries)

/-- The components of a page; those of its content, if it has the form of an editor. -/
def componentsValue : Value :=
  match heap.dict? (data.get "content") with
  | some content => content.get "components"
  | none => data.get "components"

/-- The entries of a page's components, each with the key that it stands under. -/
def entriesOf : List (Value × Value) := componentPairs heap (componentsValue heap data)

/-- The list of a page's roots. -/
def rootList : Value :=
  match heap.dict? (data.get "content") with
  | some content => (heap.entries (content.get "root")).get "children"
  | none => (heap.entries (data.get "rootZone")).get "componentIds"

/-- The lists under the names of zones; of several with one name the last one counts. -/
def namedLists (entry : Value) : Ordered Value :=
  Ordered.ofList
    ((heap.entries ((heap.entries entry).get "zones")).map fun zone => (zone.1.text heap, zone.2))

/-- The lists of references in the zones of a page's components, by owner and zone. -/
inductive ZoneList : String → String → Value → Prop
  | named {pair : Value × Value} {zone : String} {list : Value} (entry : pair ∈ entriesOf heap data)
    (found : (namedLists heap pair.1).get? zone = some list) :
    ZoneList (pairId heap pair) zone list
  | children {pair : Value × Value} (entry : pair ∈ entriesOf heap data)
    (present : heap.isTruthy ((heap.entries pair.1).get "children") = true) :
    ZoneList (pairId heap pair) defaultZone ((heap.entries pair.1).get "children")
  | placed {content : Entries} {zone : Value × Value}
    (editor : heap.dict? (data.get "content") = some content)
    (member : zone ∈ heap.entries (content.get "zones"))
    (known : (zoneKey (zone.1.text heap)).1 ∈ (entriesOf heap data).map (pairId heap)) :
    ZoneList (zoneKey (zone.1.text heap)).1 (zoneKey (zone.1.text heap)).2 zone.2

end

/-- A zone holds these values one after the other. -/
def Outline.Lists (outline : Outline) (zone : String) (values : List Value) : Prop :=
  ∃ all, Ordered.get? outline.zones zone = some all ∧ values <:+: all

/-- The same component, whose zones still hold what they held. -/
structure Outline.Widens (before after : Outline) : Prop where
  id : after.id = before.id
  lists : ∀ zone values, before.Lists zone values → after.Lists zone values

theorem Outline.Widens.refl (outline : Outline) : outline.Widens outline :=
  ⟨rfl, fun _ _ lists => lists⟩

theorem Outline.Widens.trans {first second third : Outline} (before : first.Widens second)
    (after : second.Widens third) : first.Widens third :=
  ⟨after.id.trans before.id,
    fun zone values lists => after.lists _ _ (before.lists zone values lists)⟩

section

variable {heap after : Heap} {data : Entries}

theorem get?_extendList_self (zones : Ordered (List Value)) (zone : String) (values : List Value) :
    Ordered.get? (extendList zones zone values) zone =
      some ((Ordered.get? zones zone).getD [] ++ values) :=
  Ordered.get?_put_self _ _ _

theorem Outline.lists_extendList {outline : Outline} {zone other : String}
    {values more : List Value} (lists : outline.Lists zone values) :
    Outline.Lists { outline with zones := extendList outline.zones other more } zone values := by
  obtain ⟨all, found, within⟩ := lists
  by_cases same : other = zone
  · subst same
    refine ⟨_, get?_extendList_self outline.zones other more, ?_⟩
    rw [found]
    exact within.trans (List.prefix_append all more).isInfix
  · exact ⟨all, (Ordered.get?_put_of_ne _ _ same).trans found, within⟩

/-- Adding to a zone of one component takes nothing from any. -/
theorem widens_extendLast (id zone : String) (values : List Value) (outlines : List Outline) :
    List.Forall₂ Outline.Widens outlines (extendLast id zone values outlines) := by
  induction outlines with
  | nil => exact .nil
  | cons outline rest ih =>
    unfold extendLast
    split
    · exact .cons ⟨rfl, fun _ _ => Outline.lists_extendList⟩
        (List.forall₂_same.mpr fun other _ => .refl other)
    · exact .cons (.refl outline) ih

theorem lists_extendLast {id : String} (zone : String) (values : List Value)
    {outlines : List Outline} (known : id ∈ outlines.map (·.id)) :
    ∃ outline ∈ extendLast id zone values outlines,
      outline.id = id ∧ outline.Lists zone values := by
  induction outlines with
  | nil => cases known
  | cons outline rest ih =>
    unfold extendLast
    split
    next isLast =>
      exact ⟨_, List.mem_cons_self .., isLast.1, _, get?_extendList_self outline.zones zone values,
        (List.suffix_append _ values).isInfix⟩
    next notLast =>
      have later : id ∈ rest.map (·.id) := by
        by_contra absent
        have noOther : (rest.any fun other => other.id = id) = false :=
          Bool.eq_false_iff.mpr (mt any_id_iff.mp absent)
        refine notLast ⟨((List.mem_cons.mp known).resolve_right absent).symm, ?_⟩
        rw [noOther, Bool.not_false]
      obtain ⟨other, member, found⟩ := ih later
      exact ⟨other, List.mem_cons_of_mem _ member, found⟩

theorem widens_placeZone (outlines : List Outline) (entry : Value × Value) :
    List.Forall₂ Outline.Widens outlines (placeZone heap outlines entry) := by
  unfold placeZone
  dsimp only
  split
  · exact widens_extendLast ..
  · exact List.forall₂_same.mpr fun outline _ => .refl outline

theorem widens_placeZones {outlines : List Outline} (entries : Entries) {outline : Outline}
    (member : outline ∈ outlines) :
    ∃ last ∈ entries.foldl (placeZone heap) outlines, outline.Widens last := by
  induction entries generalizing outlines outline with
  | nil => exact ⟨outline, member, .refl outline⟩
  | cons entry entries ih =>
    obtain ⟨next, inNext, first⟩ := exists_of_mem_left (widens_placeZone outlines entry) member
    obtain ⟨last, inLast, later⟩ := ih inNext
    exact ⟨last, inLast, first.trans later⟩

/-- Of the zones of an editor each one is held by its parent in the end. -/
theorem lists_placeZones {outlines : List Outline} {entries : Entries} {entry : Value × Value}
    (member : entry ∈ entries)
    (known : (zoneKey (entry.1.text heap)).1 ∈ outlines.map (·.id)) :
    ∃ outline ∈ entries.foldl (placeZone heap) outlines,
      outline.id = (zoneKey (entry.1.text heap)).1 ∧
        outline.Lists (zoneKey (entry.1.text heap)).2 (heap.listed entry.2) := by
  induction entries generalizing outlines with
  | nil => cases member
  | cons first entries ih =>
    -- A zone is held once its turn has come; the zones behind it take nothing away.
    rcases List.mem_cons.mp member with rfl | later
    · have placed : placeZone heap outlines entry = extendLast (zoneKey (entry.1.text heap)).1
          (zoneKey (entry.1.text heap)).2 (heap.listed entry.2) outlines :=
        if_pos (any_id_iff.mpr known)
      obtain ⟨outline, held, isOwner, lists⟩ := lists_extendLast (zoneKey (entry.1.text heap)).2
        (heap.listed entry.2) known
      rw [← placed] at held
      obtain ⟨last, inLast, widens⟩ := widens_placeZones entries held
      exact ⟨last, inLast, widens.id.trans isOwner, widens.lists _ _ lists⟩
    · exact ih later (by rw [map_id_placeZone]; exact known)

theorem exists_of_entry (after : Heap) {pairs : List (Value × Value)} {pair : Value × Value}
    (entry : pair ∈ pairs) :
    ∃ outline ∈ (outlinesOf heap after pairs).1,
      outline.id = pairId heap pair ∧ outline.zones = zoneLists heap (heap.entries pair.1) := by
  induction pairs generalizing after with
  | nil => cases entry
  | cons first pairs ih =>
    rcases List.mem_cons.mp entry with rfl | later
    · exact ⟨_, List.mem_cons_self .., rfl, rfl⟩
    · obtain ⟨outline, member, found⟩ := ih _ later
      exact ⟨outline, List.mem_cons_of_mem _ member, found⟩

/-- The zones that an entry names hold the lists under their names. -/
theorem foldl_put_listed (heap : Heap) (entries : Entries) (lists : Ordered Value) :
    entries.foldl (fun zones entry => Ordered.put zones (entry.1.text heap) (heap.listed entry.2))
        (lists.mapValues heap.listed) =
      (Ordered.putAll lists (entries.map fun zone => (zone.1.text heap, zone.2))).mapValues
        heap.listed := by
  induction entries generalizing lists with
  | nil => rfl
  | cons entry entries ih =>
    rw [List.foldl_cons, Ordered.put_mapValues, ih]
    rfl

theorem lists_of_named {outline : Outline} {entry : Value}
    (isEntry : outline.zones = zoneLists heap (heap.entries entry)) {zone : String} {list : Value}
    (found : (namedLists heap entry).get? zone = some list) :
    outline.Lists zone (heap.listed list) := by
  have named := foldl_put_listed heap (heap.entries ((heap.entries entry).get "zones")) []
  have held : Ordered.get? ((namedLists heap entry).mapValues heap.listed) zone =
      some (heap.listed list) := by
    rw [Ordered.get?_mapValues, found]
    rfl
  have before : (⟨outline.id, outline.type, outline.props,
      (namedLists heap entry).mapValues heap.listed⟩ : Outline).Lists zone (heap.listed list) :=
    ⟨_, held, List.infix_refl _⟩
  have zones : zoneLists heap (heap.entries entry) =
      if heap.isTruthy ((heap.entries entry).get "children") then
        extendList ((namedLists heap entry).mapValues heap.listed) defaultZone
          (heap.listed ((heap.entries entry).get "children"))
      else (namedLists heap entry).mapValues heap.listed := by
    unfold zoneLists
    exact congrArg (fun named => if heap.isTruthy ((heap.entries entry).get "children") then
      extendList named defaultZone _ else named) named
  rw [Outline.Lists, isEntry, zones]
  split
  · exact Outline.lists_extendList before
  · exact before

theorem lists_of_children {outline : Outline} {entry : Value}
    (isEntry : outline.zones = zoneLists heap (heap.entries entry))
    (present : heap.isTruthy ((heap.entries entry).get "children") = true) :
    outline.Lists defaultZone (heap.listed ((heap.entries entry).get "children")) := by
  rw [Outline.Lists, isEntry, zoneLists]
  simp only [present, if_true]
  exact ⟨_, get?_extendList_self .., (List.suffix_append _ _).isInfix⟩

/-- What a list of the data holds is held by a zone of the outline. -/
theorem exists_of_zoneList (after : Heap) {owner zone : String} {list : Value}
    (listed : ZoneList heap data owner zone list) :
    ∃ outline ∈ (contentOutline heap after data).1.components,
      outline.id = owner ∧ outline.Lists zone (heap.listed list) := by
  have widened {outline : Outline}
      (member : outline ∈ (outlinesOf heap after (entriesOf heap data)).1) :
      ∃ last ∈ (contentOutline heap after data).1.components, outline.Widens last := by
    unfold contentOutline
    unfold entriesOf componentsValue at member
    cases editor : heap.dict? (data.get "content") with
    | some content =>
      simp only [editor] at member ⊢
      exact widens_placeZones _ member
    | none =>
      simp only [editor] at member ⊢
      exact ⟨outline, member, .refl outline⟩
  cases listed with
  | named entry found =>
    obtain ⟨outline, member, isOwner, zones⟩ := exists_of_entry after entry
    obtain ⟨last, inLast, widens⟩ := widened member
    exact ⟨last, inLast, widens.id.trans isOwner, widens.lists _ _ (lists_of_named zones found)⟩
  | children entry present =>
    obtain ⟨outline, member, isOwner, zones⟩ := exists_of_entry after entry
    obtain ⟨last, inLast, widens⟩ := widened member
    exact ⟨last, inLast, widens.id.trans isOwner,
      widens.lists _ _ (lists_of_children zones present)⟩
  | placed editor member known =>
    unfold entriesOf componentsValue at known
    unfold contentOutline
    simp only [editor] at known ⊢
    refine lists_placeZones member ?_
    rwa [map_id_outlinesOf]

theorem roots_contentOutline (heap after : Heap) (data : Entries) :
    (contentOutline heap after data).1.roots = heap.listed (rootList heap data) := by
  unfold contentOutline rootList
  cases heap.dict? (data.get "content") <;> rfl

theorem map_id_contentOutline (heap after : Heap) (data : Entries) :
    (contentOutline heap after data).1.components.map (·.id) =
      (entriesOf heap data).map (pairId heap) := by
  have placed (entries : Entries) (outlines : List Outline) :
      (entries.foldl (placeZone heap) outlines).map (·.id) = outlines.map (·.id) := by
    induction entries generalizing outlines with
    | nil => rfl
    | cons entry entries ih => rw [List.foldl_cons, ih, map_id_placeZone]
  unfold contentOutline entriesOf componentsValue
  cases heap.dict? (data.get "content") with
  | some content => exact (placed ..).trans (map_id_outlinesOf ..)
  | none => exact map_id_outlinesOf ..

end

/-! ## References and ids -/

section

variable {heap : Heap} {pair : Value × Value}

/-- What identifies a component: the id of its entry, or else the key that it stands under. -/
def identifier (heap : Heap) (pair : Value × Value) : Value :=
  heap.either ((heap.entries pair.1).get "id") pair.2

theorem pairId_of_truthy (truthy : heap.isTruthy (identifier heap pair) = true) :
    pairId heap pair = Text.trimString ((identifier heap pair).text heap) := by
  unfold pairId componentId
  rw [Heap.textOrEmpty]
  exact congrArg Text.trimString (if_pos truthy)

theorem truthy_of_pairId (named : pairId heap pair ≠ "") :
    heap.isTruthy (identifier heap pair) = true := by
  by_contra falsy
  have none : heap.textOrEmpty (identifier heap pair) = "" := if_neg falsy
  exact named (congrArg Text.trimString none)

theorem isTrimmed_pairId (heap : Heap) (pair : Value × Value) :
    Text.IsTrimmed (pairId heap pair) :=
  Text.isTrimmed_trimString _

theorem pairId_ne_empty {value : Value} (none : pageDefects heap value = [])
    (entry : pair ∈ entriesOf heap (heap.entries value)) : pairId heap pair ≠ "" := by
  have content : contentDefects heap (heap.entries value) = [] := by
    unfold pageDefects at none
    cases found : heap.dict? value with
    | none => simp [found] at none
    | some data =>
      rw [found] at none
      simp only [List.append_eq_nil_iff] at none
      rw [Heap.entries_of_dict? found]
      exact none.2.1
  have each : componentDefects heap pair = [] := by
    have components :
        componentsDefects heap (componentsValue heap (heap.entries value)) = [] := by
      unfold contentDefects at content
      unfold componentsValue
      cases editor : heap.dict? ((heap.entries value).get "content") with
      | some inner =>
        simp only [editor, editorDefects, List.append_eq_nil_iff] at content ⊢
        exact content.1
      | none =>
        simp only [editor, flatDefects, List.append_eq_nil_iff] at content ⊢
        exact content.2.2
    rw [componentsDefects, List.append_eq_nil_iff, List.flatMap_eq_nil_iff] at components
    exact components.2 pair entry
  unfold componentDefects at each
  cases found : heap.dict? pair.1 with
  | none => simp [found] at each
  | some data =>
    intro unnamed
    have isEmpty : componentId heap data pair.2 = "" := by
      rw [← Heap.entries_of_dict? found]
      exact unnamed
    simp [found, isEmpty] at each

end

/--
The lists of a page that is accepted are read value by value: the roots from the root list, and the
references of a zone from the lists of that zone, one after the other. Where a list holds the scalar
that identifies a component, the reference is the component's id, and a rendering session finds a
component by it, exactly if the text of the scalar is trimmed. So it is for all scalars but strings.
A key only identifies a component whose own id is absent, empty, zero or false.
-/
theorem readPage_references {heap after : Heap} {value : Value} {site : SitePage}
    (closed : heap.Closed) (has : heap.Has value)
    (accepted : readPage heap value = .ok (site, after)) :
    site.page.roots = (heap.listed (rootList heap (heap.entries value))).map (Value.text heap) ∧
      (∀ owner zone list, ZoneList heap (heap.entries value) owner zone list →
        ∃ component ∈ site.components, component.id = owner ∧
          ∃ references, Ordered.get? component.zones zone = some references ∧
            (heap.listed list).map (Value.text heap) <:+: references) ∧
      site.components.map (·.id) =
        (entriesOf heap (heap.entries value)).map (pairId heap) ∧
      ∀ pair ∈ entriesOf heap (heap.entries value),
        (∀ scalar : Value, scalar.isScalar = true → identifier heap pair = scalar →
          (scalar.text heap = pairId heap pair ↔ Text.IsTrimmed (scalar.text heap)) ∧
          (∀ world registry options scene, Rendering.Scene.ofEntries world
              (site.components.map .component) registry options = .ok scene →
            ((Ordered.get? scene.components (scalar.text heap)).isSome = true ↔
              Text.IsTrimmed (scalar.text heap))) ∧
          (scalar.str? = none → Text.IsTrimmed (scalar.text heap))) ∧
        (heap.isTruthy ((heap.entries pair.1).get "id") = false →
          pairId heap pair = Text.trimString (pair.2.text heap)) := by
  obtain ⟨none, whole⟩ := (checked_readPage closed (.refl heap) has).of_ok accepted
  have read : site = (pageOf heap heap value).1 := congrArg Prod.fst whole
  have roots : site.page.roots =
      (contentOutline heap heap (heap.entries value)).1.roots.map (Value.text heap) := by
    rw [read]
    rfl
  have components : site.components =
      (contentOutline heap heap (heap.entries value)).1.components.map (Outline.component heap) := by
    rw [read]
    rfl
  have ids : site.components.map (·.id) =
      (entriesOf heap (heap.entries value)).map (pairId heap) := by
    rw [components, List.map_map]
    exact map_id_contentOutline heap heap (heap.entries value)
  refine ⟨?_, fun owner zone list listed => ?_, ids,
    fun pair entry => ⟨fun scalar isScalar identifies => ?_, fun falsy => ?_⟩⟩
  · rw [roots, roots_contentOutline]
  · obtain ⟨outline, member, isOwner, all, found, within⟩ :=
      exists_of_zoneList heap listed
    rw [components]
    refine ⟨outline.component heap, List.mem_map_of_mem member, isOwner,
      all.map (Value.text heap), ?_, within.map _⟩
    exact (Ordered.get?_mapValues _ outline.zones zone).trans (congrArg (Option.map _) found)
  · subst identifies
    have isId := pairId_of_truthy (truthy_of_pairId (pairId_ne_empty none entry))
    have same : (identifier heap pair).text heap = pairId heap pair ↔
        Text.IsTrimmed ((identifier heap pair).text heap) := by
      rw [isId, Text.IsTrimmed, eq_comm]
    refine ⟨same, fun world registry options scene isScene => ?_,
      fun noText => Value.isTrimmed_text heap isScalar noText⟩
    rw [(Rendering.Scene.named_of_ofEntries isScene).1, Component.isSome_lastNamed, ids]
    constructor
    · intro known
      obtain ⟨other, -, named⟩ := List.mem_map.mp known
      exact named ▸ isTrimmed_pairId heap other
    · intro trimmed
      rw [same.mpr trimmed]
      exact List.mem_map_of_mem entry
  · have isKey : identifier heap pair = pair.2 := by simp [identifier, Heap.either, falsy]
    rw [pairId_of_truthy (truthy_of_pairId (pairId_ne_empty none entry)), isKey]

/-- A page whose root list refers to its only component by the value that identifies it. -/
def soloPage (id : Value) : Heap :=
  { objects := #[
      .dict [(.str "id", .str "p"), (.str "rootZone", .ref 1), (.str "components", .ref 3)],
      .dict [(.str "componentIds", .ref 2)], .list [id], .list [.ref 4],
      .dict [(.str "id", id), (.str "type", .str "Text")]] }

/-- A number refers to the component that it identifies. -/
theorem readPage_references_number :
    ∃ site after, readPage (soloPage (.int 7)) (.ref 0) = .ok (site, after) ∧
      site.page.roots = ["7"] ∧
      ∀ world registry options scene, Rendering.Scene.ofEntries world
          (site.components.map .component) registry options = .ok scene →
        (Ordered.get? scene.components "7").isSome = true := by
  have closed : (soloPage (.int 7)).Closed := by decide +kernel
  have has : (soloPage (.int 7)).Has (.ref 0) := by decide +kernel
  have accepted := checked_readPage closed (.refl _) has
  rw [show pageDefects (soloPage (.int 7)) (.ref 0) = [] by decide +kernel] at accepted
  obtain ⟨roots, -, -, each⟩ := readPage_references closed has accepted
  obtain ⟨-, found, trimmed⟩ :=
    (each (.ref 4, .null) (List.mem_singleton_self _)).1 (.int 7) rfl rfl
  have text : (Value.int 7).text (soloPage (.int 7)) = "7" := by decide +kernel
  refine ⟨_, _, accepted, roots.trans (by decide +kernel),
    fun world registry options scene isScene => ?_⟩
  rw [← text]
  exact (found world registry options scene isScene).mpr (trimmed rfl)

/-- The blanks are gone from the id, but not from the reference. -/
theorem readPage_blankReference :
    (readPage (soloPage (.str " a ")) (.ref 0)).toOption.map
        (fun found => (found.1.page.roots, found.1.components.map (·.id))) =
      some ([" a "], ["a"]) := by
  decide +kernel

end Site

end StaticSite
