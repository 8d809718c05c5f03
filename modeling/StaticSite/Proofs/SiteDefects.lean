import StaticSite.Proofs.SiteOutline

/-!
# Defects of sites

Reading a site stops at the first of its defects and tells that one. Without defects it gives what
the outline says.
-/

namespace StaticSite

/-- A step fails with the first of its defects; without any it has its result. -/
def Checked {α : Type} (outcome : Except Fault α) (defects : List Fault) (result : α) : Prop :=
  outcome = match defects with
    | [] => .ok result
    | fault :: _ => .error fault

section

variable {α β γ : Type} {first : Except Fault α} {early late : List Fault} {value : α}

theorem checked_ok (value : α) : Checked (.ok value) [] value := rfl

theorem Checked.bind {next : α → Except Fault β} {result : β} (here : Checked first early value)
    (onward : Checked (next value) late result) :
    Checked (first >>= next) (early ++ late) result := by
  unfold Checked at here
  subst here
  cases early with
  | nil => exact onward
  | cons fault early => rfl

theorem Checked.map (here : Checked first early value) (f : α → β) :
    Checked (first >>= fun value => .ok (f value)) early (f value) := by
  have onward : Checked (first >>= fun value => .ok (f value)) (early ++ []) (f value) :=
    here.bind (checked_ok (f value))
  rwa [List.append_nil] at onward

theorem Checked.guard {bad : Prop} [Decidable bad] {fault : Fault} {blocked : Except Fault α}
    (stops : blocked = .error fault) (onward : Checked first late value) :
    Checked (if bad then blocked else first) ((if bad then [fault] else []) ++ late) value := by
  by_cases isBad : bad
  · simp only [isBad, if_true]
    exact stops
  · simp only [isBad, if_false]
    exact onward

/--
A fold has the defects of all its steps. Its states are the images under `view` of those of a fold
that cannot fail, and these keep `inv`.
-/
theorem checked_foldlM {step : β → α → Except Fault β} {defects : α → List Fault}
    (total : γ → α → γ) (view : γ → β) (inv : γ → Prop) (start : γ) {l : List α}
    (each : ∀ state a, a ∈ l → inv state →
      Checked (step (view state) a) (defects a) (view (total state a)))
    (keeps : ∀ state a, a ∈ l → inv state → inv (total state a))
    (begins : inv start) :
    Checked (l.foldlM step (view start)) (l.flatMap defects) (view (l.foldl total start)) := by
  induction l generalizing start with
  | nil => exact checked_ok (view start)
  | cons a l ih =>
    rw [List.foldlM_cons, List.flatMap_cons, List.foldl_cons]
    refine (each start a (List.mem_cons_self ..) begins).bind ?_
    exact ih _ (fun state b member => each state b (List.mem_cons_of_mem _ member))
      (fun state b member => keeps state b (List.mem_cons_of_mem _ member))
      (keeps start a (List.mem_cons_self ..) begins)

end

/-! ## Values of whatever kind -/

section

variable {heap after : Heap} {value : Value}

theorem checked_itemsOrNone :
    Checked (heap.itemsOrNone value) (heap.listDefects value) (heap.listed value) := by
  unfold Heap.listed Heap.itemsOrNone Heap.listDefects
  by_cases truthy : heap.isTruthy value = true
  · simp only [truthy, if_true, true_and]
    cases value with
    | ref id =>
      rcases found : heap.container? id with _ | _ | _ <;>
        simp [Heap.items, Heap.kind, found, Kind.isIterable, Checked, Except.toOption]
    | _ => rfl
  · simp [truthy, Checked, Except.toOption]

theorem entries_of_falsy (falsy : heap.isTruthy value = false) : heap.entries value = [] := by
  unfold Heap.entries
  cases value with
  | ref id =>
    rcases container : heap.container? id with _ | entries | items
    · simp [Heap.dict?, container]
    · simp only [Heap.isTruthy, container] at falsy
      simpa [Heap.dict?, container] using falsy
    · simp [Heap.dict?, container]
  | _ => rfl

theorem checked_entriesOrNone (operation : String) :
    Checked (heap.entriesOrNone value operation) (heap.mappingDefects value operation)
      (heap.entries value) := by
  unfold Heap.entriesOrNone Heap.mappingDefects
  by_cases truthy : heap.isTruthy value = true
  · cases found : heap.dict? value <;> simp [truthy, found, Checked, Heap.entries]
  · rw [entries_of_falsy (Bool.eq_false_iff.mpr truthy)]
    simp [truthy, Checked]

theorem listDefects_of_falsy (falsy : heap.isTruthy value = false) :
    heap.listDefects value = [] := by
  simp [Heap.listDefects, falsy]

theorem Heap.has_of_listed (closed : heap.Closed) (has : heap.Has value) :
    ∀ item ∈ heap.listed value, heap.Has item := by
  intro item member
  unfold Heap.listed Heap.itemsOrNone at member
  split at member
  · cases found : heap.items value with
    | error fault => simp [found, Except.toOption] at member
    | ok items =>
      rw [found] at member
      exact Heap.has_of_items closed has found item member
  · simp [Except.toOption] at member

theorem Heap.has_of_entries (closed : heap.Closed) :
    ∀ entry ∈ heap.entries value, heap.Has entry.1 ∧ heap.Has entry.2 := by
  intro entry member
  unfold Heap.entries at member
  cases found : heap.dict? value with
  | none => simp [found] at member
  | some entries =>
    rw [found] at member
    exact Heap.has_of_dict? closed found entry member

theorem Heap.has_field (closed : heap.Closed) (value : Value) (key : String) :
    heap.Has ((heap.entries value).get key) :=
  Heap.has_get (fun entry member => (Heap.has_of_entries closed entry member).2) key

end

namespace Site

section

variable {heap after : Heap} (closed : heap.Closed) (grows : heap.Grows after)

include grows in
theorem checked_componentProps (id : String) {value : Value} (has : heap.Has value) :
    Checked (componentProps after id value)
      (if heap.isTruthy value ∧ heap.dict? value = none then [.propsNotMapping id] else [])
      (propsOf after value) := by
  unfold componentProps propsOf
  rw [grows.isTruthy has, grows.dict? has]
  by_cases truthy : heap.isTruthy value = true
  · cases found : heap.dict? value <;> simp [truthy, Checked]
  · simp [truthy, Checked]

section

include closed grows

theorem checked_ids {value : Value} (has : heap.Has value) :
    Checked (ids after value) (heap.listDefects value)
      ((heap.listed value).map (Value.text heap)) := by
  unfold ids
  rw [grows.itemsOrNone has]
  have same : (heap.listed value).map (Value.text after) =
      (heap.listed value).map (Value.text heap) :=
    List.map_congr_left fun item member =>
      grows.text closed (Heap.has_of_listed closed has item member)
  rw [← same]
  exact checked_itemsOrNone.map fun items => items.map (Value.text after)

theorem checked_componentZones {value : Value} :
    Checked (componentZones after (heap.entries value)) (zoneDefects heap (heap.entries value))
      (zoneTexts heap (zoneLists heap (heap.entries value))) := by
  have fields := Heap.has_field closed value
  unfold componentZones zoneDefects zoneLists
  rw [grows.entriesOrNone (fields "zones"), grows.isTruthy (fields "children")]
  refine (checked_entriesOrNone "items").bind (Checked.bind (checked_foldlM
    (fun zones (entry : Value × Value) =>
      Ordered.put zones (entry.1.text heap) (heap.listed entry.2))
    (zoneTexts heap) (fun _ => True) []
    (fun zones entry member _ => ?_) (fun _ _ _ _ => trivial) trivial) ?_)
  · have has := Heap.has_of_entries closed entry member
    rw [← put_texts, ← grows.text closed has.1]
    exact (checked_ids closed grows has.2).map _
  · by_cases truthy : heap.isTruthy ((heap.entries value).get "children") = true
    · simp only [truthy, if_true]
      rw [← extendZone_texts]
      exact (checked_ids closed grows (fields "children")).map _
    · simp only [truthy]
      rw [listDefects_of_falsy (Bool.eq_false_iff.mpr truthy)]
      exact checked_ok _

theorem componentId_grows (value : Value) {key : Value} (has : heap.Has key) :
    componentId after (heap.entries value) key = componentId heap (heap.entries value) key := by
  have either : heap.Has (heap.either ((heap.entries value).get "id") key) := by
    unfold Heap.either
    split
    · exact Heap.has_field closed value "id"
    · exact has
  rw [componentId, componentId, grows.either (Heap.has_field closed value "id"),
    grows.textOrEmpty closed either]

theorem checked_readComponent {value key : Value} (has : heap.Has value) (hasKey : heap.Has key) :
    Checked (readComponent after value key) (componentDefects heap (value, key))
      (Outline.component heap
        ⟨pairId heap (value, key), ((heap.entries value).get "type").text heap,
          (propsOf after ((heap.entries value).get "props")).1,
          zoneLists heap (heap.entries value)⟩,
        (propsOf after ((heap.entries value).get "props")).2) := by
  have fields := Heap.has_field closed value
  have isId := componentId_grows closed grows value hasKey
  have further := grows.trans (grows_propsOf after ((heap.entries value).get "props"))
  unfold readComponent componentDefects
  rw [grows.dict? has, grows.kind has]
  cases found : heap.dict? value with
  | none => rfl
  | some data =>
    obtain rfl : heap.entries value = data := Heap.entries_of_dict? found
    dsimp only
    rw [componentId] at isId
    rw [isId, grows.isTruthy (fields "type")]
    refine Checked.guard rfl (Checked.guard rfl ?_)
    refine (checked_componentProps grows _ (fields "props")).bind ?_
    rw [further.text closed (fields "type")]
    exact (checked_componentZones closed further).map _

theorem checked_readEach {pairs : List (Value × Value)}
    (has : ∀ pair ∈ pairs, heap.Has pair.1 ∧ heap.Has pair.2) :
    Checked (readEach after pairs) (pairs.flatMap (componentDefects heap))
      ((outlinesOf heap after pairs).1.map (Outline.component heap),
        (outlinesOf heap after pairs).2) := by
  induction pairs generalizing after with
  | nil => exact checked_ok _
  | cons pair pairs ih =>
    obtain ⟨value, key⟩ := pair
    simp only [List.forall_mem_cons] at has
    have further := grows.trans (grows_propsOf after ((heap.entries value).get "props"))
    unfold readEach
    rw [List.flatMap_cons]
    exact (checked_readComponent closed grows has.1.1 has.1.2).bind ((ih further has.2).map _)

end

include closed in
theorem has_of_componentPairs {value : Value} :
    ∀ pair ∈ componentPairs heap value, heap.Has pair.1 ∧ heap.Has pair.2 := by
  intro pair member
  unfold componentPairs at member
  split at member
  next entries _ found =>
    obtain ⟨entry, inEntries, rfl⟩ := List.mem_map.mp member
    exact (Heap.has_of_dict? closed found entry inEntries).symm
  next items _ found =>
    obtain ⟨item, inItems, rfl⟩ := List.mem_map.mp member
    exact ⟨Heap.has_of_list? closed found item inItems, Heap.has_of_isAtom rfl⟩
  · cases member

theorem readComponents_eq (heap : Heap) (value : Value) :
    readComponents heap value =
      if heap.dict? value = none ∧ heap.list? value = none ∧ heap.kind value ≠ .null then
        .error .componentsNotListed
      else readEach heap (componentPairs heap value) := by
  unfold readComponents componentPairs
  cases dict : heap.dict? value with
  | some entries => simp
  | none =>
    cases list : heap.list? value with
    | some items => simp
    | none =>
      cases value with
      | ref id =>
        have kind : heap.kind (.ref id) ≠ .null := by
          simp only [Heap.kind]
          split <;> simp
        simp [kind]
      | null => simp [Heap.kind, readEach]
      | _ => simp [Heap.kind]

include closed grows

theorem checked_readComponents {value : Value} (has : heap.Has value) :
    Checked (readComponents after value) (componentsDefects heap value)
      ((outlinesOf heap after (componentPairs heap value)).1.map (Outline.component heap),
        (outlinesOf heap after (componentPairs heap value)).2) := by
  have pairs : componentPairs after value = componentPairs heap value := by
    rw [componentPairs, componentPairs, grows.dict? has, grows.list? has]
  rw [readComponents_eq, pairs, grows.dict? has, grows.list? has, grows.kind has]
  exact Checked.guard rfl (checked_readEach closed grows (has_of_componentPairs closed))

theorem checked_addZone {outlines : List Outline} {ids : List String}
    (sameIds : outlines.map (·.id) = ids) {entry : Value × Value}
    (has : heap.Has entry.1 ∧ heap.Has entry.2) :
    Checked (addZone after (outlines.map (Outline.component heap)) entry)
      (placedDefects heap ids entry)
      ((placeZone heap outlines entry).map (Outline.component heap)) := by
  have known : (outlines.any fun outline => outline.id = (zoneKey (entry.1.text heap)).1) = true ↔
      (zoneKey (entry.1.text heap)).1 ∈ ids := by
    rw [any_id_iff, sameIds]
  unfold addZone placedDefects placeZone
  rw [grows.text closed has.1]
  dsimp only
  rw [any_id_component]
  by_cases isParent : (zoneKey (entry.1.text heap)).1 ∈ ids
  · rw [if_pos (known.mpr isParent), if_pos isParent, if_pos (known.mpr isParent),
      ← changeLast_component]
    exact (checked_ids closed grows has.2).map _
  · rw [if_neg (mt known.mp isParent), if_neg isParent, if_neg (mt known.mp isParent)]
    exact checked_ok _

theorem checked_readEditorContent (value : Value) :
    Checked (readEditorContent after (heap.entries value)) (editorDefects heap (heap.entries value))
      ((editorOutline heap after (heap.entries value)).1.content heap,
        (editorOutline heap after (heap.entries value)).2) := by
  have fields := Heap.has_field closed value
  have further := grows.trans (grows_outlinesOf heap after
    (componentPairs heap ((heap.entries value).get "components")))
  unfold readEditorContent editorDefects
  refine (checked_readComponents closed grows (fields "components")).bind ?_
  dsimp only
  rw [further.entriesOrNone (fields "zones"), further.entriesOrNone (fields "root")]
  -- Placing a zone changes no id, so the ids that are read tell which zones are looked at.
  refine (checked_entriesOrNone "items").bind (Checked.bind (checked_foldlM (placeZone heap)
    (List.map (Outline.component heap)) (fun outlines => outlines.map (·.id) = _) _
    (fun outlines entry member same => checked_addZone closed further same
      (Heap.has_of_entries closed entry member))
    (fun outlines entry _ same => (map_id_placeZone heap outlines entry).trans same)
    (map_id_outlinesOf heap after _)) ((checked_entriesOrNone "get").bind ?_))
  exact (checked_ids closed further (Heap.has_field closed _ "children")).map _

theorem checked_readFlatContent (value : Value) :
    Checked (readFlatContent after (heap.entries value)) (flatDefects heap (heap.entries value))
      ((flatOutline heap after (heap.entries value)).1.content heap,
        (flatOutline heap after (heap.entries value)).2) := by
  have fields := Heap.has_field closed value
  unfold readFlatContent flatDefects
  rw [grows.entriesOrNone (fields "rootZone")]
  refine (checked_entriesOrNone "get").bind
    ((checked_ids closed grows (Heap.has_field closed _ "componentIds")).bind ?_)
  exact (checked_readComponents closed grows (fields "components")).map _

theorem checked_readContent (value : Value) :
    Checked (readContent after (heap.entries value)) (contentDefects heap (heap.entries value))
      ((contentOutline heap after (heap.entries value)).1.content heap,
        (contentOutline heap after (heap.entries value)).2) := by
  unfold readContent contentDefects contentOutline
  rw [grows.dict? (Heap.has_field closed value "content")]
  cases found : heap.dict? ((heap.entries value).get "content") with
  | none => exact checked_readFlatContent closed grows value
  | some content =>
    rw [← Heap.entries_of_dict? found]
    exact checked_readEditorContent closed grows _

/-! ## Pages and sites -/

theorem checked_fieldOr (value : Value) {rootProps : Value} (has : heap.Has rootProps)
    (key : String) :
    Checked (fieldOr after (heap.entries value) rootProps key)
      (fieldDefects heap (heap.entries value) rootProps key)
      (fieldOf heap (heap.entries value) rootProps key) := by
  unfold fieldOr fieldDefects fieldOf
  rw [grows.isTruthy (Heap.has_field closed value key), grows.entriesOrNone has]
  split
  · exact checked_ok _
  · exact (checked_entriesOrNone "get").map _

omit grows in
theorem has_rootProps (after : Heap) (value : Value) :
    heap.Has (contentOutline heap after (heap.entries value)).1.rootProps := by
  unfold contentOutline
  split
  next content found =>
    rw [← Heap.entries_of_dict? found]
    exact Heap.has_field closed _ "props"
  · exact Heap.has_of_isAtom rfl

omit grows in
theorem has_fieldOf (value rootProps : Value) (key : String) :
    heap.Has (fieldOf heap (heap.entries value) rootProps key) := by
  unfold fieldOf
  split
  · exact Heap.has_field closed value key
  · exact Heap.has_field closed rootProps key

theorem checked_readPage {value : Value} (has : heap.Has value) :
    Checked (readPage after value) (pageDefects heap value) (pageOf heap after value) := by
  have fields := Heap.has_field closed value
  have further := grows.trans (grows_contentOutline heap after (heap.entries value))
  unfold readPage pageDefects
  rw [grows.dict? has]
  cases found : heap.dict? value with
  | none => rfl
  | some data =>
    obtain rfl : heap.entries value = data := Heap.entries_of_dict? found
    dsimp only
    rw [grows.textOrEmpty closed (fields "id")]
    refine Checked.guard rfl ((checked_readContent closed grows value).bind ?_)
    rw [rootProps_contentOutline heap heap after]
    have hasProps := has_rootProps closed after value
    refine (checked_fieldOr closed further value hasProps "title").bind ?_
    have title := further.textOrEmpty closed (has_fieldOf closed value
      (contentOutline heap after (heap.entries value)).1.rootProps "title")
    have slug : slugText (contentOutline heap after (heap.entries value)).2
        ((heap.entries value).get "slug") = slugText heap ((heap.entries value).get "slug") := by
      rw [slugText, slugText, further.textOrEmpty closed (fields "slug")]
    rw [slug, further.timestamp? closed (fields "updatedAt")]
    dsimp only [ContentOutline.content]
    rw [title]
    exact (checked_fieldOr closed further value hasProps "description").map _

theorem checked_readPages {values : List Value} (has : ∀ value ∈ values, heap.Has value) :
    Checked (readPages after values) (values.flatMap (pageDefects heap))
      (pagesOf heap after values) := by
  induction values generalizing after with
  | nil => exact checked_ok _
  | cons value values ih =>
    rw [List.forall_mem_cons] at has
    have further := grows.trans (grows_contentOutline heap after (heap.entries value))
    unfold readPages
    rw [List.flatMap_cons]
    exact (checked_readPage closed grows has.1).bind ((ih further has.2).map _)

theorem checked_declareSchema (catalog : Catalog) {entry : Value × Value}
    (has : heap.Has entry.1 ∧ heap.Has entry.2) :
    Checked (declareSchema after catalog entry) (schemaDefects heap entry)
      (schemaOf heap catalog entry) := by
  unfold declareSchema schemaDefects schemaOf
  rw [grows.dict? has.2, grows.kind has.2, grows.text closed has.1]
  cases found : heap.dict? entry.2 with
  | none => rfl
  | some fields =>
    have each := Heap.has_of_dict? closed found
    have texts : (fields.map fun field => (field.1.text after, field.2.text after)) =
        fields.map fun field => (field.1.text heap, field.2.text heap) :=
      List.map_congr_left fun field member => by
        rw [grows.text closed (each field member).1, grows.text closed (each field member).2]
    rw [Heap.entries_of_dict? found, ← texts]
    exact checked_ok _

end

theorem grows_pagesOf (heap after : Heap) (values : List Value) :
    after.Grows (pagesOf heap after values).2 := by
  induction values generalizing after with
  | nil => exact .refl after
  | cons value values ih =>
    exact (grows_contentOutline heap after (heap.entries value)).trans (ih _)

theorem checked_siteFields (heap : Heap) (value : Value) :
    Checked (siteFields heap value)
      (if heap.list? value = none ∧ heap.dict? value = none then [.siteNotMapping] else [])
      (fieldsOf heap value) := by
  unfold siteFields fieldsOf
  cases list : heap.list? value with
  | some items => exact checked_ok _
  | none =>
    cases dict : heap.dict? value with
    | some entries => simp [Checked, Heap.entries_of_dict? dict]
    | none => rfl

theorem has_siteField {heap : Heap} {value : Value} (closed : heap.Closed) (has : heap.Has value)
    (key : String) : heap.Has ((fieldsOf heap value).get key) := by
  unfold fieldsOf
  split
  · exact Heap.has_get (by simpa using has) key
  · exact Heap.has_field closed value key

/-- Reading a site stops at its first defect; a site without defects is what its outline says. -/
theorem checked_ofValue {heap : Heap} {value : Value} (closed : heap.Closed)
    (has : heap.Has value) :
    Checked (ofValue heap value) (defects heap value) (outlined heap value) := by
  have fields := has_siteField closed has
  have grows := grows_pagesOf heap heap (heap.listed ((fieldsOf heap value).get "pages"))
  unfold ofValue defects outlined
  refine (checked_siteFields heap value).bind (checked_itemsOrNone.bind ?_)
  refine (checked_readPages closed (.refl heap)
    (Heap.has_of_listed closed (fields "pages"))).bind ?_
  dsimp only
  rw [grows.entriesOrNone (fields "schemas")]
  refine (checked_entriesOrNone "items").bind (Checked.map (checked_foldlM (schemaOf heap) id
    (fun _ => True) {} (fun catalog entry member _ => ?_) (fun _ _ _ _ => trivial) trivial) _)
  exact checked_declareSchema closed grows catalog (Heap.has_of_entries closed entry member)

end Site

end StaticSite
