import StaticSite.Proofs.KeptReferences

/-!
# Shapes of pages

A page can come with a list of its components, with components keyed by their ids, or in the form of
an editor, where the zones stand beside the components and name their parents. All three are read as
the same page.
-/

namespace StaticSite

namespace Ordered

variable {α : Type}

theorem not_mem_names_of_nodup {map other : Ordered α} {entry : String × α}
    (distinct : (names (map ++ entry :: other)).Nodup) : entry.1 ∉ names map := by
  rw [names, List.map_append] at distinct
  exact fun member =>
    (List.nodup_append.mp distinct).2.2 _ member _ (List.mem_cons_self ..) rfl

theorem put_of_not_mem {map : Ordered α} {name : String} (absent : name ∉ names map) (value : α) :
    put map name value = map ++ [(name, value)] := by
  induction map with
  | nil => rfl
  | cons entry map ih =>
    obtain ⟨other, held⟩ := entry
    simp only [names, List.map_cons, List.mem_cons, not_or] at absent
    rw [put, if_neg (Ne.symm absent.1), ih absent.2, List.cons_append]

theorem putAll_eq_append {map other : Ordered α} (distinct : (names (map ++ other)).Nodup) :
    putAll map other = map ++ other := by
  induction other generalizing map with
  | nil => simp [putAll]
  | cons entry other ih =>
    obtain ⟨name, value⟩ := entry
    have fresh : name ∉ names map := not_mem_names_of_nodup distinct
    have next : putAll map ((name, value) :: other) = putAll (put map name value) other := rfl
    rw [next, put_of_not_mem fresh, ih (by simpa using distinct), List.append_assoc]
    rfl

theorem names_mapValues {β : Type} (f : α → β) (map : Ordered α) :
    names (mapValues f map) = names map := by
  simp [names, mapValues]

theorem get?_eq_none {map : Ordered α} {name : String} (absent : name ∉ names map) :
    get? map name = none := by
  induction map with
  | nil => rfl
  | cons entry map ih =>
    simp only [names, List.map_cons, List.mem_cons, not_or] at absent
    rw [get?, if_neg (Ne.symm absent.1), ih absent.2]

end Ordered

namespace Site

/-! ## Shapes -/

/-- A component as it is meant, whatever shape its page has. -/
structure Part where
  id : String
  type : String
  props : Value
  zones : Zones

structure Part.IsValid (heap : Heap) (part : Part) : Prop where
  named : part.id ≠ ""
  trimmed : Text.IsTrimmed part.id
  plain : ':' ∉ part.id.toList
  typed : part.type ≠ ""
  mapped : ∃ entries, heap.dict? part.props = some entries
  zoned : ∀ zone ∈ part.zones, zone.1 ≠ ""
  distinct : (Ordered.names part.zones).Nodup

/-- The zones of a part, under the keys by which an editor knows them. -/
def Part.keyedZones (part : Part) : Zones :=
  part.zones.map fun zone => (part.id ++ ":" ++ zone.1, zone.2)

section

variable (heap : Heap)

/-- A list of texts; an empty one can be absent. -/
def Spells (value : Value) (texts : List String) : Prop :=
  heap.list? value = some (texts.map .str) ∨ texts = [] ∧ heap.isTruthy value = false

/-- A mapping from texts to lists of texts, in their order; an empty one can be absent. -/
structure SpellsLists (value : Value) (lists : Zones) : Prop where
  mapping : heap.isTruthy value = true → ∃ entries, heap.dict? value = some entries
  each : List.Forall₂ (fun (list : String × List String) (entry : Value × Value) =>
    entry.1 = .str list.1 ∧ Spells heap entry.2 list.2) lists (heap.entries value)

/-- An entry describes a part, and holds these of its zones. -/
structure Part.IsEntry (part : Part) (zones : Zones) (pair : Value × Value) : Prop where
  mapping : ∃ data, heap.dict? pair.1 = some data
  identified : identifier heap pair = .str part.id
  type : (heap.entries pair.1).get "type" = .str part.type
  props : (heap.entries pair.1).get "props" = part.props
  zones : SpellsLists heap ((heap.entries pair.1).get "zones") zones
  childless : heap.isTruthy ((heap.entries pair.1).get "children") = false

structure IsPage (value : Value) (data : Entries) : Prop where
  mapping : heap.dict? value = some data
  named : pageId heap data ≠ ""

/-- The shapes in which a page with these roots and these components can come. -/
inductive PageShape (roots : List String) (parts : List Part) (value : Value) : Prop
  /-- The components are listed. -/
  | flat (data root : Entries) (items : List Value) (page : IsPage heap value data)
    (plain : heap.dict? (data.get "content") = none)
    (rooted : heap.dict? (data.get "rootZone") = some root)
    (listed : Spells heap (root.get "componentIds") roots)
    (components : heap.list? (data.get "components") = some items)
    (each : List.Forall₂ (fun part item => Part.IsEntry heap part part.zones (item, .null))
      parts items)
  /-- The components are keyed by their ids. -/
  | keyed (data root entries : Entries) (page : IsPage heap value data)
    (plain : heap.dict? (data.get "content") = none)
    (rooted : heap.dict? (data.get "rootZone") = some root)
    (listed : Spells heap (root.get "componentIds") roots)
    (components : heap.dict? (data.get "components") = some entries)
    (each : List.Forall₂ (fun part entry => entry.1 = Value.str part.id ∧
      Part.IsEntry heap part part.zones (entry.2, entry.1)) parts entries)
  /-- The components are keyed by their ids, and their zones by parent and name. -/
  | editor (data content root entries : Entries) (page : IsPage heap value data)
    (edited : heap.dict? (data.get "content") = some content)
    (rooted : heap.dict? (content.get "root") = some root)
    (listed : Spells heap (root.get "children") roots)
    (titled : heap.isTruthy (root.get "props") = true →
      ∃ props, heap.dict? (root.get "props") = some props)
    (components : heap.dict? (content.get "components") = some entries)
    (each : List.Forall₂ (fun part entry => entry.1 = Value.str part.id ∧
      Part.IsEntry heap part [] (entry.2, entry.1)) parts entries)
    (zones : SpellsLists heap (content.get "zones") (parts.flatMap Part.keyedZones))

end

/-! ## Texts and lists -/

section

variable {heap : Heap} {value : Value}

theorem listDefects_of_spells {texts : List String} (spells : Spells heap value texts) :
    heap.listDefects value = [] := by
  rcases spells with list | ⟨-, falsy⟩
  · obtain ⟨id, rfl, found⟩ := Heap.exists_of_list? list
    simp [Heap.listDefects, Heap.kind, found, Kind.isIterable]
  · exact listDefects_of_falsy falsy

theorem listed_of_spells {texts : List String} (spells : Spells heap value texts) :
    heap.listed value = texts.map .str := by
  unfold Heap.listed Heap.itemsOrNone
  rcases spells with list | ⟨rfl, falsy⟩
  · obtain ⟨id, rfl, found⟩ := Heap.exists_of_list? list
    by_cases truthy : heap.isTruthy (.ref id) = true
    · rw [if_pos truthy, Heap.items, found]
      rfl
    · have none : texts.map Value.str = [] := by
        simpa [Heap.isTruthy, found] using truthy
      rw [if_neg truthy, none]
      rfl
  · rw [falsy]
    rfl

theorem mappingDefects_of_isMapping {operation : String}
    (mapping : heap.isTruthy value = true → ∃ entries, heap.dict? value = some entries) :
    heap.mappingDefects value operation = [] := by
  unfold Heap.mappingDefects
  refine if_neg fun ⟨truthy, noMapping⟩ => ?_
  obtain ⟨entries, found⟩ := mapping truthy
  rw [found] at noMapping
  cases noMapping

variable {lists : Zones}

theorem listDefects_of_spellsLists (spells : SpellsLists heap value lists) :
    ∀ entry ∈ heap.entries value, heap.listDefects entry.2 = [] := by
  intro entry member
  obtain ⟨list, -, -, spelled⟩ := exists_of_mem_right spells.each member
  exact listDefects_of_spells spelled

theorem entries_of_spellsLists (spells : SpellsLists heap value lists) :
    (heap.entries value).map (fun entry => (entry.1.text heap, heap.listed entry.2)) =
      lists.mapValues (List.map Value.str) := by
  replace spells := spells.each
  generalize heap.entries value = entries at spells
  induction spells with
  | nil => rfl
  | cons here _ ih =>
    rw [List.map_cons, ih, here.1, listed_of_spells here.2]
    rfl

end

/-! ## The outlines of parts -/

/-- The zones of an outline, with these ids in them. -/
def idZones (zones : Zones) : Ordered (List Value) := zones.mapValues (List.map .str)

/-- The outlines of parts, each with some zones of its own. -/
def partOutlines (zonesOf : Part → Zones) : Heap → List Part → List Outline × Heap
  | after, [] => ([], after)
  | after, part :: parts =>
    let props := propsOf after part.props
    let rest := partOutlines zonesOf props.2 parts
    (⟨part.id, part.type, props.1, idZones (zonesOf part)⟩ :: rest.1, rest.2)

section

variable {heap after : Heap} {part : Part} {zones : Zones} {pair : Value × Value}

theorem zoneLists_of_spells {entries : Entries}
    (spells : SpellsLists heap (entries.get "zones") zones)
    (childless : heap.isTruthy (entries.get "children") = false)
    (distinct : (Ordered.names zones).Nodup) : zoneLists heap entries = idZones zones := by
  have named := entries_of_spellsLists spells
  have fold : (heap.entries (entries.get "zones")).foldl
      (fun zones entry => Ordered.put zones (entry.1.text heap) (heap.listed entry.2)) [] =
        Ordered.ofList (idZones zones) := by
    rw [idZones, ← named, Ordered.ofList, Ordered.putAll, List.foldl_map]
  unfold zoneLists
  rw [fold, Ordered.ofList, Ordered.putAll_eq_append]
  · simp [childless]
  · rw [List.nil_append, idZones, Ordered.names_mapValues]
    exact distinct

theorem Part.IsEntry.pairId_eq (entry : part.IsEntry heap zones pair) (valid : part.IsValid heap) :
    pairId heap pair = part.id := by
  have truthy : heap.isTruthy (identifier heap pair) = true := by
    rw [entry.identified]
    simp [Heap.isTruthy, valid.named]
  rw [pairId_of_truthy truthy, entry.identified]
  exact valid.trimmed

theorem outlinesOf_eq (after : Heap) {zonesOf : Part → Zones} {parts : List Part}
    {pairs : List (Value × Value)}
    (each : List.Forall₂ (fun part pair => Part.IsEntry heap part (zonesOf part) pair) parts pairs)
    (valid : ∀ part ∈ parts, part.IsValid heap)
    (distinct : ∀ part ∈ parts, (Ordered.names (zonesOf part)).Nodup) :
    outlinesOf heap after pairs = partOutlines zonesOf after parts := by
  induction each generalizing after with
  | nil => rfl
  | cons here _ ih =>
    rw [List.forall_mem_cons] at valid distinct
    rw [outlinesOf, partOutlines, here.pairId_eq valid.1, here.props, here.type,
      ih _ valid.2 distinct.2, zoneLists_of_spells here.zones here.childless distinct.1]
    rfl

theorem componentDefects_of_isEntry (entry : part.IsEntry heap zones pair)
    (valid : part.IsValid heap) : componentDefects heap pair = [] := by
  obtain ⟨data, found⟩ := entry.mapping
  obtain rfl : heap.entries pair.1 = data := Heap.entries_of_dict? found
  obtain ⟨entries, mapped⟩ := valid.mapped
  have named : componentId heap (heap.entries pair.1) pair.2 ≠ "" := by
    have isId : componentId heap (heap.entries pair.1) pair.2 = part.id := entry.pairId_eq valid
    rw [isId]
    exact valid.named
  have typed : heap.isTruthy (.str part.type) = true := by
    simp [Heap.isTruthy, valid.typed]
  have zones : zoneDefects heap (heap.entries pair.1) = [] := by
    unfold zoneDefects
    rw [mappingDefects_of_isMapping entry.zones.mapping, listDefects_of_falsy entry.childless,
      List.flatMap_eq_nil_iff.mpr (listDefects_of_spellsLists entry.zones)]
    rfl
  unfold componentDefects
  rw [found]
  dsimp only
  rw [zones, entry.type, entry.props, typed, mapped]
  simp [named]

theorem grows_partOutlines (zonesOf : Part → Zones) (after : Heap) (parts : List Part) :
    after.Grows (partOutlines zonesOf after parts).2 := by
  induction parts generalizing after with
  | nil => exact .refl after
  | cons part parts ih => exact (grows_propsOf after part.props).trans (ih _)

theorem partOutlines_heap (zonesOf others : Part → Zones) (after : Heap) (parts : List Part) :
    (partOutlines zonesOf after parts).2 = (partOutlines others after parts).2 := by
  induction parts generalizing after with
  | nil => rfl
  | cons part parts ih => exact ih _

theorem map_id_partOutlines (zonesOf : Part → Zones) (after : Heap) (parts : List Part) :
    (partOutlines zonesOf after parts).1.map (·.id) = parts.map (·.id) := by
  induction parts generalizing after with
  | nil => rfl
  | cons part parts ih => simp only [partOutlines, List.map_cons, ih]

/-- The props of an outline are those that the part means, as they are found in the end. -/
theorem dict?_propsOf {last : Heap} {value : Value} (grows : heap.Grows after)
    (further : (propsOf after value).2.Grows last) {entries : Entries}
    (mapped : heap.dict? value = some entries) :
    last.dict? (propsOf after value).1 = heap.dict? value := by
  have has : heap.Has value := Heap.has_of_mapping mapped
  unfold propsOf at further ⊢
  by_cases truthy : after.isTruthy value = true
  · rw [if_pos truthy] at further ⊢
    exact (grows.trans further).dict? has
  · rw [if_neg truthy] at further ⊢
    rw [grows.isTruthy has] at truthy
    have isEmpty := entries_of_falsy (Bool.eq_false_iff.mpr truthy)
    rw [Heap.entries_of_dict? mapped] at isEmpty
    rw [further.dict? Heap.has_add, mapped, isEmpty]
    simp [Heap.dict?, Heap.add, Heap.container?]

theorem forall₂_partOutlines {zonesOf : Part → Zones} {parts : List Part}
    (grows : heap.Grows after) (valid : ∀ part ∈ parts, part.IsValid heap) :
    List.Forall₂ (fun part outline => outline.id = part.id ∧ outline.type = part.type ∧
        outline.zones = idZones (zonesOf part) ∧
        (partOutlines zonesOf after parts).2.dict? outline.props = heap.dict? part.props)
      parts (partOutlines zonesOf after parts).1 := by
  induction parts generalizing after with
  | nil => exact .nil
  | cons part parts ih =>
    rw [List.forall_mem_cons] at valid
    obtain ⟨entries, mapped⟩ := valid.1.mapped
    exact .cons ⟨rfl, rfl, rfl, dict?_propsOf grows (grows_partOutlines ..) mapped⟩
      (ih (grows.trans (grows_propsOf after part.props)) valid.2)

end

/-! ## Zones beside the components -/

/-- The key of a zone is cut at its first mark, and the id of the parent holds none. -/
theorem zoneKey_keyed {id zone : String} (plain : ':' ∉ id.toList) (named : zone ≠ "") :
    zoneKey (id ++ ":" ++ zone) = (id, zone) := by
  have cut (parent : List Char) (noMark : ':' ∉ parent) :
      Text.splitAtMark? [':'] (parent ++ ':' :: zone.toList) = some (parent, zone.toList) := by
    induction parent with
    | nil => simp [Text.splitAtMark?, Text.dropMark?]
    | cons c parent ih =>
      rw [List.mem_cons, not_or] at noMark
      rw [List.cons_append, Text.splitAtMark?, ih noMark.2]
      simp [Text.dropMark?, noMark.1]
  have whole : (id ++ ":" ++ zone).toList = id.toList ++ ':' :: zone.toList := by
    simp [String.toList_append]
  obtain ⟨c, rest, filled⟩ : ∃ c rest, zone.toList = c :: rest :=
    List.exists_cons_of_ne_nil (by simpa using named)
  have back : String.ofList (c :: rest) = zone := by rw [← filled, String.ofList_toList]
  rw [zoneKey, whole, cut id.toList plain, filled]
  dsimp only
  rw [String.ofList_toList, back]

/-- Adds the values of a zone, known by its key, to its parent. -/
def placeValues (outlines : List Outline) (zone : String × List Value) : List Outline :=
  if outlines.any fun outline => outline.id = (zoneKey zone.1).1 then
    extendLast (zoneKey zone.1).1 (zoneKey zone.1).2 zone.2 outlines
  else outlines

section

variable {heap after : Heap} {part : Part}

theorem extendLast_append {front back : List Outline} (outline : Outline) {zone : String}
    {values : List Value} (last : outline.id ∉ back.map (·.id)) :
    extendLast outline.id zone values (front ++ outline :: back) =
      front ++ { outline with zones := extendList outline.zones zone values } :: back := by
  have noOther : (back.any fun other => other.id = outline.id) = false :=
    Bool.eq_false_iff.mpr (mt any_id_iff.mp last)
  induction front with
  | nil => simp [extendLast, noOther]
  | cons first front ih =>
    rw [List.cons_append, extendLast, if_neg, ih, List.cons_append]
    simp

/-- One after the other the zones of a part come to stand behind those that it has. -/
theorem foldl_placeValues_part (plain : ':' ∉ part.id.toList) (front : List Outline)
    {back : List Outline} (last : part.id ∉ back.map (·.id)) (props : Value) (placed : Zones)
    {zones : Zones}
    (zoned : ∀ zone ∈ zones, zone.1 ≠ "") (distinct : (Ordered.names (placed ++ zones)).Nodup) :
    (idZones (zones.map fun zone => (part.id ++ ":" ++ zone.1, zone.2))).foldl placeValues
        (front ++ ⟨part.id, part.type, props, idZones placed⟩ :: back) =
      front ++ ⟨part.id, part.type, props, idZones (placed ++ zones)⟩ :: back := by
  induction zones generalizing placed with
  | nil => simp [idZones, Ordered.mapValues]
  | cons zone zones ih =>
    rw [List.forall_mem_cons] at zoned
    have fresh : zone.1 ∉ Ordered.names (idZones placed) := by
      rw [idZones, Ordered.names_mapValues]
      exact Ordered.not_mem_names_of_nodup distinct
    have added : extendList (idZones placed) zone.1 (zone.2.map .str) =
        idZones (placed ++ [zone]) := by
      have absent : Ordered.get? (idZones placed) zone.1 = none := Ordered.get?_eq_none fresh
      rw [extendList, absent, Ordered.put_of_not_mem fresh]
      simp [idZones, Ordered.mapValues]
    have step : placeValues (front ++ ⟨part.id, part.type, props, idZones placed⟩ :: back)
        (part.id ++ ":" ++ zone.1, zone.2.map .str) =
          front ++ ⟨part.id, part.type, props, idZones (placed ++ [zone])⟩ :: back := by
      rw [placeValues, zoneKey_keyed plain zoned.1, if_pos (by simp),
        extendLast_append ⟨part.id, part.type, props, idZones placed⟩ last, added]
    have rest := ih (placed ++ [zone]) zoned.2 (by simpa using distinct)
    rw [List.append_assoc, List.singleton_append] at rest
    rw [← rest, ← step]
    rfl

/-- Placing the zones of all parts gives the outlines that hold their zones themselves. -/
theorem foldl_placeValues_parts {parts : List Part} (valid : ∀ part ∈ parts, part.IsValid heap)
    (distinct : (parts.map (·.id)).Nodup) (front : List Outline) (after : Heap) :
    (idZones (parts.flatMap Part.keyedZones)).foldl placeValues
        (front ++ (partOutlines (fun _ => []) after parts).1) =
      front ++ (partOutlines Part.zones after parts).1 := by
  -- The outlines in front have all their zones; the others have none yet.
  induction parts generalizing front after with
  | nil => rfl
  | cons part parts ih =>
    rw [List.forall_mem_cons] at valid
    rw [List.map_cons, List.nodup_cons] at distinct
    have last : part.id ∉
        (partOutlines (fun _ => []) (propsOf after part.props).2 parts).1.map (·.id) := by
      rw [map_id_partOutlines]
      exact distinct.1
    have here := foldl_placeValues_part valid.1.plain front last (propsOf after part.props).1 []
      valid.1.zoned (by simpa using valid.1.distinct)
    have both : idZones ((part :: parts).flatMap Part.keyedZones) =
        idZones part.keyedZones ++ idZones (parts.flatMap Part.keyedZones) := by
      simp [idZones, Ordered.mapValues]
    rw [both, List.foldl_append, Part.keyedZones, partOutlines]
    refine (congrArg (fun outlines => List.foldl placeValues outlines _) here).trans ?_
    have rest := ih valid.2 distinct.2
      (front ++ [⟨part.id, part.type, (propsOf after part.props).1, idZones part.zones⟩])
      (propsOf after part.props).2
    rw [List.append_assoc, List.append_assoc] at rest
    exact rest

theorem foldl_placeZone_parts {parts : List Part} (valid : ∀ part ∈ parts, part.IsValid heap)
    (distinct : (parts.map (·.id)).Nodup) (after : Heap) {value : Value}
    (spells : SpellsLists heap value (parts.flatMap Part.keyedZones)) :
    (heap.entries value).foldl (placeZone heap) (partOutlines (fun _ => []) after parts).1 =
      (partOutlines Part.zones after parts).1 := by
  have placed := foldl_placeValues_parts valid distinct [] after
  rw [idZones, ← entries_of_spellsLists spells, List.foldl_map] at placed
  exact placed

end

/-! ## What the shapes are read as -/

section

variable {heap : Heap} {roots : List String} {parts : List Part}

/-- What the outline of a page with these roots and components is; its content has no defect. -/
structure Outlines (heap : Heap) (roots : List String) (parts : List Part) (data : Entries) :
    Prop where
  sound : contentDefects heap data = []
  titled : heap.mappingDefects (contentOutline heap heap data).1.rootProps "get" = []
  roots : (contentOutline heap heap data).1.roots = roots.map .str
  components : (contentOutline heap heap data).1.components =
    (partOutlines Part.zones heap parts).1
  heap : (contentOutline heap heap data).2 = (partOutlines Part.zones heap parts).2

theorem mappingDefects_of_dict? {value : Value} {entries : Entries} (operation : String)
    (found : heap.dict? value = some entries) : heap.mappingDefects value operation = [] :=
  mappingDefects_of_isMapping fun _ => ⟨entries, found⟩

theorem componentsDefects_of_entries (valid : ∀ part ∈ parts, part.IsValid heap)
    {zonesOf : Part → Zones} {value : Value}
    (there : heap.dict? value ≠ none ∨ heap.list? value ≠ none)
    (each : List.Forall₂ (fun part pair => Part.IsEntry heap part (zonesOf part) pair) parts
      (componentPairs heap value)) : componentsDefects heap value = [] := by
  have none : (componentPairs heap value).flatMap (componentDefects heap) = [] := by
    rw [List.flatMap_eq_nil_iff]
    intro pair member
    obtain ⟨part, isPart, entry⟩ := exists_of_mem_right each member
    exact componentDefects_of_isEntry entry (valid part isPart)
  rw [componentsDefects, none, if_neg (by tauto)]
  rfl

theorem flat_outlines (valid : ∀ part ∈ parts, part.IsValid heap) {data root : Entries}
    (plain : heap.dict? (data.get "content") = none)
    (rooted : heap.dict? (data.get "rootZone") = some root)
    (listed : Spells heap (root.get "componentIds") roots)
    (there : heap.dict? (data.get "components") ≠ none ∨ heap.list? (data.get "components") ≠ none)
    (each : List.Forall₂ (fun part pair => Part.IsEntry heap part part.zones pair) parts
      (componentPairs heap (data.get "components"))) : Outlines heap roots parts data := by
  have outlines := outlinesOf_eq heap each valid fun part member => (valid part member).distinct
  have isFlat : contentOutline heap heap data = flatOutline heap heap data := by
    rw [contentOutline, plain]
  constructor
  · rw [contentDefects, plain]
    dsimp only
    rw [flatDefects, mappingDefects_of_dict? "get" rooted, Heap.entries_of_dict? rooted,
      listDefects_of_spells listed, componentsDefects_of_entries valid there each]
    rfl
  · rw [isFlat]
    rfl
  · rw [isFlat]
    dsimp only [flatOutline]
    rw [Heap.entries_of_dict? rooted, listed_of_spells listed]
  · rw [isFlat, flatOutline, outlines]
  · rw [isFlat, flatOutline, outlines]

theorem editor_outlines (valid : ∀ part ∈ parts, part.IsValid heap)
    (distinct : (parts.map (·.id)).Nodup) {data content root : Entries}
    (edited : heap.dict? (data.get "content") = some content)
    (rooted : heap.dict? (content.get "root") = some root)
    (listed : Spells heap (root.get "children") roots)
    (titled : heap.isTruthy (root.get "props") = true →
      ∃ props, heap.dict? (root.get "props") = some props)
    (there : heap.dict? (content.get "components") ≠ none)
    (each : List.Forall₂ (fun part pair => Part.IsEntry heap part [] pair) parts
      (componentPairs heap (content.get "components")))
    (zones : SpellsLists heap (content.get "zones") (parts.flatMap Part.keyedZones)) :
    Outlines heap roots parts data := by
  have outlines := outlinesOf_eq heap each valid fun _ _ => List.nodup_nil
  have isEditor : contentOutline heap heap data = editorOutline heap heap content := by
    rw [contentOutline, edited]
  have placed : (heap.entries (content.get "zones")).flatMap
      (placedDefects heap ((componentPairs heap (content.get "components")).map (pairId heap))) =
        [] := by
    rw [List.flatMap_eq_nil_iff]
    intro entry member
    rw [placedDefects, listDefects_of_spellsLists zones entry member, ite_self]
  constructor
  · rw [contentDefects, edited]
    dsimp only
    rw [editorDefects, placed, mappingDefects_of_isMapping zones.mapping,
      mappingDefects_of_dict? "get" rooted, Heap.entries_of_dict? rooted,
      listDefects_of_spells listed, componentsDefects_of_entries valid (.inl there) each]
    rfl
  · rw [isEditor]
    dsimp only [editorOutline]
    rw [Heap.entries_of_dict? rooted]
    exact mappingDefects_of_isMapping titled
  · rw [isEditor]
    dsimp only [editorOutline]
    rw [Heap.entries_of_dict? rooted, listed_of_spells listed]
  · rw [isEditor, editorOutline, outlines]
    exact foldl_placeZone_parts valid distinct heap zones
  · rw [isEditor, editorOutline, outlines]
    exact partOutlines_heap ..

/-- The entries of a mapping, each behind the key that it stands under. -/
theorem forall₂_componentPairs {zonesOf : Part → Zones} {value : Value} {entries : Entries}
    (found : heap.dict? value = some entries)
    (each : List.Forall₂ (fun part entry => entry.1 = Value.str part.id ∧
      Part.IsEntry heap part (zonesOf part) (entry.2, entry.1)) parts entries) :
    List.Forall₂ (fun part pair => Part.IsEntry heap part (zonesOf part) pair) parts
      (componentPairs heap value) := by
  rw [componentPairs, found]
  exact List.forall₂_map_right_iff.mpr (each.imp fun _ _ entry => entry.2)

theorem PageShape.outlines {value : Value} (shape : PageShape heap roots parts value)
    (valid : ∀ part ∈ parts, part.IsValid heap) (distinct : (parts.map (·.id)).Nodup) :
    ∃ data, IsPage heap value data ∧ Outlines heap roots parts data := by
  cases shape with
  | flat data root items page plain rooted listed components each =>
    have noMapping : heap.dict? (data.get "components") = none := by
      obtain ⟨id, isRef, found⟩ := Heap.exists_of_list? components
      simp [isRef, Heap.dict?, found]
    have pairs : List.Forall₂ (fun part pair => Part.IsEntry heap part part.zones pair) parts
        (componentPairs heap (data.get "components")) := by
      rw [componentPairs, noMapping, components]
      exact List.forall₂_map_right_iff.mpr each
    exact ⟨data, page, flat_outlines valid plain rooted listed (.inr (by simp [components])) pairs⟩
  | keyed data root entries page plain rooted listed components each =>
    exact ⟨data, page, flat_outlines valid plain rooted listed (.inl (by simp [components]))
      (forall₂_componentPairs components each)⟩
  | editor data content root entries page edited rooted listed titled components each zones =>
    exact ⟨data, page, editor_outlines valid distinct edited rooted listed titled
      (by simp [components]) (forall₂_componentPairs components each) zones⟩

theorem pageDefects_of_outlines {value : Value} {data : Entries} (page : IsPage heap value data)
    (outlines : Outlines heap roots parts data) : pageDefects heap value = [] := by
  have field (key : String) :
      fieldDefects heap data (contentOutline heap heap data).1.rootProps key = [] := by
    rw [fieldDefects, outlines.titled, ite_self]
  rw [pageDefects, page.mapping]
  dsimp only
  rw [outlines.sound, field, field, if_neg page.named]
  rfl

theorem map_text_str (heap : Heap) (ids : List String) :
    (ids.map Value.str).map (Value.text heap) = ids := by
  rw [List.map_map]
  exact List.map_id ids

theorem zoneTexts_idZones (heap : Heap) (zones : Zones) :
    zoneTexts heap (idZones zones) = zones := by
  induction zones with
  | nil => rfl
  | cons zone zones ih => exact congrArg₂ List.cons (Prod.ext rfl (map_text_str heap zone.2)) ih

/--
All the shapes of a page with the same roots and components are read as the same page: with exactly
these roots, and with exactly these components in their order, each with its id and type, its props,
and its zones and their ids in their order.
-/
theorem readPage_shapes (closed : heap.Closed) (valid : ∀ part ∈ parts, part.IsValid heap)
    (distinct : (parts.map (·.id)).Nodup) :
    ∃ components after,
      (∀ value, PageShape heap roots parts value →
        ∃ page, readPage heap value = .ok (⟨page, components⟩, after) ∧ page.roots = roots) ∧
      List.Forall₂ (fun part component => component.id = part.id ∧ component.type = part.type ∧
        component.zones = part.zones ∧ after.dict? component.props = heap.dict? part.props)
        parts components := by
  refine ⟨(partOutlines Part.zones heap parts).1.map (Outline.component heap),
    (partOutlines Part.zones heap parts).2, fun value shape => ?_, ?_⟩
  · obtain ⟨data, page, outlines⟩ := shape.outlines valid distinct
    have read := checked_readPage closed (.refl heap) (Heap.has_of_mapping page.mapping)
    rw [pageDefects_of_outlines page outlines] at read
    replace read : readPage heap value = .ok (pageOf heap heap value) := read
    obtain rfl : heap.entries value = data := Heap.entries_of_dict? page.mapping
    refine ⟨(pageOf heap heap value).1.page, read.trans (congrArg Except.ok ?_), ?_⟩
    · rw [← outlines.components, ← outlines.heap]
      rfl
    · exact (congrArg (List.map (Value.text heap)) outlines.roots).trans (map_text_str heap roots)
  · rw [List.forall₂_map_right_iff]
    refine (forall₂_partOutlines (.refl heap) valid).imp fun part outline same => ?_
    obtain ⟨isId, isType, zones, props⟩ := same
    refine ⟨isId, isType, ?_, props⟩
    rw [Outline.component, zones, zoneTexts_idZones]

end

def box : Part := ⟨"a", "Section", .ref 0, [("main", ["b"]), ("aside:left", [])]⟩

def label : Part := ⟨"b", "Text", .ref 1, []⟩

/-- One page in all three shapes; they share the props of the components. -/
def threeShapes : Heap :=
  { objects := #[
      .dict [(.str "size", .int 1)], .dict [], .list [.str "b"], .list [], .list [.str "a"],
      .dict [(.str "main", .ref 2), (.str "aside:left", .ref 3)],
      .dict [(.str "id", .str "a"), (.str "type", .str "Section"), (.str "props", .ref 0),
        (.str "zones", .ref 5)],
      .dict [(.str "id", .str "b"), (.str "type", .str "Text"), (.str "props", .ref 1)],
      .dict [(.str "type", .str "Section"), (.str "props", .ref 0)],
      .list [.ref 6, .ref 7], .dict [(.str "a", .ref 6), (.str "b", .ref 7)],
      .dict [(.str "a", .ref 8), (.str "b", .ref 7)], .dict [(.str "componentIds", .ref 4)],
      .dict [(.str "children", .ref 4)],
      .dict [(.str "a:main", .ref 2), (.str "a:aside:left", .ref 3)],
      .dict [(.str "root", .ref 13), (.str "components", .ref 11), (.str "zones", .ref 14)],
      .dict [(.str "id", .str "p"), (.str "rootZone", .ref 12), (.str "components", .ref 9)],
      .dict [(.str "id", .str "p"), (.str "rootZone", .ref 12), (.str "components", .ref 10)],
      .dict [(.str "id", .str "p"), (.str "content", .ref 15)]] }

theorem readPage_threeShapes :
    ∃ components after, ∀ place ∈ [16, 17, 18], ∃ page,
      readPage threeShapes (.ref place) = .ok (⟨page, components⟩, after) ∧ page.roots = ["a"] ∧
        components.map (·.zones) = [[("main", ["b"]), ("aside:left", [])], []] := by
  have closed : threeShapes.Closed := by decide +kernel
  have valid : ∀ part ∈ [box, label], part.IsValid threeShapes := by
    simp only [List.forall_mem_cons, List.not_mem_nil, false_implies, implies_true, and_true]
    exact ⟨⟨by decide, by decide +kernel, by decide, by decide, ⟨_, rfl⟩, by decide, by decide⟩,
      ⟨by decide, by decide +kernel, by decide, by decide, ⟨_, rfl⟩, by decide, by decide⟩⟩
  have named : ∀ place ∈ [16, 17, 18],
      pageId threeShapes (threeShapes.entries (.ref place)) ≠ "" := by decide +kernel
  simp only [List.forall_mem_cons, List.not_mem_nil, false_implies, implies_true, and_true] at named
  have zones : SpellsLists threeShapes (.ref 5) box.zones :=
    ⟨fun _ => ⟨_, rfl⟩, .cons ⟨rfl, .inl rfl⟩ (.cons ⟨rfl, .inl rfl⟩ .nil)⟩
  have noZones : SpellsLists threeShapes .null [] := ⟨nofun, .nil⟩
  have boxEntry (key : Value) : box.IsEntry threeShapes box.zones (.ref 6, key) :=
    ⟨⟨_, rfl⟩, rfl, rfl, rfl, zones, rfl⟩
  have bareBox : box.IsEntry threeShapes [] (.ref 8, .str "a") :=
    ⟨⟨_, rfl⟩, rfl, rfl, rfl, noZones, rfl⟩
  have labelEntry (key : Value) : label.IsEntry threeShapes [] (.ref 7, key) :=
    ⟨⟨_, rfl⟩, rfl, rfl, rfl, noZones, rfl⟩
  have flat : PageShape threeShapes ["a"] [box, label] (.ref 16) :=
    .flat _ _ _ ⟨rfl, named.1⟩ rfl rfl (.inl rfl) rfl
      (.cons (boxEntry .null) (.cons (labelEntry .null) .nil))
  have keyed : PageShape threeShapes ["a"] [box, label] (.ref 17) :=
    .keyed _ _ _ ⟨rfl, named.2.1⟩ rfl rfl (.inl rfl) rfl
      (.cons ⟨rfl, boxEntry _⟩ (.cons ⟨rfl, labelEntry _⟩ .nil))
  have editor : PageShape threeShapes ["a"] [box, label] (.ref 18) :=
    .editor _ _ _ _ ⟨rfl, named.2.2⟩ rfl rfl (.inl rfl) nofun rfl
      (.cons ⟨rfl, bareBox⟩ (.cons ⟨rfl, labelEntry _⟩ .nil))
      ⟨fun _ => ⟨_, rfl⟩, .cons ⟨rfl, .inl rfl⟩ (.cons ⟨rfl, .inl rfl⟩ .nil)⟩
  have shapes : ∀ place ∈ [16, 17, 18], PageShape threeShapes ["a"] [box, label] (.ref place) := by
    simp only [List.forall_mem_cons, List.not_mem_nil, false_implies, implies_true, and_true]
    exact ⟨flat, keyed, editor⟩
  obtain ⟨components, after, same, each⟩ := readPage_shapes closed valid (by decide)
  have layout : components.map (·.zones) = [box.zones, label.zones] := by
    cases each with
    | cons ofBox rest =>
      cases rest with
      | cons ofLabel rest =>
        cases rest
        rw [List.map_cons, List.map_cons, ofBox.2.2.1, ofLabel.2.2.1]
        rfl
  refine ⟨components, after, fun place isPlace => ?_⟩
  obtain ⟨page, read, roots⟩ := same _ (shapes place isPlace)
  exact ⟨page, read, roots, layout⟩

end Site

end StaticSite
