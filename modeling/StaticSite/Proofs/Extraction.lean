import StaticSite.Proofs.Walk

/-!
# Extraction from unfolded data

A reference that a component has made before changes nothing when it is recorded again. So the walk,
which enters every container once, finds the assets of the whole tree as long as what it passes over
refers only to what has been referred to before.
-/

namespace StaticSite

namespace Asset

/-- Whether a string refers to an asset where it stands. -/
def accepts (fields : Option Fields) (occurrence : Value.Occurrence) : Bool :=
  isReference occurrence.1 occurrence.2 fields

/-! ## Records -/

/-- The components known to refer to the asset of an id. -/
def usersOf (assets : List Asset) (id : String) : List String :=
  match assets with
  | [] => []
  | asset :: rest => if asset.id = id then asset.usedBy else usersOf rest id

theorem id_addUser (asset : Asset) (componentId : String) :
    (asset.addUser componentId).id = asset.id := by
  unfold addUser
  split <;> rfl

theorem mem_usedBy_addUser {asset : Asset} {componentId user : String} :
    user ∈ (asset.addUser componentId).usedBy ↔ user ∈ asset.usedBy ∨ user = componentId := by
  unfold addUser
  split
  next known =>
    refine ⟨.inl, fun member => ?_⟩
    rcases member with before | rfl
    · exact before
    · exact known
  next => rw [List.mem_append, List.mem_singleton]

section

variable {assets : List Asset} {url componentId : String} {kind : Option String}

theorem mem_usersOf_record {id user : String} :
    user ∈ usersOf (record assets url componentId kind) id ↔
      user ∈ usersOf assets id ∨ idOf url = id ∧ user = componentId := by
  induction assets with
  | nil => by_cases isId : idOf url = id <;> simp [record, usersOf, found, isId]
  | cons asset rest ih =>
    unfold record
    by_cases same : asset.id = idOf url
    · rw [if_pos same]
      by_cases isId : idOf url = id
      · simp [usersOf, id_addUser, mem_usedBy_addUser, same, isId]
      · simp [usersOf, id_addUser, same, isId]
    · rw [if_neg same]
      by_cases isId : asset.id = id
      · have other : idOf url ≠ id := fun isUrl => same (isId.trans isUrl.symm)
        simp [usersOf, isId, other]
      · simpa only [usersOf, if_neg isId] using ih

/-- A reference that is known is not recorded again. -/
theorem record_of_mem_usersOf (known : componentId ∈ usersOf assets (idOf url)) :
    record assets url componentId kind = assets := by
  induction assets with
  | nil => cases known
  | cons asset rest ih =>
    unfold usersOf at known
    unfold record
    by_cases same : asset.id = idOf url
    · rw [if_pos same] at known ⊢
      rw [addUser, if_pos known]
    · rw [if_neg same] at known ⊢
      rw [ih known]

end

/-! ## Strings -/

/-- The addresses that strings refer to. -/
def urlsOf (fields : Option Fields) (strings : List Value.Occurrence) : List String :=
  (strings.filter (accepts fields)).map (·.2)

theorem mem_urlsOf {fields : Option Fields} {strings : List Value.Occurrence} {url : String} :
    url ∈ urlsOf fields strings ↔
      ∃ occurrence ∈ strings, accepts fields occurrence = true ∧ occurrence.2 = url := by
  simp only [urlsOf, List.mem_map, List.mem_filter, and_assoc]

section

variable (catalog : Option Catalog) (componentId type : String)

/-- Records the strings of a component that are references. -/
def recordStrings (assets : List Asset) (strings : List Value.Occurrence) : List Asset :=
  (strings.filter (accepts (Catalog.urlFields? catalog type))).foldl
    (fun assets occurrence =>
      record assets occurrence.2 componentId (declaredKind catalog type occurrence.1))
    assets

variable {catalog componentId type} {assets : List Asset} {strings : List Value.Occurrence}

theorem recordStrings_append (more : List Value.Occurrence) :
    recordStrings catalog componentId type assets (strings ++ more) =
      recordStrings catalog componentId type
        (recordStrings catalog componentId type assets strings) more := by
  simp only [recordStrings, List.filter_append, List.foldl_append]

theorem mem_usersOf_recordStrings {id user : String} :
    user ∈ usersOf (recordStrings catalog componentId type assets strings) id ↔
      user ∈ usersOf assets id ∨
        id ∈ (urlsOf (Catalog.urlFields? catalog type) strings).map idOf ∧
          user = componentId := by
  unfold recordStrings urlsOf
  generalize strings.filter _ = references
  induction references generalizing assets with
  | nil => simp
  | cons reference references ih =>
    rw [List.foldl_cons, ih, mem_usersOf_record]
    simp only [List.map_cons, List.mem_cons, or_and_right, or_assoc, eq_comm (a := id)]

theorem recordStrings_of_known
    (known : ∀ url ∈ urlsOf (Catalog.urlFields? catalog type) strings,
      componentId ∈ usersOf assets (idOf url)) :
    recordStrings catalog componentId type assets strings = assets := by
  unfold urlsOf at known
  unfold recordStrings
  generalize strings.filter _ = references at known
  induction references with
  | nil => rfl
  | cons reference references ih =>
    simp only [List.map_cons, List.forall_mem_cons] at known
    rw [List.foldl_cons, record_of_mem_usersOf known.1, ih known.2]

/-- Strings that refer only to what has been referred to before add nothing to the records. -/
theorem recordStrings_append_of_subset (assets : List Asset)
    {before strings : List Value.Occurrence}
    (known : ∀ url ∈ urlsOf (Catalog.urlFields? catalog type) strings,
      url ∈ urlsOf (Catalog.urlFields? catalog type) before) :
    recordStrings catalog componentId type assets (before ++ strings) =
      recordStrings catalog componentId type assets before := by
  rw [recordStrings_append]
  refine recordStrings_of_known fun url member => mem_usersOf_recordStrings.mpr (.inr ⟨?_, rfl⟩)
  exact List.mem_map_of_mem (known url member)

end

/-- The components that refer to a URL of an id are the users of its asset. -/
theorem mem_usersOf_foldl {α : Type} (catalog : Option Catalog) (componentId type : α → String)
    (strings : α → List Value.Occurrence) (components : List α) (assets : List Asset)
    {id user : String} :
    user ∈ usersOf (components.foldl (fun assets component =>
      recordStrings catalog (componentId component) (type component) assets (strings component))
      assets) id ↔
      user ∈ usersOf assets id ∨ ∃ component ∈ components,
        id ∈ (urlsOf (Catalog.urlFields? catalog (type component)) (strings component)).map idOf ∧
          user = componentId component := by
  induction components generalizing assets with
  | nil => simp
  | cons component components ih =>
    rw [List.foldl_cons, ih, mem_usersOf_recordStrings]
    simp only [List.mem_cons, or_and_right, exists_or, exists_eq_left, or_assoc]

end Asset

/-! ## Components -/

namespace Reading

variable {heap : Heap}

/-- What a component reaches again refers only to what it has referred to before. -/
def RefersToKnown (catalog : Option Catalog) (reading : Reading heap) : Prop :=
  (reading.unfolded.passages none []).Pairwise fun first later =>
    first.reach.mark = later.reach.mark →
      ∀ url ∈ Asset.urlsOf (reading.fields catalog) later.reach.strings,
        url ∈ Asset.urlsOf (reading.fields catalog) later.before

/-- No container or tuple is reached twice, but for tuples that hold nothing. -/
def Unshared (readings : List (Reading heap)) : Prop :=
  (readings.flatMap reaches).Pairwise fun first later => first.mark = later.mark →
    first.shape = .tuple ∧ later.inside = .nil

end Reading

namespace Asset

/-- The assets of components, found by looking at all strings of their props. -/
def extractPlain (catalog : Option Catalog) (components : List PlainComponent) : List Asset :=
  components.foldl
    (fun assets component =>
      recordStrings catalog component.id component.type assets (component.members.strings none))
    []

theorem references_eq {heap : Heap} (catalog : Option Catalog) (reading : Reading heap) :
    references heap catalog reading.component =
      (Value.strings heap none reading.component.props).filter
        (accepts (reading.fields catalog)) := by
  obtain ⟨entries, found⟩ := Option.isSome_iff_exists.mp reading.dict?_props
  rw [references, found]
  rfl

theorem recordComponent_eq_recordStrings {heap : Heap} (catalog : Option Catalog)
    (reading : Reading heap) (assets : List Asset) :
    recordComponent heap catalog assets reading.component =
      recordStrings catalog reading.id reading.type assets
        (Value.strings heap none reading.component.props) := by
  rw [recordComponent, references_eq, recordStrings]
  rfl

theorem recordComponent_eq {heap : Heap} {catalog : Option Catalog} {reading : Reading heap}
    (known : reading.RefersToKnown catalog) (assets : List Asset) :
    recordComponent heap catalog assets reading.component =
      recordStrings catalog reading.id reading.type assets
        (reading.plain.members.strings none) := by
  have onward : ∀ first second, recordStrings catalog reading.id reading.type assets first =
      recordStrings catalog reading.id reading.type assets second →
      ∀ more, recordStrings catalog reading.id reading.type assets (first ++ more) =
        recordStrings catalog reading.id reading.type assets (second ++ more) := by
    intro first second same more
    rw [recordStrings_append, recordStrings_append, same]
  have idle : (reading.unfolded.passages none []).Pairwise
      (Members.Idle (recordStrings catalog reading.id reading.type assets)) :=
    known.imp fun covered same => recordStrings_append_of_subset assets (covered same)
  rw [recordComponent_eq_recordStrings, Reading.effect_strings onward idle]

theorem filterMap_entry {heap : Heap} (readings : List (Reading heap)) :
    (readings.map Reading.entry).filterMap Entry.component? = readings.map Reading.component := by
  rw [← Entry.filterMap_component?_map (readings.map Reading.component), List.map_map]
  rfl

theorem extract_eq_foldl {heap : Heap} (catalog : Option Catalog) (readings : List (Reading heap)) :
    extract heap catalog (readings.map Reading.entry) =
      readings.foldl (fun assets reading =>
        recordComponent heap catalog assets reading.component) [] := by
  rw [extract, filterMap_entry, List.foldl_map]

/-- Extraction looks at all strings, as far as what it passes over refers to known addresses. -/
theorem extract_eq_extractPlain {heap : Heap} {catalog : Option Catalog}
    {readings : List (Reading heap)}
    (known : ∀ reading ∈ readings, reading.RefersToKnown catalog) :
    extract heap catalog (readings.map Reading.entry) =
      extractPlain catalog (readings.map Reading.plain) := by
  rw [extract_eq_foldl, extractPlain, List.foldl_map]
  exact List.foldl_ext _ _ _ fun assets reading member =>
    recordComponent_eq (known reading member) assets

/-- Extraction records no use that the strings of the whole tree do not show. -/
theorem usersOf_extract_subset {heap : Heap} {catalog : Option Catalog}
    (readings : List (Reading heap)) (id : String) :
    ∀ user ∈ usersOf (extract heap catalog (readings.map Reading.entry)) id,
      user ∈ usersOf (extractPlain catalog (readings.map Reading.plain)) id := by
  intro user member
  simp only [extract_eq_foldl, recordComponent_eq_recordStrings] at member
  rw [extractPlain, List.foldl_map]
  rcases (mem_usersOf_foldl catalog Reading.id Reading.type _ readings []).mp member with
    none' | ⟨reading, inReadings, referred, isUser⟩
  · cases none'
  · refine (mem_usersOf_foldl catalog Reading.id Reading.type
      (fun reading => reading.plain.members.strings none) readings []).mpr
      (.inr ⟨reading, inReadings, ?_, isUser⟩)
    obtain ⟨url, isUrl, rfl⟩ := List.mem_map.mp referred
    obtain ⟨occurrence, found, accepted, rfl⟩ := mem_urlsOf.mp isUrl
    exact List.mem_map_of_mem
      (mem_urlsOf.mpr ⟨occurrence, reading.strings_subset found, accepted, rfl⟩)

end Asset

namespace Reading

variable {heap : Heap} {readings : List (Reading heap)}

theorem Unshared.within (unshared : Unshared readings) {reading : Reading heap}
    (member : reading ∈ readings) :
    reading.reaches.Pairwise fun first later => first.mark = later.mark →
      first.shape = .tuple ∧ later.inside = .nil :=
  (List.pairwise_flatMap.mp unshared).1 reading member

theorem Unshared.passages (unshared : Unshared readings) {reading : Reading heap}
    (member : reading ∈ readings) :
    (reading.unfolded.passages none []).Pairwise fun first later =>
      first.reach.mark = later.reach.mark → later.reach.strings = [] := by
  have within := unshared.within member
  rw [reaches, ← Members.map_reach_passages none [], List.pairwise_map] at within
  refine within.imp fun empty same => ?_
  rw [Members.Reach.strings, (empty same).2, Members.strings]

theorem Unshared.refersToKnown (unshared : Unshared readings) (catalog : Option Catalog) :
    ∀ reading ∈ readings, reading.RefersToKnown catalog := by
  intro reading member
  refine (unshared.passages member).imp fun empty same url referred => ?_
  simp [empty same, Asset.urlsOf] at referred

end Reading

end StaticSite
