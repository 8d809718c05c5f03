import StaticSite.Page.Document
import StaticSite.Proofs.KeptReferences

/-!
# What an accepted page consists of

Reading a page makes texts of all its fields but one: the description is kept as the value that it
is. So the components of every accepted page have ids and mappings for props, and the document of
the page is built, exactly as far as its description is a text or counts as absent.
-/

namespace StaticSite

namespace Site

variable {heap after : Heap} {component : Component} {components : List Component}

/-! ## Components -/

/-- A component with an id, and with a mapping for props. -/
def IsSound (heap : Heap) (component : Component) : Prop :=
  component.id ≠ "" ∧ ∃ entries, heap.dict? component.props = some entries

/-- What is added to the heap later leaves a component as sound as it is. -/
theorem IsSound.grows (sound : IsSound heap component) (grows : heap.Grows after) :
    IsSound after component := by
  obtain ⟨named, entries, mapped⟩ := sound
  refine ⟨named, entries, ?_⟩
  rw [grows.dict? (Heap.has_of_mapping mapped), mapped]

theorem componentProps_sound {id : String} {value : Value} {props : Value × Heap}
    (given : componentProps heap id value = .ok props) :
    heap.Grows props.2 ∧ ∃ entries, props.2.dict? props.1 = some entries := by
  unfold componentProps at given
  split at given
  · split at given
    next entries mapped =>
      cases given
      exact ⟨.refl heap, entries, mapped⟩
    · cases given
  · cases given
    refine ⟨heap.grows_add _, [], ?_⟩
    simp [Heap.dict?, Heap.container?]

theorem readComponent_sound {data fallback : Value} {read : Component × Heap}
    (given : readComponent heap data fallback = .ok read) :
    heap.Grows read.2 ∧ IsSound read.2 read.1 := by
  unfold readComponent at given
  split at given
  next entries mapped =>
    dsimp only at given
    split at given
    · cases given
    next named =>
      split at given
      · cases given
      · obtain ⟨props, isProps, given⟩ := exists_of_bind_eq_ok given
        obtain ⟨zones, -, given⟩ := exists_of_bind_eq_ok given
        cases given
        obtain ⟨grows, mapped⟩ := componentProps_sound isProps
        exact ⟨grows, named, mapped⟩
  · cases given

theorem readEach_sound {pairs : List (Value × Value)} {read : List Component × Heap}
    (given : readEach heap pairs = .ok read) :
    heap.Grows read.2 ∧ ∀ component ∈ read.1, IsSound read.2 component := by
  induction pairs generalizing heap read with
  | nil =>
    cases given
    exact ⟨.refl heap, by simp⟩
  | cons pair pairs ih =>
    obtain ⟨first, isFirst, given⟩ := exists_of_bind_eq_ok given
    obtain ⟨rest, isRest, given⟩ := exists_of_bind_eq_ok given
    cases given
    obtain ⟨grows, sound⟩ := readComponent_sound isFirst
    obtain ⟨further, each⟩ := ih isRest
    exact ⟨grows.trans further, List.forall_mem_cons.mpr ⟨sound.grows further, each⟩⟩

theorem readComponents_sound {value : Value} {read : List Component × Heap}
    (given : readComponents heap value = .ok read) :
    heap.Grows read.2 ∧ ∀ component ∈ read.1, IsSound read.2 component := by
  unfold readComponents at given
  split at given
  · exact readEach_sound given
  · exact readEach_sound given
  · cases given
    exact ⟨.refl heap, by simp⟩
  · cases given

/-- Adding to the zones of a component changes neither its id nor its props. -/
theorem forall_changeLast {id : String} {change : Component → Component}
    (keeps : ∀ component, IsSound heap component → IsSound heap (change component))
    (sound : ∀ component ∈ components, IsSound heap component) :
    ∀ component ∈ changeLast id change components, IsSound heap component := by
  induction components with
  | nil => exact sound
  | cons component rest ih =>
    obtain ⟨here, later⟩ := List.forall_mem_cons.mp sound
    unfold changeLast
    split
    · exact List.forall_mem_cons.mpr ⟨keeps component here, later⟩
    · exact List.forall_mem_cons.mpr ⟨here, ih later⟩

theorem addZone_sound {entry : Value × Value} {changed : List Component}
    (sound : ∀ component ∈ components, IsSound heap component)
    (given : addZone heap components entry = .ok changed) :
    ∀ component ∈ changed, IsSound heap component := by
  unfold addZone at given
  dsimp only at given
  split at given
  · obtain ⟨children, -, given⟩ := exists_of_bind_eq_ok given
    cases given
    exact forall_changeLast (fun _ => id) sound
  · cases given
    exact sound

theorem readContent_sound {data : Entries} {read : Content × Heap}
    (given : readContent heap data = .ok read) :
    ∀ component ∈ read.1.components, IsSound read.2 component := by
  unfold readContent at given
  split at given
  next content _ =>
    obtain ⟨⟨components, after⟩, areComponents, given⟩ := exists_of_bind_eq_ok given
    obtain ⟨zones, -, given⟩ := exists_of_bind_eq_ok given
    obtain ⟨placed, arePlaced, given⟩ := exists_of_bind_eq_ok given
    obtain ⟨root, -, given⟩ := exists_of_bind_eq_ok given
    obtain ⟨roots, -, given⟩ := exists_of_bind_eq_ok given
    cases given
    exact foldlM_keeps (fun components => ∀ component ∈ components, IsSound after component)
      (fun _ _ _ _ sound => addZone_sound sound) (readComponents_sound areComponents).2 arePlaced
  · obtain ⟨root, -, given⟩ := exists_of_bind_eq_ok given
    obtain ⟨roots, -, given⟩ := exists_of_bind_eq_ok given
    obtain ⟨⟨components, after⟩, areComponents, given⟩ := exists_of_bind_eq_ok given
    cases given
    exact (readComponents_sound areComponents).2

theorem readPage_sound {value : Value} {read : SitePage × Heap}
    (given : readPage heap value = .ok read) :
    read.1.page.id ≠ "" ∧ ∀ component ∈ read.1.components, IsSound read.2 component := by
  unfold readPage at given
  split at given
  next data mapped =>
    dsimp only at given
    split at given
    · cases given
    next named =>
      obtain ⟨content, isContent, given⟩ := exists_of_bind_eq_ok given
      obtain ⟨title, -, given⟩ := exists_of_bind_eq_ok given
      obtain ⟨description, -, given⟩ := exists_of_bind_eq_ok given
      cases given
      exact ⟨named, readContent_sound isContent⟩
  · cases given

/-! ## The description -/

/-- The props of the root of a page in the form of an editor; a flat page has none. -/
def rootProps (heap : Heap) (data : Entries) : Value :=
  match heap.dict? (data.get "content") with
  | some content => (heap.entries (content.get "root")).get "props"
  | none => .null

/-- The description of a page, or else of its root. -/
def described (heap : Heap) (data : Entries) : Value :=
  fieldOf heap data (rootProps heap data) "description"

theorem rootProps_eq (heap after : Heap) (data : Entries) :
    (contentOutline heap after data).1.rootProps = rootProps heap data := by
  unfold contentOutline rootProps
  cases heap.dict? (data.get "content") <;> rfl

end Site

namespace Page

theorem descriptionTag_ok_iff {heap : Heap} {description : Value} :
    (∃ tag, descriptionTag heap description = .ok tag) ↔
      heap.isTruthy description = false ∨ ∃ s, description = .str s := by
  unfold descriptionTag
  by_cases filled : heap.isTruthy description = true
  · rw [if_pos filled]
    cases description <;> simp [filled]
  · simp [filled]

/-- A document is built exactly if the description is a text or counts as absent. -/
theorem document_ok_iff {page : Page} {heap : Heap} {body styles base : String}
    {around : Surroundings} (isText : around.baseUrl = .str base) :
    (∃ text, page.document heap body styles around = .ok text) ↔
      heap.isTruthy page.description = false ∨ ∃ s, page.description = .str s := by
  rw [← descriptionTag_ok_iff, document, isText]
  cases descriptionTag heap page.description with
  | error fault => exact iff_of_false nofun nofun
  | ok tag => exact iff_of_true ⟨_, rfl⟩ ⟨_, rfl⟩

end Page

namespace Site

/--
The page and the components of every accepted mapping have ids, the components have mappings for
props, and the page has a slug and a title. Its description is the value that the mapping gives, of
whatever kind, so the document of the page is built exactly if that is a text or counts as absent.
-/
theorem readPage_document_iff {heap after : Heap} {value : Value} {site : SitePage}
    (closed : heap.Closed) (has : heap.Has value)
    (accepted : readPage heap value = .ok (site, after)) :
    site.page.id ≠ "" ∧ site.page.slug.isSome ∧ site.page.title.isSome ∧
      (∀ component ∈ site.components, component.id ≠ "" ∧
        ∃ entries, after.dict? component.props = some entries) ∧
      site.page.description = described heap (heap.entries value) ∧
      ∀ body styles base (around : Page.Surroundings), around.baseUrl = .str base →
        ((∃ text, site.page.document after body styles around = .ok text) ↔
          heap.isTruthy (described heap (heap.entries value)) = false ∨
            ∃ s, described heap (heap.entries value) = .str s) := by
  obtain ⟨named, sound⟩ := readPage_sound accepted
  obtain ⟨-, whole⟩ := (checked_readPage closed (.refl heap) has).of_ok accepted
  have read : site = (pageOf heap heap value).1 := congrArg Prod.fst whole
  have last : after = (pageOf heap heap value).2 := congrArg Prod.snd whole
  have grows : heap.Grows after := last ▸ grows_contentOutline heap heap (heap.entries value)
  have isDescribed : site.page.description = described heap (heap.entries value) := by
    rw [read, described, ← rootProps_eq heap heap]
    rfl
  have inHeap : heap.Has (described heap (heap.entries value)) := has_fieldOf closed value _ _
  refine ⟨named, by rw [read]; rfl, by rw [read]; rfl, sound, isDescribed, ?_⟩
  intro body styles base around isText
  rw [Page.document_ok_iff isText, isDescribed, grows.isTruthy inHeap]

/-- A page in the form of an editor: one component without props, and a root with a description. -/
def describedPage (description : Value) : Heap :=
  { objects := #[
      .dict [(.str "id", .str "p"), (.str "content", .ref 1)],
      .dict [(.str "components", .ref 2), (.str "root", .ref 4)], .list [.ref 3],
      .dict [(.str "id", .int 7), (.str "type", .str "Text")], .dict [(.str "props", .ref 5)],
      .dict [(.str "description", description)]] }

theorem readPage_document_iff_described :
    ∃ site after, readPage (describedPage (.str "d")) (.ref 0) = .ok (site, after) ∧
      (∀ component ∈ site.components, ∃ entries, after.dict? component.props = some entries) ∧
      ∃ text, site.page.document after "" "" {} = .ok text := by
  have closed : (describedPage (.str "d")).Closed := by decide +kernel
  have has : (describedPage (.str "d")).Has (.ref 0) := by decide +kernel
  have accepted := checked_readPage closed (.refl _) has
  rw [show pageDefects (describedPage (.str "d")) (.ref 0) = [] by decide +kernel] at accepted
  obtain ⟨-, -, -, sound, -, document⟩ := readPage_document_iff closed has accepted
  refine ⟨_, _, accepted, fun component member => (sound component member).2, ?_⟩
  exact (document "" "" "" {} rfl).mpr (.inr ⟨"d", rfl⟩)

/-- A number stays a number as a description, and the document of its page fails. -/
theorem readPage_numberedDescription :
    ∃ site after, readPage ⟨#[.dict [(.str "id", .str "p"), (.str "description", .int 5)]]⟩ (.ref 0) =
        .ok (site, after) ∧ site.page.description = .int 5 ∧
      site.page.document after "" "" {} = .error (.missingOperation .int "replace") :=
  ⟨_, _, rfl, rfl, rfl⟩

end Site

end StaticSite
