import StaticSite.Proofs.EmbeddedAssets
import StaticSite.Proofs.FailFast
import StaticSite.Proofs.Independence
import StaticSite.Proofs.Traversal

/-!
# Components in another order

The order of a page's components decides which use of an address is met first, and so the type of
its asset and the place of its record. None of this gets into the document: an address is replaced
by what the address alone leads to, and a component is found by its id.
-/

namespace StaticSite

/-! ## Addresses -/

namespace Asset

/-- The declared kind tells the type of an asset, but not its media type. -/
theorem mimeType_classify (url : String) (kind other : Option String) :
    (classify url kind).2 = (classify url other).2 := by
  unfold classify
  dsimp only
  split
  · rfl
  · split
    · rfl
    · cases kind <;> cases other <;> rfl

/-- The address of a file: its data if it is small and small files are embedded. -/
def embeddedUrl (options : AssetOptions) (url : String) (bytes? : Option Bytes) : String :=
  match bytes?.filter fun bytes =>
      options.inlineSmallAssets && decide ((bytes.length : Int) < options.inlineThreshold) with
  | some bytes => dataUriOf (classify url none).2 bytes
  | none => url

theorem dataUriOf_ne_empty (mimeType : String) (bytes : Bytes) : dataUriOf mimeType bytes ≠ "" := by
  intro empty
  have first : (dataUriOf mimeType bytes).toList.head? = some 'd' := by
    simp [dataUriOf, String.toList_append]
  rw [empty] at first
  cases first

/-- The address that is used for an asset is told by its own address and the bytes of its file. -/
theorem target_embedOne {options : AssetOptions} {payloads : Payloads} {use : Use}
    {users : List String} {file : Local} {result : Asset}
    (payload : Ordered.get? payloads (recordOf use users).id = file.bytes?)
    (done : optimizeOne options ((recordOf use users).measured file) = .ok result) :
    Relink.target (embedOne payloads result) = embeddedUrl options use.url file.bytes? := by
  have measured : (recordOf use users).measured file =
      { recordOf use users with size := file.bytes?.map fun bytes => (bytes.length : Int) } := by
    cases file <;> rfl
  rw [measured] at done
  obtain ⟨alternateFormats, rfl⟩ := optimizeOne_eq rfl done
  rw [embedOne_of_no_dataUri payloads rfl, payload, embeddedUrl,
    mimeType_classify use.url none use.kind]
  cases file.bytes? with
  | none => cases options.inlineSmallAssets <;> simp [Relink.target, isSmall, recordOf]
  | some bytes =>
    by_cases small : (options.inlineSmallAssets &&
        decide ((bytes.length : Int) < options.inlineThreshold)) = true
    · simp [Relink.target, isSmall, recordOf, Option.filter, small, dataUriOf_ne_empty]
    · simp [Relink.target, isSmall, recordOf, Option.filter, small]

theorem Tabulates.nodup_urls {uses : List Use} {assets : List Asset}
    (tabulates : Tabulates uses assets) : (assets.map (·.url)).Nodup := by
  refine List.Nodup.of_map idOf ?_
  have ids : (assets.map (·.url)).map idOf = assets.map (·.id) := by
    rw [List.map_map]
    refine List.map_congr_left fun asset member => ?_
    obtain ⟨first, -, users, rfl⟩ := tabulates.exists_first member
    rfl
  rw [ids]
  exact tabulates.nodup

theorem foundUses_perm (heap : Heap) (catalog : Option Catalog) {components others : List Component}
    (perm : components.Perm others) :
    (foundUses heap catalog (components.map .component)).Perm
      (foundUses heap catalog (others.map .component)) :=
  ((perm.map Entry.component).filterMap _).flatMap_right _

end Asset

/-! ## Rendering -/

namespace Rendering

variable {heap : Heap} {components others : Ordered Component} {registry : Registry}
  {options : Options}

theorem level_congr (same : Ordered.get? components = Ordered.get? others) :
    level ⟨heap, components, registry, options⟩ = level ⟨heap, others, registry, options⟩ := by
  funext enter id state
  unfold level
  dsimp only
  rw [same]
  rfl

/-- A pass depends on what it finds by an id only. -/
theorem renderId_congr (same : Ordered.get? components = Ordered.get? others) :
    renderId ⟨heap, components, registry, options⟩ =
      renderId ⟨heap, others, registry, options⟩ := by
  let deepest (id : String) : Step String := fun state => (.error (.cyclicContainment id), state)
  have enough : components.length < components.length + others.length + 1 := by omega
  have enough' : others.length < components.length + others.length + 1 := by omega
  calc renderId ⟨heap, components, registry, options⟩
    _ = (level ⟨heap, components, registry, options⟩)^[components.length + others.length + 1]
        deepest := (iterate_level_eq_renderId _ enough _).symm
    _ = (level ⟨heap, others, registry, options⟩)^[components.length + others.length + 1]
        deepest := by rw [level_congr same]
    _ = renderId ⟨heap, others, registry, options⟩ := iterate_level_eq_renderId _ enough' _

theorem renderIds_congr (same : Ordered.get? components = Ordered.get? others) :
    renderIds ⟨heap, components, registry, options⟩ =
      renderIds ⟨heap, others, registry, options⟩ := by
  funext roots
  rw [renderIds, renderIds, renderId_congr same]

end Rendering

namespace Build

namespace Setting

section

variable {setting : Setting} {draft : Draft} {styled : Styled}

/-- The addresses that the components of a page refer to. -/
def references (setting : Setting) (entries : List Entry) : List String :=
  (Asset.foundUses setting.heap (some setting.catalog) entries).map (·.url)

/-- Whether no two addresses that the components of a page refer to have one id. -/
def IdsTellApart (setting : Setting) (entries : List Entry) : Prop :=
  ∀ url ∈ setting.references entries, ∀ other ∈ setting.references entries,
    Asset.idOf url = Asset.idOf other → url = other

/-- The address that a page uses in place of another one. -/
def addressOf (setting : Setting) (url : String) : Except Fault String := do
  let file ← setting.fileOf url
  return if setting.options.optimizeAssets && setting.options.isProduction then
    Asset.embeddedUrl setting.options.assets url file.bytes?
  else url

theorem addressOf_url (done : setting.style draft = .ok styled) {asset : Asset}
    (member : asset ∈ styled.assets) :
    setting.addressOf asset.url = .ok (Relink.target asset) := by
  obtain ⟨loaded, isLoaded, optimized, -⟩ := style_ok done
  unfold addressOf
  by_cases optimizes : (setting.options.optimizeAssets && setting.options.isProduction) = true
  · obtain ⟨use, users, file, result, rfl, read, payload, one⟩ :=
      exists_embedOne_of_optimize isLoaded optimizes optimized member
    rw [(Asset.hasFile_embedOne payload one).2, read, Asset.target_embedOne payload one]
    simp only [optimizes, if_true]
    rfl
  · have leaves : setting.optimize loaded = .ok loaded.assets := if_neg optimizes
    rw [leaves] at optimized
    rw [← Except.ok.inj optimized] at member
    obtain ⟨use, users, file, rfl, read, -⟩ := exists_record_of_load isLoaded member
    have kept : ((Asset.recordOf use users).measured file).url = use.url := by cases file <;> rfl
    have linked : Relink.target ((Asset.recordOf use users).measured file) = use.url := by
      cases file <;> rfl
    rw [kept, linked, read]
    simp only [optimizes]
    rfl

theorem map_url_assets (done : setting.style draft = .ok styled) :
    styled.assets.map (·.url) = (setting.found draft).map (·.url) := by
  obtain ⟨loaded, isLoaded, optimized, -⟩ := style_ok done
  have measured : loaded.assets.map (·.url) = (setting.found draft).map (·.url) := by
    obtain ⟨pairs, assets, rfl, -⟩ := exists_pairs_of_load isLoaded
    rw [← assets, Asset.Loaded.ofPairs, List.map_map, List.map_map]
    refine List.map_congr_left fun pair _ => ?_
    obtain ⟨asset, file⟩ := pair
    cases file <;> rfl
  unfold optimize at optimized
  split at optimized
  · obtain ⟨results, isOptimized, embedded⟩ := exists_of_bind_eq_ok optimized
    have kept : List.Forall₂ (fun (asset : Asset) result =>
        (Asset.embedOne loaded.payloads result).url = asset.url) loaded.assets results := by
      refine (forall₂_of_mapM_eq_ok isOptimized).imp fun asset result both => ?_
      obtain ⟨isMeasured, one⟩ := both
      obtain ⟨use, users, file, rfl, -, payload⟩ := exists_record_of_load isLoaded isMeasured
      rw [(Asset.hasFile_embedOne payload one).2]
      cases file <;> rfl
    have urls : loaded.assets.map (·.url) = styled.assets.map (·.url) := by
      rw [← Except.ok.inj embedded, Asset.embed, List.map_map, ← List.forall₂_eq_eq_eq,
        List.forall₂_map_left_iff, List.forall₂_map_right_iff]
      exact kept.imp fun _ _ same => same.symm
    rw [← urls, measured]
  · rw [← Except.ok.inj optimized, measured]

theorem nodup_urls (done : setting.style draft = .ok styled) :
    ((styled.assets.map fun asset => (asset.url, Relink.target asset)).map (·.1)).Nodup := by
  have urls : (styled.assets.map fun asset => (asset.url, Relink.target asset)).map (·.1) =
      styled.assets.map (·.url) := List.map_map ..
  rw [urls, map_url_assets done]
  exact (Asset.tabulates_extract ..).nodup_urls

/-- What addresses are replaced by is told by the addresses that the components refer to. -/
theorem mem_urlPairs_iff (done : setting.style draft = .ok styled)
    (apart : setting.IdsTellApart draft.entries) (pair : String × String) :
    pair ∈ styled.assets.map (fun asset => (asset.url, Relink.target asset)) ↔
      pair.1 ∈ setting.references draft.entries ∧ setting.addressOf pair.1 = .ok pair.2 := by
  have tabulates := Asset.tabulates_extract setting.heap (some setting.catalog) draft.entries
  have urls : styled.assets.map (·.url) = (setting.references draft.entries).eraseDups := by
    rw [map_url_assets done]
    refine (tabulates.urls_eq fun use member other member' => ?_).1
    exact apart _ (List.mem_map_of_mem member) _ (List.mem_map_of_mem member')
  rw [← List.mem_eraseDups (l := setting.references draft.entries), ← urls]
  constructor
  · intro member
    obtain ⟨asset, isAsset, rfl⟩ := List.mem_map.mp member
    exact ⟨List.mem_map_of_mem isAsset, addressOf_url done isAsset⟩
  · rintro ⟨known, address⟩
    obtain ⟨asset, isAsset, same⟩ := List.mem_map.mp known
    obtain ⟨url, target⟩ := pair
    obtain rfl : asset.url = url := same
    obtain rfl : Relink.target asset = target :=
      Except.ok.inj ((addressOf_url done isAsset).symm.trans address)
    exact List.mem_map_of_mem isAsset

end

section

variable {setting : Setting} {page : Page} {components others : List Component}
  {styled styled' : Styled}

theorem references_perm (perm : components.Perm others) :
    (setting.references (components.map .component)).Perm
      (setting.references (others.map .component)) :=
  (Asset.foundUses_perm _ _ perm).map _

/-- Components in another order have their addresses replaced by the same ones. -/
theorem get?_urlMap_perm (perm : components.Perm others)
    (apart : setting.IdsTellApart (components.map .component))
    (done : setting.style ⟨page, components.map .component⟩ = .ok styled)
    (done' : setting.style ⟨page, others.map .component⟩ = .ok styled') :
    Ordered.get? (Relink.urlMap styled.assets) = Ordered.get? (Relink.urlMap styled'.assets) := by
  have sameUrls (url : String) : url ∈ setting.references (components.map .component) ↔
      url ∈ setting.references (others.map .component) := (references_perm perm).mem_iff
  have apart' : setting.IdsTellApart (others.map .component) := fun url member other member' =>
    apart url ((sameUrls url).mpr member) other ((sameUrls other).mpr member')
  refine Ordered.get?_ofList_congr (nodup_urls done) (nodup_urls done') fun pair => ?_
  rw [mem_urlPairs_iff done apart, mem_urlPairs_iff done' apart']
  exact and_congr_left' (sameUrls pair.1)

/-- The first stage leaves the same heap, and components that are found by the same ids. -/
theorem style_perm (perm : components.Perm others) (distinct : (components.map (·.id)).Nodup)
    (unshared : components.Pairwise (Component.Apart setting.heap))
    (apart : setting.IdsTellApart (components.map .component))
    (done : setting.style ⟨page, components.map .component⟩ = .ok styled)
    (done' : setting.style ⟨page, others.map .component⟩ = .ok styled') :
    styled.heap = styled'.heap ∧
      Ordered.get? (Setting.components styled.entries) =
        Ordered.get? (Setting.components styled'.entries) := by
  obtain ⟨-, -, -, relinked, -⟩ := style_ok done
  obtain ⟨-, -, -, relinked', -⟩ := style_ok done'
  obtain ⟨after, one, other⟩ := Relink.relink_perm (some setting.catalog) perm unshared
    (get?_urlMap_perm perm apart done done')
  obtain ⟨heap, entries⟩ := Prod.mk.inj (Except.ok.inj (one.symm.trans relinked))
  obtain ⟨heap', entries'⟩ := Prod.mk.inj (Except.ok.inj (other.symm.trans relinked'))
  refine ⟨heap.symm.trans heap', ?_⟩
  have ids : (((components.map (Relink.copyOf setting.heap)).map fun component =>
      (component.id, component)).map (·.1)) = components.map (·.id) := by
    rw [List.map_map, List.map_map]
    rfl
  have pairs := (perm.map (Relink.copyOf setting.heap)).map fun component =>
    (component.id, component)
  rw [← entries, ← entries', Setting.components, Setting.components,
    Entry.filterMap_component?_map, Entry.filterMap_component?_map]
  have nodup := ids ▸ distinct
  exact Ordered.get?_ofList_congr nodup ((pairs.map _).nodup nodup) fun pair => pairs.mem_iff

end

end Setting

/-- The text of a page's document among the files of a build. -/
def Result.document? (result : Result) (page : Page) : Option String :=
  (result.files.find? fun file => file.path = documentPath page).map (·.content)

section

variable {setting : Setting} {page : Page} {components others : List Component}

theorem document?_of_finish {styled : Styled} {body : String} {rendered : Nat} {result : Result}
    (finished : setting.finish page styled body rendered = .ok result) :
    ∃ document, setting.document page styled body = .ok document ∧
      result.document? page = some (setting.reduced Markup.minify document) ∧
      result.stats.components = rendered := by
  obtain ⟨document, written, finished⟩ := exists_of_bind_eq_ok finished
  obtain ⟨manifest, -, finished⟩ := exists_of_bind_eq_ok finished
  obtain ⟨stats, isStats, finished⟩ := exists_of_bind_eq_ok finished
  obtain ⟨percent, -, counted⟩ := exists_of_bind_eq_ok (leaving_eq_ok.mp isStats)
  cases finished
  cases counted
  refine ⟨document, leaving_eq_ok.mp written, ?_, rfl⟩
  have other : (setting.sheetFile page styled).path ≠ documentPath page := by
    intro same
    have names : page.pathSegment ++ ("/" ++ Page.stylesheetName) =
        page.pathSegment ++ "/index.html" := String.append_assoc.symm.trans same
    exact absurd ((String.append_right_inj _).mp names) (by decide)
  have here : (setting.documentFile page document).path = documentPath page := rfl
  simp only [Result.document?, List.find?, decide_eq_false other, here, decide_true]
  rfl

/--
The order of a page's components changes nothing in its document, if they have ids of their own,
share no container, and the document carries no rules. Both orders render as many components.
-/
theorem buildPage_perm (perm : components.Perm others)
    (linked : setting.options.inlineCriticalCss = false)
    (distinct : (components.map (·.id)).Nodup)
    (unshared : components.Pairwise (Component.Apart setting.heap))
    (apart : setting.IdsTellApart (components.map .component))
    (succeeded : (buildPage setting ⟨page, components.map .component⟩).1.failure = none)
    (succeeded' : (buildPage setting ⟨page, others.map .component⟩).1.failure = none) :
    ∃ document,
      (buildPage setting ⟨page, components.map .component⟩).1.document? page = some document ∧
      (buildPage setting ⟨page, others.map .component⟩).1.document? page = some document ∧
      (buildPage setting ⟨page, components.map .component⟩).1.stats.components =
        (buildPage setting ⟨page, others.map .component⟩).1.stats.components := by
  obtain ⟨styled, body, state, done, rendered, finished⟩ :=
    buildPage_ok (Prod.eta _).symm succeeded
  obtain ⟨styled', body', state', done', rendered', finished'⟩ :=
    buildPage_ok (Prod.eta _).symm succeeded'
  obtain ⟨sameHeap, sameComponents⟩ :=
    Setting.style_perm perm distinct unshared apart done done'
  have pass := Setting.render_ok rendered
  rw [sameHeap, Rendering.renderIds_congr sameComponents, Setting.render_ok rendered'] at pass
  obtain ⟨sameBody, sameState⟩ := Prod.mk.inj pass
  obtain ⟨document, written, found, counted⟩ := document?_of_finish finished
  obtain ⟨document', written', found', counted'⟩ := document?_of_finish finished'
  have noRules (styled : Styled) : setting.criticalSheet styled = "" := by
    rw [Setting.criticalSheet, linked]
    rfl
  rw [Setting.document, noRules] at written written'
  rw [Except.ok.inj sameBody] at written'
  obtain rfl : document = document' := Except.ok.inj (written.symm.trans written')
  exact ⟨_, found, found', by rw [counted, counted', sameState]⟩

end

/-! ## A card and a note with one address -/

/-- The props of a card and of a note, with the same address. -/
def pairedHeap : Heap :=
  ⟨#[.dict [(.str "photo", .str "/logo")], .dict [(.str "link", .str "/logo")]]⟩

/-- A renderer that shows the text under a key. -/
def showing (key : String) : Renderer where
  name := key
  render _ entries _ _ := .ok (.element "q" [] [.text ((entries.get key).str?.getD "")])

/-- A build for which the address is that of a picture in a card, and of no picture in a note. -/
def pairedSetting : Setting :=
  { heap := pairedHeap
    catalog := ⟨[("Card", [("photo", "image")]), ("Note", [("link", "link")])]⟩
    registry := [("Card", showing "photo"), ("Note", showing "link")]
    tree := Tree.ofList ["project"] [(["project", "images", "logo"], .file [1, 2, 3])]
    assetRoot := some (Path.ofText "images"), now := .ofEpoch 0
    options := { inlineCriticalCss := false } }

def pairedPage : Page := { id := "home", slug := none, title := none, roots := ["card", "note"] }

def card (props : Value) : Component := ⟨"card", "Card", props, []⟩

def note (props : Value) : Component := ⟨"note", "Note", props, []⟩

/-- Both components, in either order. -/
def paired (swapped : Bool) (first second : Value) : List Component :=
  if swapped then [note second, card first] else [card first, note second]

/-- The heap with the copies, where the address is replaced by the data of the file. -/
def pairedCopies : Heap :=
  let data := "data:application/octet-stream;base64,AQID"
  ⟨#[.dict [(.str "photo", .str "/logo")], .dict [(.str "link", .str "/logo")],
    .dict [(.str "photo", .str data)], .dict [(.str "link", .str data)]]⟩

/-- The record of the address; its type is told by the component that comes first. -/
def pairedAsset (swapped : Bool) : Asset :=
  { id := Asset.idOf "/logo", url := "/logo", optimizedUrl := "/logo"
    type := if swapped then "other" else "image", mimeType := "application/octet-stream"
    size := some 3, inlined := true
    dataUri := some "data:application/octet-stream;base64,AQID"
    usedBy := if swapped then ["note", "card"] else ["card", "note"] }

theorem pageSheet_paired (swapped : Bool) :
    Style.pageSheet pairedCopies {} ((paired swapped (.ref 2) (.ref 3)).map .component) =
      .ok (Style.wholeSheet ["", ""]) := by
  have rules (component : Component) (isPaired : component = card (.ref 2) ∨
      component = note (.ref 3)) : Style.componentRules pairedCopies {} component = .ok [] := by
    unfold Style.componentRules Style.breakpointRules
    rw [Style.sortedBreakpoints_default]
    rcases isPaired with rfl | rfl <;> cbv
  have text (component : Component) (isPaired : component = card (.ref 2) ∨
      component = note (.ref 3)) :
      Style.entryText pairedCopies {} (.component component) = .ok "" := by
    rw [Style.entryText, Style.componentText_eq (rules component isPaired)]
    rfl
  have traversed : ((paired swapped (.ref 2) (.ref 3)).map Entry.component).mapM
      (Style.entryText pairedCopies {}) = .ok ["", ""] := by
    cases swapped <;>
      simp [paired, List.mapM_cons, text (card (.ref 2)) (.inl rfl),
        text (note (.ref 3)) (.inr rfl), bind, Except.bind, pure, Except.pure]
  exact Style.pageSheet_unreduced traversed

/-- What the first stage leaves of the page. -/
def pairedStyled (swapped : Bool) : Styled :=
  { heap := pairedCopies, entries := (paired swapped (.ref 2) (.ref 3)).map .component
    assets := [pairedAsset swapped], rawSheet := Style.wholeSheet ["", ""]
    sheet := pairedSetting.reduced Style.minify (Style.wholeSheet ["", ""]) }

theorem style_paired (swapped : Bool) :
    pairedSetting.style ⟨pairedPage, (paired swapped (.ref 0) (.ref 1)).map .component⟩ =
      .ok (pairedStyled swapped) := by
  have loaded : pairedSetting.load (pairedSetting.found
      ⟨pairedPage, (paired swapped (.ref 0) (.ref 1)).map .component⟩) =
      .ok ⟨[{ pairedAsset swapped with inlined := false, dataUri := none }],
        [(Asset.idOf "/logo", [1, 2, 3])]⟩ := by
    cases swapped <;> decide +kernel
  have optimized : pairedSetting.optimize
      ⟨[{ pairedAsset swapped with inlined := false, dataUri := none }],
        [(Asset.idOf "/logo", [1, 2, 3])]⟩ = .ok [pairedAsset swapped] := by
    cases swapped <;> decide +kernel
  have copied : pairedHeap.withCopy =
      ⟨#[.dict [(.str "photo", .str "/logo")], .dict [(.str "link", .str "/logo")],
        .dict [(.str "photo", .str "/logo")], .dict [(.str "link", .str "/logo")]]⟩ := by
    simp [Heap.withCopy, pairedHeap, Container.shift, Value.shift]
  have relinked : Relink.relink pairedHeap (some pairedSetting.catalog) [pairedAsset swapped]
      ((paired swapped (.ref 0) (.ref 1)).map .component) =
      .ok (pairedCopies, (paired swapped (.ref 2) (.ref 3)).map .component) := by
    unfold Relink.relink
    rw [copied]
    cases swapped <;> rfl
  exact Setting.style_eq loaded optimized relinked (pageSheet_paired swapped)

theorem failure_paired (swapped : Bool) :
    (buildPage pairedSetting ⟨pairedPage,
      (paired swapped (.ref 0) (.ref 1)).map .component⟩).1.failure = none := by
  obtain ⟨body, isBody⟩ : ∃ body,
      (pairedSetting.render pairedPage (pairedStyled swapped)).1 = .ok body := by
    cases swapped <;> exact ⟨_, rfl⟩
  exact failure_buildPage_of_written (DateTime.isUniversal_ofEpoch 0) (style_paired swapped) isBody
    rfl

/-- Neither component reaches more than its own props. -/
theorem apart_paired : (card (.ref 0)).Apart pairedHeap (note (.ref 1)) := by
  have alone (first id : Nat) (reaches : pairedHeap.Reaches (.ref first) id) : id = first := by
    obtain ⟨root, isRoot, leads⟩ := reaches
    obtain rfl : root = first := List.mem_singleton.mp isRoot
    rcases leads.cases_head with same | ⟨inner, ⟨container, found, refers⟩, -⟩
    · exact same.symm
    · have flat : ∀ container ∈ pairedHeap.objects.toList, container.refs = [] := by decide
      rw [flat container (Array.mem_toList_iff.mpr (Array.mem_of_getElem? found))] at refers
      cases refers
  intro id reaches reaches'
  exact absurd ((alone 0 id reaches).symm.trans (alone 1 id reaches')) (by decide)

theorem buildPage_perm_paired :
    (paired false (.ref 0) (.ref 1)).Perm (paired true (.ref 0) (.ref 1)) ∧
      pairedSetting.options.inlineCriticalCss = false ∧
      ((paired false (.ref 0) (.ref 1)).map (·.id)).Nodup ∧
      (paired false (.ref 0) (.ref 1)).Pairwise (Component.Apart pairedSetting.heap) ∧
      pairedSetting.IdsTellApart ((paired false (.ref 0) (.ref 1)).map .component) ∧
      (∀ swapped, (buildPage pairedSetting ⟨pairedPage,
        (paired swapped (.ref 0) (.ref 1)).map .component⟩).1.failure = none) ∧
      ∃ document, ∀ swapped, (buildPage pairedSetting ⟨pairedPage,
        (paired swapped (.ref 0) (.ref 1)).map .component⟩).1.document? pairedPage =
          some document := by
  have perm : (paired false (.ref 0) (.ref 1)).Perm (paired true (.ref 0) (.ref 1)) :=
    List.Perm.swap ..
  have distinct : ((paired false (.ref 0) (.ref 1)).map (·.id)).Nodup := by decide
  have unshared : (paired false (.ref 0) (.ref 1)).Pairwise
      (Component.Apart pairedSetting.heap) :=
    List.pairwise_pair.mpr apart_paired
  have apart : pairedSetting.IdsTellApart ((paired false (.ref 0) (.ref 1)).map .component) := by
    have urls : pairedSetting.references ((paired false (.ref 0) (.ref 1)).map .component) =
        ["/logo", "/logo"] := by
      decide +kernel
    intro url member other member' _
    rw [urls] at member member'
    simp only [List.mem_cons, List.not_mem_nil, or_false, or_self] at member member'
    rw [member, member']
  obtain ⟨document, found, found', -⟩ := buildPage_perm perm rfl distinct unshared apart
    (failure_paired false) (failure_paired true)
  refine ⟨perm, rfl, distinct, unshared, apart, failure_paired, document, fun swapped => ?_⟩
  cases swapped with
  | false => exact found
  | true => exact found'

end Build

end StaticSite
