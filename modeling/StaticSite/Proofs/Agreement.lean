import Mathlib.Data.List.Nodup
import StaticSite.Proofs.Outcome
import StaticSite.Proofs.Sharing

/-!
# Extraction and relinking agree

In components that share nothing, every string that extraction accepts is replaced by the address of
its asset, and where a type has a schema no other string is replaced.
-/

namespace StaticSite

namespace Ordered

variable {α : Type} {map : Ordered α} {pairs : List (String × α)} {name : String}

theorem get?_putAll_of_notMem (absent : name ∉ pairs.map (·.1)) :
    get? (putAll map pairs) name = get? map name := by
  unfold putAll
  induction pairs generalizing map with
  | nil => rfl
  | cons pair pairs ih =>
    simp only [List.map_cons, List.mem_cons, not_or] at absent
    rw [List.foldl_cons, ih absent.2, get?_put_of_ne map pair.2 (Ne.symm absent.1)]

theorem get?_putAll_of_mem (nodup : (pairs.map (·.1)).Nodup) {value : α}
    (member : (name, value) ∈ pairs) : get? (putAll map pairs) name = some value := by
  induction pairs generalizing map with
  | nil => cases member
  | cons pair pairs ih =>
    obtain ⟨new, nodup⟩ := List.nodup_cons.mp nodup
    rw [putAll, List.foldl_cons]
    rcases List.mem_cons.mp member with rfl | later
    · exact (get?_putAll_of_notMem new).trans (get?_put_self map name value)
    · exact ih nodup later

end Ordered

namespace Asset

/-! ## References -/

/-- Whether a string can be an address of an asset at all. -/
def isCandidate (s : String) : Bool :=
  !((Text.trim s.toList).isEmpty ||
    startsWithAny excludedStarts ((Text.trim s.toList).map Text.lower))

section

variable {fields : Option Fields} {key : Option String} {s : String}

theorem isCandidate_of_isReference (isRef : isReference key s fields = true) :
    isCandidate s = true := by
  unfold isReference at isRef
  dsimp only at isRef
  split at isRef
  · cases isRef
  next candidate => simpa [isCandidate] using candidate

theorem accepts_of_isReference (isRef : isReference key s fields = true) :
    Relink.Context.accepts ⟨key, fields⟩ = true := by
  unfold isReference at isRef
  dsimp only at isRef
  split at isRef
  · cases isRef
  · cases fields with
    | none => rfl
    | some fields => cases key with
      | none => cases isRef
      | some key => exact isRef

/-- With a schema, a string is a reference if its key is declared and it can be an address. -/
theorem isReference_of_accepts {declared : Fields} (candidate : isCandidate s = true)
    (isDeclared : Relink.Context.accepts ⟨key, some declared⟩ = true) :
    isReference key s (some declared) = true := by
  unfold isReference
  dsimp only
  split
  next unfit => simp [isCandidate, unfit] at candidate
  · cases key with
    | none => cases isDeclared
    | some key => exact isDeclared

end

/-! ## Records of all references -/

theorem ids_record (assets : List Asset) (url componentId : String) (kind : Option String) :
    (record assets url componentId kind).map (·.id) =
      if idOf url ∈ assets.map (·.id) then assets.map (·.id)
      else assets.map (·.id) ++ [idOf url] := by
  induction assets with
  | nil => rfl
  | cons asset rest ih =>
    unfold record
    by_cases same : asset.id = idOf url
    · rw [if_pos same, if_pos (by simp [same])]
      unfold addUser
      split <;> rfl
    · rw [if_neg same]
      simp only [List.map_cons, ih]
      by_cases known : idOf url ∈ rest.map (·.id)
      · rw [if_pos known, if_pos (List.mem_cons_of_mem _ known)]
      · have new : idOf url ∉ asset.id :: rest.map (·.id) := by
          rw [List.mem_cons, not_or]
          exact ⟨Ne.symm same, known⟩
        rw [if_neg known, if_neg new, List.cons_append]

theorem mem_record {assets : List Asset} {url componentId : String} {kind : Option String}
    {asset : Asset} (member : asset ∈ record assets url componentId kind) :
    (∃ old ∈ assets, asset.id = old.id ∧ asset.url = old.url) ∨
      asset = found url componentId kind := by
  induction assets with
  | nil => exact .inr (List.mem_singleton.mp member)
  | cons first rest ih =>
    unfold record at member
    split at member
    · rcases List.mem_cons.mp member with rfl | later
      · refine .inl ⟨first, List.mem_cons_self .., ?_⟩
        unfold addUser
        split <;> exact ⟨rfl, rfl⟩
      · exact .inl ⟨asset, List.mem_cons_of_mem _ later, rfl, rfl⟩
    · rcases List.mem_cons.mp member with rfl | later
      · exact .inl ⟨asset, List.mem_cons_self .., rfl, rfl⟩
      · rcases ih later with ⟨old, inRest, same⟩ | isFound
        · exact .inl ⟨old, List.mem_cons_of_mem _ inRest, same⟩
        · exact .inr isFound

/-- Every asset is known by the hash of its URL, which has been referred to. -/
structure Sound (referenced : String → Prop) (assets : List Asset) : Prop where
  nodup : (assets.map (·.id)).Nodup
  ids : ∀ asset ∈ assets, asset.id = idOf asset.url
  urls : ∀ asset ∈ assets, referenced asset.url

section

variable {referenced : String → Prop} {assets : List Asset} {catalog : Option Catalog}

theorem Sound.record {url : String} (sound : Sound referenced assets)
    (isReferenced : referenced url) (componentId : String) (kind : Option String) :
    Sound referenced (record assets url componentId kind) := by
  refine ⟨?_, fun asset member => ?_, fun asset member => ?_⟩
  · rw [ids_record]
    split
    · exact sound.nodup
    next new =>
      rw [← List.concat_eq_append]
      exact List.Nodup.concat new sound.nodup
  · rcases mem_record member with ⟨old, inAssets, sameId, sameUrl⟩ | rfl
    · rw [sameId, sameUrl, sound.ids old inAssets]
    · rfl
  · rcases mem_record member with ⟨old, inAssets, -, sameUrl⟩ | rfl
    · rw [sameUrl]
      exact sound.urls old inAssets
    · exact isReferenced

theorem Sound.recordStrings {componentId type : String} {strings : List Value.Occurrence}
    (sound : Sound referenced assets)
    (covered : ∀ url ∈ urlsOf (Catalog.urlFields? catalog type) strings, referenced url) :
    Sound referenced (recordStrings catalog componentId type assets strings) := by
  unfold urlsOf at covered
  unfold Asset.recordStrings
  generalize strings.filter _ = references at covered
  induction references generalizing assets with
  | nil => exact sound
  | cons reference references ih =>
    simp only [List.map_cons, List.forall_mem_cons] at covered
    exact ih (sound.record covered.1 componentId _) covered.2

/-- Whether some component refers to a URL. -/
def IsReferenced (catalog : Option Catalog) (components : List PlainComponent)
    (url : String) : Prop :=
  ∃ component ∈ components,
    url ∈ urlsOf (Catalog.urlFields? catalog component.type) (component.members.strings none)

theorem sound_extractPlain (catalog : Option Catalog) (components : List PlainComponent) :
    Sound (IsReferenced catalog components) (extractPlain catalog components) := by
  have run : ∀ (rest : List PlainComponent) (assets : List Asset),
      (∀ component ∈ rest, component ∈ components) →
      Sound (IsReferenced catalog components) assets →
      Sound (IsReferenced catalog components) (rest.foldl (fun assets component =>
        recordStrings catalog component.id component.type assets
          (component.members.strings none)) assets) := by
    intro rest
    induction rest with
    | nil => exact fun _ _ sound => sound
    | cons component rest ih =>
      intro assets within sound
      simp only [List.forall_mem_cons] at within
      exact ih _ within.2 (sound.recordStrings fun url member => ⟨component, within.1, member⟩)
  exact run components [] (fun _ member => member) ⟨List.nodup_nil, by simp, by simp⟩

theorem exists_of_mem_usersOf {id user : String} (known : user ∈ usersOf assets id) :
    ∃ asset ∈ assets, asset.id = id ∧ user ∈ asset.usedBy := by
  induction assets with
  | nil => cases known
  | cons asset rest ih =>
    unfold usersOf at known
    split at known
    next same => exact ⟨asset, List.mem_cons_self .., same, known⟩
    next =>
      obtain ⟨other, inRest, isOther⟩ := ih known
      exact ⟨other, List.mem_cons_of_mem _ inRest, isOther⟩

/-- Every reference of a component is recorded with the component as a user. -/
theorem exists_extractPlain {components : List PlainComponent} {component : PlainComponent}
    (member : component ∈ components) {url : String}
    (isRef : url ∈ urlsOf (Catalog.urlFields? catalog component.type)
      (component.members.strings none)) :
    ∃ asset ∈ extractPlain catalog components, asset.id = idOf url ∧
      component.id ∈ asset.usedBy := by
  refine exists_of_mem_usersOf ?_
  exact (mem_usersOf_foldl catalog PlainComponent.id PlainComponent.type
    (fun component => component.members.strings none) components []).mpr
    (.inr ⟨component, member, List.mem_map_of_mem isRef, rfl⟩)

end

/-! ## Changed assets -/

/-- Whether only the optimized address, the embedding and its data have been changed. -/
def Retouched (before after : Asset) : Prop :=
  ∃ optimizedUrl inlined dataUri, after = { before with optimizedUrl, inlined, dataUri }

section

variable {extracted assets : List Asset}

theorem Retouched.map_url (retouched : List.Forall₂ Retouched extracted assets) :
    assets.map (·.url) = extracted.map (·.url) := by
  induction retouched with
  | nil => rfl
  | cons first rest ih =>
    obtain ⟨optimizedUrl, inlined, dataUri, rfl⟩ := first
    simp only [List.map_cons, ih]

end

end Asset

/-! ## Components -/

namespace Relink

open Asset (IsReferenced Sound)

theorem get?_urlMap_of_mem {assets : List Asset} (nodup : (assets.map (·.url)).Nodup)
    {asset : Asset} (member : asset ∈ assets) :
    Ordered.get? (urlMap assets) asset.url = some (target asset) := by
  refine Ordered.get?_putAll_of_mem ?_ (List.mem_map_of_mem member)
  rwa [List.map_map]

theorem get?_urlMap_of_notMem {assets : List Asset} {url : String}
    (absent : ∀ asset ∈ assets, asset.url ≠ url) : Ordered.get? (urlMap assets) url = none := by
  refine Ordered.get?_putAll_of_notMem fun member => ?_
  rw [List.map_map] at member
  obtain ⟨asset, inAssets, same⟩ := List.mem_map.mp member
  exact absent asset inAssets same

/-- The data of an inlined asset if there is any, else its optimized address. -/
structure Serves (asset : Asset) (address : String) : Prop where
  embedded : ∀ uri, asset.inlined = true → asset.dataUri = some uri → uri ≠ "" → address = uri
  linked : asset.inlined = false ∨ asset.dataUri = none ∨ asset.dataUri = some "" →
    address = asset.optimizedUrl

theorem serves_target (asset : Asset) : Serves asset (target asset) := by
  unfold target
  refine ⟨fun uri inlined embedded given => ?_, fun missing => ?_⟩
  · simp [inlined, embedded, given]
  · rcases missing with linked | missing | empty
    · simp [linked]
    · simp [missing]
    · split
      next uri _ found =>
        rw [empty, Option.some.injEq] at found
        rw [if_pos found.symm]
      next => rfl

/-- How the strings of a component have to be changed for what extraction accepted. -/
structure Agrees (assets : List Asset) (fields : Option Fields) (component : PlainComponent)
    (change : Option String → String → String) : Prop where
  accepted : ∀ occurrence ∈ component.members.strings none,
    Asset.accepts fields occurrence = true →
      (∃ asset ∈ assets, asset.url = occurrence.2 ∧ component.id ∈ asset.usedBy) ∧
      ∀ asset ∈ assets, asset.url = occurrence.2 →
        Serves asset (change occurrence.1 occurrence.2)
  kept : fields.isSome = true → ∀ occurrence ∈ component.members.strings none,
    Asset.accepts fields occurrence = false → change occurrence.1 occurrence.2 = occurrence.2

/-- A string that no component refers to is no address of an asset. -/
theorem rewriteAt_of_not_candidate {catalog : Option Catalog} {components : List PlainComponent}
    {assets : List Asset} (urls : ∀ asset ∈ assets, IsReferenced catalog components asset.url)
    {s : String} (unfit : Asset.isCandidate s = false) (fields : Option Fields)
    (key : Option String) : rewriteAt (urlMap assets) fields key s = s := by
  have absent : Ordered.get? (urlMap assets) s = none := by
    refine get?_urlMap_of_notMem fun asset member same => ?_
    obtain ⟨component, -, isRef⟩ := urls asset member
    obtain ⟨occurrence, -, accepted, isUrl⟩ := Asset.mem_urlsOf.mp isRef
    have candidate := Asset.isCandidate_of_isReference accepted
    rw [isUrl, same, unfit] at candidate
    cases candidate
  simp [rewriteAt, replaceString, absent]

theorem agrees_rewriteAt {catalog : Option Catalog} {components : List PlainComponent}
    {assets : List Asset}
    (retouched : List.Forall₂ Asset.Retouched (Asset.extractPlain catalog components) assets)
    (apart : ∀ url other, IsReferenced catalog components url →
      IsReferenced catalog components other → Asset.idOf url = Asset.idOf other → url = other)
    {component : PlainComponent} (member : component ∈ components) :
    Agrees assets (Catalog.urlFields? catalog component.type) component
      (rewriteAt (urlMap assets) (Catalog.urlFields? catalog component.type)) := by
  have sound := Asset.sound_extractPlain catalog components
  have nodup : (assets.map (·.url)).Nodup := by
    have ids : (Asset.extractPlain catalog components).map (·.id) =
        ((Asset.extractPlain catalog components).map (·.url)).map Asset.idOf := by
      rw [List.map_map]
      exact List.map_congr_left sound.ids
    rw [Asset.Retouched.map_url retouched]
    exact List.Nodup.of_map Asset.idOf (ids ▸ sound.nodup)
  have urls : ∀ asset ∈ assets, IsReferenced catalog components asset.url := by
    intro asset inAssets
    obtain ⟨old, extracted, optimizedUrl, inlined, dataUri, rfl⟩ :=
      exists_of_mem_right retouched inAssets
    exact sound.urls old extracted
  refine ⟨fun occurrence inStrings accepted => ⟨?_, fun asset inAssets same => ?_⟩,
    fun hasSchema occurrence inStrings refused => ?_⟩
  · have isRef := Asset.mem_urlsOf.mpr ⟨occurrence, inStrings, accepted, rfl⟩
    obtain ⟨old, extracted, sameId, used⟩ := Asset.exists_extractPlain member isRef
    obtain ⟨asset, inAssets, optimizedUrl, inlined, dataUri, rfl⟩ :=
      exists_of_mem_left retouched extracted
    have sameUrl : old.url = occurrence.2 :=
      apart _ _ (sound.urls old extracted) ⟨component, member, isRef⟩
        ((sound.ids old extracted).symm.trans sameId)
    exact ⟨_, inAssets, sameUrl, used⟩
  · rw [rewriteAt, replaceString, if_pos (Asset.accepts_of_isReference accepted), ← same,
      get?_urlMap_of_mem nodup inAssets, Option.getD_some]
    exact serves_target asset
  · obtain ⟨fields, isFields⟩ := Option.isSome_iff_exists.mp hasSchema
    rw [isFields] at refused ⊢
    by_cases candidate : Asset.isCandidate occurrence.2 = true
    · have undeclared : Context.accepts ⟨occurrence.1, some fields⟩ = false := by
        by_contra declared
        rw [Bool.not_eq_false] at declared
        have accepted := Asset.isReference_of_accepts candidate declared
        exact Bool.false_ne_true (refused.symm.trans accepted)
      rw [rewriteAt, replaceString, undeclared]
      rfl
    · rw [Bool.not_eq_true] at candidate
      exact rewriteAt_of_not_candidate urls candidate _ _

end Relink

namespace Reading

variable {heap : Heap} {readings : List (Reading heap)}

theorem Unshared.references_eq (unshared : Unshared readings) (catalog : Option Catalog)
    {reading : Reading heap} (member : reading ∈ readings) :
    Asset.references heap catalog reading.component =
      (reading.plain.members.strings none).filter (Asset.accepts (reading.fields catalog)) := by
  have onward : ∀ first second : List Value.Occurrence,
      first.filter (Asset.accepts (reading.fields catalog)) =
        second.filter (Asset.accepts (reading.fields catalog)) →
      ∀ more, (first ++ more).filter (Asset.accepts (reading.fields catalog)) =
        (second ++ more).filter (Asset.accepts (reading.fields catalog)) := by
    intro first second same more
    rw [List.filter_append, List.filter_append, same]
  have idle : (reading.unfolded.passages none []).Pairwise
      (Members.Idle (List.filter (Asset.accepts (reading.fields catalog)))) :=
    (unshared.passages member).imp fun empty same => by rw [empty same, List.append_nil]
  rw [Asset.references_eq]
  exact effect_strings onward idle

/--
In components that share nothing, extraction accepts the strings that are references where they
stand, and relinking with the assets it found replaces just these, if they have a schema.
-/
theorem relink_agrees_extract (unshared : Unshared readings) (catalog : Option Catalog)
    {assets : List Asset}
    (retouched : List.Forall₂ Asset.Retouched
      (Asset.extract heap catalog (readings.map entry)) assets)
    (apart : ∀ url other, Asset.IsReferenced catalog (readings.map plain) url →
      Asset.IsReferenced catalog (readings.map plain) other →
        Asset.idOf url = Asset.idOf other → url = other) :
    ∃ (after : Heap) (results : List (Reading after))
      (change : Option Fields → Option String → String → String),
      Relink.relink heap catalog assets (readings.map entry) = .ok (after, results.map entry) ∧
      results.map plain = readings.map (fun reading =>
        { reading.plain with
          members := reading.plain.members.mapStrings (change (reading.fields catalog)) none }) ∧
      ∀ reading ∈ readings,
        Asset.references heap catalog reading.component =
          (reading.plain.members.strings none).filter
            (Asset.accepts (reading.fields catalog)) ∧
        Relink.Agrees assets (reading.fields catalog) reading.plain
          (change (reading.fields catalog)) := by
  obtain ⟨after, results, relinked, reads⟩ := exists_relinked catalog assets readings
  rw [Asset.extract_eq_extractPlain (unshared.refersToKnown catalog)] at retouched
  refine ⟨after, results, Relink.rewriteAt (Relink.urlMap assets), relinked,
    reads.mpr (unshared.rewritesAlike _ catalog), fun reading member => ?_⟩
  exact ⟨unshared.references_eq catalog member,
    Relink.agrees_rewriteAt retouched apart (List.mem_map_of_mem member)⟩

/-- The assets of the component with two logos, converted to another format. -/
def convertedLogo : List Asset :=
  (Asset.extract (twoLogos "src" "href") none ([copiedLogo "src" "href"].map entry)).map
    fun asset => { asset with optimizedUrl := "logo.webp", inlined := false }

theorem relink_agrees_extract_logo :
    (Unshared [copiedLogo "src" "href"] ∧
      List.Forall₂ Asset.Retouched
        (Asset.extract (twoLogos "src" "href") none ([copiedLogo "src" "href"].map entry))
        convertedLogo ∧
      ∀ url other, Asset.IsReferenced none ([copiedLogo "src" "href"].map plain) url →
        Asset.IsReferenced none ([copiedLogo "src" "href"].map plain) other →
          Asset.idOf url = Asset.idOf other → url = other) ∧
    ∃ (after : Heap) (results : List (Reading after)),
      Relink.relink (twoLogos "src" "href") none convertedLogo
        ([copiedLogo "src" "href"].map entry) = .ok (after, results.map entry) ∧
      results.map plain = [⟨"c", "T", [],
        .node (some (.str "src")) .list () (.str none "logo.webp" .nil) <|
        .node (some (.str "href")) .list () (.str none "logo.webp" .nil) .nil⟩] := by
  have unshared := unshared_copiedLogo "src" "href"
  have retouched : List.Forall₂ Asset.Retouched
      (Asset.extract (twoLogos "src" "href") none ([copiedLogo "src" "href"].map entry))
      convertedLogo := by
    refine List.forall₂_map_right_iff.mpr (List.forall₂_same.mpr fun asset _ => ?_)
    exact ⟨"logo.webp", false, asset.dataUri, rfl⟩
  have onlyLogo : ∀ url, Asset.IsReferenced none ([copiedLogo "src" "href"].map plain) url →
      url = "logo" := by
    rintro url ⟨component, member, isRef⟩
    rw [List.map_singleton, List.mem_singleton] at member
    subst member
    obtain ⟨occurrence, inStrings, -, rfl⟩ := Asset.mem_urlsOf.mp isRef
    simp [plain, copiedLogo, Members.plain, Members.strings] at inStrings
    rcases inStrings with rfl | rfl <;> rfl
  have apart : ∀ url other, Asset.IsReferenced none ([copiedLogo "src" "href"].map plain) url →
      Asset.IsReferenced none ([copiedLogo "src" "href"].map plain) other →
        Asset.idOf url = Asset.idOf other → url = other :=
    fun url other isUrl isOther _ => (onlyLogo url isUrl).trans (onlyLogo other isOther).symm
  obtain ⟨after, results, change, relinked, reads, each⟩ :=
    relink_agrees_extract unshared none retouched apart
  obtain ⟨-, agrees⟩ := each (copiedLogo "src" "href") (List.mem_singleton_self _)
  have converted : ∀ key ∈ ["src", "href"], change none (some key) "logo" = "logo.webp" := by
    intro key member
    have stands : (some key, "logo") ∈
        (copiedLogo "src" "href").plain.members.strings none := by
      simpa [plain, copiedLogo, Members.plain, Members.strings, Value.keyUnder, Value.innerKey,
        Value.erase] using member
    have isRef : ∀ key ∈ ["src", "href"], Asset.accepts none (some key, "logo") = true := by
      decide
    obtain ⟨⟨asset, inAssets, same, -⟩, serves⟩ :=
      agrees.accepted (some key, "logo") stands (isRef key member)
    obtain ⟨old, -, rfl⟩ := List.mem_map.mp inAssets
    exact (serves _ inAssets same).linked (.inl rfl)
  refine ⟨⟨unshared, retouched, apart⟩, after, results, relinked, ?_⟩
  simp only [List.forall_mem_cons] at converted
  simp [reads, plain, copiedLogo, Members.plain, Members.mapStrings, Value.keyUnder,
    Value.innerKey, Value.erase, fields, Catalog.urlFields?, converted]

end Reading

end StaticSite
