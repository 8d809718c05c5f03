import StaticSite.Proofs.Agreement
import Mathlib.Data.List.Induction

/-!
# One record for each address

Extraction goes through the references of all components, one after the other. Whatever has been gone
through, the records are those of the distinct addresses in the order of their first use; each tells
the kind of this use and the components of all uses.
-/

namespace StaticSite

section

variable {α β : Type} [DecidableEq α] [DecidableEq β]

theorem eraseDups_concat (l : List α) (a : α) :
    (l ++ [a]).eraseDups = if a ∈ l then l.eraseDups else l.eraseDups ++ [a] := by
  rw [List.eraseDups_append]
  by_cases known : a ∈ l
  · simp [List.removeAll, known]
  · simp [List.removeAll, known, List.eraseDups_cons]

theorem eraseDups_map {f : α → β} {l : List α}
    (apart : ∀ a ∈ l, ∀ b ∈ l, f a = f b → a = b) :
    (l.map f).eraseDups = l.eraseDups.map f := by
  induction l using List.reverseRec with
  | nil => rfl
  | append_singleton l a ih =>
    have before : ∀ b ∈ l, ∀ c ∈ l, f b = f c → b = c := fun b inB c inC =>
      apart b (List.mem_append_left _ inB) c (List.mem_append_left _ inC)
    have same : f a ∈ l.map f ↔ a ∈ l := by
      refine ⟨fun member => ?_, List.mem_map_of_mem⟩
      obtain ⟨b, inL, image⟩ := List.mem_map.mp member
      rwa [← apart b (List.mem_append_left _ inL) a (by simp) image]
    rw [List.map_append, List.map_singleton, eraseDups_concat, eraseDups_concat, ih before]
    simp only [same]
    split <;> simp

omit [DecidableEq α] [DecidableEq β] in
theorem eq_of_map_eq {f : α → β} {l others : List α}
    (apart : ∀ a ∈ l, ∀ b ∈ others, f a = f b → a = b) (same : l.map f = others.map f) :
    l = others := by
  induction l generalizing others with
  | nil => exact (List.map_eq_nil_iff.mp same.symm).symm
  | cons a l ih =>
    cases others with
    | nil => cases same
    | cons b others =>
      simp only [List.map_cons, List.cons.injEq] at same
      have first : a = b := apart a (List.mem_cons_self ..) b (List.mem_cons_self ..) same.1
      rw [first, ih (fun c inL d inOthers => apart c (List.mem_cons_of_mem _ inL) d
        (List.mem_cons_of_mem _ inOthers)) same.2]

end

namespace Asset

/-! ## Uses and their records -/

/-- One use of an address: by which component, and the kind declared for where it stands. -/
structure Use where
  user : String
  url : String
  kind : Option String
deriving DecidableEq

/-- The uses that a component makes of its references. -/
def usesOf (catalog : Option Catalog) (componentId type : String)
    (references : List Value.Occurrence) : List Use :=
  references.map fun (key, url) => ⟨componentId, url, declaredKind catalog type key⟩

def recordUses (assets : List Asset) (uses : List Use) : List Asset :=
  uses.foldl (fun assets use => record assets use.url use.user use.kind) assets

/-- The uses that extraction finds. -/
def foundUses (heap : Heap) (catalog : Option Catalog) (entries : List Entry) : List Use :=
  (entries.filterMap Entry.component?).flatMap fun component =>
    usesOf catalog component.id component.type (references heap catalog component)

theorem extract_eq_recordUses (heap : Heap) (catalog : Option Catalog) (entries : List Entry) :
    extract heap catalog entries = recordUses [] (foundUses heap catalog entries) := by
  rw [recordUses, foundUses, List.foldl_flatMap]
  simp only [usesOf, List.foldl_map]
  rfl

/-- The users of the address of an id, in the order of their uses. -/
def usersAt (uses : List Use) (id : String) : List String :=
  (uses.filter fun use => idOf use.url = id).map (·.user)

/-- The record of an address that was first used so, by these users. -/
def recordOf (first : Use) (users : List String) : Asset :=
  { id := idOf first.url
    url := first.url
    optimizedUrl := first.url
    type := (classify first.url first.kind).1
    mimeType := (classify first.url first.kind).2
    usedBy := users.eraseDups }

theorem found_eq_recordOf (use : Use) :
    found use.url use.user use.kind = recordOf use [use.user] := by
  unfold found recordOf
  generalize classify use.url use.kind = classified
  rfl

/-- The records of uses: one for each address, with all its users and the kind of its first use. -/
structure Tabulates (uses : List Use) (assets : List Asset) : Prop where
  nodup : (assets.map (·.id)).Nodup
  ids : assets.map (·.id) = (uses.map fun use => idOf use.url).eraseDups
  each : ∀ asset ∈ assets, ∃ first, uses.find? (fun use => idOf use.url = asset.id) = some first ∧
    asset = recordOf first (usersAt uses asset.id)

theorem usersAt_concat (uses : List Use) (use : Use) (id : String) :
    usersAt (uses ++ [use]) id =
      if idOf use.url = id then usersAt uses id ++ [use.user] else usersAt uses id := by
  by_cases same : idOf use.url = id <;> simp [usersAt, same]

theorem addUser_recordOf (first : Use) (users : List String) (user : String) :
    (recordOf first users).addUser user = recordOf first (users ++ [user]) := by
  unfold addUser recordOf
  rw [eraseDups_concat]
  simp only [List.mem_eraseDups]
  split <;> rfl

/-- A record that is not the one of the new use stays; that one is extended or added. -/
theorem mem_record_cases {assets : List Asset} (nodup : (assets.map (·.id)).Nodup)
    {url user : String} {kind : Option String} {asset : Asset}
    (member : asset ∈ record assets url user kind) :
    (asset ∈ assets ∧ asset.id ≠ idOf url) ∨
      (∃ old ∈ assets, old.id = idOf url ∧ asset = old.addUser user) ∨
        (idOf url ∉ assets.map (·.id) ∧ asset = found url user kind) := by
  induction assets with
  | nil => exact .inr (.inr ⟨by simp, List.mem_singleton.mp member⟩)
  | cons first rest ih =>
    obtain ⟨new, nodup⟩ := List.nodup_cons.mp nodup
    unfold record at member
    split at member
    next same =>
      rcases List.mem_cons.mp member with rfl | later
      · exact .inr (.inl ⟨first, List.mem_cons_self .., same, rfl⟩)
      · refine .inl ⟨List.mem_cons_of_mem _ later, fun clash => new ?_⟩
        exact List.mem_map.mpr ⟨asset, later, clash.trans same.symm⟩
    next other =>
      rcases List.mem_cons.mp member with rfl | later
      · exact .inl ⟨List.mem_cons_self .., other⟩
      · rcases ih nodup later with ⟨inRest, differs⟩ | ⟨old, inRest, isOld⟩ | ⟨absent, isNew⟩
        · exact .inl ⟨List.mem_cons_of_mem _ inRest, differs⟩
        · exact .inr (.inl ⟨old, List.mem_cons_of_mem _ inRest, isOld⟩)
        · refine .inr (.inr ⟨?_, isNew⟩)
          rw [List.map_cons, List.mem_cons, not_or]
          exact ⟨Ne.symm other, absent⟩

theorem Tabulates.record {uses : List Use} {assets : List Asset}
    (tabulates : Tabulates uses assets) (use : Use) :
    Tabulates (uses ++ [use]) (record assets use.url use.user use.kind) := by
  have known : idOf use.url ∈ assets.map (·.id) ↔
      idOf use.url ∈ uses.map fun use => idOf use.url := by
    rw [tabulates.ids, List.mem_eraseDups]
  refine ⟨?_, ?_, fun asset member => ?_⟩
  · rw [ids_record]
    split
    · exact tabulates.nodup
    next new =>
      rw [← List.concat_eq_append]
      exact tabulates.nodup.concat new
  · rw [ids_record, List.map_append, List.map_singleton, eraseDups_concat, ← tabulates.ids]
    simp only [known]
  · rcases mem_record_cases tabulates.nodup member with
      ⟨inAssets, other⟩ | ⟨old, inAssets, same, rfl⟩ | ⟨new, rfl⟩
    · obtain ⟨first, isFirst, isAsset⟩ := tabulates.each asset inAssets
      refine ⟨first, by rw [List.find?_append, isFirst]; rfl, ?_⟩
      rwa [usersAt_concat, if_neg (Ne.symm other)]
    · obtain ⟨first, isFirst, isOld⟩ := tabulates.each old inAssets
      refine ⟨first, by rw [id_addUser, List.find?_append, isFirst]; rfl, ?_⟩
      rw [id_addUser, usersAt_concat, if_pos same.symm, ← addUser_recordOf, ← isOld]
    · have unused : ∀ other ∈ uses, idOf other.url ≠ idOf use.url := by
        intro other inUses clash
        exact new (known.mpr (List.mem_map.mpr ⟨other, inUses, clash⟩))
      have isNew : (recordOf use [use.user]).id = idOf use.url := rfl
      have noUsers : usersAt uses (idOf use.url) = [] := by
        rw [usersAt, List.map_eq_nil_iff, List.filter_eq_nil_iff]
        simpa using unused
      rw [found_eq_recordOf, isNew]
      refine ⟨use, ?_, ?_⟩
      · rw [List.find?_append, List.find?_eq_none.mpr (by simpa using unused)]
        simp
      · rw [usersAt_concat, if_pos rfl, noUsers, List.nil_append]

theorem tabulates_recordUses {before uses : List Use} {assets : List Asset}
    (tabulates : Tabulates before assets) : Tabulates (before ++ uses) (recordUses assets uses) := by
  induction uses generalizing before assets with
  | nil => rwa [List.append_nil]
  | cons use uses ih =>
    have others := ih (tabulates.record use)
    rwa [List.append_assoc] at others

/-- Extraction gives the records of the uses it finds. -/
theorem tabulates_extract (heap : Heap) (catalog : Option Catalog) (entries : List Entry) :
    Tabulates (foundUses heap catalog entries) (extract heap catalog entries) := by
  have none : Tabulates [] [] := ⟨List.nodup_nil, rfl, by simp⟩
  rw [extract_eq_recordUses]
  exact tabulates_recordUses none

/-! ## Components that are trees -/

/-- The uses that all strings of components show, in the order in which they stand. -/
def shownUses (catalog : Option Catalog) (components : List PlainComponent) : List Use :=
  components.flatMap fun component =>
    usesOf catalog component.id component.type
      ((component.members.strings none).filter
        (accepts (Catalog.urlFields? catalog component.type)))

section

variable {heap : Heap} {readings : List (Reading heap)} {uses : List Use} {assets : List Asset}

theorem foundUses_eq_shownUses (trees : ∀ reading ∈ readings, Reading.Unshared [reading])
    (catalog : Option Catalog) :
    foundUses heap catalog (readings.map Reading.entry) =
      shownUses catalog (readings.map Reading.plain) := by
  rw [foundUses, shownUses, filterMap_entry, List.flatMap_map, List.flatMap_map]
  refine List.flatMap_congr fun reading member => ?_
  rw [(trees reading member).references_eq catalog (List.mem_singleton_self reading)]
  rfl

/-- Where ids do not collide, the records are those of the distinct addresses. -/
theorem Tabulates.urls_eq (tabulates : Tabulates uses assets)
    (apart : ∀ use ∈ uses, ∀ other ∈ uses, idOf use.url = idOf other.url → use.url = other.url) :
    assets.map (·.url) = (uses.map (·.url)).eraseDups ∧
      ∀ asset ∈ assets, ∃ first, uses.find? (fun use => use.url = asset.url) = some first ∧
        asset = recordOf first ((uses.filter fun use => use.url = asset.url).map (·.user)) := by
  have each : ∀ asset ∈ assets, ∃ first, uses.find? (fun use => use.url = asset.url) = some first ∧
      asset = recordOf first ((uses.filter fun use => use.url = asset.url).map (·.user)) := by
    intro asset member
    obtain ⟨first, isFirst, isAsset⟩ := tabulates.each asset member
    have inUses : first ∈ uses := List.mem_of_find?_eq_some isFirst
    have isId : asset.id = idOf first.url := by rw [isAsset]; rfl
    have isUrl : asset.url = first.url := by rw [isAsset]; rfl
    have same : (uses.filter fun use => idOf use.url = asset.id) =
        uses.filter fun use => use.url = asset.url := by
      refine List.filter_congr fun use inUses' => ?_
      rw [isId, isUrl, decide_eq_decide]
      exact ⟨apart use inUses' first inUses, congrArg idOf⟩
    refine ⟨first, ?_, ?_⟩
    · rw [← List.head?_filter, ← same, List.head?_filter, isFirst]
    · rw [← same]
      exact isAsset
  refine ⟨?_, each⟩
  have ids : (assets.map (·.url)).map idOf = (uses.map (·.url)).eraseDups.map idOf := by
    have own : (assets.map (·.url)).map idOf = assets.map (·.id) := by
      rw [List.map_map]
      refine List.map_congr_left fun asset member => ?_
      obtain ⟨first, -, isAsset⟩ := tabulates.each asset member
      rw [isAsset]
      rfl
    have hashed : (uses.map fun use => idOf use.url) = (uses.map (·.url)).map idOf := by
      rw [List.map_map]
      rfl
    rw [own, tabulates.ids, hashed, eraseDups_map]
    simpa using apart
  refine eq_of_map_eq (fun url inAssets other inUses same => ?_) ids
  obtain ⟨asset, member, rfl⟩ := List.mem_map.mp inAssets
  obtain ⟨use, inUses', rfl⟩ := List.mem_map.mp (List.mem_eraseDups.mp inUses)
  obtain ⟨first, isFirst, isAsset⟩ := each asset member
  have isUrl : asset.url = first.url := by rw [isAsset]; rfl
  rw [isUrl] at same ⊢
  exact apart first (List.mem_of_find?_eq_some isFirst) use inUses' same

end

/-- A dict with an address and a list of two, and a dict with one of these. -/
def gallery : Heap :=
  ⟨#[.list [.str "/b.js", .str "/a.png"],
    .dict [(.str "src", .str "/a.png"), (.str "more", .ref 0)],
    .dict [(.str "href", .str "/b.js")]]⟩

def galleryReadings : List (Reading gallery) :=
  [{ id := "hero", type := "T", zones := [], place := 1,
     members :=
      .str (some (.str "src")) "/a.png" <|
      .node (some (.str "more")) .list 0 (.str none "/b.js" (.str none "/a.png" .nil)) .nil
     stands := ⟨_, rfl, rfl, rfl⟩
     holds := by
      simp [gallery, Members.In, Heap.IsKey, Heap.unhashable?, Heap.Stands, Heap.container?,
        Container.shape, Container.members, Members.toList] },
   { id := "card", type := "T", zones := [], place := 2,
     members := .str (some (.str "href")) "/b.js" .nil
     stands := ⟨_, rfl, rfl, rfl⟩
     holds := by simp [Members.In, Heap.IsKey, Heap.unhashable?] }]

theorem shownUses_gallery : shownUses none (galleryReadings.map Reading.plain) =
    [⟨"hero", "/a.png", none⟩, ⟨"hero", "/b.js", none⟩, ⟨"hero", "/a.png", none⟩,
      ⟨"card", "/b.js", none⟩] := by
  decide

end Asset

end StaticSite
