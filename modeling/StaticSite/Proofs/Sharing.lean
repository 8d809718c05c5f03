import StaticSite.Proofs.Extraction
import StaticSite.Proofs.Relinking

/-!
# Sharing

Data in which containers are shared reads as data in which none is. Extraction and relinking enter
a container once, so they tell the two apart where a container means more at the places where it is
reached again, or means something else there.
-/

namespace StaticSite

namespace Reading

variable {heap heap' : Heap}

theorem mark_eq {first second : Members.Reach Nat} (container : first.shape ≠ .tuple)
    (container' : second.shape ≠ .tuple) (label : first.label = second.label) :
    first.mark = second.mark := by
  rw [Members.Reach.mark, Members.Reach.mark, Shape.mark_container container,
    Shape.mark_container container', label]

/-- A container that is reached once is rewritten alike wherever it is reached. -/
theorem Unshared.rewritesAlike {readings : List (Reading heap)} (unshared : Unshared readings)
    (map : Relink.UrlMap) (catalog : Option Catalog) : RewritesAlike map catalog readings := by
  have apart : readings.Pairwise (Alike map catalog) := by
    refine (List.pairwise_flatMap.mp unshared).2.imp fun apart first reached second reached'
      container container' label => ?_
    have empty := apart first reached second reached' (mark_eq container container' label)
    exact absurd empty.1 container
  have itself : ∀ reading ∈ readings, Alike map catalog reading reading := by
    intro reading member first reached second reached'
    have within : reading.reaches.Pairwise fun first second => first.shape ≠ .tuple →
        second.shape ≠ .tuple → first.label = second.label →
          first.rewritten map (reading.fields catalog) =
            second.rewritten map (reading.fields catalog) := by
      refine (unshared.within member).imp fun empty container container' label => ?_
      exact absurd (empty (mark_eq container container' label)).1 container
    exact within.forall_of_forall_of_flip (fun _ _ _ _ _ => rfl)
      (within.imp fun held container container' label =>
        (held container' container label.symm).symm) reached reached'
  intro reading member other member'
  exact apart.forall_of_forall_of_flip itself (apart.imp Alike.symm) member member'

/-- One list of one string, held by a dict under two keys. -/
def oneLogo (first second : String) : Heap :=
  ⟨#[.list [.str "logo"], .dict [(.str first, .ref 0), (.str second, .ref 0)]]⟩

/-- The same dict with a list under each key. -/
def twoLogos (first second : String) : Heap :=
  ⟨#[.list [.str "logo"], .list [.str "logo"], .dict [(.str first, .ref 0), (.str second, .ref 1)]]⟩

def sharedLogo (first second : String) : Reading (oneLogo first second) where
  id := "c"
  type := "T"
  zones := []
  place := 1
  members :=
    .node (some (.str first)) .list 0 (.str none "logo" .nil) <|
    .node (some (.str second)) .list 0 (.str none "logo" .nil) .nil
  stands := ⟨_, rfl, rfl, rfl⟩
  holds := by
    simp [oneLogo, Members.In, Heap.IsKey, Heap.unhashable?, Heap.Stands, Heap.container?,
      Container.shape, Container.members, Members.toList]

def copiedLogo (first second : String) : Reading (twoLogos first second) where
  id := "c"
  type := "T"
  zones := []
  place := 2
  members :=
    .node (some (.str first)) .list 0 (.str none "logo" .nil) <|
    .node (some (.str second)) .list 1 (.str none "logo" .nil) .nil
  stands := ⟨_, rfl, rfl, rfl⟩
  holds := by
    simp [twoLogos, Members.In, Heap.IsKey, Heap.unhashable?, Heap.Stands, Heap.container?,
      Container.shape, Container.members, Members.toList]

theorem unshared_copiedLogo (first second : String) : Unshared [copiedLogo first second] := by
  simp [Unshared, reaches, unfolded, Members.reaches, copiedLogo, Members.Reach.mark, Shape.mark]

/--
Extraction finds no use that it does not find in an unshared copy, and the same assets if what a
component reaches again refers only to what it has referred to before. Relinked, the components and
their copies read the same exactly if every container is rewritten alike wherever it is reached.
-/
theorem sharing_invisible_iff {shared : List (Reading heap)} {copies : List (Reading heap')}
    (catalog : Option Catalog) (unshared : Unshared copies)
    (same : shared.map plain = copies.map plain) :
    (∀ id, ∀ user ∈ Asset.usersOf (Asset.extract heap catalog (shared.map entry)) id,
      user ∈ Asset.usersOf (Asset.extract heap' catalog (copies.map entry)) id) ∧
    ((∀ reading ∈ shared, reading.RefersToKnown catalog) →
      Asset.extract heap catalog (shared.map entry) =
        Asset.extract heap' catalog (copies.map entry)) ∧
    ∀ assets, ∃ (after after' : Heap) (results : List (Reading after))
      (results' : List (Reading after')),
      Relink.relink heap catalog assets (shared.map entry) = .ok (after, results.map entry) ∧
      Relink.relink heap' catalog assets (copies.map entry) = .ok (after', results'.map entry) ∧
      (results.map plain = results'.map plain ↔
        RewritesAlike (Relink.urlMap assets) catalog shared) := by
  have copied : Asset.extract heap' catalog (copies.map entry) =
      Asset.extractPlain catalog (shared.map plain) := by
    rw [Asset.extract_eq_extractPlain (unshared.refersToKnown catalog), same]
  refine ⟨fun id => ?_, fun known => ?_, fun assets => ?_⟩
  · rw [copied]
    exact Asset.usersOf_extract_subset shared id
  · rw [Asset.extract_eq_extractPlain known, copied]
  · obtain ⟨after, results, relinked, reads⟩ := exists_relinked catalog assets shared
    obtain ⟨after', results', relinked', reads'⟩ := exists_relinked catalog assets copies
    refine ⟨after, after', results, results', relinked, relinked', ?_⟩
    have rewritten : (shared.map fun reading =>
        Relink.rewritePlain (Relink.urlMap assets) catalog reading.plain) =
        copies.map fun reading =>
          Relink.rewritePlain (Relink.urlMap assets) catalog reading.plain := by
      have both := congrArg (List.map (Relink.rewritePlain (Relink.urlMap assets) catalog)) same
      rwa [List.map_map, List.map_map] at both
    rw [reads'.mpr (unshared.rewritesAlike _ catalog), ← rewritten, reads]

theorem sharing_invisible_logo :
    (([sharedLogo "src" "href"].map plain = [copiedLogo "src" "href"].map plain ∧
      Unshared [copiedLogo "src" "href"]) ∧
      ∀ reading ∈ [sharedLogo "src" "href"], reading.RefersToKnown none) ∧
    Asset.extract (oneLogo "src" "href") none ([sharedLogo "src" "href"].map entry) =
      Asset.extract (twoLogos "src" "href") none ([copiedLogo "src" "href"].map entry) := by
  have known : ∀ reading ∈ [sharedLogo "src" "href"], reading.RefersToKnown none := by
    have accepted : Asset.accepts none (some "src", "logo") = true := by decide
    simp [RefersToKnown, unfolded, sharedLogo, Members.passages, Members.Reach.mark, Shape.mark,
      fields, Asset.urlsOf, Members.Reach.strings, Members.strings, Value.keyUnder,
      Value.innerKey, Catalog.urlFields?, accepted]
  have same : [sharedLogo "src" "href"].map plain = [copiedLogo "src" "href"].map plain := rfl
  have unshared := unshared_copiedLogo "src" "href"
  exact ⟨⟨⟨same, unshared⟩, known⟩, (sharing_invisible_iff none unshared same).2.1 known⟩

/-- A list that no key refers to at first is not entered again under a key that does. -/
theorem shared_logo_not_extracted :
    [sharedLogo "note" "src"].map plain = [copiedLogo "note" "src"].map plain ∧
    Unshared [copiedLogo "note" "src"] ∧
    Asset.extract (oneLogo "note" "src") none ([sharedLogo "note" "src"].map entry) ≠
      Asset.extract (twoLogos "note" "src") none ([copiedLogo "note" "src"].map entry) := by
  refine ⟨rfl, unshared_copiedLogo "note" "src", ?_⟩
  have unseen : (Asset.extract (oneLogo "note" "src") none
      ([sharedLogo "note" "src"].map entry)).isEmpty = true := by decide
  have seen : (Asset.extract (twoLogos "note" "src") none
      ([copiedLogo "note" "src"].map entry)).isEmpty = false := by decide
  intro same
  rw [same, seen] at unseen
  cases unseen

end Reading

end StaticSite
