import StaticSite.Asset.Reference
import StaticSite.Proofs.Rejoining

/-!
# Queries and fragments

A query or a fragment starts behind the first question mark or hash of a URL. What stands there is
cut off after the scheme and the authority have been read, so neither these nor the path depend on
it, whatever colons, slashes, brackets and points it holds; and an asset is classified by its path.
-/

namespace StaticSite

namespace Url

/-- What can stand behind a path: nothing, or a query or a fragment behind its mark. -/
def IsEnding (s : List Char) : Prop := ∀ c ∈ s.head?, c = '?' ∨ c = '#'

instance (s : List Char) : Decidable (IsEnding s) :=
  inferInstanceAs (Decidable (∀ c ∈ s.head?, c = '?' ∨ c = '#'))

section

variable {s ending : List Char}

theorem IsEnding.isClosing (isEnding : IsEnding ending) : IsClosing ending := fun c first => by
  rcases isEnding c first with rfl | rfl <;> rfl

/-- Dropping line ends leaves the mark in front. -/
theorem IsEnding.filter (isEnding : IsEnding ending) :
    IsEnding (ending.filter (!isLineControl ·)) := by
  cases ending with
  | nil => exact isEnding
  | cons c ending =>
    have isMark := isEnding c rfl
    have kept : isLineControl c = false := by rcases isMark with rfl | rfl <;> rfl
    rw [List.filter_cons_of_pos (by rw [kept]; rfl)]
    exact isEnding

/-! ## The parts of a URL one after the other -/

theorem takeScheme_append_ending (isEnding : IsEnding ending) (s : List Char) :
    takeScheme (s ++ ending) = ((takeScheme s).1, (takeScheme s).2 ++ ending) := by
  rcases scheme_or_unnamed s with ⟨scheme, rest, named, rfl⟩ | unnamed
  · rw [List.append_assoc, List.cons_append, takeScheme_append named, takeScheme_append named]
  · rw [takeScheme_eq_self unnamed, takeScheme_eq_self (unnamed_append isEnding.isClosing unnamed)]

theorem takeAuthority_append_ending (isEnding : IsEnding ending) (s : List Char) :
    takeAuthority (s ++ ending) = ((takeAuthority s).1, (takeAuthority s).2 ++ ending) := by
  by_cases slashes : ['/', '/'] <+: s
  · obtain ⟨rest, rfl⟩ := slashes
    have nothing : IsClosing [] := nofun
    have alone := takeAuthority_append rest nothing
    rw [List.append_nil, List.append_nil] at alone
    have read : takeAuthority (['/', '/'] ++ rest) = _ := alone
    rw [read]
    exact takeAuthority_append rest isEnding.isClosing
  · have noSlashes : ¬ ['/', '/'] <+: s ++ ending := fun start => slashes <| by
      cases ending with
      | nil => rwa [List.append_nil] at start
      | cons c ending =>
        have absent : c ∉ ['/', '/'] := by rcases isEnding c rfl with rfl | rfl <;> decide
        exact Text.prefix_of_prefix_append_cons absent s start
    rw [takeAuthority_eq_self slashes, takeAuthority_eq_self noSlashes]

/-- A text without the mark stays in front of it. -/
theorem cutAt_append {mark : Char} (absent : mark ∉ s) (t : List Char) :
    cutAt mark (s ++ t) = (s ++ (cutAt mark t).1, (cutAt mark t).2) := by
  unfold cutAt
  rw [Text.splitAtMark?_append absent]
  cases Text.splitAtMark? [mark] t <;> rfl

/-- Nothing of an ending belongs to the path. -/
theorem IsEnding.cutAt_nil (isEnding : IsEnding ending) :
    (cutAt '?' (cutAt '#' ending).1).1 = [] := by
  cases ending with
  | nil => rfl
  | cons c ending =>
    rcases isEnding c rfl with rfl | rfl
    · obtain ⟨-, front, -⟩ := cutAt_spec '#' ('?' :: ending)
      cases cut : (cutAt '#' ('?' :: ending)).1 with
      | nil => rfl
      | cons d rest =>
        rw [cut] at front
        obtain ⟨rfl, -⟩ := List.cons_prefix_cons.mp front
        simp [cutAt, Text.splitAtMark?, Text.dropMark?]
    · simp [cutAt, Text.splitAtMark?, Text.dropMark?]

/-! ## The whole URL -/

/-- The parts with the query and the fragment of an ending. -/
def Parts.withEnding (parts : Parts) (ending : List Char) : Parts :=
  let plain := ending.filter (!isLineControl ·)
  { parts with query := (cutAt '?' (cutAt '#' plain).1).2, fragment := (cutAt '#' plain).2 }

/-- Behind a URL without a query and a fragment, an ending only brings these. -/
theorem split_append {url : List Char} (unmarked : '?' ∉ url ∧ '#' ∉ url)
    (isEnding : IsEnding ending) :
    split (url ++ ending) = (split url).map (·.withEnding ending) := by
  have plainEnding := isEnding.filter
  unfold split Parts.withEnding
  rw [List.filter_append, takeScheme_append_ending plainEnding]
  dsimp only
  rw [takeAuthority_append_ending plainEnding]
  have within : (takeAuthority (takeScheme (url.filter (!isLineControl ·))).2).2 ⊆ url := by
    obtain ⟨-, -, inText⟩ := takeScheme_spec (url.filter (!isLineControl ·))
    obtain ⟨-, -, inRest⟩ := takeAuthority_spec (takeScheme (url.filter (!isLineControl ·))).2
    exact fun c member => List.mem_of_mem_filter (inText.subset (inRest.subset member))
  generalize takeAuthority (takeScheme (url.filter (!isLineControl ·))).2 = read at within
  obtain ⟨authority, path⟩ := read
  have noHash : '#' ∉ path := fun member => unmarked.2 (within member)
  have noMark : '?' ∉ path := fun member => unmarked.1 (within member)
  dsimp only
  rw [cutAt_append noHash, cutAt_append noMark, plainEnding.cutAt_nil, List.append_nil,
    Asset.cutAt_of_not_mem noHash, Asset.cutAt_of_not_mem noMark]
  cases checkAuthority authority <;> rfl

theorem extension_append {url : List Char} (unmarked : '?' ∉ url ∧ '#' ∉ url)
    (isEnding : IsEnding ending) : extension (url ++ ending) = extension url := by
  unfold extension
  rw [split_append unmarked isEnding]
  cases split url <;> rfl

end

end Url

namespace Asset

theorem guessMime?_append {url ending : List Char} (unmarked : '?' ∉ url ∧ '#' ∉ url)
    (isEnding : Url.IsEnding ending) : guessMime? (url ++ ending) = guessMime? url := by
  unfold guessMime?
  rw [Url.split_append unmarked isEnding]
  cases Url.split url <;> rfl

/--
A query or a fragment changes neither the extension of a URL nor the types of the asset that it
leads to, whatever kind is declared for it.
-/
theorem classify_append (url ending : String) (unmarked : '?' ∉ url.toList ∧ '#' ∉ url.toList)
    (isEnding : Url.IsEnding ending.toList) :
    Url.extension (url ++ ending).toList = Url.extension url.toList ∧
      ∀ kind, classify (url ++ ending) kind = classify url kind := by
  have sameExtension : Url.extension (url ++ ending).toList = Url.extension url.toList := by
    rw [String.toList_append]
    exact Url.extension_append unmarked isEnding
  refine ⟨sameExtension, fun kind => ?_⟩
  have sameMime : guessMime? (url ++ ending).toList = guessMime? url.toList := by
    rw [String.toList_append]
    exact guessMime?_append unmarked isEnding
  unfold classify
  rw [sameExtension, sameMime]

/-- A query that looks like a URL of its own, with a fragment that looks like a file. -/
theorem classify_append_nested :
    ('?' ∉ "https://cdn.example.com/v.mp4".toList ∧ '#' ∉ "https://cdn.example.com/v.mp4".toList) ∧
      Url.IsEnding "?next=//[x/a.png:8#.js".toList ∧
      Url.extension "https://cdn.example.com/v.mp4?next=//[x/a.png:8#.js".toList = "mp4".toList ∧
      classify "https://cdn.example.com/v.mp4?next=//[x/a.png:8#.js" (some "image") =
        ("video", "video/mp4") := by
  have unmarked : '?' ∉ "https://cdn.example.com/v.mp4".toList ∧
      '#' ∉ "https://cdn.example.com/v.mp4".toList := by decide
  have isEnding : Url.IsEnding "?next=//[x/a.png:8#.js".toList := by decide
  obtain ⟨extension, classified⟩ :=
    classify_append "https://cdn.example.com/v.mp4" "?next=//[x/a.png:8#.js" unmarked isEnding
  refine ⟨unmarked, isEnding, extension.trans ?_, (classified (some "image")).trans ?_⟩
  · decide +kernel
  · decide +kernel

end Asset

end StaticSite
