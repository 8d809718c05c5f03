import Mathlib.Data.List.DropRight
import StaticSite.Proofs.Document
import StaticSite.Proofs.SitemapReading
import StaticSite.Proofs.Trimming

/-!
# Published addresses

The address of a page takes its slug, or else its id, and then drops the slashes in front. The
directory of its files takes the slug without the slashes around it, or else the id as it is. The
two lead to the same place unless a slug is nothing but slashes, or the id of a page without a slug
starts with one.
-/

namespace StaticSite

/-! ## Slashes at the ends of texts -/

namespace Text

section

variable {p : Char → Bool} {s : List Char}

theorem dropTail_eq_nil_iff : dropTail p s = [] ↔ ∀ c ∈ s, p c = true :=
  List.rdropWhile_eq_nil_iff

theorem dropTail_dropTail (p : Char → Bool) (s : List Char) :
    dropTail p (dropTail p s) = dropTail p s :=
  List.rdropWhile_idempotent p s

/-- What stands in front is only reached once nothing is left behind it. -/
theorem dropTail_append (p : Char → Bool) (front s : List Char) :
    dropTail p (front ++ s) =
      if dropTail p s = [] then dropTail p front else front ++ dropTail p s := by
  unfold dropTail
  rw [List.reverse_append, List.dropWhile_append]
  cases s.reverse.dropWhile p <;> simp

theorem dropTail_append_inj (p : Char → Bool) (front s t : List Char) :
    dropTail p (front ++ s) = dropTail p (front ++ t) ↔ dropTail p s = dropTail p t := by
  -- If one side is dropped as a whole, the other side would have to be shorter than it is.
  have apart {s : List Char} (filled : dropTail p s ≠ []) :
      dropTail p front ≠ front ++ dropTail p s := by
    intro same
    have shorter := (List.rdropWhile_prefix p (l := front)).length_le
    have lengths := congrArg List.length same
    have positive := List.length_pos_iff.mpr filled
    rw [List.length_append, dropTail, ← List.rdropWhile] at lengths
    omega
  rw [dropTail_append p front s, dropTail_append p front t]
  split
  next left =>
    split
    next right => simp [left, right]
    next right => exact iff_of_false (apart right) fun same => right (same ▸ left)
  next left =>
    split
    next right => exact iff_of_false (Ne.symm (apart left)) fun same => left (same.trans right)
    next right => rw [List.append_right_inj]

theorem trimBy_eq_nil_iff : trimBy p s = [] ↔ ∀ c ∈ s, p c = true := by
  rw [trimBy, dropTail_eq_nil_iff]
  constructor
  · intro dropped
    refine List.dropWhile_eq_nil_iff.mp (List.eq_nil_iff_forall_not_mem.mpr fun c member => ?_)
    obtain ⟨d, rest, same⟩ := List.exists_cons_of_ne_nil (List.ne_nil_of_mem member)
    have isHead : d ∈ (s.dropWhile p).head? := by rw [same]; rfl
    have first : p d = false := head?_dropWhile s d isHead
    rw [dropped d (by simp [same])] at first
    cases first
  · intro all
    rw [List.dropWhile_eq_nil_iff.mpr all]
    nofun

/-- Dropping what is in front changes what is left at the end, unless there is nothing to drop. -/
theorem trimBy_eq_dropTail_iff :
    trimBy p s = dropTail p s ↔ (∀ c ∈ s.head?, p c = false) ∨ ∀ c ∈ s, p c = true := by
  constructor
  · intro same
    by_cases all : ∀ c ∈ s, p c = true
    · exact .inr all
    · have filled : dropTail p (s.dropWhile p) ≠ [] := fun none => all (trimBy_eq_nil_iff.mp none)
      have whole := dropTail_append p (s.takeWhile p) (s.dropWhile p)
      rw [List.takeWhile_append_dropWhile, if_neg filled] at whole
      have noFront : s.takeWhile p = [] := by
        rw [whole, trimBy] at same
        exact List.append_left_eq_self.mp same.symm
      refine .inl fun c isHead => Bool.eq_false_iff.mpr fun holds => ?_
      obtain ⟨rest, rfl⟩ := List.head?_eq_some_iff.mp isHead
      rw [List.takeWhile_cons_of_pos holds] at noFront
      cases noFront
  · rintro (bare | all)
    · rw [trimBy, dropWhile_eq_self bare]
    · rw [trimBy_eq_nil_iff.mpr all, dropTail_eq_nil_iff.mpr all]

end

end Text

/-! ## Addresses and directories -/

namespace Page

def isSlash (c : Char) : Bool := c = '/'

/-- Whether two addresses differ at most in the slashes at their ends. -/
def SameAddress (s t : String) : Prop :=
  Text.dropTail isSlash s.toList = Text.dropTail isSlash t.toList

instance (s t : String) : Decidable (SameAddress s t) :=
  inferInstanceAs (Decidable (Text.dropTail isSlash s.toList = Text.dropTail isSlash t.toList))

/-- The directory of the page's files below `base`. -/
def directoryAddress (page : Page) (base : String) : String :=
  String.ofList (Text.dropTail isSlash base.toList) ++ "/" ++ page.pathSegment

/-- The name that an address is made of, before the slashes in front are dropped. -/
def addressName (page : Page) : List Char :=
  if page.slug.getD "" = "" then page.id.toList else (page.slug.getD "").toList

theorem toList_address (page : Page) (base : String) :
    (page.address base).toList =
      Text.dropTail isSlash base.toList ++ ['/'] ++ page.addressName.dropWhile isSlash := by
  have name : (if page.slug.getD "" = "" then page.id else page.slug.getD "").toList =
      page.addressName := by
    rw [addressName]
    split <;> rfl
  simp only [address, joinAddress, String.toList_append, String.toList_ofList, name]
  rfl

theorem toList_pathSegment (page : Page) :
    page.pathSegment.toList =
      if ∀ c ∈ (page.slug.getD "").toList, isSlash c = true then page.id.toList
      else Text.trimBy isSlash (page.slug.getD "").toList := by
  have empty : String.ofList (Text.trimBy isSlash (page.slug.getD "").toList) = "" ↔
      ∀ c ∈ (page.slug.getD "").toList, isSlash c = true := by
    rw [← Text.trimBy_eq_nil_iff, ← String.toList_inj, String.toList_ofList]
    rfl
  have segment : page.pathSegment =
      if String.ofList (Text.trimBy isSlash (page.slug.getD "").toList) = "" then page.id
      else String.ofList (Text.trimBy isSlash (page.slug.getD "").toList) := rfl
  rw [segment]
  simp only [empty]
  split
  · rfl
  · exact String.toList_ofList

theorem sameAddress_iff (page : Page) (base : String) :
    SameAddress (page.address base) (page.directoryAddress base) ↔
      Text.trimBy isSlash page.addressName = Text.dropTail isSlash page.pathSegment.toList := by
  have directory : (page.directoryAddress base).toList =
      Text.dropTail isSlash base.toList ++ ['/'] ++ page.pathSegment.toList := by
    simp only [directoryAddress, String.toList_append, String.toList_ofList]
    rfl
  rw [SameAddress, toList_address, directory, Text.dropTail_append_inj]
  rfl

/--
The slug holds more than slashes; or there is none, and the id does not start with a slash. An id
of nothing but slashes adds nothing to the base either way.
-/
def IsPublished (page : Page) : Prop :=
  (∃ c ∈ (page.slug.getD "").toList, isSlash c = false) ∨
    (page.slug.getD "" = "" ∧ ∀ c ∈ page.id.toList.head?, isSlash c = false) ∨
    ∀ c ∈ page.id.toList, isSlash c = true

theorem sameAddress_iff_isPublished (page : Page) (base : String) :
    SameAddress (page.address base) (page.directoryAddress base) ↔ page.IsPublished := by
  rw [sameAddress_iff, toList_pathSegment, addressName, IsPublished]
  by_cases named : ∃ c ∈ (page.slug.getD "").toList, isSlash c = false
  · have filled : page.slug.getD "" ≠ "" := by
      intro empty
      simp [empty] at named
    have notSlashes : ¬∀ c ∈ (page.slug.getD "").toList, isSlash c = true := by
      simpa using named
    rw [if_neg filled, if_neg notSlashes]
    exact iff_of_true (Text.dropTail_dropTail _ _).symm (.inl named)
  · have slashes : ∀ c ∈ (page.slug.getD "").toList, isSlash c = true := by
      simpa using named
    rw [if_pos slashes]
    by_cases empty : page.slug.getD "" = ""
    · rw [if_pos empty, Text.trimBy_eq_dropTail_iff]
      simp [empty]
    · rw [if_neg empty, Text.trimBy_eq_nil_iff.mpr slashes, eq_comm, Text.dropTail_eq_nil_iff]
      simp [named, empty]

/-- The map of pages holds the address of each of them. -/
theorem infix_sitemap (before : List Page) (page : Page) (after : List Page) (base : String)
    (now : DateTime) :
    ("<loc>" ++ Markup.escape (page.address base) ++ "</loc>").toList <:+:
      (sitemap (before ++ page :: after) base now).toList := by
  have inEntry : ("<loc>" ++ Markup.escape (page.address base) ++ "</loc>").toList <:+:
      (entryPieces page base now).flatMap ('<' :: ·) :=
    ⟨"<url>\n".toList,
      '\n' :: ((entryPieces page base now).drop 3).flatMap ('<' :: ·), by
        simp [entryPieces, openPiece, closePiece]⟩
  have inEntries : (entryPieces page base now).flatMap ('<' :: ·) <:+:
      (sitemapPieces (before ++ page :: after) base now).flatMap ('<' :: ·) := by
    have ofPages : (entryPieces page base now).flatMap ('<' :: ·) <:+:
        ((before ++ page :: after).flatMap (entryPieces · base now)).flatMap ('<' :: ·) := by
      have listed : page ∈ before ++ page :: after := by simp
      rw [List.flatMap_assoc]
      exact List.infix_of_mem_flatten (List.mem_map_of_mem listed)
    rw [sitemapPieces, List.flatMap_cons, List.flatMap_append]
    exact ofPages.trans ((List.prefix_append _ _).isInfix.trans (List.suffix_append _ _).isInfix)
  rw [toList_sitemap, ← List.append_assoc]
  exact (inEntry.trans inEntries).trans (List.suffix_append _ _).isInfix

/--
Both the canonical link and the map of the site publish the address of a page. It is the address of
the directory of the page's files, but for slashes at the end, exactly if the slug holds more than
slashes, or there is no slug and the id does not start with a slash.
-/
theorem address_eq_directory_iff (page : Page) (base : String) :
    (SameAddress (page.address base) (page.directoryAddress base) ↔ page.IsPublished) ∧
      (∀ (heap : Heap) (description : Option String) (body styles : String)
          (around : Surroundings), ∃ texts : Ordered String,
        document { page with description := descriptionValue description } heap body styles
            { around with baseUrl := .str base } = .ok (Markup.fill template texts) ∧
          Ordered.get? texts "canonical" = some (Markup.escape (page.address base))) ∧
      ∀ (before after : List Page) (now : DateTime),
        ("<loc>" ++ Markup.escape (page.address base) ++ "</loc>").toList <:+:
          (sitemap (before ++ page :: after) base now).toList :=
  ⟨sameAddress_iff_isPublished page base,
    fun heap description body styles around =>
      ⟨_, document_eq_fill page heap description base body styles around, rfl⟩,
    fun before after now => infix_sitemap before page after base now⟩

/-- The slug is a slash: the page is published as the root, but lies in the directory of its id. -/
theorem address_of_slash_ne :
    ¬ SameAddress (({ id := "p", slug := some "/", title := none } : Page).address "https://x")
      (({ id := "p", slug := some "/", title := none } : Page).directoryAddress "https://x") := by
  decide

end Page

end StaticSite
