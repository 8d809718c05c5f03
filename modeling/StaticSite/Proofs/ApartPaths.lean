import Mathlib.Data.List.Pairwise
import StaticSite.Proofs.Contents
import StaticSite.Proofs.FailFast

/-!
# Files in the way of each other

The pages of a site share one directory with each other and with the files for crawlers, and their
slugs and ids alone decide where in it their files go. All files have a place of their own, none
beneath another, exactly if no two pages have one directory and no directory is where a file is to
be, and then a build that is written loses none of them.
-/

namespace StaticSite

namespace Tree

/-- Files can stand at both places: neither place is the other or lies beneath it. -/
def AreApart (place other : Place) : Prop :=
  isWithin place other = false ∧ isWithin other place = false

instance (place other : Place) : Decidable (AreApart place other) :=
  inferInstanceAs (Decidable (_ ∧ _))

theorem isWithin_child_child {base other : Place} (name name' : String) :
    isWithin (base ++ [name]) (other ++ [name']) = false ↔
      (base = other → name ≠ name') ∧ isWithin (base ++ [name]) other = false := by
  simp only [← Bool.not_eq_true, isWithin_iff, List.prefix_concat_iff, List.append_singleton_inj,
    not_or, not_and, Ne]

theorem isWithin_child_self (base : Place) (name : String) :
    isWithin (base ++ [name]) base = false := by
  rw [Bool.eq_false_iff, Ne, isWithin_iff]
  intro within
  have longer := within.length_le
  rw [List.length_append, List.length_singleton] at longer
  omega

/-- Two files are apart if they are not the same one and neither is on the way to the other. -/
theorem areApart_child_iff {base other : Place} (name name' : String) :
    AreApart (base ++ [name]) (other ++ [name']) ↔
      (base = other → name ≠ name') ∧ isWithin (base ++ [name]) other = false ∧
        isWithin (other ++ [name']) base = false := by
  rw [AreApart, isWithin_child_child, isWithin_child_child]
  constructor
  · rintro ⟨⟨different, left⟩, -, right⟩
    exact ⟨different, left, right⟩
  · rintro ⟨different, left, right⟩
    exact ⟨⟨different, left⟩, fun same => (different same.symm).symm, right⟩

end Tree

namespace Build

open Output (placeOf)
open StaticSite.Tree (AreApart isWithin areApart_child_iff isWithin_child_self)

/-! ## Room for files -/

/-- No file of a page in the directory `base` is the directory `other` or on the way to it. -/
def IsClearOf (base other : Place) : Prop :=
  ∀ name ∈ Page.fileNames, isWithin (base ++ [name]) other = false

/-- The files of pages with these directories, and files for crawlers in `base`, have room. -/
structure HaveRoom (directories : List Place) (base : Place) (crawlers : List String) : Prop where
  /-- No two pages have the same directory. -/
  distinct : directories.Nodup
  /-- No page has its directory where a file of a page is to be, or beneath. -/
  pages : ∀ directory ∈ directories, ∀ other ∈ directories, IsClearOf directory other
  /-- Nor has it where a file for crawlers is to be; and that is not beneath a file of a page. -/
  crawlers : ∀ directory ∈ directories, ∀ name ∈ crawlers,
    isWithin (base ++ [name]) directory = false ∧ IsClearOf directory base

section

variable {directory other base : Place} {directories : List Place} {crawlers : List String}

theorem areApart_pages_iff :
    (∀ place ∈ Page.fileNames.map (directory ++ [·]), ∀ place' ∈ Page.fileNames.map (other ++ [·]),
        AreApart place place') ↔
      directory ≠ other ∧ IsClearOf directory other ∧ IsClearOf other directory := by
  simp only [List.forall_mem_map, areApart_child_iff]
  constructor
  · intro apart
    have listed : "styles.css" ∈ Page.fileNames := List.mem_cons_self
    exact ⟨fun same => (apart _ listed _ listed).1 same rfl,
      fun name member => (apart name member _ listed).2.1,
      fun name member => (apart _ listed name member).2.2⟩
  · rintro ⟨different, left, right⟩ name member name' member'
    exact ⟨fun same => absurd same different, left name member, right name' member'⟩

/-- Files of different names in one directory are apart. -/
theorem pairwise_areApart_names {names : List String} (distinct : names.Nodup) (base : Place) :
    (names.map (base ++ [·])).Pairwise AreApart := by
  rw [List.pairwise_map]
  refine distinct.imp fun different => ?_
  exact (areApart_child_iff _ _).mpr
    ⟨fun _ => different, isWithin_child_self _ _, isWithin_child_self _ _⟩

/-- One condition for each two directories is one condition for each and one for all pairs. -/
theorem pairwise_areApart_pages_iff :
    directories.Pairwise (fun directory other =>
        directory ≠ other ∧ IsClearOf directory other ∧ IsClearOf other directory) ↔
      directories.Nodup ∧
        ∀ directory ∈ directories, ∀ other ∈ directories, IsClearOf directory other := by
  constructor
  · intro pairwise
    have symm : Std.Symm fun directory other : Place =>
        IsClearOf directory other ∧ IsClearOf other directory := ⟨fun _ _ => And.symm⟩
    have self (directory : Place) : IsClearOf directory directory :=
      fun name _ => isWithin_child_self directory name
    have all := (pairwise.imp And.right).forall_of_forall fun directory _ =>
      ⟨self directory, self directory⟩
    exact ⟨pairwise.imp And.left, fun directory here other there => (all here there).1⟩
  · rintro ⟨distinct, clear⟩
    exact distinct.imp_of_mem fun here there different =>
      ⟨different, clear _ here _ there, clear _ there _ here⟩

theorem areApart_crawlers_iff (foreign : ∀ name ∈ crawlers, name ∉ Page.fileNames) :
    (∀ place ∈ Page.fileNames.map (directory ++ [·]), ∀ place' ∈ crawlers.map (base ++ [·]),
        AreApart place place') ↔
      ∀ name ∈ crawlers,
        isWithin (base ++ [name]) directory = false ∧ IsClearOf directory base := by
  simp only [List.forall_mem_map, areApart_child_iff]
  constructor
  · intro apart name member
    exact ⟨(apart _ List.mem_cons_self name member).2.2,
      fun file inFiles => (apart file inFiles name member).2.1⟩
  · intro clear file inFiles name member
    refine ⟨fun _ same => foreign name member (same ▸ inFiles), ?_⟩
    exact ⟨(clear name member).2 file inFiles, (clear name member).1⟩

/-- The files of pages and crawlers are all apart exactly if they have room. -/
theorem pairwise_areApart_iff (distinct : crawlers.Nodup)
    (foreign : ∀ name ∈ crawlers, name ∉ Page.fileNames) :
    ((directories.flatMap fun directory => Page.fileNames.map (directory ++ [·])) ++
        crawlers.map (base ++ [·])).Pairwise AreApart ↔
      HaveRoom directories base crawlers := by
  have named : Page.fileNames.Nodup := by decide
  have between : (∀ place ∈ directories.flatMap fun directory =>
        Page.fileNames.map (directory ++ [·]), ∀ place' ∈ crawlers.map (base ++ [·]),
          AreApart place place') ↔
      ∀ directory ∈ directories, ∀ name ∈ crawlers,
        isWithin (base ++ [name]) directory = false ∧ IsClearOf directory base := by
    rw [List.forall_mem_flatMap]
    exact forall₂_congr fun _ _ => areApart_crawlers_iff foreign
  rw [List.pairwise_append, List.pairwise_flatMap, between]
  simp only [areApart_pages_iff, pairwise_areApart_pages_iff]
  constructor
  · rintro ⟨⟨-, distinct, pages⟩, -, crawlers⟩
    exact ⟨distinct, pages, crawlers⟩
  · rintro ⟨distinctPages, pages, crawlers⟩
    exact ⟨⟨fun _ _ => pairwise_areApart_names named _, distinctPages, pages⟩,
      pairwise_areApart_names distinct base, crawlers⟩

end

/-! ## Places of built files -/

/-- Where the directory of a page lies. -/
def pagePlace (tree : Tree) (output : Path) (page : Page) : Place :=
  tree.spelled (output.join page.directory)

/-- The places of the files that a site of these pages needs have room in the output directory. -/
def HasRoom (setting : Setting) (drafts : List Draft) (tree : Tree) (output : Path) : Prop :=
  HaveRoom (drafts.map fun draft => pagePlace tree output draft.page) (tree.spelled output)
    setting.options.crawlerNames

section

variable (tree : Tree) (output : Path)

theorem placeOf_filePath (page : Page) {name : String} (member : name ∈ Page.fileNames) :
    placeOf tree output (page.pathSegment ++ "/" ++ name) =
      pagePlace tree output page ++ [name] := by
  rw [placeOf, Page.ofText_filePath page member, Path.join_child]
  exact Output.spelled_child _ (Page.fileNames_spelled name member).2.2

theorem placeOf_crawler {name : String} (member : name ∈ crawlerPaths) :
    placeOf tree output name = tree.spelled output ++ [name] := by
  have plain : ∀ name ∈ crawlerPaths, name ≠ ".." ∧ Path.ofText name = ⟨0, [name]⟩ := by
    decide
  obtain ⟨forward, spelled⟩ := plain name member
  rw [placeOf, spelled]
  exact Output.spelled_child output forward

variable {setting : Setting} {drafts : List Draft} {result : Result} {events : List Log.Event}

theorem placesOf_files (built : buildSite setting drafts = .ok (result, events))
    (succeeded : result.failure = none) :
    result.files.map (placeOf tree output ·.path) =
      ((drafts.map fun draft => pagePlace tree output draft.page).flatMap fun directory =>
          Page.fileNames.map (directory ++ [·])) ++
        setting.options.crawlerNames.map (tree.spelled output ++ [·]) := by
  have ofPage (page : Page) : page.filePaths.map (placeOf tree output) =
      Page.fileNames.map (pagePlace tree output page ++ [·]) := by
    rw [Page.filePaths, List.map_map]
    refine List.map_congr_left fun name member => ?_
    rw [Function.comp_apply, placeOf_filePath tree output page member]
  have ofCrawlers : setting.options.crawlerNames.map (placeOf tree output) =
      setting.options.crawlerNames.map (tree.spelled output ++ [·]) :=
    List.map_congr_left fun name member =>
      placeOf_crawler tree output (crawlerNames_subset _ name member)
  have paths : result.files.map (placeOf tree output ·.path) =
      (result.files.map (·.path)).map (placeOf tree output) := by
    rw [List.map_map, Function.comp_def]
  rw [paths, buildSite_files built succeeded, List.map_append, List.map_flatMap, ofCrawlers,
    List.flatMap_map]
  simp only [ofPage]

/-- Of texts that go to places apart, each is there in the end. -/
theorem contentAfter_of_apart {texts : List (String × String)}
    (apart : (texts.map (placeOf tree output ·.1)).Pairwise AreApart) :
    ∀ entry ∈ texts, ∀ content, Work.contentAfter tree output (placeOf tree output entry.1)
      content texts = some (Utf8.encode entry.2) := by
  have different {place other : Place} (apart : AreApart place other) : other ≠ place := by
    rintro rfl
    exact Bool.eq_false_iff.mp apart.1 (Tree.isWithin_iff.mpr (List.prefix_refl _))
  induction texts with
  | nil => exact fun _ member => nomatch member
  | cons first texts ih =>
    rw [List.map_cons, List.pairwise_cons, List.forall_mem_map] at apart
    intro entry member content
    rcases List.mem_cons.mp member with rfl | later
    · rw [Work.contentAfter, if_pos rfl]
      exact Work.contentAfter_of_ne (fun other inTexts => different (apart.1 other inTexts)) _
    · rw [Work.contentAfter]
      exact ih apart.2 entry later _

theorem bytesAt?_of_writeTexts {texts : List (String × String)} {after : Tree}
    (apart : (texts.map (placeOf tree output ·.1)).Pairwise AreApart)
    (written : (Output.writeTexts output texts).run tree = .ok () after) :
    ∀ entry ∈ texts,
      after.bytesAt? (placeOf tree output entry.1) = some (Utf8.encode entry.2) := by
  intro entry member
  have holds := Work.achieves_writeTexts texts tree () after
    (Work.Holds.refl tree (placeOf tree output entry.1)) written
  rw [holds.1.content]
  exact contentAfter_of_apart tree output apart entry member _

theorem areApart_files_iff (built : buildSite setting drafts = .ok (result, events))
    (succeeded : result.failure = none) :
    (result.files.map (placeOf tree output ·.path)).Pairwise AreApart ↔
      HasRoom setting drafts tree output := by
  rw [placesOf_files tree output built succeeded]
  refine pairwise_areApart_iff ?_ ?_
  · unfold Options.crawlerNames
    cases setting.options.generateSitemap <;> cases setting.options.generateRobots <;> decide
  · have foreign : ∀ name ∈ crawlerPaths, name ∉ Page.fileNames := by decide
    exact fun name member => foreign name (crawlerNames_subset _ name member)

/--
The files of a site that was built have places apart exactly if there is room for them: no two pages
have the same directory, no page's directory is where a file is to be or beneath it, and no file
for crawlers is to be beneath a file of a page. Then none of them is lost when they are written.
-/
theorem buildSite_apart_iff (built : buildSite setting drafts = .ok (result, events))
    (succeeded : result.failure = none) :
    ((result.files.map (placeOf tree output ·.path)).Pairwise AreApart ↔
        HasRoom setting drafts tree output) ∧
      (HasRoom setting drafts tree output → ∀ after,
        (Output.writeTexts output
            (result.files.map fun file => (file.path, file.content))).run tree = .ok () after →
          ∀ file ∈ result.files,
            after.bytesAt? (placeOf tree output file.path) =
              some (Utf8.encode file.content)) := by
  have apartIff := areApart_files_iff tree output built succeeded
  refine ⟨apartIff, fun room after written file member => ?_⟩
  have texts : result.files.map (placeOf tree output ·.path) =
      (result.files.map fun file => (file.path, file.content)).map
        (placeOf tree output ·.1) := by
    rw [List.map_map, Function.comp_def]
  exact bytesAt?_of_writeTexts tree output (texts ▸ apartIff.mpr room) written
    (file.path, file.content) (List.mem_map_of_mem member)

end

/-! ## Pages in the way of each other -/

/-- Pages without components, each by its id and its slug. -/
def blankDrafts (pages : List (String × String)) : List Draft :=
  pages.map fun (id, slug) => { page := { id, slug := some slug, title := none }, entries := [] }

theorem exists_buildSite_blank (pages : List (String × String)) :
    ∃ result events, buildSite bareSetting (blankDrafts pages) = .ok (result, events) ∧
      result.failure = none := by
  have clock : bareSetting.now.IsUniversal := DateTime.isUniversal_ofEpoch 0
  have succeeded : ∀ draft ∈ blankDrafts pages, (buildPage bareSetting draft).1.failure = none := by
    intro draft member
    obtain ⟨⟨id, slug⟩, -, rfl⟩ := List.mem_map.mp member
    exact failure_buildPage_of_written clock rfl rfl rfl
  have based : bareSetting.options.baseUrl = .str "" := rfl
  obtain ⟨stats, merged⟩ := exists_merge_pages clock (blankDrafts pages)
  rw [buildSite, buildPages_succeeded succeeded]
  simp only [List.map_map, Function.comp_def, merged, crawlerFiles_of_base based]
  exact ⟨_, _, rfl, rfl⟩

def dist : Path := ⟨0, ["dist"]⟩

theorem buildSite_apart_blank :
    ∃ result events, buildSite bareSetting (blankDrafts [("a", "s"), ("b", "")]) =
        .ok (result, events) ∧ result.failure = none ∧
      (result.files.map (placeOf ⟨[], []⟩ dist ·.path)).Pairwise AreApart := by
  obtain ⟨result, events, built, succeeded⟩ := exists_buildSite_blank [("a", "s"), ("b", "")]
  refine ⟨result, events, built, succeeded, ?_⟩
  refine (buildSite_apart_iff ⟨[], []⟩ dist built succeeded).1.mpr ⟨?_, ?_, ?_⟩
  · decide
  · unfold IsClearOf
    decide
  · unfold IsClearOf
    decide

/-- A site of blank pages that is built, with files that do not all have a place. -/
def Collide (pages : List (String × String)) : Prop :=
  ∃ result events, buildSite bareSetting (blankDrafts pages) = .ok (result, events) ∧
    result.failure = none ∧ ¬ (result.files.map (placeOf ⟨[], []⟩ dist ·.path)).Pairwise AreApart

theorem collide_of_places {pages : List (String × String)}
    (collide : ¬ (((blankDrafts pages).map fun draft => pagePlace ⟨[], []⟩ dist draft.page).flatMap
        (fun directory => Page.fileNames.map (directory ++ [·])) ++
      bareSetting.options.crawlerNames.map
        (Tree.spelled ⟨[], []⟩ dist ++ [·])).Pairwise AreApart) : Collide pages := by
  obtain ⟨result, events, built, succeeded⟩ := exists_buildSite_blank pages
  refine ⟨result, events, built, succeeded, ?_⟩
  rw [placesOf_files _ _ built succeeded]
  exact collide

/--
Two pages with one slug, a slug that leads through a file of another page, and a slug that is the
name of the site's map.
-/
theorem buildSite_blank_notApart :
    Collide [("a", "s"), ("b", "s")] ∧ Collide [("a", "s"), ("b", "s/index.html")] ∧
      Collide [("a", "sitemap.xml")] :=
  ⟨collide_of_places (by decide), collide_of_places (by decide), collide_of_places (by decide)⟩

end Build

end StaticSite
