import StaticSite.Proofs.Confinement

/-!
# Contents of files

Work on a tree changes the contents of few files: a text is written at one place, and a directory is
removed or copied with what lies beneath its place. What any other place holds, the bytes of a file
or none, it holds through all of the work, whether that succeeds or is refused.
-/

namespace StaticSite

namespace Tree

section

variable {tree : Tree} {place other : Place}

theorem bytesAt?_of_find? {bytes : Bytes} (found : tree.find? place = some (.file bytes)) :
    tree.bytesAt? place = some bytes := by
  rw [bytesAt?, found]

theorem find?_of_bytesAt? {bytes : Bytes} (held : tree.bytesAt? place = some bytes) :
    tree.find? place = some (.file bytes) := by
  unfold bytesAt? at held
  split at held
  next found =>
    cases held
    exact found
  · cases held

theorem isWithin_append_of_not (outside : isWithin other place = false) (rest : Place) :
    isWithin (other ++ rest) place = false :=
  isWithin_eq_false_of_outer (isWithin_append other rest) outside

theorem bytesAt?_congr {after : Tree} (same : after.find? place = tree.find? place) :
    after.bytesAt? place = tree.bytesAt? place := by
  rw [bytesAt?, bytesAt?, same]

theorem bytesAt?_put_of_ne (different : other ≠ place) (what : Stored) :
    (tree.put place what).bytesAt? other = tree.bytesAt? other := by
  refine bytesAt?_congr ?_
  by_cases root : place = []
  · have kept := lookup_filter (fun key => key != place) tree.stored other
    have here : (other != place) = true := bne_iff_ne.mpr different
    have apart : (other == place) = false := beq_eq_false_iff_ne.mpr different
    rw [if_pos here] at kept
    simp [find?, put, List.lookup_append, kept, List.lookup_cons, apart]
  · rw [find?_put what root, if_neg different]

/-- A directory that is put where nothing stands holds no bytes, and nothing else changes. -/
theorem bytesAt?_put_directory (missing : tree.find? place = none) :
    (tree.put place .directory).bytesAt? other = tree.bytesAt? other := by
  by_cases same : other = place
  · have nonempty : place ≠ [] := by
      rintro rfl
      cases missing
    subst same
    rw [bytesAt?, bytesAt?, find?_put .directory nonempty, if_pos rfl, missing]
  · exact bytesAt?_put_of_ne same .directory

theorem bytesAt?_clear :
    (tree.clear place).bytesAt? other =
      if isBeneath place other then none else tree.bytesAt? other := by
  rw [bytesAt?, bytesAt?, find?_clear]
  cases isBeneath place other <;> rfl

theorem bytesAt?_remove :
    (tree.remove place).bytesAt? other =
      if isWithin place other then none else tree.bytesAt? other := by
  by_cases root : other = []
  · subst root
    simp [bytesAt?]
  · rw [bytesAt?, bytesAt?, find?_remove root]
    cases isWithin place other <;> rfl

end

end Tree

/-- Where the text goes that is written to a path beneath the output directory. -/
def Output.placeOf (tree : Tree) (output : Path) (path : String) : Place :=
  tree.spelled (output.join (Path.ofText path))

namespace Work

/-! ## Work from one kind of tree to another -/

/-- Work on a tree that is `first` ends, however it does, with one that is `last`. -/
def Yields {α : Type} (first last : Tree → Prop) (work : Work α) (post : α → Prop) : Prop :=
  ∀ tree, first tree →
    match work.run tree with
    | .ok value after => last after ∧ post value
    | .error _ after => last after

/-- Work on a tree that is `first`, when it succeeds, ends with one that is `last`. -/
def Achieves {α : Type} (first last : Tree → Prop) (work : Work α) (post : α → Prop) : Prop :=
  ∀ tree value after, first tree → work.run tree = .ok value after → last after ∧ post value

section

variable {α β : Type} {first middle last : Tree → Prop} {work : Work α} {next : α → Work β}
  {post : α → Prop} {final : β → Prop}

theorem yields_bind (start : Yields first middle work post)
    (onward : ∀ value, post value → Yields middle last (next value) final)
    (weaker : ∀ tree, middle tree → last tree) : Yields first last (work >>= next) final := by
  intro tree before
  have step := start tree before
  simp only [EStateM.run] at step
  simp only [EStateM.run, bind, EStateM.bind]
  cases result : work tree with
  | ok value after =>
    rw [result] at step
    exact onward value step.2 after step.1
  | error fault after =>
    rw [result] at step
    exact weaker after step

theorem yields_of_ensures (kept : Ensures last work post)
    (weaker : ∀ tree, first tree → last tree) : Yields first last work post :=
  fun tree before => kept tree (weaker tree before)

theorem achieves_of_yields (yields : Yields first last work post) :
    Achieves first last work post := by
  intro tree value after before done
  have step := yields tree before
  rw [done] at step
  exact step

theorem achieves_pure {value : α} (holds : post value) :
    Achieves first first (pure value) post :=
  achieves_of_yields (ensures_pure holds)

theorem achieves_refuse (cause : FileCause) (path : Path) :
    Achieves first last (refuse cause path) post :=
  fun _ _ _ _ done => nomatch done

theorem achieves_bind (start : Achieves first middle work post)
    (onward : ∀ value, post value → Achieves middle last (next value) final) :
    Achieves first last (work >>= next) final := by
  intro tree value after before done
  simp only [EStateM.run, bind, EStateM.bind] at done
  cases result : work tree with
  | ok value' there =>
    simp only [result] at done
    obtain ⟨reached, holds⟩ := start tree value' there before result
    exact onward value' holds there value after reached done
  | error fault there =>
    rw [result] at done
    cases done

/-- Two properties that are kept are kept together. -/
theorem ensures_and {other : Tree → Prop} (kept : Ensures first work post)
    (otherKept : Keeps other work) : Ensures (fun tree => first tree ∧ other tree) work post := by
  intro tree before
  have left := kept tree before.1
  have right := otherKept tree before.2
  split
  next value after done =>
    rw [done] at left right
    exact ⟨⟨left.1, right.1⟩, left.2⟩
  next fault after done =>
    rw [done] at left right
    exact ⟨left, right⟩

end

/-! ## What a place holds -/

/-- The place holds `content`: the bytes of a file, or none. -/
structure Holds (before : Tree) (place : Place) (content : Option Bytes) (tree : Tree) : Prop where
  home : tree.home = before.home
  content : tree.bytesAt? place = content

section

variable {before tree : Tree} {place : Place} {content : Option Bytes} {path : Path}

theorem Holds.refl (tree : Tree) (place : Place) : Holds tree place (tree.bytesAt? place) tree :=
  ⟨rfl, rfl⟩

theorem Holds.spelled (holds : Holds before place content tree) (path : Path) :
    tree.spelled path = before.spelled path :=
  Tree.spelled_congr holds.home path

theorem Holds.remove (holds : Holds before place content tree) {other : Place}
    (gone : Tree.isWithin other place = true → content = none) :
    Holds before place content (tree.remove other) := by
  refine ⟨holds.home, ?_⟩
  rw [Tree.bytesAt?_remove]
  split
  next within => exact (gone within).symm
  · exact holds.content

theorem Holds.put_of_ne (holds : Holds before place content tree) {other : Place}
    (different : place ≠ other) (what : Stored) :
    Holds before place content (tree.put other what) :=
  ⟨holds.home, (Tree.bytesAt?_put_of_ne different what).trans holds.content⟩

theorem ensures_reach_holds (path : Path) :
    Ensures (Holds before place content) (reach path) fun result =>
      result.1 = before.spelled path :=
  ensures_reach fun _ holds => holds.spelled path

theorem keeps_haveDirectories_holds (path : Path) :
    Keeps (Holds before place content) (haveDirectories path) :=
  keeps_haveDirectories fun _ _ _ holds missing =>
    ⟨holds.home, (Tree.bytesAt?_put_directory missing).trans holds.content⟩

theorem keeps_writeBytes_elsewhere {bytes : Bytes} (elsewhere : place ≠ before.spelled path) :
    Keeps (Holds before place content) (writeBytes path bytes) :=
  keeps_writeBytes fun _ holds _ => holds.put_of_ne (holds.spelled path ▸ elsewhere) _

theorem keeps_writeText_elsewhere {text : String} (elsewhere : place ≠ before.spelled path) :
    Keeps (Holds before place content) (writeText path text) :=
  ensures_bind (keeps_haveDirectories_holds path.parent) fun _ _ =>
    keeps_writeBytes_elsewhere elsewhere

theorem achieves_writeText {text : String} :
    Achieves (Holds before (before.spelled path) content)
      (Holds before (before.spelled path) (some (Utf8.encode text))) (writeText path text)
      fun _ => True := by
  refine achieves_bind (achieves_of_yields (keeps_haveDirectories_holds path.parent))
    fun _ _ tree value after holds done => ?_
  obtain ⟨free, rfl⟩ := of_run_writeBytes done
  refine ⟨⟨holds.home, Tree.bytesAt?_of_find? ?_⟩, trivial⟩
  rw [← holds.spelled path, Tree.find?_put _ (nonempty_of_free free), if_pos rfl]

/-- What a place that holds `content` holds after texts have been written to their paths. -/
def contentAfter (before : Tree) (output : Path) (place : Place) :
    Option Bytes → List (String × String) → Option Bytes
  | content, [] => content
  | content, (path, text) :: texts =>
    contentAfter before output place
      (if Output.placeOf before output path = place then some (Utf8.encode text) else content) texts

/-- Texts that go to other places leave a place as it is. -/
theorem contentAfter_of_ne {output : Path} {texts : List (String × String)}
    (elsewhere : ∀ entry ∈ texts, Output.placeOf before output entry.1 ≠ place)
    (content : Option Bytes) : contentAfter before output place content texts = content := by
  induction texts with
  | nil => rfl
  | cons entry texts ih =>
    rw [List.forall_mem_cons] at elsewhere
    rw [contentAfter, if_neg elsewhere.1, ih elsewhere.2]

/-- A place that texts go to holds one of them in the end. -/
theorem exists_contentAfter {output : Path} {texts : List (String × String)}
    (written : ∃ entry ∈ texts, Output.placeOf before output entry.1 = place)
    (content : Option Bytes) :
    ∃ entry ∈ texts, Output.placeOf before output entry.1 = place ∧
      contentAfter before output place content texts = some (Utf8.encode entry.2) := by
  induction texts generalizing content with
  | nil =>
    obtain ⟨entry, member, -⟩ := written
    cases member
  | cons first texts ih =>
    by_cases later : ∃ entry ∈ texts, Output.placeOf before output entry.1 = place
    · obtain ⟨entry, member, holds⟩ := ih later _
      exact ⟨entry, List.mem_cons_of_mem first member, holds⟩
    · have elsewhere : ∀ entry ∈ texts, Output.placeOf before output entry.1 ≠ place :=
        fun entry member here => later ⟨entry, member, here⟩
      obtain ⟨entry, member, here⟩ := written
      rcases List.mem_cons.mp member with rfl | inTexts
      · refine ⟨entry, List.mem_cons_self, here, ?_⟩
        rw [contentAfter, if_pos here, contentAfter_of_ne elsewhere]
      · exact absurd here (elsewhere entry inTexts)

theorem achieves_writeTexts {output : Path} (texts : List (String × String)) :
    Achieves (Holds before place content)
      (Holds before place (contentAfter before output place content texts))
      (Output.writeTexts output texts) fun _ => True := by
  induction texts generalizing content with
  | nil => exact achieves_pure trivial
  | cons entry texts ih =>
    obtain ⟨path, text⟩ := entry
    have first : Achieves (Holds before place content)
        (Holds before place
          (if Output.placeOf before output path = place then some (Utf8.encode text) else content))
        (writeText (output.join (Path.ofText path)) text) fun _ => True := by
      split
      next same =>
        subst same
        exact achieves_writeText
      next elsewhere => exact achieves_of_yields (keeps_writeText_elsewhere (Ne.symm elsewhere))
    exact achieves_bind first fun _ _ => ih

theorem keeps_writeTexts_elsewhere {output : Path} {texts : List (String × String)}
    (elsewhere : ∀ entry ∈ texts, place ≠ Output.placeOf before output entry.1) :
    Keeps (Holds before place content) (Output.writeTexts output texts) :=
  keeps_forM fun entry member => keeps_writeText_elsewhere (elsewhere entry member)

/-! ## Removing and copying -/

/-- Removing a directory leaves what does not lie beneath it: a directory itself holds no bytes. -/
theorem keeps_removeDirectory_elsewhere
    (elsewhere : Tree.isBeneath (before.spelled path) place = false) :
    Keeps (Holds before place content) (removeDirectory path) := by
  have spells (tree : Tree) (holds : Holds before place content tree) :
      tree.spelled path = before.spelled path := holds.spelled path
  have clear (tree : Tree) (holds : Holds before place content tree) :
      Holds before place content (tree.clear (before.spelled path)) := by
    refine ⟨holds.home, ?_⟩
    rw [Tree.bytesAt?_clear, elsewhere]
    exact holds.content
  by_cases gone : Tree.isWithin (before.spelled path) place = true → content = none
  · exact keeps_removeDirectory spells clear fun _ holds => holds.remove gone
  · obtain ⟨within, filled⟩ := Classical.not_imp.mp gone
    have here : before.spelled path = place := by
      by_contra different
      rw [Tree.isBeneath_iff.mpr ⟨Tree.isWithin_iff.mp within, Ne.symm different⟩] at elsewhere
      cases elsewhere
    refine keeps_reach_then fun tree holds _ => ?_
    obtain ⟨bytes, held⟩ := Option.ne_none_iff_exists'.mp filled
    have found := Tree.find?_of_bytesAt? (holds.content.trans held)
    rw [holds.spelled, here, found]
    exact holds

/-- Removing a directory takes away what lies beneath it. -/
theorem achieves_removeDirectory (beneath : Tree.isBeneath (before.spelled path) place = true) :
    Achieves (Holds before place content) (Holds before place none) (removeDirectory path)
      fun _ => True := by
  refine achieves_bind (achieves_of_yields (ensures_reach_holds path)) fun reached equal => ?_
  obtain ⟨there, found⟩ := reached
  subst equal
  dsimp only
  split
  · exact achieves_refuse .notFound path
  · exact achieves_refuse .notDirectory path
  · have emptied : Achieves (Holds before place content) (Holds before place none)
        (modify (·.clear (before.spelled path))) fun _ => True := by
      intro tree value after holds done
      cases done
      refine ⟨⟨holds.home, ?_⟩, trivial⟩
      rw [Tree.bytesAt?_clear, beneath]
      rfl
    exact achieves_bind emptied fun _ _ => achieves_of_yields
      (keeps_removal (fun _ holds => holds.spelled path) fun _ holds => holds.remove fun _ => rfl)

/-- What a place holds does not depend on places that it is neither at nor beneath. -/
theorem ignores_holds :
    Ignores before (fun other => Tree.isWithin other place = false)
      (Holds before place content) where
  spelled _ holds := holds.spelled
  put tree other what holds outside := by
    refine holds.put_of_ne ?_ what
    rintro rfl
    rw [Tree.isWithin_iff.mpr (List.prefix_refl _)] at outside
    cases outside
  remove path outside := by
    refine keeps_removeDirectory_elsewhere (Bool.eq_false_iff.mpr fun beneath => ?_)
    rw [Tree.isWithin_iff.mpr (Tree.isBeneath_iff.mp beneath).1] at outside
    cases outside
  child _ _ _ outside := Tree.isWithin_append_of_not outside _
  beneath _ _ _ _ outside _ _ := Tree.isWithin_append_of_not outside _

end

end Work

end StaticSite
