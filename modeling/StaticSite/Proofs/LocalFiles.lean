import StaticSite.Build.Site
import StaticSite.Calendar
import StaticSite.Proofs.Outcome
import StaticSite.Proofs.Place
import StaticSite.Proofs.Reader
import StaticSite.Proofs.Splitting

/-!
# Files beneath the asset root

An address is followed to a file after its escapes are read and the names that lead up have taken
away others. The place is compared with the asset root last of all, so whatever the address spells,
the file stands beneath the root. What stands elsewhere is read by no build.
-/

namespace StaticSite

/--
The trees hold the same from the place on that a path spells, and have directories at the same
places above it.
-/
structure Tree.SameFrom (root : Path) (tree other : Tree) : Prop where
  home : other.home = tree.home
  within : ∀ base place, tree.resolve root = .ok base → Tree.isWithin base place = true →
    other.find? place = tree.find? place
  above : ∀ base place, tree.resolve root = .ok base → Tree.isBeneath place base = true →
    (other.find? place = some .directory ↔ tree.find? place = some .directory)

namespace Asset

/-- The address names a scheme or a host, as far as it can be split. -/
def IsElsewhere (url : String) : Prop :=
  ∀ parts, Url.split url.toList = .ok parts → parts.scheme ≠ [] ∨ parts.authority ≠ []

section

variable {tree other : Tree} {root : Path} {base place : Place} {url : String}

theorem localPath?_of_isElsewhere (elsewhere : IsElsewhere url) : localPath? url = none := by
  unfold localPath?
  split
  · rfl
  · split
    · rfl
    next parts isSplit =>
      have named : parts.scheme.isEmpty = false ∨ parts.authority.isEmpty = false := by
        simpa only [List.isEmpty_eq_false_iff] using elsewhere parts isSplit
      rcases named with named | named <;> simp [named]

/-- The steps to a local file, each of which must succeed. -/
theorem localPlace?_eq_some_iff :
    localPlace? tree root url = .ok (some place) ↔
      ∃ path base bytes, localPath? url = some path ∧ tree.resolve root = .ok base ∧
        tree.resolve ((Tree.pathOf base).join path) = .ok place ∧
        Tree.isWithin base place = true ∧
        tree.status? (Tree.pathOf place) = .ok (some (.file bytes)) := by
  constructor
  · intro found
    unfold localPlace? at found
    split at found
    · cases found
    next path spells =>
      obtain ⟨base, resolved, found⟩ := exists_of_bind_eq_ok found
      obtain ⟨joined, isJoined, found⟩ := exists_of_bind_eq_ok found
      split at found
      · cases found
      next within =>
        obtain ⟨what, stands, found⟩ := exists_of_bind_eq_ok found
        split at found
        next bytes =>
          cases found
          exact ⟨path, base, bytes, spells, resolved, isJoined, by simpa using within, stands⟩
        · cases found
  · rintro ⟨path, base, bytes, spells, resolved, isJoined, within, stands⟩
    simp [localPlace?, spells, resolved, isJoined, within, stands, bind, Except.bind, pure,
      Except.pure]

theorem localPlace?_of_isElsewhere (elsewhere : IsElsewhere url) :
    localPlace? tree root url = .ok none := by
  unfold localPlace?
  rw [localPath?_of_isElsewhere elsewhere]
  rfl

theorem isAbsolute_join_pathOf (base : Place) (path : Path) :
    ((Tree.pathOf base).join path).isAbsolute = true := by
  unfold Path.join
  split
  next absolute => exact absolute
  · rfl

/-- A place that is found from an address has no name left that leads up. -/
theorem plain_of_resolve_join {path : Path}
    (joined : tree.resolve ((Tree.pathOf base).join path) = .ok place) : ".." ∉ place := by
  rw [Tree.eq_spelled_of_resolve joined, Tree.spelled, Tree.start, isAbsolute_join_pathOf]
  exact Tree.normalize_plain List.not_mem_nil _

/-- A local file is a file, and it stands within the asset root. -/
theorem contained_of_localPlace? (found : localPlace? tree root url = .ok (some place)) :
    ∃ base bytes, tree.resolve root = .ok base ∧ tree.find? place = some (.file bytes) ∧
      Tree.isWithin base place = true := by
  obtain ⟨path, base, bytes, -, resolved, joined, within, stands⟩ :=
    localPlace?_eq_some_iff.mp found
  have isFile := Tree.find?_of_status? stands
  rw [Tree.spelled_pathOf (plain_of_resolve_join joined)] at isFile
  exact ⟨base, bytes, resolved, isFile, within⟩

/-! ## Addresses that spell their files -/

/-- A file name that stands for itself in an address. -/
structure IsBareName (name : String) : Prop where
  isName : Path.isName name.toList = true
  forward : name ≠ ".."
  whole : '/' ∉ name.toList
  bare : ∀ c ∈ name.toList, c ∉ ['%', '?', '#', '\t', '\r', '\n']

theorem IsBareName.exists_cons {name : String} (bare : IsBareName name) :
    ∃ c s, name.toList = c :: s := by
  have isName := bare.isName
  cases spelled : name.toList with
  | nil =>
    rw [spelled] at isName
    cases isName
  | cons c s => exact ⟨c, s, rfl⟩

/-- The address of a file below the asset root, spelled from the names that lead to it. -/
def addressOf (names : List String) : String :=
  String.ofList (names.flatMap ('/' :: ·.toList))

theorem cutAt_of_not_mem {mark : Char} {s : List Char} (absent : mark ∉ s) :
    Url.cutAt mark s = (s, []) := by
  unfold Url.cutAt
  split
  next parts found =>
    have whole := Text.splitAtMark?_eq_some found
    exact absurd (whole ▸ by simp) absent
  · rfl

theorem takeScheme_slash (s : List Char) : Url.takeScheme ('/' :: s) = ([], '/' :: s) := by
  unfold Url.takeScheme
  split
  next scheme rest found =>
    have whole := Text.splitAtMark?_eq_some found
    cases scheme with
    | nil => rfl
    | cons c scheme =>
      obtain rfl : '/' = c := by simpa using congrArg List.head? whole
      rfl
  · rfl

theorem split_slash {s : List Char} (solid : s.head? ≠ some '/')
    (plain : ∀ c ∈ s, Url.isLineControl c = false) (unmarked : '#' ∉ s ∧ '?' ∉ s) :
    Url.split ('/' :: s) = .ok ⟨[], [], '/' :: s, [], []⟩ := by
  have kept : ('/' :: s).filter (fun c => !Url.isLineControl c) = '/' :: s :=
    List.filter_eq_self.mpr fun c member => by
      rcases List.mem_cons.mp member with rfl | member
      · rfl
      · simp [plain c member]
  have noAuthority : Url.takeAuthority ('/' :: s) = ([], '/' :: s) := by
    unfold Url.takeAuthority
    split
    next rest whole =>
      cases whole
      exact absurd rfl solid
    · rfl
  have uncut (mark : Char) (absent : mark ∉ s) (other : mark ≠ '/') :
      Url.cutAt mark ('/' :: s) = ('/' :: s, []) :=
    cutAt_of_not_mem (by simp [absent, other])
  simp only [Url.split, kept, takeScheme_slash, noAuthority, uncut '#' unmarked.1 (by decide),
    uncut '?' unmarked.2 (by decide)]
  rfl

theorem ofText_relative {first : String} {rest : List String} (bare : IsBareName first)
    (bareRest : ∀ name ∈ rest, IsBareName name) :
    Path.ofText (String.ofList (first.toList ++ rest.flatMap ('/' :: ·.toList))) =
      ⟨0, first :: rest⟩ := by
  have pieces : Text.splitOnChar '/' (first.toList ++ rest.flatMap ('/' :: ·.toList)) =
      (first :: rest).map String.toList := by
    have apart : ∀ piece ∈ rest.map String.toList, '/' ∉ piece := by
      intro piece member
      obtain ⟨name, isRest, rfl⟩ := List.mem_map.mp member
      exact (bareRest name isRest).whole
    have whole := Text.splitOnChar_flatMap bare.whole apart
    rwa [List.flatMap_map] at whole
  have names : ((first :: rest).map String.toList).filter Path.isName =
      (first :: rest).map String.toList :=
    List.filter_eq_self.mpr fun piece member => by
      obtain ⟨name, isName, rfl⟩ := List.mem_map.mp member
      exact (List.forall_mem_cons.mpr ⟨bare, bareRest⟩ name isName).isName
  have slashes : Path.leadingSlashes (first.toList ++ rest.flatMap ('/' :: ·.toList)) = 0 := by
    obtain ⟨c, s, spelled⟩ := bare.exists_cons
    have solid : c ≠ '/' := fun slash => bare.whole (by simp [spelled, slash])
    simp [Path.leadingSlashes, spelled, solid]
  simp only [Path.ofText, String.toList_ofList, pieces, names, slashes]
  simp [Function.comp_def]

theorem localPath?_addressOf {names : List String} (filled : names ≠ [])
    (bare : ∀ name ∈ names, IsBareName name) : localPath? (addressOf names) = some ⟨0, names⟩ := by
  obtain ⟨first, rest, rfl⟩ := List.exists_cons_of_ne_nil filled
  obtain ⟨bareFirst, bareRest⟩ := List.forall_mem_cons.mp bare
  obtain ⟨s, isRest⟩ : ∃ s, first.toList ++ rest.flatMap ('/' :: ·.toList) = s := ⟨_, rfl⟩
  have spelled : (addressOf (first :: rest)).toList = '/' :: s := by
    simp [addressOf, ← isRest]
  have solid : s.head? ≠ some '/' := by
    obtain ⟨c, inner, isFirst⟩ := bareFirst.exists_cons
    rw [← isRest, isFirst, List.cons_append, List.head?_cons, ne_eq, Option.some.injEq]
    exact fun slash => bareFirst.whole (by simp [isFirst, slash])
  have unmarked : ∀ c ∈ s, c ∉ ['%', '?', '#', '\t', '\r', '\n'] := by
    intro c member
    rw [← isRest, List.mem_append, List.mem_flatMap] at member
    rcases member with member | ⟨name, isName, member⟩
    · exact bareFirst.bare c member
    · rcases List.mem_cons.mp member with rfl | member
      · decide
      · exact (bareRest name isName).bare c member
  have absent (c : Char) (marks : c ∈ ['%', '?', '#', '\t', '\r', '\n']) : c ∉ s :=
    fun member => unmarked c member marks
  have isSplit := split_slash solid
    (fun c member => by
      have plain := unmarked c member
      simp only [List.mem_cons, not_or] at plain
      simp [Url.isLineControl, plain])
    ⟨absent '#' (by decide), absent '?' (by decide)⟩
  have unescaped : Url.unescape ('/' :: s) = '/' :: s :=
    if_neg (by simp [absent '%' (by decide)])
  have notRemote :
      (startsWithAny remoteStarts ('/' :: s) || Text.startsWith ['/', '/'] ('/' :: s)) = false := by
    cases s with
    | nil => rfl
    | cons c s =>
      have other : '/' ≠ c := fun same => solid (same ▸ rfl)
      simp [startsWithAny, remoteStarts, Text.startsWith, Text.dropMark?, other]
  have stripped : ('/' :: s).dropWhile (· = '/') = s := by
    cases s with
    | nil => rfl
    | cons c s =>
      have other : c ≠ '/' := fun same => solid (same ▸ rfl)
      simp [other]
  have path := ofText_relative bareFirst bareRest
  rw [isRest] at path
  simp [localPath?, spelled, notRemote, isSplit, unescaped, stripped, path]

/-- A file beneath the asset root is found by the address that spells its names. -/
theorem localPlace?_addressOf (plain : tree.Plain) (resolved : tree.resolve root = .ok base)
    {names : List String} (filled : names ≠ []) (bare : ∀ name ∈ names, IsBareName name)
    {bytes : Bytes}
    (stands : tree.status? (Tree.pathOf (base ++ names)) = .ok (some (.file bytes))) :
    localPlace? tree root (addressOf names) = .ok (some (base ++ names)) := by
  have plainBase : ".." ∉ base := by
    rw [Tree.eq_spelled_of_resolve resolved]
    refine Tree.normalize_plain ?_ _
    unfold Tree.start
    split
    · exact List.not_mem_nil
    · exact plain.home
  have spelled : tree.spelled (Tree.pathOf (base ++ names)) = base ++ names :=
    Tree.spelled_pathOf fun up =>
      (List.mem_append.mp up).elim plainBase fun up => (bare _ up).forward rfl
  have noNul : (Tree.pathOf (base ++ names)).hasNul = false := by
    rw [Tree.status?_eq] at stands
    split at stands
    · cases stands
    next bare => simpa using bare
  refine localPlace?_eq_some_iff.mpr ⟨_, base, bytes, localPath?_addressOf filled bare, resolved,
    ?_, Tree.isWithin_append base names, stands⟩
  have joined : (Tree.pathOf base).join ⟨0, names⟩ = Tree.pathOf (base ++ names) := rfl
  rw [joined, Tree.resolve, noNul]
  exact congrArg Except.ok spelled

/-! ## Nothing else is read -/

theorem resolve_of_sameFrom (same : Tree.SameFrom root tree other) (path : Path) :
    other.resolve path = tree.resolve path := by
  simp only [Tree.resolve, Tree.start, same.home]

theorem status?_of_sameFrom (same : Tree.SameFrom root tree other)
    (resolved : tree.resolve root = .ok base) (plain : ".." ∉ place)
    (within : Tree.isWithin base place = true) :
    other.status? (Tree.pathOf place) = tree.status? (Tree.pathOf place) := by
  refine Tree.status?_congr same.home (fun n bound => ?_) ?_
  · have start : Tree.normalize (tree.start (Tree.pathOf place)) (place.take n) = place.take n :=
      Tree.normalize_of_plain (fun up => plain (List.mem_of_mem_take up)) []
    change other.find? (Tree.normalize _ (place.take n)) = _ ↔
      tree.find? (Tree.normalize _ (place.take n)) = _
    rw [start]
    -- A place on the way to one within the base is within the base itself, or above it.
    rcases List.prefix_or_prefix_of_prefix (List.take_prefix n place)
      (Tree.isWithin_iff.mp within) with above | inside
    · by_cases top : base = place.take n
      · rw [same.within base _ resolved (Tree.isWithin_iff.mpr (top ▸ List.prefix_rfl))]
      · exact same.above base _ resolved (Tree.isBeneath_iff.mpr ⟨above, top⟩)
    · rw [same.within base _ resolved (Tree.isWithin_iff.mpr inside)]
  · rw [Tree.spelled_pathOf plain]
    exact same.within base place resolved within

theorem localPlace?_of_sameFrom (same : Tree.SameFrom root tree other) (url : String) :
    localPlace? other root url = localPlace? tree root url := by
  unfold localPlace?
  simp only [resolve_of_sameFrom same]
  cases localPath? url with
  | none => rfl
  | some path =>
    cases resolved : tree.resolve root with
    | error fault => rfl
    | ok base =>
      cases joined : tree.resolve ((Tree.pathOf base).join path) with
      | error fault => simp only [bind, Except.bind, joined]
      | ok place =>
        simp only [bind, Except.bind, joined]
        by_cases within : Tree.isWithin base place = true
        · rw [status?_of_sameFrom same resolved (plain_of_resolve_join joined) within]
        · simp only [within, Bool.not_false, if_true]

theorem readLocal_of_sameFrom (same : Tree.SameFrom root tree other) :
    readLocal other root = readLocal tree root := by
  funext timeout asset
  unfold readLocal
  rw [localPlace?_of_sameFrom same]
  cases found : localPlace? tree root asset.url with
  | error fault => rfl
  | ok place? =>
    cases place? with
    | none => rfl
    | some place =>
      obtain ⟨base, bytes, resolved, -, within⟩ := contained_of_localPlace? found
      simp only [bind, Except.bind, Tree.bytesAt?, same.within base place resolved within]

end

end Asset

namespace Build

section

variable {setting : Setting} {other : Tree}

/-- A build reads its tree from the asset root on, if it has one, and nowhere else. -/
def Setting.ReadsAlike (setting : Setting) (other : Tree) : Prop :=
  ∀ root, setting.assetRoot = some root → Tree.SameFrom root setting.tree other

theorem load_of_readsAlike (alike : setting.ReadsAlike other) :
    ({ setting with tree := other } : Setting).load = setting.load := by
  funext assets
  unfold Setting.load
  cases rooted : setting.assetRoot with
  | none => rfl
  | some root =>
    simp only [Asset.loadLocal, Asset.readLocal_of_sameFrom (alike root rooted)]

theorem notices_of_readsAlike (alike : setting.ReadsAlike other) :
    ({ setting with tree := other } : Setting).notices = setting.notices := by
  funext assets
  unfold Setting.notices
  cases rooted : setting.assetRoot with
  | none => rfl
  | some root =>
    simp only [Asset.notices, Asset.readLocal_of_sameFrom (alike root rooted)]

theorem buildPage_of_readsAlike (alike : setting.ReadsAlike other) (draft : Draft) :
    buildPage { setting with tree := other } draft = buildPage setting draft := by
  have styled : ({ setting with tree := other } : Setting).style draft = setting.style draft := by
    unfold Setting.style
    rw [load_of_readsAlike alike]
    rfl
  unfold buildPage
  rw [load_of_readsAlike alike, notices_of_readsAlike alike, styled]
  rfl

theorem buildPages_of_readsAlike (alike : setting.ReadsAlike other) (drafts : List Draft) :
    buildPages { setting with tree := other } drafts = buildPages setting drafts := by
  induction drafts with
  | nil => rfl
  | cons draft drafts ih =>
    unfold buildPages
    rw [buildPage_of_readsAlike alike, ih]

theorem buildSite_of_readsAlike (alike : setting.ReadsAlike other) (drafts : List Draft) :
    buildSite { setting with tree := other } drafts = buildSite setting drafts := by
  unfold buildSite
  rw [buildPages_of_readsAlike alike]
  rfl

/-- What is put at a place apart from the asset root is not seen from there. -/
theorem sameFrom_put {tree : Tree} {root : Path} {base place : Place}
    (resolved : tree.resolve root = .ok base) (filled : place ≠ [])
    (outside : Tree.isWithin base place = false) (notAbove : Tree.isBeneath place base = false)
    (what : Stored) : Tree.SameFrom root tree (tree.put place what) where
  home := rfl
  within found inner isRoot within := by
    obtain rfl : base = found := Except.ok.inj (resolved.symm.trans isRoot)
    have apart : inner ≠ place := by
      rintro rfl
      exact absurd within (by simp [outside])
    rw [Tree.find?_put what filled, if_neg apart]
  above found upper isRoot above := by
    obtain rfl : base = found := Except.ok.inj (resolved.symm.trans isRoot)
    have apart : upper ≠ place := by
      rintro rfl
      exact absurd above (by simp [notAbove])
    rw [Tree.find?_put what filled, if_neg apart]

/--
A local file is a file strictly beneath the asset root, or the root itself where that is a file. An
address with a scheme or a host leads to none, and no build depends on what stands elsewhere.
-/
theorem localFiles_contained (tree other : Tree) (root : Path) (url : String) (setting : Setting)
    (drafts : List Draft) :
    (∀ place, Asset.localPlace? tree root url = .ok (some place) →
      ∃ base bytes, tree.resolve root = .ok base ∧ tree.find? place = some (.file bytes) ∧
        (Tree.isBeneath base place = true ∨ place = base)) ∧
    (Asset.IsElsewhere url → Asset.localPlace? tree root url = .ok none) ∧
    (setting.ReadsAlike other →
      buildSite { setting with tree := other } drafts = buildSite setting drafts) := by
  refine ⟨fun place found => ?_, Asset.localPlace?_of_isElsewhere,
    fun alike => buildSite_of_readsAlike alike drafts⟩
  obtain ⟨base, bytes, resolved, isFile, within⟩ := Asset.contained_of_localPlace? found
  refine ⟨base, bytes, resolved, isFile, ?_⟩
  by_cases same : place = base
  · exact .inr same
  · exact .inl (Tree.isBeneath_iff.mpr ⟨Tree.isWithin_iff.mp within, same⟩)

/-- A project with a picture beneath its asset root, and a file beside the root. -/
def pictureTree : Tree :=
  Tree.ofList ["project"]
    [(["project", "images", "logo.png"], .file [1, 2, 3]),
     (["project", "secret.txt"], .file (Utf8.encode "mine"))]

/-- A production build of the project. -/
def pictureSetting : Setting :=
  { heap := ⟨#[.dict [(.str "src", .str "/logo.png")]]⟩, catalog := {}, registry := []
    tree := pictureTree, assetRoot := some (Path.ofText "images"), now := .ofEpoch 0
    options := {} }

/-- A page with the picture among its components. -/
def pictureDraft : Draft :=
  { page := { id := "home", slug := none, title := none }
    entries := [.component ⟨"picture", "Image", .ref 0, []⟩] }

theorem localFiles_contained_picture :
    Asset.localPlace? pictureTree (Path.ofText "images") "/logo.png" =
        .ok (some ["project", "images", "logo.png"]) ∧
      Tree.isBeneath ["project", "images"] ["project", "images", "logo.png"] = true ∧
      Asset.IsElsewhere "http:logo.png" ∧
      Asset.localPlace? pictureTree (Path.ofText "images") "http:logo.png" = .ok none ∧
      ∀ bytes, buildSite
          { pictureSetting with tree := pictureTree.put ["project", "secret.txt"] (.file bytes) }
          [pictureDraft] =
        buildSite pictureSetting [pictureDraft] := by
  have contained (url : String) (other : Tree) :=
    localFiles_contained pictureTree other (Path.ofText "images") url pictureSetting [pictureDraft]
  have isRoot : pictureTree.resolve (Path.ofText "images") = .ok ["project", "images"] := by
    decide +kernel
  have found : Asset.localPlace? pictureTree (Path.ofText "images") "/logo.png" =
      .ok (some ["project", "images", "logo.png"]) := by
    decide +kernel
  have elsewhere : Asset.IsElsewhere "http:logo.png" := by
    have isSplit : Url.split "http:logo.png".toList =
        .ok ⟨"http".toList, [], "logo.png".toList, [], []⟩ := by decide +kernel
    intro parts same
    rw [isSplit] at same
    cases same
    exact .inl (by decide)
  obtain ⟨base, bytes, resolved, -, beneath⟩ := (contained "/logo.png" pictureTree).1 _ found
  obtain rfl : ["project", "images"] = base := Except.ok.inj (isRoot.symm.trans resolved)
  refine ⟨found, beneath.resolve_right (by decide), elsewhere,
    (contained _ pictureTree).2.1 elsewhere, fun bytes => (contained "" _).2.2 ?_⟩
  intro root rooted
  cases rooted
  exact sameFrom_put isRoot (by decide) (by decide) (by decide) (.file bytes)

/-- The asset root can be a file itself: the address of its own directory then leads to it. -/
theorem localPlace?_not_beneath :
    ¬ ∀ (tree : Tree) (root : Path) (url : String) (place : Place),
        Asset.localPlace? tree root url = .ok (some place) →
          ∃ base, tree.resolve root = .ok base ∧ Tree.isBeneath base place = true := by
  intro contained
  have found : Asset.localPlace? pictureTree (Path.ofText "images/logo.png") "/" =
      .ok (some ["project", "images", "logo.png"]) := by
    decide +kernel
  obtain ⟨base, resolved, beneath⟩ := contained _ _ _ _ found
  have isRoot : pictureTree.resolve (Path.ofText "images/logo.png") =
      .ok ["project", "images", "logo.png"] := by
    decide +kernel
  obtain rfl := Except.ok.inj (isRoot.symm.trans resolved)
  exact absurd beneath (by decide)

end

end Build

end StaticSite
