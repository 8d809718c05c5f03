import StaticSite.Proofs.LocalFiles

/-!
# Looking for the files of assets

An asset without a file, or without time to read it, keeps its record; one that is read changes in
its size only. No asset has a say in the record of another, with one exception: an address on whose
way a name cannot belong to any file, because it holds a NUL or is too long, ends the search for
all.
-/

namespace StaticSite

namespace Tree

section

variable {tree : Tree} {names : List String} {start place : Place}

theorem mem_of_mem_normalize {name : String} (member : name ∈ normalize start names) :
    name ∈ start ∨ name ∈ names := by
  induction names generalizing start with
  | nil => exact .inl member
  | cons first names ih =>
    by_cases up : first = ".."
    · have inner : name ∈ normalize start.dropLast names := by simpa [normalize, up] using member
      rcases ih inner with before | later
      · exact .inl (List.mem_of_mem_dropLast before)
      · exact .inr (List.mem_cons_of_mem _ later)
    · have inner : name ∈ normalize (start ++ [first]) names := by
        simpa [normalize, up] using member
      rcases ih inner with before | later
      · rcases List.mem_append.mp before with before | here
        · exact .inl before
        · exact .inr (List.mem_singleton.mp here ▸ List.mem_cons_self)
      · exact .inr (List.mem_cons_of_mem _ later)

/-- The name that leads up is short. -/
theorem forward_of_long {name : String} (long : longestName < Utf8.size name) : name ≠ ".." := by
  rintro rfl
  exact absurd long (by decide)

/-- Following that stops at a name that is too long has come to one through directories. -/
theorem exists_long_of_follow (stopped : tree.follow names start = .error .nameTooLong) :
    ∃ front name rest, names = front ++ name :: rest ∧ longestName < Utf8.size name ∧
      ∀ n ≤ front.length, tree.find? (normalize start (names.take n)) = some .directory := by
  induction names generalizing start with
  | nil => cases stopped
  | cons name names ih =>
    unfold follow at stopped
    split at stopped
    · cases stopped
    · cases stopped
    next isDirectory =>
      have onward {next : Place} (step : normalize start [name] = next)
          (rest : tree.follow names next = .error .nameTooLong) :
          ∃ front long rest, name :: names = front ++ long :: rest ∧
            longestName < Utf8.size long ∧ ∀ n ≤ front.length,
              tree.find? (normalize start ((name :: names).take n)) = some .directory := by
        obtain ⟨front, long, back, cut, isLong, way⟩ := ih rest
        refine ⟨name :: front, long, back, by rw [cut, List.cons_append], isLong, ?_⟩
        intro n bound
        cases n with
        | zero => exact isDirectory
        | succ n =>
          have inner := way n (by simpa using bound)
          rwa [← step, ← normalize_append] at inner
      split at stopped
      next up => exact onward (by simp [normalize, up]) stopped
      next forward =>
        split at stopped
        next long =>
          refine ⟨[], name, names, rfl, long, ?_⟩
          intro n bound
          obtain rfl : n = 0 := by simpa using bound
          exact isDirectory
        · exact onward (by simp [normalize, forward]) stopped

theorem follow_of_long {front rest : List String} {name : String}
    (long : longestName < Utf8.size name)
    (way : ∀ n ≤ front.length,
      tree.find? (normalize start ((front ++ name :: rest).take n)) = some .directory) :
    tree.follow (front ++ name :: rest) start = .error .nameTooLong := by
  have here : tree.find? start = some .directory := way 0 (Nat.zero_le _)
  induction front generalizing start with
  | nil => simp [follow, here, forward_of_long long, long]
  | cons first front ih =>
    have onward {next : Place} (step : normalize start [first] = next) :
        tree.follow (front ++ name :: rest) next = .error .nameTooLong := by
      have later (n : Nat) (bound : n ≤ front.length) :
          tree.find? (normalize next ((front ++ name :: rest).take n)) = some .directory := by
        have inner := way (n + 1) (by simpa using bound)
        rw [List.cons_append, List.take_succ_cons] at inner
        rwa [← step, ← normalize_append]
      exact ih later (later 0 (Nat.zero_le _))
    simp only [List.cons_append, follow, here]
    split
    next up => exact onward (by simp [normalize, up])
    next forward =>
      split
      · rfl
      · exact onward (by simp [normalize, forward])

-- The cut is not unique: whichever name too long is given, one on the way to it stops the search.
/-- Following stops at a name that is too long exactly if directories lead up to one. -/
theorem follow_eq_nameTooLong_iff :
    tree.follow names start = .error .nameTooLong ↔
      ∃ front name rest, names = front ++ name :: rest ∧ longestName < Utf8.size name ∧
        ∀ n ≤ front.length, tree.find? (normalize start (names.take n)) = some .directory := by
  constructor
  · exact exists_long_of_follow
  · rintro ⟨front, name, rest, rfl, long, way⟩
    exact follow_of_long long way

/-- Looking at a place fails exactly if directories lead up to a name that is too long. -/
theorem status?_pathOf_eq_error_iff (plain : ".." ∉ place)
    (noNul : (pathOf place).hasNul = false) {fault : Fault} :
    tree.status? (pathOf place) = .error fault ↔
      fault = .file .nameTooLong (pathOf place).text ∧
        ∃ front name rest, place = front ++ name :: rest ∧ longestName < Utf8.size name ∧
          ∀ n ≤ front.length, tree.find? (place.take n) = some .directory := by
  have start : tree.start (pathOf place) = [] := rfl
  have names : (pathOf place).names = place := rfl
  have stops := @follow_eq_nameTooLong_iff tree place []
  have spelled (n : Nat) : normalize [] (place.take n) = place.take n :=
    normalize_of_plain (fun up => plain (List.mem_of_mem_take up)) []
  simp only [spelled] at stops
  rw [← stops, status?_eq, noNul, if_neg nofun, start, names]
  cases tree.follow place [] with
  | ok found => simp [arrival]
  | error cause => cases cause <;> simp [arrival, eq_comm]

end

end Tree

namespace Asset

/--
Why no file can be looked for under an address: what it spells holds a NUL, or directories within
the asset root lead up to a name that is too long.
-/
inductive IsBlocked (tree : Tree) (root : Path) (url : String) : Fault → Prop
  | nulInRoot {path : Path} (spells : localPath? url = some path) (nul : root.hasNul = true) :
      IsBlocked tree root url .nulInPath
  | nul {path : Path} {base : Place} (spells : localPath? url = some path)
      (resolved : tree.resolve root = .ok base)
      (nul : ((Tree.pathOf base).join path).hasNul = true) : IsBlocked tree root url .nulInPath
  | tooLong {path : Path} {base place front rest : Place} {name : String}
      (spells : localPath? url = some path) (resolved : tree.resolve root = .ok base)
      (joined : tree.resolve ((Tree.pathOf base).join path) = .ok place)
      (within : Tree.isWithin base place = true) (cut : place = front ++ name :: rest)
      (long : Tree.longestName < Utf8.size name)
      (way : ∀ n ≤ front.length, tree.find? (place.take n) = some .directory) :
      IsBlocked tree root url (.file .nameTooLong (Tree.pathOf place).text)

section

variable {tree : Tree} {root : Path} {timeout : Binary64} {url : String} {fault : Fault}

/-- A place that an address spells holds no NUL, as the path to it holds none. -/
theorem noNul_of_resolve_join {base place : Place} {path : Path}
    (joined : tree.resolve ((Tree.pathOf base).join path) = .ok place) :
    (Tree.pathOf place).hasNul = false := by
  have spelled := Tree.eq_spelled_of_resolve joined
  unfold Tree.resolve at joined
  split at joined
  · cases joined
  next bare =>
    rw [Tree.spelled, Tree.start, isAbsolute_join_pathOf, if_pos rfl] at spelled
    rw [Bool.not_eq_true, Path.hasNul, List.any_eq_false] at bare
    rw [Path.hasNul, List.any_eq_false]
    intro name member
    rcases Tree.mem_of_mem_normalize (spelled ▸ member) with absent | inPath
    · cases absent
    · exact bare name inPath

theorem localPlace?_eq_error_iff :
    localPlace? tree root url = .error fault ↔ IsBlocked tree root url fault := by
  constructor
  · intro failed
    unfold localPlace? at failed
    split at failed
    · cases failed
    next path spells =>
      cases resolved : tree.resolve root with
      | error cause =>
        simp only [resolved, bind, Except.bind] at failed
        obtain rfl : cause = fault := Except.error.inj failed
        obtain ⟨nul, rfl⟩ := Tree.resolve_eq_error_iff.mp resolved
        exact .nulInRoot spells nul
      | ok base =>
        simp only [resolved, bind, Except.bind] at failed
        cases joined : tree.resolve ((Tree.pathOf base).join path) with
        | error cause =>
          simp only [joined] at failed
          obtain rfl : cause = fault := Except.error.inj failed
          obtain ⟨nul, rfl⟩ := Tree.resolve_eq_error_iff.mp joined
          exact .nul spells resolved nul
        | ok place =>
          simp only [joined] at failed
          split at failed
          · cases failed
          next within =>
            cases looked : tree.status? (Tree.pathOf place) with
            | error cause =>
              simp only [looked] at failed
              obtain rfl : cause = fault := Except.error.inj failed
              have noNul := noNul_of_resolve_join joined
              obtain ⟨rfl, front, name, rest, cut, long, way⟩ :=
                (Tree.status?_pathOf_eq_error_iff (plain_of_resolve_join joined) noNul).mp looked
              exact .tooLong spells resolved joined (by simpa using within) cut long way
            | ok what =>
              simp only [looked] at failed
              split at failed <;> cases failed
  · intro blocked
    cases blocked with
    | nulInRoot spells nul =>
      simp [localPlace?, spells, Tree.resolve, nul, bind, Except.bind]
    | nul spells resolved nul =>
      have unjoined : tree.resolve ((Tree.pathOf _).join _) = .error .nulInPath := if_pos nul
      simp [localPlace?, spells, resolved, unjoined, bind, Except.bind]
    | tooLong spells resolved joined within cut long way =>
      have looked := (@Tree.status?_pathOf_eq_error_iff tree _ (plain_of_resolve_join joined)
        (noNul_of_resolve_join joined) _).mpr ⟨rfl, _, _, _, cut, long, way⟩
      simp [localPlace?, spells, resolved, joined, within, looked, bind, Except.bind]

/-- Looking for a file fails only with the address: no file is refused when it is read. -/
theorem readLocal_eq_error_iff {asset : Asset} :
    readLocal tree root timeout asset = .error fault ↔ IsBlocked tree root asset.url fault := by
  rw [← localPlace?_eq_error_iff]
  unfold readLocal
  cases localPlace? tree root asset.url with
  | error cause => simp [bind, Except.bind]
  | ok found =>
    cases found with
    | none => simp [bind, Except.bind, pure, Except.pure]
    | some place =>
      by_cases hurried : (timeout.isNegative || timeout.isZero) = true
      · simp [bind, Except.bind, pure, Except.pure, hurried]
      · simp [bind, Except.bind, pure, Except.pure, hurried]

/--
What becomes of an asset's record: it gets the size of the file that the address leads to, if there
is time to read it, and stays what it was otherwise.
-/
inductive IsMeasured (tree : Tree) (root : Path) (timeout : Binary64) (asset : Asset) :
    Asset → Prop
  | loaded {place : Place} {bytes : Bytes}
      (found : localPlace? tree root asset.url = .ok (some place))
      (stands : tree.bytesAt? place = some bytes)
      (patient : (timeout.isNegative || timeout.isZero) = false) :
      IsMeasured tree root timeout asset { asset with size := some bytes.length }
  | kept (unread : (timeout.isNegative || timeout.isZero) = true ∨
        localPlace? tree root asset.url = .ok none) : IsMeasured tree root timeout asset asset

theorem isMeasured_of_readLocal {asset : Asset} {found : Local}
    (read : readLocal tree root timeout asset = .ok found) :
    IsMeasured tree root timeout asset (asset.measured found) := by
  obtain ⟨place?, isPlace, read⟩ := exists_of_bind_eq_ok read
  cases place? with
  | none =>
    cases read
    exact .kept (.inr isPlace)
  | some place =>
    dsimp only at read
    split at read
    next hurried =>
      cases read
      exact .kept (.inl hurried)
    next patient =>
      cases read
      obtain ⟨base, bytes, -, isFile, -⟩ := contained_of_localPlace? isPlace
      have stands : tree.bytesAt? place = some bytes := by rw [Tree.bytesAt?, isFile]
      rw [stands]
      exact .loaded isPlace stands (by simpa using patient)

/--
Looking for the files of assets fails exactly if the address of one of them is blocked, and for its
reason. Otherwise there is one record for each asset, in the same order, and what becomes of it
depends on no other asset.
-/
theorem loadLocal_ok_iff (tree : Tree) (root : Path) (timeout : Binary64) (assets : List Asset) :
    ((∃ loaded, loadLocal tree root timeout assets = .ok loaded) ↔
        ∀ asset ∈ assets, ∀ fault, ¬ IsBlocked tree root asset.url fault) ∧
      (∀ fault, loadLocal tree root timeout assets = .error fault →
        ∃ asset ∈ assets, IsBlocked tree root asset.url fault) ∧
      ∀ loaded, loadLocal tree root timeout assets = .ok loaded →
        List.Forall₂ (IsMeasured tree root timeout) assets loaded.assets := by
  let look (asset : Asset) : Except Fault (Asset × Local) := do
    let found ← readLocal tree root timeout asset
    return (asset, found)
  have whole : loadLocal tree root timeout assets =
      (assets.mapM look).map Loaded.ofPairs := by
    unfold loadLocal
    cases assets.mapM look <;> rfl
  have failed {asset : Asset} {fault : Fault} :
      look asset = .error fault ↔ IsBlocked tree root asset.url fault := by
    have failed := @readLocal_eq_error_iff tree root timeout fault asset
    rw [← failed]
    unfold look
    cases readLocal tree root timeout asset <;> simp [bind, Except.bind, pure, Except.pure]
  rw [whole]
  rcases mapM_ok_or_error look assets with
    ⟨pairs, all, each, every⟩ | ⟨asset, member, fault, blocked, stopped⟩
  · have free : ∀ asset ∈ assets, ∀ fault, ¬ IsBlocked tree root asset.url fault := by
      intro asset member fault blocked
      obtain ⟨pair, looked⟩ := every asset member
      rw [failed.mpr blocked] at looked
      cases looked
    rw [all]
    refine ⟨⟨fun _ => free, fun _ => ⟨_, rfl⟩⟩, nofun, ?_⟩
    intro loaded done
    obtain rfl : Loaded.ofPairs pairs = loaded := Except.ok.inj done
    apply List.forall₂_map_right_iff.mpr
    refine each.imp fun asset pair ⟨_, looked⟩ => ?_
    obtain ⟨found, read, paired⟩ := exists_of_bind_eq_ok looked
    cases paired
    exact isMeasured_of_readLocal read
  · rw [stopped]
    refine ⟨⟨nofun, fun free => absurd (failed.mp blocked) (free asset member fault)⟩, ?_, nofun⟩
    intro other same
    obtain rfl : fault = other := Except.error.inj same
    exact ⟨asset, member, failed.mp blocked⟩

end

/-- The record of an asset that has only been found. -/
def unmeasured (url : String) : Asset :=
  { id := url, url, optimizedUrl := url, type := "image", mimeType := "image/png", usedBy := ["a"] }

/-- An asset whose file is there and one whose file is not. -/
theorem loadLocal_ok_iff_picture :
    (∀ asset ∈ [unmeasured "/logo.png", unmeasured "/lost.png"], ∀ fault,
      ¬ IsBlocked Build.pictureTree (Path.ofText "images") asset.url fault) ∧
    ∃ loaded, loadLocal Build.pictureTree (Path.ofText "images") (.ofInt 5)
        [unmeasured "/logo.png", unmeasured "/lost.png"] = .ok loaded ∧
      List.Forall₂ (IsMeasured Build.pictureTree (Path.ofText "images") (.ofInt 5))
        [unmeasured "/logo.png", unmeasured "/lost.png"] loaded.assets := by
  have whole := loadLocal_ok_iff Build.pictureTree (Path.ofText "images") (.ofInt 5)
    [unmeasured "/logo.png", unmeasured "/lost.png"]
  obtain ⟨loaded, done⟩ : ∃ loaded, loadLocal Build.pictureTree (Path.ofText "images") (.ofInt 5)
      [unmeasured "/logo.png", unmeasured "/lost.png"] = .ok loaded := by
    refine ⟨⟨[{ unmeasured "/logo.png" with size := some 3 }, unmeasured "/lost.png"],
      [("/logo.png", [1, 2, 3])]⟩, ?_⟩
    decide +kernel
  exact ⟨whole.1.mp ⟨loaded, done⟩, loaded, done, whole.2.2 loaded done⟩

/-- A name of 256 letters. -/
def longName : String := String.ofList (List.replicate 256 'a')

theorem toList_longName : longName.toList = List.replicate 256 'a' := String.toList_ofList ..

theorem text_inImages (name : String) :
    (Tree.pathOf ["project", "images", name]).text = "/project/images/" ++ name := by
  rw [← String.toList_inj]
  simp [Tree.pathOf, Path.text, String.intercalate_cons_cons, String.toList_append]

/-- The long name is looked into as a list of letters, which is what makes this quick to check. -/
theorem isBlocked_longName :
    IsBlocked Build.pictureTree (Path.ofText "images") ("/" ++ longName)
      (.file .nameTooLong (Tree.pathOf ["project", "images", longName]).text) := by
  have chars : ("/" ++ longName).toList = '/' :: List.replicate 256 'a' := by
    rw [String.toList_append, toList_longName]
    rfl
  have outside : (startsWithAny remoteStarts ('/' :: List.replicate 256 'a') ||
      Text.startsWith ['/', '/'] ('/' :: List.replicate 256 'a')) = false := by
    decide +kernel
  have parts : Url.split ('/' :: List.replicate 256 'a') =
      .ok ⟨[], [], '/' :: List.replicate 256 'a', [], []⟩ := by
    decide +kernel
  have unescaped : (Url.unescape ('/' :: List.replicate 256 'a')).dropWhile (· = '/') =
      List.replicate 256 'a' := by
    decide +kernel
  have pieces : (Text.splitOnChar '/' (List.replicate 256 'a')).filter Path.isName =
      [List.replicate 256 'a'] := by
    decide +kernel
  have slashes : Path.leadingSlashes (List.replicate 256 'a') = 0 := by decide +kernel
  have spells : localPath? ("/" ++ longName) = some ⟨0, [longName]⟩ := by
    rw [localPath?, chars, outside, if_neg Bool.false_ne_true, parts]
    simp only [List.isEmpty_nil, List.isEmpty_cons, unescaped, Path.ofText, String.toList_ofList,
      pieces, slashes]
    rfl
  have resolved : Build.pictureTree.resolve (Path.ofText "images") =
      .ok ["project", "images"] := by
    decide +kernel
  have long : Tree.longestName < Utf8.size longName := by
    rw [Utf8.size, Utf8.encode, toList_longName]
    decide +kernel
  have joined : Build.pictureTree.resolve
      ((Tree.pathOf ["project", "images"]).join ⟨0, [longName]⟩) =
        .ok ["project", "images", longName] := by
    have noNul : ((Tree.pathOf ["project", "images"]).join ⟨0, [longName]⟩).hasNul = false := by
      have letters : (List.replicate 256 'a').any (·.toNat = 0) = false := by decide +kernel
      have short : ["project", "images"].any (fun name => name.toList.any (·.toNat = 0)) =
          false := by
        decide
      have names : ((Tree.pathOf ["project", "images"]).join ⟨0, [longName]⟩).names =
        ["project", "images"] ++ [longName] := rfl
      rw [Path.hasNul, names, List.any_append, short, List.any_cons, toList_longName, letters]
      rfl
    have plain : ".." ∉ ["project", "images", longName] := by
      simp [(Tree.forward_of_long long).symm]
    rw [Tree.resolve, noNul, if_neg Bool.false_ne_true]
    exact congrArg Except.ok (Tree.normalize_of_plain plain [])
  have cut : ["project", "images", longName] = ["project", "images"] ++ [longName] := rfl
  refine .tooLong spells resolved joined rfl cut long fun n within => ?_
  have few : n ≤ 2 := within
  obtain rfl | rfl | rfl : n = 0 ∨ n = 1 ∨ n = 2 := by omega
  · decide +kernel
  · decide +kernel
  · decide +kernel
/-- One address whose escapes hold a NUL, or one name that is too long, spoils the whole page. -/
theorem loadLocal_blocked_fails :
    (∃ loaded, loadLocal Build.pictureTree (Path.ofText "images") (.ofInt 5)
        [unmeasured "/logo.png"] = .ok loaded) ∧
      loadLocal Build.pictureTree (Path.ofText "images") (.ofInt 5)
        [unmeasured "/logo.png", unmeasured "/%00.png"] = .error .nulInPath ∧
      loadLocal Build.pictureTree (Path.ofText "images") (.ofInt 5)
        [unmeasured "/logo.png", unmeasured ("/" ++ longName)] =
          .error (.file .nameTooLong ("/project/images/" ++ longName)) := by
  refine ⟨⟨⟨[{ unmeasured "/logo.png" with size := some 3 }], [("/logo.png", [1, 2, 3])]⟩, ?_⟩,
    ?_, ?_⟩
  · decide +kernel
  · decide +kernel
  · -- With the assets as variables, nothing looks into the long name.
    have spoils (asset other : Asset) {file : Local} {fault : Fault}
        (found : readLocal Build.pictureTree (Path.ofText "images") (.ofInt 5) asset = .ok file)
        (failed : readLocal Build.pictureTree (Path.ofText "images") (.ofInt 5) other =
          .error fault) :
        loadLocal Build.pictureTree (Path.ofText "images") (.ofInt 5) [asset, other] =
          .error fault := by
      simp only [loadLocal, List.mapM_cons, found, failed, bind, Except.bind, pure, Except.pure]
    have found : readLocal Build.pictureTree (Path.ofText "images") (.ofInt 5)
        (unmeasured "/logo.png") = .ok (.loaded [1, 2, 3]) := by
      decide +kernel
    have blocked := isBlocked_longName
    rw [text_inImages] at blocked
    exact spoils _ _ found (readLocal_eq_error_iff.mpr blocked)

end Asset

end StaticSite
