import StaticSite.Proofs.ApartPaths
import StaticSite.Proofs.FailedRun

/-!
# What a run leaves of its inputs

The site file and the static files are chosen apart from the output directory, and nothing compares
the three. A run leaves an input alone that does not lie beneath a directory it cleans, in the way
of a static file or where a built file goes; an input that it cleans is gone once it succeeds.
-/

namespace StaticSite

namespace Tree

section

variable {tree : Tree} {place : Place}

theorem plain_of_find? (plain : tree.Plain) (stands : (tree.find? place).isSome = true) :
    ".." ∉ place := by
  unfold find? at stands
  split at stands
  next root => simp [root]
  · obtain ⟨entry, inTree, same⟩ := List.lookup_isSome_iff.mp stands
    rw [eq_of_beq same]
    exact plain.stored entry inTree

theorem find?_of_mem_namesIn {name : String} (member : name ∈ tree.namesIn place) :
    (tree.find? (place ++ [name])).isSome = true := by
  simp only [namesIn, beneath, List.filterMap_map, List.mem_filterMap, List.mem_filter] at member
  obtain ⟨entry, ⟨inTree, inside⟩, single⟩ := member
  have only : entry.1.drop place.length = [name] := by
    simp only [Function.comp_apply] at single
    split at single
    next only isOnly =>
      cases single
      exact isOnly
    · cases single
  have spelled : entry.1 = place ++ [name] := by
    obtain ⟨rest, whole⟩ := (isBeneath_iff.mp inside).1
    rw [← whole, List.drop_left] at only
    rw [← whole, only]
  have filled : place ++ [name] ≠ [] := by simp
  rw [find?, if_neg filled, List.lookup_isSome_iff]
  exact ⟨entry, inTree, by rw [spelled, beq_self_eq_true]⟩

end

end Tree

namespace Work

/-- Nothing stands in the tree that did not stand before. -/
structure Shrinks (before tree : Tree) : Prop where
  home : tree.home = before.home
  stands : ∀ place what, tree.find? place = some what → before.find? place = some what

/-- Nothing stands in the tree that did not stand before, but for places on the way of a path. -/
structure Reaches (before : Tree) (path : Path) (tree : Tree) : Prop where
  home : tree.home = before.home
  stands : ∀ place, (tree.find? place).isSome = true →
    (before.find? place).isSome = true ∨ place ∈ Command.placesOf before path

section

variable {before tree : Tree} {path : Path}

theorem Shrinks.refl (tree : Tree) : Shrinks tree tree := ⟨rfl, fun _ _ found => found⟩

theorem Shrinks.reaches (shrinks : Shrinks before tree) (path : Path) :
    Reaches before path tree where
  home := shrinks.home
  stands place stands := by
    obtain ⟨what, found⟩ := Option.isSome_iff_exists.mp stands
    exact .inl (Option.isSome_iff_exists.mpr ⟨what, shrinks.stands place what found⟩)

theorem Shrinks.isReady (shrinks : Shrinks before tree) (ready : IsReady path tree) :
    IsReady path before := by
  intro place onWay
  refine shrinks.stands place .directory (ready place ?_)
  simpa only [Command.placesOf, Tree.start, shrinks.home] using onWay

theorem Shrinks.clear (shrinks : Shrinks before tree) (place : Place) :
    Shrinks before (tree.clear place) := by
  refine ⟨shrinks.home, fun other what found => shrinks.stands other what ?_⟩
  rw [Tree.find?_clear] at found
  split at found
  · cases found
  · exact found

theorem Shrinks.remove (shrinks : Shrinks before tree) (place : Place) :
    Shrinks before (tree.remove place) := by
  refine ⟨shrinks.home, fun other what found => shrinks.stands other what ?_⟩
  by_cases root : other = []
  · subst root
    exact found
  · rw [Tree.find?_remove root] at found
    split at found
    · cases found
    · exact found

theorem keeps_removeDirectory_shrinks (path : Path) :
    Keeps (Shrinks before) (removeDirectory path) := by
  have spells (tree : Tree) (shrinks : Shrinks before tree) :
      tree.spelled path = before.spelled path :=
    Tree.spelled_congr shrinks.home path
  exact keeps_removeDirectory spells (fun _ shrinks => shrinks.clear _)
    fun _ shrinks => shrinks.remove _

theorem keeps_haveDirectories_reaches (path : Path) :
    Keeps (Reaches before path) (haveDirectories path) := by
  refine keeps_haveDirectories fun names start tree reaches missing => ⟨reaches.home, ?_⟩
  have spelled : tree.spelled ⟨path.slashes, names⟩ = before.spelled ⟨path.slashes, names⟩ :=
    Tree.spelled_congr reaches.home _
  have nonempty : tree.spelled ⟨path.slashes, names⟩ ≠ [] := by
    intro root
    rw [root] at missing
    cases missing
  intro place stands
  rw [Tree.find?_put .directory nonempty] at stands
  split at stands
  next here =>
    rw [here, spelled]
    exact .inr (Output.spelled_mem_placesOf start)
  · exact reaches.stands place stands

end

end Work

namespace Output

open Work

section

variable {before : Tree} {place : Place} {content : Option Bytes} {source output root : Path}

/-- A static entry takes the place, or one above it, when the static files are copied. -/
def CopiesOver (source output : Path) (tree : Tree) (place : Place) : Prop :=
  IsReady source tree ∧ ∃ name,
    ((tree.find? (tree.spelled source ++ [name])).isSome = true ∨
      tree.spelled source ++ [name] ∈ Command.placesOf tree output) ∧
    Tree.isWithin (tree.spelled output ++ [name]) place = true

/-- A directory made on the way to the output directory counts as a static entry where it is one. -/
theorem yields_copyStatic (plain : before.Plain)
    (elsewhere : ∀ name, ((before.find? (before.spelled source ++ [name])).isSome = true ∨
      before.spelled source ++ [name] ∈ Command.placesOf before output) →
      Tree.isWithin (before.spelled output ++ [name]) place = false) :
    Yields (fun tree => Holds before place content tree ∧ Reaches before output tree)
      (Holds before place content) (copyStatic source output) fun _ => True := by
  have arrived : Keeps (fun tree => Holds before place content tree ∧ Reaches before output tree)
      (haveDirectories output) :=
    ensures_and (keeps_haveDirectories_holds output) (keeps_haveDirectories_reaches output)
  have found : Ensures (fun tree => Holds before place content tree ∧ Reaches before output tree)
      (reach source) fun result => result.1 = before.spelled source :=
    ensures_and (ensures_reach_holds source) (keeps_reach source)
  refine yields_bind arrived (fun _ _ => ?_) fun _ both => both.1
  refine yields_bind found (fun reached equal => ?_) fun _ both => both.1
  obtain ⟨there, found⟩ := reached
  subst equal
  dsimp only
  split
  · exact yields_of_ensures (keeps_refuse .notFound source) fun _ both => both.1
  · exact yields_of_ensures (keeps_refuse .notDirectory source) fun _ both => both.1
  · refine yields_bind ensures_get (fun now both => ?_) fun _ both => both.1
    refine yields_of_ensures (keeps_forM fun name member => ?_) fun _ both => both.1
    have known := both.2.stands _ (Tree.find?_of_mem_namesIn member)
    -- Neither a stored place nor the way of a path leads up, so the entry goes where it says.
    have forward : name ≠ ".." := by
      rintro rfl
      rcases known with stands | onWay
      · exact Tree.plain_of_find? plain stands (by simp)
      · obtain ⟨n, -, spelled⟩ := List.mem_map.mp onWay
        have onward := plain_spelled plain ⟨output.slashes, output.names.take n⟩
        have same : before.spelled ⟨output.slashes, output.names.take n⟩ =
            before.spelled source ++ [".."] := spelled
        simp [same] at onward
    exact ignores_holds.keeps_copyEntry source forward (elsewhere name known)

/-- Cleaning the output directory takes away what stands at the place. -/
def CleansAway (output : Path) (tree : Tree) (place : Place) : Prop :=
  tree.holds output = .ok true ∧ refusal? tree.home (tree.spelled output) = none ∧
    Tree.isBeneath (tree.spelled output) place = true

/-- Cleaning leaves the tree as it is, or removes the directory that is there and may be cleaned. -/
theorem clean_cases (plain : before.Plain) (output : Path) :
    (∃ fault, (clean output (Tree.pathOf before.home)).run before = .error fault before) ∨
      (∃ answer, (clean output (Tree.pathOf before.home)).run before = .ok answer before ∧
        (answer = none → before.holds output = .ok false)) ∨
      (before.holds output = .ok true ∧
        refusal? before.home (before.spelled output) = none ∧
        (clean output (Tree.pathOf before.home)).run before =
          match (removeDirectory output).run before with
          | .ok _ after => .ok none after
          | .error fault after => .error fault after) := by
  rw [clean_run]
  cases held : before.holds output with
  | error fault => exact .inl ⟨fault, rfl⟩
  | ok there =>
    cases there with
    | false => exact .inr (.inl ⟨none, rfl, fun _ => rfl⟩)
    | true =>
      dsimp only
      cases resolved : before.resolve output with
      | error fault => exact .inl ⟨fault, rfl⟩
      | ok place =>
        obtain rfl := Tree.eq_spelled_of_resolve resolved
        cases isRoot : before.resolve (Tree.pathOf before.home) with
        | error fault => exact .inl ⟨fault, rfl⟩
        | ok root =>
          obtain rfl := (Tree.eq_spelled_of_resolve isRoot).trans (Tree.spelled_pathOf plain.home)
          dsimp only
          cases refused : refusal? before.home (before.spelled output) with
          | some refusal => exact .inr (.inl ⟨some refusal, rfl, nofun⟩)
          | none => exact .inr (.inr ⟨rfl, rfl, rfl⟩)

theorem yields_clean (plain : before.Plain) (kept : ¬CleansAway output before place) :
    Yields (· = before)
      (fun tree => Holds before place (before.bytesAt? place) tree ∧ Shrinks before tree)
      (clean output (Tree.pathOf before.home)) fun _ => True := by
  have same : Holds before place (before.bytesAt? place) before ∧ Shrinks before before :=
    ⟨.refl before place, .refl before⟩
  rintro tree rfl
  rcases clean_cases plain output with ⟨fault, ran⟩ | ⟨answer, ran, -⟩ | ⟨held, free, ran⟩
  · rw [ran]
    exact same
  · rw [ran]
    exact ⟨same, trivial⟩
  · have elsewhere : Tree.isBeneath (tree.spelled output) place = false :=
      Bool.eq_false_iff.mpr fun beneath => kept ⟨held, free, beneath⟩
    have removed := ensures_and (keeps_removeDirectory_elsewhere elsewhere)
      (keeps_removeDirectory_shrinks output) tree same
    rw [ran]
    cases ended : (removeDirectory output).run tree with
    | ok value after =>
      rw [ended] at removed
      exact removed
    | error fault after =>
      rw [ended] at removed
      exact removed

theorem achieves_clean (plain : before.Plain) (gone : CleansAway output before place) {after : Tree}
    (cleaned : (clean output (Tree.pathOf before.home)).run before = .ok none after) :
    Holds before place none after ∧ Shrinks before after := by
  obtain ⟨held, -, beneath⟩ := gone
  rcases clean_cases plain output with ⟨fault, ran⟩ | ⟨answer, ran, absent⟩ | ⟨-, -, ran⟩
  · rw [ran] at cleaned
    cases cleaned
  · rw [ran] at cleaned
    cases cleaned
    rw [absent rfl] at held
    cases held
  · rw [ran] at cleaned
    cases ended : (removeDirectory output).run before with
    | error fault there =>
      rw [ended] at cleaned
      cases cleaned
    | ok value there =>
      rw [ended] at cleaned
      cases cleaned
      have emptied := achieves_removeDirectory beneath before value after (.refl before place) ended
      have shrunk := keeps_removeDirectory_shrinks output before (.refl before)
      rw [ended] at shrunk
      exact ⟨emptied.1, shrunk.1⟩

end

end Output

namespace Command

open Output (CopiesOver CleansAway placeOf)
open Work

/-- The static files, if there are any, copied into the output directory. -/
def copyStaticFiles (settings : Settings) : Work Unit := do
  if ← Work.ofExcept ((← get).isDirectory (Path.ofText settings.staticDirectory)) then
    Output.copyStatic (Path.ofText settings.staticDirectory) (Path.ofText settings.output)

theorem fillOutput_eq (settings : Settings) (files : List Build.File) :
    fillOutput settings files none =
      copyStaticFiles settings >>= fun _ => writeFiles settings files := by
  simp only [fillOutput, copyStaticFiles, bind_assoc]
  refine congrArg (bind get) (funext fun tree => congrArg (bind _) (funext fun held => ?_))
  cases held <;> rfl

/-! ## What a run does to a place -/

namespace Settings

variable (settings : Settings)

def sitePath : Path := Path.ofText settings.site

def staticPath : Path := Path.ofText settings.staticDirectory

/-- The files for crawlers that the settings ask for. -/
def crawlerNames : List String :=
  (if settings.sitemap then ["sitemap.xml"] else []) ++
    (if settings.robots then ["robots.txt"] else [])

/-- The paths of all files that a build gives. -/
def builtPaths (tree : Tree) : List String :=
  (pagesOf tree settings).flatMap Page.filePaths ++ settings.crawlerNames

/-- Cleaning the output directory takes away what stands at the place. -/
def Cleans (tree : Tree) (place : Place) : Prop :=
  settings.clean = true ∧ CleansAway settings.outputPath tree place

/-- A static file or directory takes the place, or one above it. -/
def Copies (tree : Tree) (place : Place) : Prop :=
  CopiesOver settings.staticPath settings.outputPath tree place

/-- A built file takes the place. -/
def BuildsOver (tree : Tree) (place : Place) : Prop :=
  ∃ path ∈ settings.builtPaths tree, placeOf tree settings.outputPath path = place

/-- The site file, or a file of the static directory. -/
def IsInput (tree : Tree) (place : Place) : Prop :=
  place = tree.spelled settings.sitePath ∨
    Tree.isBeneath (tree.spelled settings.staticPath) place = true

/-- The inputs that were there before are there after, as they were. -/
def InputsKept (before after : Tree) : Prop :=
  ∀ place bytes, settings.IsInput before place → before.bytesAt? place = some bytes →
    after.bytesAt? place = some bytes

end Settings

section

variable {settings : Settings} {files : List Build.File} {before tree : Tree} {now : DateTime}
  {place : Place} {content : Option Bytes}

theorem yields_copyStaticFiles (plain : before.Plain) (spared : ¬settings.Copies before place) :
    Yields (fun tree => Holds before place content tree ∧ Shrinks before tree)
      (Holds before place content) (copyStaticFiles settings) fun _ => True := by
  refine yields_bind ensures_get (fun now both => ?_) fun _ both => both.1
  have asked : Ensures (fun tree => Holds before place content tree ∧ Shrinks before tree)
      (Work.ofExcept (now.isDirectory settings.staticPath)) fun held =>
        now.isDirectory settings.staticPath = .ok held :=
    ensures_ofExcept fun _ isHeld => isHeld
  refine yields_bind asked (fun held isHeld => ?_) fun _ both => both.1
  cases held with
  | false => exact yields_of_ensures (ensures_pure trivial) fun _ both => both.1
  | true =>
    have ready : IsReady settings.staticPath before :=
      both.2.isReady (isReady_of_isDirectory isHeld)
    have copied : Yields
        (fun tree => Holds before place content tree ∧ Reaches before settings.outputPath tree)
        (Holds before place content)
        (Output.copyStatic settings.staticPath settings.outputPath) fun _ => True :=
      Output.yields_copyStatic plain fun name known =>
        Bool.eq_false_iff.mpr fun within => spared ⟨ready, name, known, within⟩
    exact fun tree both => copied tree ⟨both.1, both.2.reaches settings.outputPath⟩

def textsOf (files : List Build.File) : List (String × String) :=
  files.map fun file => (file.path, file.content)

theorem keeps_writeFiles
    (elsewhere : ∀ file ∈ files, placeOf before settings.outputPath file.path ≠ place) :
    Keeps (Holds before place content) (writeFiles settings files) := by
  have others : ∀ entry ∈ textsOf files, place ≠ placeOf before settings.outputPath entry.1 := by
    intro entry member
    obtain ⟨file, inFiles, rfl⟩ := List.mem_map.mp member
    exact Ne.symm (elsewhere file inFiles)
  exact ensures_bind (keeps_writeTexts_elsewhere others) fun _ _ => ensures_pure trivial

theorem achieves_writeFiles :
    Achieves (Holds before place content)
      (Holds before place (contentAfter before settings.outputPath place content (textsOf files)))
      (writeFiles settings files) fun _ => True :=
  achieves_bind (achieves_writeTexts (textsOf files)) fun _ _ => achieves_pure trivial

/-- Work that cleans first is work on the tree as it was. -/
theorem writeOutput_run_clean (asked : settings.clean = true) (files : List Build.File)
    (tree : Tree) :
    (writeOutput settings files).run tree =
      (Output.clean settings.outputPath (Tree.pathOf tree.home) >>=
        fillOutput settings files).run tree := by
  rw [writeOutput_eq, if_pos asked]
  rfl

theorem writeOutput_run_keep (kept : settings.clean = false) (files : List Build.File)
    (tree : Tree) :
    (writeOutput settings files).run tree = (fillOutput settings files none).run tree := by
  rw [writeOutput_eq, kept]
  rfl

/-- What is neither cleaned away nor in the way of another file is kept, however the work ends. -/
theorem yields_writeOutput (plain : before.Plain) (kept : ¬settings.Cleans before place)
    (spared : ¬settings.Copies before place)
    (elsewhere : ∀ file ∈ files, placeOf before settings.outputPath file.path ≠ place) :
    Yields (· = before) (Holds before place (before.bytesAt? place)) (writeOutput settings files)
      fun _ => True := by
  have fill : Yields
      (fun tree => Holds before place (before.bytesAt? place) tree ∧ Shrinks before tree)
      (Holds before place (before.bytesAt? place)) (fillOutput settings files none)
      fun _ => True := by
    rw [fillOutput_eq]
    exact yields_bind (yields_copyStaticFiles plain spared)
      (fun _ _ => keeps_writeFiles elsewhere) fun _ holds => holds
  rintro tree rfl
  cases asked : settings.clean with
  | false =>
    rw [writeOutput_run_keep asked]
    exact fill tree ⟨.refl tree place, .refl tree⟩
  | true =>
    rw [writeOutput_run_clean asked]
    have cleaned := Output.yields_clean plain fun gone => kept ⟨asked, gone⟩
    refine yields_bind cleaned (fun refusal _ => ?_) (fun _ both => both.1) tree rfl
    cases refusal with
    | some refusal => exact yields_of_ensures (ensures_pure trivial) fun _ both => both.1
    | none => exact fill

/-- What is in the way of no static file depends on the cleaning and on the built files alone. -/
theorem achieves_writeOutput (plain : before.Plain) (spared : ¬settings.Copies before place)
    {after : Tree} (done : (writeOutput settings files).run before = .ok none after) :
    (¬settings.Cleans before place →
      after.bytesAt? place =
        contentAfter before settings.outputPath place (before.bytesAt? place) (textsOf files)) ∧
    (settings.Cleans before place →
      after.bytesAt? place =
        contentAfter before settings.outputPath place none (textsOf files)) := by
  have fill {middle : Tree} {content : Option Bytes}
      (start : Holds before place content middle ∧ Shrinks before middle)
      (filled : (fillOutput settings files none).run middle = .ok none after) :
      after.bytesAt? place =
        contentAfter before settings.outputPath place content (textsOf files) := by
    rw [fillOutput_eq] at filled
    have reached := achieves_bind (achieves_of_yields (yields_copyStaticFiles plain spared))
      (fun _ _ => achieves_writeFiles) middle none after start filled
    exact reached.1.content
  cases asked : settings.clean with
  | false =>
    rw [writeOutput_run_keep asked] at done
    refine ⟨fun _ => fill ⟨.refl before place, .refl before⟩ done, fun cleans => ?_⟩
    cases asked.symm.trans cleans.1
  | true =>
    rw [writeOutput_run_clean asked] at done
    simp only [EStateM.run, bind, EStateM.bind] at done
    cases cleaned : Output.clean settings.outputPath (Tree.pathOf before.home) before with
    | error fault middle =>
      rw [cleaned] at done
      cases done
    | ok refusal middle =>
      simp only [cleaned] at done
      cases refusal with
      | some refusal => cases done
      | none =>
        constructor
        · intro kept
          have yields := Output.yields_clean plain (fun gone => kept ⟨asked, gone⟩) before rfl
          simp only [EStateM.run, cleaned] at yields
          exact fill yields.1 done
        · rintro ⟨-, gone⟩
          exact fill (Output.achieves_clean plain gone cleaned) done

/-! ## Runs -/

theorem crawlerNames_of_prepare {order : Order} (prepared : (prepare tree settings).2 = .ok order) :
    order.options.crawlerNames = settings.crawlerNames := by
  have ofOrder {head scripts : String} (made : orderOf tree settings head scripts = .ok order) :
      order.options.crawlerNames = settings.crawlerNames := by
    obtain ⟨isDirectory, -, made⟩ := exists_of_bind_eq_ok made
    obtain ⟨mode, -, made⟩ := exists_of_bind_eq_ok made
    cases made
    rfl
  unfold prepare at prepared
  split at prepared
  · cases prepared
  · split at prepared
    · cases prepared
    · exact ofOrder prepared

theorem paths_of_builds {result : Build.Result} (builds : Builds tree now settings result)
    (succeeded : result.failure = none) :
    result.files.map (·.path) = settings.builtPaths tree := by
  obtain ⟨site, heap, order, events, loaded, prepared, built⟩ := builds
  rw [Build.buildSite_files built succeeded, Settings.builtPaths, pagesOf, loaded,
    ← crawlerNames_of_prepare prepared, draftsOf, List.flatMap_map, List.flatMap_map]
  rfl

/-- A run that does not come to writing changes nothing and does not succeed. -/
theorem runWith_builds (tree : Tree) (now : DateTime) (settings : Settings) :
    ((runWith tree now settings).tree = tree ∧ (runWith tree now settings).ending ≠ .exit 0) ∨
      ∃ result said, Builds tree now settings result ∧ result.failure = none ∧
        runWith tree now settings = finishRun tree settings result said := by
  unfold runWith
  cases loaded : loadSite tree (Path.ofText settings.site) with
  | error stop =>
    refine .inl ⟨rfl, ?_⟩
    rcases loadSite_stops loaded with ⟨text, rfl⟩ | ⟨fault, rfl⟩ <;> exact nofun
  | ok found =>
    obtain ⟨site, heap⟩ := found
    dsimp only
    cases prepared : (prepare tree settings).2 with
    | error fault => exact .inl ⟨rfl, nofun⟩
    | ok order =>
      dsimp only [buildAndWrite]
      split
      · exact .inl ⟨rfl, nofun⟩
      next result events built =>
        have builds : Builds tree now settings result :=
          ⟨site, heap, order, events, loaded, prepared, built⟩
        cases failure : result.failure with
        | some cause => exact .inl ⟨rfl, nofun⟩
        | none => exact .inr ⟨result, _, builds, failure, rfl⟩

theorem finishRun_bytesAt? {result : Build.Result} {said : List Speech} (plain : tree.Plain)
    (kept : ¬settings.Cleans tree place) (spared : ¬settings.Copies tree place)
    (elsewhere : ∀ file ∈ result.files, placeOf tree settings.outputPath file.path ≠ place) :
    (finishRun tree settings result said).tree.bytesAt? place = tree.bytesAt? place := by
  have yields := yields_writeOutput plain kept spared elsewhere tree rfl
  unfold finishRun
  split
  next ended => rw [ended] at yields; exact yields.content
  next ended => rw [ended] at yields; exact yields.1.content
  next ended => rw [ended] at yields; exact yields.1.content

/-- Of a run that succeeds, an input is left exactly if it has not been cleaned away. -/
theorem finishRun_kept_iff {result : Build.Result} {said : List Speech} {bytes : Bytes}
    (plain : tree.Plain) (exit : (finishRun tree settings result said).ending = .exit 0)
    (spared : ¬settings.Copies tree place)
    (elsewhere : ∀ file ∈ result.files, placeOf tree settings.outputPath file.path ≠ place)
    (found : tree.bytesAt? place = some bytes) :
    (finishRun tree settings result said).tree.bytesAt? place = some bytes ↔
      ¬settings.Cleans tree place := by
  obtain ⟨ifKept, ifCleaned⟩ := achieves_writeOutput plain spared (writeOutput_of_exit exit)
  have others : ∀ entry ∈ textsOf result.files,
      placeOf tree settings.outputPath entry.1 ≠ place :=
    List.forall_mem_map.mpr elsewhere
  rw [contentAfter_of_ne others] at ifKept ifCleaned
  by_cases cleans : settings.Cleans tree place
  · rw [ifCleaned cleans]
    simp [cleans]
  · rw [ifKept cleans, found]
    simp [cleans]

/-- Of a run that succeeds, a built file stands where one is to be, whatever was there before. -/
theorem finishRun_built {result : Build.Result} {said : List Speech} (plain : tree.Plain)
    (exit : (finishRun tree settings result said).ending = .exit 0)
    (spared : ¬settings.Copies tree place)
    (here : ∃ file ∈ result.files, placeOf tree settings.outputPath file.path = place) :
    ∃ file ∈ result.files, placeOf tree settings.outputPath file.path = place ∧
      (finishRun tree settings result said).tree.bytesAt? place =
        some (Utf8.encode file.content) := by
  obtain ⟨ifKept, ifCleaned⟩ := achieves_writeOutput plain spared (writeOutput_of_exit exit)
  have written : ∃ entry ∈ textsOf result.files,
      placeOf tree settings.outputPath entry.1 = place := by
    obtain ⟨file, member, there⟩ := here
    exact ⟨(file.path, file.content), List.mem_map.mpr ⟨file, member, rfl⟩, there⟩
  have stands (content : Option Bytes) : ∃ file ∈ result.files,
      placeOf tree settings.outputPath file.path = place ∧
        contentAfter tree settings.outputPath place content (textsOf result.files) =
          some (Utf8.encode file.content) := by
    obtain ⟨entry, inTexts, there, holds⟩ := exists_contentAfter written content
    obtain ⟨file, inFiles, rfl⟩ := List.mem_map.mp inTexts
    exact ⟨file, inFiles, there, holds⟩
  by_cases cleans : settings.Cleans tree place
  · rw [ifCleaned cleans]
    exact stands none
  · rw [ifKept cleans]
    exact stands _

/--
A run keeps the inputs that it neither cleans away nor puts another file over, however it ends. Once
it succeeds, an input that no static file is put over stands as it was if it has not been cleaned
away, and only then, unless a built file takes its place.
-/
theorem run_inputsKept (plain : tree.Plain) (now : DateTime) (arguments : List String) :
    match readSettings tree arguments with
    | .error _ => (run tree now arguments).tree = tree
    | .ok settings =>
      let report := run tree now arguments
      ((∀ place, settings.IsInput tree place → ¬settings.Cleans tree place ∧
          ¬settings.Copies tree place ∧ ¬settings.BuildsOver tree place) →
        settings.InputsKept tree report.tree) ∧
      (report.ending = .exit 0 → ∀ place bytes, settings.IsInput tree place →
        tree.bytesAt? place = some bytes → ¬settings.Copies tree place →
          (¬settings.BuildsOver tree place →
            (report.tree.bytesAt? place = some bytes ↔ ¬settings.Cleans tree place)) ∧
          (settings.BuildsOver tree place → ∃ result, Builds tree now settings result ∧
            ∃ file ∈ result.files, placeOf tree settings.outputPath file.path = place ∧
              report.tree.bytesAt? place = some (Utf8.encode file.content))) := by
  unfold run
  cases readSettings tree arguments with
  | error stop => rfl
  | ok settings =>
    dsimp only
    rcases runWith_builds tree now settings with
      ⟨same, failed⟩ | ⟨result, said, builds, succeeded, finished⟩
    · rw [same]
      exact ⟨fun _ place bytes _ found => found, fun exit => absurd exit failed⟩
    · rw [finished]
      -- The paths of the result are known from the arguments and the tree alone.
      have paths := paths_of_builds builds succeeded
      have elsewhere {place : Place} (spared : ¬settings.BuildsOver tree place) :
          ∀ file ∈ result.files, placeOf tree settings.outputPath file.path ≠ place :=
        fun file member here =>
          spared ⟨file.path, paths ▸ List.mem_map_of_mem member, here⟩
      refine ⟨fun safe place bytes isInput found => ?_,
        fun exit place bytes _ found spared => ⟨fun unbuilt => ?_, ?_⟩⟩
      · obtain ⟨kept, spared, unbuilt⟩ := safe place isInput
        rw [finishRun_bytesAt? plain kept spared (elsewhere unbuilt), found]
      · exact finishRun_kept_iff plain exit spared (elsewhere unbuilt) found
      · rintro ⟨path, isBuilt, here⟩
        rw [← paths] at isBuilt
        obtain ⟨file, member, rfl⟩ := List.mem_map.mp isBuilt
        exact ⟨result, builds, finishRun_built plain exit spared ⟨file, member, here⟩⟩

/-- An output directory that holds the built files is no danger to what lies outside of it. -/
theorem untouched_of_outside
    (outside : Tree.isWithin (tree.spelled settings.outputPath) place = false)
    (contained : ∀ path ∈ settings.builtPaths tree,
      Tree.isWithin (tree.spelled settings.outputPath)
        (placeOf tree settings.outputPath path) = true) :
    ¬settings.Cleans tree place ∧ ¬settings.Copies tree place ∧
      ¬settings.BuildsOver tree place := by
  rw [Bool.eq_false_iff] at outside
  refine ⟨?_, ?_, ?_⟩
  · rintro ⟨-, -, -, beneath⟩
    exact outside (Tree.isWithin_iff.mpr (Tree.isBeneath_iff.mp beneath).1)
  · rintro ⟨-, name, -, within⟩
    exact outside (Tree.isWithin_trans (Tree.isWithin_append _ _) within)
  · rintro ⟨path, isBuilt, rfl⟩
    exact outside (contained path isBuilt)

/-- A project with a site of no pages, and a static file. -/
def staticProject (name : String) : Tree :=
  Tree.ofList ["project"]
    [(["project", "site.json"], .file (Utf8.encode "[]")),
     (["project", "static", name], .file (Utf8.encode "mine"))]

theorem run_staticProject_inputsKept :
    (staticProject "a.txt").Plain ∧
      readSettings (staticProject "a.txt") [] = .ok {} ∧
      Settings.InputsKept {} (staticProject "a.txt")
        (run (staticProject "a.txt") noon []).tree := by
  have plain : (staticProject "a.txt").Plain := ⟨by decide, by decide⟩
  have settings : readSettings (staticProject "a.txt") [] = .ok {} := by decide +kernel
  refine ⟨plain, settings, ?_⟩
  have kept := run_inputsKept plain noon []
  rw [settings] at kept
  refine kept.1 fun place isInput => untouched_of_outside ?_ (by decide +kernel)
  have output : (staticProject "a.txt").spelled (Settings.outputPath {}) = ["project", "dist"] := by
    decide
  rw [output]
  rcases isInput with rfl | beneath
  · decide
  · have static : (staticProject "a.txt").spelled (Settings.staticPath {}) =
        ["project", "static"] := by
      decide
    rw [static] at beneath
    obtain ⟨rest, rfl⟩ := (Tree.isBeneath_iff.mp beneath).1
    rfl

/--
The output directory is the static directory, which is cleaned; or it is the project, and a static
file has the name of the site file. Both runs succeed.
-/
theorem run_staticProject_not_inputsKept :
    (readSettings (staticProject "a.txt") ["--output", "static"] = .ok { output := "static" } ∧
      (run (staticProject "a.txt") noon ["--output", "static"]).ending = .exit 0 ∧
      ¬ Settings.InputsKept { output := "static" } (staticProject "a.txt")
        (run (staticProject "a.txt") noon ["--output", "static"]).tree) ∧
    readSettings (staticProject "site.json") ["--output", ".", "--no-clean"] =
        .ok { output := ".", clean := false } ∧
      (run (staticProject "site.json") noon ["--output", ".", "--no-clean"]).ending = .exit 0 ∧
      ¬ Settings.InputsKept { output := ".", clean := false } (staticProject "site.json")
        (run (staticProject "site.json") noon ["--output", ".", "--no-clean"]).tree := by
  refine ⟨⟨by decide +kernel, by decide +kernel, fun kept => ?_⟩,
    by decide +kernel, by decide +kernel, fun kept => ?_⟩
  · have static : Settings.IsInput { output := "static" } (staticProject "a.txt")
        ["project", "static", "a.txt"] := .inr (by decide)
    have stands := kept _ (Utf8.encode "mine") static (by decide +kernel)
    exact absurd stands (by decide +kernel)
  · have site : Settings.IsInput { output := ".", clean := false } (staticProject "site.json")
        ["project", "site.json"] := .inl (by decide)
    have stands := kept _ (Utf8.encode "[]") site (by decide +kernel)
    exact absurd stands (by decide +kernel)

end

end Command

end StaticSite
