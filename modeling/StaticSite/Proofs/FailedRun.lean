import StaticSite.Proofs.Containment

/-!
# Runs that fail

A run can be refused for its command line, its configuration, its site file, one of its pages, or
the directory that it would have to clean. All of this is found out before the first change of the
file tree, so a run that ends with a failing exit code leaves the tree as it was.
-/

namespace StaticSite

namespace Output

/-- Cleaning looks before it removes: what is refused, or not there, is left alone. -/
theorem clean_run (output root : Path) (tree : Tree) :
    (clean output root).run tree =
      match tree.holds output with
      | .error fault => .error fault tree
      | .ok false => .ok none tree
      | .ok true =>
        match tree.resolve output with
        | .error fault => .error fault tree
        | .ok place =>
          match tree.resolve root with
          | .error fault => .error fault tree
          | .ok rootPlace =>
            match refusal? rootPlace place with
            | some refusal => .ok (some refusal) tree
            | none =>
              match (Work.removeDirectory output).run tree with
              | .ok _ after => .ok none after
              | .error fault after => .error fault after := by
  simp only [clean, EStateM.run, bind, EStateM.bind, Work.get_run]
  cases tree.holds output with
  | error fault => rfl
  | ok held =>
    cases held with
    | false => rfl
    | true =>
      cases tree.resolve output with
      | error fault => rfl
      | ok place =>
        cases tree.resolve root with
        | error fault => rfl
        | ok rootPlace =>
          simp only [Work.ofExcept, pure, EStateM.pure, EStateM.bind, if_true]
          cases refusal? rootPlace place with
          | some refusal => rfl
          | none =>
            dsimp only [EStateM.bind]
            cases Work.removeDirectory output tree <;> rfl

theorem tree_of_clean_refused {output root : Path} {before after : Tree} {refusal : Refusal}
    (refused : (clean output root).run before = .ok (some refusal) after) : after = before := by
  rw [clean_run] at refused
  repeat' split at refused
  all_goals cases refused
  rfl

end Output

namespace Command

open Work

/-- What a build is asked for by the order of a run. -/
def Order.setting (order : Order) (tree : Tree) (now : DateTime) (site : Site) (heap : Heap) :
    Build.Setting :=
  { heap, catalog := Catalog.core.merged site.schemas, registry := Renderer.core, tree
    assetRoot := order.assetRoot, now, options := order.options }

def draftsOf (site : Site) : List Build.Draft :=
  site.pages.map fun page => ⟨page.page, page.components.map .component⟩

/-- What a run builds once its order is made; a fault ends the run. -/
def Builds (tree : Tree) (now : DateTime) (settings : Settings) (result : Build.Result) : Prop :=
  ∃ site heap order events,
    loadSite tree (Path.ofText settings.site) = .ok (site, heap) ∧
      (prepare tree settings).2 = .ok order ∧
      Build.buildSite (order.setting tree now site heap) (draftsOf site) = .ok (result, events)

/-- The ways to end with a failing exit code, in the order in which a run can come to them. -/
inductive Fails (tree : Tree) (now : DateTime) (arguments : List String) : Nat → Prop
  /-- The arguments are bad, or the configuration is. -/
  | settings (stop : Stop) (code : Nat) (failing : code ≠ 0)
    (stopped : readSettings tree arguments = .error stop) (ended : stop.ending = .exit code) :
    Fails tree now arguments code
  /-- The site file is missing, or is no site. -/
  | site (settings : Settings) (text : String)
    (read : readSettings tree arguments = .ok settings)
    (stopped : loadSite tree (Path.ofText settings.site) = .error (.complaint text)) :
    Fails tree now arguments 1
  /-- A page, or a file for crawlers, cannot be built. -/
  | page (settings : Settings) (result : Build.Result) (cause : String)
    (read : readSettings tree arguments = .ok settings)
    (built : Builds tree now settings result) (failed : result.failure = some cause) :
    Fails tree now arguments 1
  /-- The output directory may not be cleaned. -/
  | clean (settings : Settings) (result : Build.Result) (refusal : Output.Refusal)
    (read : readSettings tree arguments = .ok settings)
    (built : Builds tree now settings result) (asked : settings.clean = true)
    (refused : (Output.clean settings.outputPath (Tree.pathOf tree.home)).run tree =
      .ok (some refusal) tree) :
    Fails tree now arguments 1

section

variable {settings : Settings} {tree : Tree} {now : DateTime}

/-- Once the output directory may be filled, nothing is refused any more. -/
theorem leaves_fillOutput (settings : Settings) (files : List Build.File) :
    Leaves (fillOutput settings files none) fun refusal _ => refusal = none := by
  have finish : Leaves (writeFiles settings files) fun refusal _ => refusal = none := by
    refine leaves_bind fun _ tree value after done => ?_
    cases done
    rfl
  unfold fillOutput
  refine leaves_bind fun tree => leaves_bind fun held => ?_
  dsimp only
  split
  · exact leaves_bind fun _ => finish
  · exact finish

theorem writeOutput_refused {files : List Build.File} {after : Tree} {refusal : Output.Refusal}
    (refused : (writeOutput settings files).run tree = .ok (some refusal) after) :
    after = tree ∧ settings.clean = true ∧
      (Output.clean settings.outputPath (Tree.pathOf tree.home)).run tree =
        .ok (some refusal) tree := by
  rw [writeOutput_eq] at refused
  split at refused
  next asked =>
    simp only [EStateM.run, bind, EStateM.bind, get_run] at refused
    cases cleaned : Output.clean (Path.ofText settings.output) (Tree.pathOf tree.home) tree with
    | error fault middle =>
      rw [cleaned] at refused
      cases refused
    | ok answer middle =>
      rw [cleaned] at refused
      dsimp only at refused
      cases answer with
      | none => cases leaves_fillOutput settings files middle _ after refused
      | some other =>
        obtain rfl : middle = tree := Output.tree_of_clean_refused cleaned
        cases refused
        exact ⟨rfl, asked, cleaned⟩
  · cases leaves_fillOutput settings files tree _ after refused

theorem finishRun_failed {result : Build.Result} {said : List Speech} {code : Nat}
    (ended : (finishRun tree settings result said).ending = .exit code) (failing : code ≠ 0) :
    (finishRun tree settings result said).tree = tree ∧ code = 1 ∧ settings.clean = true ∧
      ∃ refusal, (Output.clean settings.outputPath (Tree.pathOf tree.home)).run tree =
        .ok (some refusal) tree := by
  unfold finishRun at ended ⊢
  split at ended
  · cases ended
  next refusal after refused =>
    obtain ⟨rfl, asked, cleaned⟩ := writeOutput_refused refused
    cases ended
    exact ⟨rfl, rfl, asked, refusal, cleaned⟩
  · cases ended
    exact absurd rfl failing

/-- A site file is complained of, or its fault escapes. -/
theorem loadSite_stops {path : Path} {stop : Stop} (stopped : loadSite tree path = .error stop) :
    (∃ text, stop = .complaint text) ∨ ∃ fault, stop = .fault fault := by
  unfold loadSite at stopped
  cases held : tree.holds path with
  | error fault =>
    rw [held] at stopped
    cases stopped
    exact .inr ⟨fault, rfl⟩
  | ok there =>
    rw [held] at stopped
    cases there with
    | false =>
      cases stopped
      exact .inl ⟨_, rfl⟩
    | true =>
      change (tree.readText path >>= Site.read {} path.text).mapError (siteStop path) = _ at stopped
      cases read : tree.readText path >>= Site.read {} path.text with
      | ok found =>
        rw [read] at stopped
        cases stopped
      | error fault =>
        rw [read] at stopped
        cases stopped
        unfold siteStop
        split
        · exact .inl ⟨_, rfl⟩
        · exact .inr ⟨fault, rfl⟩

/-- A run with settings that fails has met one of the later ways to fail, and changed nothing. -/
theorem runWith_failed {arguments : List String} {code : Nat}
    (read : readSettings tree arguments = .ok settings)
    (ended : (runWith tree now settings).ending = .exit code) (failing : code ≠ 0) :
    Fails tree now arguments code ∧ (runWith tree now settings).tree = tree := by
  unfold runWith at ended ⊢
  cases loaded : loadSite tree (Path.ofText settings.site) with
  | error stop =>
    rw [loaded] at ended
    rcases loadSite_stops loaded with ⟨text, rfl⟩ | ⟨fault, rfl⟩
    · cases ended
      exact ⟨.site settings text read loaded, rfl⟩
    · cases ended
  | ok found =>
    obtain ⟨site, heap⟩ := found
    rw [loaded] at ended
    dsimp only at ended ⊢
    cases prepared : (prepare tree settings).2 with
    | error fault =>
      rw [prepared] at ended
      cases ended
    | ok order =>
      rw [prepared] at ended
      dsimp only [buildAndWrite] at ended ⊢
      split at ended
      · cases ended
      next result events built =>
        have builds : Builds tree now settings result :=
          ⟨site, heap, order, events, loaded, prepared, built⟩
        cases failure : result.failure with
        | some cause =>
          rw [failure] at ended
          cases ended
          exact ⟨.page settings result cause read builds failure, rfl⟩
        | none =>
          rw [failure] at ended
          obtain ⟨same, rfl, asked, refusal, refused⟩ := finishRun_failed ended failing
          exact ⟨.clean settings result refusal read builds asked refused, same⟩

/--
A run that ends with exit code 1 or 2 leaves the file tree exactly as it was. It has met bad
arguments or a bad configuration, a missing or invalid site file, a page that fails, or an output
directory that may not be cleaned.
-/
theorem run_failed_unchanged {arguments : List String} {code : Nat} (failing : code = 1 ∨ code = 2)
    (ended : (run tree now arguments).ending = .exit code) :
    (run tree now arguments).tree = tree ∧ Fails tree now arguments code := by
  have nonzero : code ≠ 0 := by omega
  unfold run at ended ⊢
  cases read : readSettings tree arguments with
  | error stop =>
    rw [read] at ended
    exact ⟨rfl, .settings stop code nonzero read ended⟩
  | ok settings =>
    rw [read] at ended
    obtain ⟨fails, same⟩ := runWith_failed read ended nonzero
    exact ⟨same, fails⟩

/-- A project with a site of no pages, and a file of its own. -/
def bareProject : Tree :=
  Tree.ofList ["project"]
    [(["project", "site.json"], .file (Utf8.encode "[]")),
     (["project", "index.html"], .file (Utf8.encode "mine"))]

/-- The site is built, and only then it turns out that the output directory is the project. -/
theorem run_bareProject_unchanged :
    (run bareProject noon ["--output", "."]).ending = .exit 1 ∧
      (run bareProject noon ["--output", "."]).tree = bareProject := by
  have ended : (run bareProject noon ["--output", "."]).ending = .exit 1 := by decide +kernel
  exact ⟨ended, (run_failed_unchanged (.inl rfl) ended).1⟩

end

end Command

end StaticSite
