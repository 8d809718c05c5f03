import StaticSite.Proofs.SiteDefects
import StaticSite.Proofs.SourceData
import StaticSite.Proofs.Containment

/-!
# Reports of malformed site files

A run complains of the first defect of its site file and ends with exit code 1, if that defect is
one that a file can be blamed for. A value of the wrong kind that is looked into without a check is
no such defect: its fault escapes.
-/

namespace StaticSite

theorem Checked.allowed_iff {α : Type} {outcome : Except Fault α} {defects : List Fault}
    {result : α} (checked : Checked outcome defects result) (allowed : Fault → Prop) :
    ((∃ value, outcome = .ok value) ∨ ∃ fault, outcome = .error fault ∧ allowed fault) ↔
      ∀ fault ∈ defects.head?, allowed fault := by
  unfold Checked at checked
  subst checked
  cases defects <;> simp

namespace Site

/-- The defects of the text of a site file; a file that holds nothing is an empty site. -/
def fileDefects (name text : String) : List Fault :=
  match source name text with
  | .error fault => [fault]
  | .ok (value, heap) => if heap.isTruthy value then defects heap value else []

/-- The site in the text of a file without defects. -/
def fileOutlined (name text : String) : Site × Heap :=
  match source name text with
  | .error _ => ({}, {})
  | .ok (value, heap) => if heap.isTruthy value then outlined heap value else ({}, heap)

theorem checked_read (name text : String) :
    Checked (read {} name text) (fileDefects name text) (fileOutlined name text) := by
  rw [read_eq]
  unfold fileDefects fileOutlined
  cases parsed : source name text with
  | error fault => rfl
  | ok found =>
    obtain ⟨value, heap⟩ := found
    obtain ⟨closed, has⟩ := source_closed parsed
    by_cases truthy : heap.isTruthy value = true
    · simp only [truthy, if_true]
      exact checked_ofValue closed has
    · simp only [truthy]
      exact checked_ok _

end Site

theorem Tree.holds_of_readText {tree : Tree} {path : Path} {text : String}
    (held : tree.readText path = .ok text) : tree.holds path = .ok true := by
  obtain ⟨bytes, read, -⟩ := exists_of_bind_eq_ok held
  obtain ⟨place, reached, found⟩ := exists_of_bind_eq_ok read
  rw [holds, status?, reached]
  cases stored : tree.find? place with
  | none =>
    rw [stored] at found
    cases found
  | some what => simp only [stored]; rfl

namespace Command

section

variable {tree : Tree} {settings : Settings} {arguments : List String} {text : String}

theorem loadSite_eq {path : Path} (held : tree.readText path = .ok text) :
    loadSite tree path =
      match Site.fileDefects path.text text with
      | [] => .ok (Site.fileOutlined path.text text)
      | fault :: _ => .error (siteStop path fault) := by
  have checked := Site.checked_read path.text text
  have step : loadSite tree path =
      (tree.readText path >>= Site.read {} path.text).mapError (siteStop path) := by
    unfold loadSite
    rw [Tree.holds_of_readText held]
    rfl
  rw [step, held]
  simp only [bind, Except.bind]
  rw [checked]
  cases Site.fileDefects path.text text with
  | nil => simp only [Except.mapError]
  | cons fault later => simp only [Except.mapError]

/-- Nothing but the fault of the site file is heard of a run that stops there. -/
theorem run_of_loadSite_error {now : DateTime} {path : Path} {fault : Fault}
    (ready : readSettings tree arguments = .ok settings) (named : Path.ofText settings.site = path)
    (stopped : loadSite tree path = .error (siteStop path fault)) :
    run tree now arguments =
      if isFileFault fault then
        ⟨[.complaint ("Invalid site file " ++ path.text ++ ": " ++ fault.message)], .exit 1, tree⟩
      else ⟨[], .fault fault, tree⟩ := by
  rw [run, ready]
  dsimp only [runWith]
  rw [named, stopped, siteStop]
  by_cases isFile : isFileFault fault = true
  · simp [isFile, Report.stopped, Stop.speech, Stop.ending, isHeard]
  · simp [isFile, Report.stopped, Stop.speech, Stop.ending]

end

/-- A project that holds nothing but a site file. -/
def siteProject (text : String) : Tree :=
  Tree.ofList ["project"] [(["project", "site.json"], .file (Utf8.encode text))]

/-- A component without an id, and schemas that are no mapping. -/
def twoDefects : String :=
  "\x7b\"pages\": [\x7b\"id\": \"p\", \"components\": [\x7b\"type\": \"Text\"\x7d]\x7d], " ++
    "\"schemas\": 5\x7d"

end Command

end StaticSite
