import StaticSite.Proofs.SiteReports
import StaticSite.Proofs.TomlRemainders
import StaticSite.Proofs.YamlNodes

/-!
# Reports of configuration files

A configuration is a mapping, or it is refused with a complaint: its text is malformed, or it holds
something else. What a parser refuses beyond the form of a text is not caught. Such a fault comes
from an integer with too many digits, from a code point that no character has, or from a scalar of
YAML that is not what its kind says.
-/

namespace StaticSite

namespace Config

variable {heap : Heap} {text suffix : String}

/-- What the parser of a format makes of a text. -/
def source (heap : Heap) (text suffix : String) : Except Fault (Value × Heap) :=
  match Format.ofSuffix suffix with
  | .toml => Toml.read heap text
  | .yaml => Yaml.read heap text
  | .json => readJson heap text

/-- Whether a parser has refused the form of a text. -/
def isFormFault : Fault → Bool
  | .malformedYaml => true
  | .malformedToml => true
  | .json (.malformed ..) => true
  | _ => false

/-- Whether a text is refused as no configuration. -/
def isRefusal : Fault → Bool
  | .invalidConfig _ => true
  | .configNotMapping => true
  | _ => false

/-- The entries of a configuration; nothing at all is a mapping without entries. -/
def entries? (heap : Heap) : Value → Option Entries
  | .null => some []
  | value => heap.dict? value

/-- The faults of a text that its form has no part in. -/
inductive Escapes (text : String) : Format → Fault → Prop where
  | jsonInteger {count : Nat} (tooLong : Number.digitLimit < count)
      (held : HoldsDigits [] count text.toList) : Escapes text .json (.json (.digitLimit count))
  | tomlInteger {count : Nat} (tooLong : Number.digitLimit < count)
      (held : HoldsDigits ['_'] count text.toList) : Escapes text .toml (.json (.digitLimit count))
  | yamlText {fault : Fault} (refused : Yaml.IsTextFault text.toList fault)
      (notForm : fault ≠ .malformedYaml) : Escapes text .yaml fault
  | yamlScalar {document : Yaml.Document} {id : Nat} {written : String} {kind : Yaml.ScalarKind}
      {fault : Fault} (held : Yaml.readDocument text.toList = .ok (some document))
      (refuses : document.Refuses id written kind fault)
      (isFault : Yaml.Scalar.IsScalarFault kind fault) (notForm : fault ≠ .malformedYaml) :
      Escapes text .yaml fault

/-! ## What is refused, and what escapes -/

theorem isRefusal_fault (cause : Fault) :
    isRefusal (Config.fault cause) = (isFormFault cause || isRefusal cause) := by
  unfold Config.fault
  split
  · rfl
  · rfl
  · rfl
  next notYaml notToml notJson =>
    have notForm : isFormFault cause = false := by
      unfold isFormFault
      split
      · exact absurd rfl notYaml
      · exact absurd rfl notToml
      · exact absurd rfl (notJson _ _)
      · rfl
    rw [notForm, Bool.false_or]

/-- What is not told as a malformed text stays as it is. -/
theorem fault_eq_self {cause : Fault} (notForm : isFormFault cause = false) :
    Config.fault cause = cause := by
  unfold Config.fault
  split
  · cases notForm
  · cases notForm
  · cases notForm
  · rfl

theorem Escapes.unrefused {format : Format} {cause : Fault} (escapes : Escapes text format cause) :
    isFormFault cause = false ∧ isRefusal cause = false := by
  cases escapes with
  | jsonInteger => exact ⟨rfl, rfl⟩
  | tomlInteger => exact ⟨rfl, rfl⟩
  | yamlText refused notForm =>
    cases refused with
    | malformed => exact absurd rfl notForm
    | codePoint held counted areDigits refused =>
      unfold Yaml.charOfCode at refused
      split at refused
      · cases refused
        exact ⟨rfl, rfl⟩
      · split at refused
        · cases refused
          exact ⟨rfl, rfl⟩
        · split at refused <;> cases refused
    | version => exact ⟨rfl, rfl⟩
  | yamlScalar held refuses isFault notForm =>
    cases isFault with
    | mark noValue => exact absurd rfl notForm
    | _ => exact ⟨rfl, rfl⟩

/-- What a parser can fail for. -/
def IsParserFault (text : String) (format : Format) (cause : Fault) : Prop :=
  isFormFault cause = true ∨ Escapes text format cause

theorem readJson_within (heap : Heap) (text : String) :
    FailsWithin (IsParserFault text .json) (readJson heap text) := by
  intro cause refused
  unfold readJson at refused
  split at refused
  · cases refused
  next error failed =>
    cases refused
    cases error with
    | malformed => exact .inl rfl
    | digitLimit count =>
      have both := Json.holdsDigits_of_read failed
      exact .inr (.jsonInteger both.1 both.2)

theorem readToml_within (heap : Heap) (text : String) :
    FailsWithin (IsParserFault text .toml) (Toml.read heap text) := by
  intro cause refused
  rcases Toml.read_fails refused with rfl | ⟨count, rfl, tooLong, held⟩
  · exact .inl rfl
  · exact .inr (.tomlInteger tooLong held)

theorem readYaml_within (heap : Heap) (text : String) :
    FailsWithin (IsParserFault text .yaml) (Yaml.read heap text) := by
  intro cause refused
  by_cases form : cause = .malformedYaml
  · exact .inl (form ▸ rfl)
  · rcases Yaml.read_within heap text cause refused with ofText | ⟨document, held, ofNode⟩
    · exact .inr (.yamlText ofText form)
    · rcases ofNode with isForm | ⟨id, written, kind, refuses⟩
      · exact absurd isForm form
      · exact .inr (.yamlScalar held refuses refuses.isScalarFault form)

/-- A parser fails for the form of a text, or for one of the reasons that escape. -/
theorem source_within (heap : Heap) (text suffix : String) :
    FailsWithin (IsParserFault text (Format.ofSuffix suffix)) (source heap text suffix) := by
  unfold source
  cases Format.ofSuffix suffix with
  | json => exact readJson_within heap text
  | toml => exact readToml_within heap text
  | yaml => exact readYaml_within heap text

/-- A configuration is read in two steps: its text is parsed, and what it holds is a mapping. -/
theorem read_eq (heap : Heap) (text suffix : String) :
    Config.read heap text suffix =
      match source heap text suffix with
      | .error cause => .error (Config.fault cause)
      | .ok (value, after) =>
        match entries? after value with
        | some entries => .ok (entries, after)
        | none => .error .configNotMapping := by
  change ((source heap text suffix).mapError Config.fault >>= _) = _
  cases source heap text suffix with
  | error cause => rfl
  | ok found =>
    obtain ⟨value, after⟩ := found
    dsimp only [Except.mapError, bind, Except.bind]
    cases value with
    | ref id =>
      dsimp only [entries?]
      cases after.dict? (.ref id) <;> rfl
    | _ => rfl

variable {after : Heap} {entries : Entries} {cause : Fault}

theorem read_eq_ok_iff :
    Config.read heap text suffix = .ok (entries, after) ↔
      ∃ value, source heap text suffix = .ok (value, after) ∧
        entries? after value = some entries := by
  rw [read_eq]
  cases source heap text suffix with
  | error cause => simp
  | ok found =>
    obtain ⟨value, other⟩ := found
    dsimp only
    constructor
    · intro done
      split at done
      next known =>
        cases done
        exact ⟨value, rfl, known⟩
      · cases done
    · rintro ⟨_, same, known⟩
      cases same
      rw [known]

/-- A text that is not read is refused as no configuration, or its fault is the parser's. -/
theorem read_fails (refused : Config.read heap text suffix = .error cause) :
    isRefusal cause = true ∨
      source heap text suffix = .error cause ∧ Escapes text (Format.ofSuffix suffix) cause := by
  rw [read_eq] at refused
  split at refused
  next other parsed =>
    cases refused
    rcases source_within heap text suffix other parsed with form | escapes
    · rw [isRefusal_fault, form, Bool.true_or]
      exact .inl rfl
    · rw [fault_eq_self escapes.unrefused.1]
      exact .inr ⟨parsed, escapes⟩
  · split at refused <;> cases refused
    exact .inl rfl

/-- A text is read or refused exactly if its parser has nothing against it but its form. -/
theorem read_reported_iff :
    ((∃ found, Config.read heap text suffix = .ok found) ∨
        ∃ cause, Config.read heap text suffix = .error cause ∧ isRefusal cause = true) ↔
      ∀ cause, source heap text suffix = .error cause → isFormFault cause = true := by
  rw [read_eq]
  cases parsed : source heap text suffix with
  | ok found =>
    obtain ⟨value, other⟩ := found
    constructor
    · intro _ cause failed
      cases failed
    · intro _
      dsimp only
      cases entries? other value with
      | some entries => exact .inl ⟨_, rfl⟩
      | none => exact .inr ⟨_, rfl, rfl⟩
  | error cause =>
    have cases := source_within heap text suffix cause parsed
    constructor
    · rintro (⟨_, done⟩ | ⟨_, done, refusal⟩) other same
      · cases done
      · cases done
        cases same
        rcases cases with form | escapes
        · exact form
        · rw [isRefusal_fault, escapes.unrefused.1, escapes.unrefused.2] at refusal
          cases refusal
    · intro form
      refine .inr ⟨_, rfl, ?_⟩
      rw [isRefusal_fault, form cause rfl, Bool.true_or]

end Config

namespace Command

section

variable {tree : Tree} {arguments : List String} {line : Line} {path : Path} {cause : Fault}

theorem configStop_eq (path : Path) (cause : Fault) :
    configStop path cause =
      if Config.isRefusal cause then .complaint (cause.message ++ " (" ++ path.text ++ ")")
      else .fault cause := by
  unfold configStop
  split
  · rfl
  · rfl
  next notInvalid notOther =>
    have kept : Config.isRefusal cause = false := by
      unfold Config.isRefusal
      split
      · exact absurd rfl (notInvalid _)
      · exact absurd rfl notOther
      · rfl
    rw [kept, if_neg Bool.false_ne_true]

theorem loadConfig_of_readText {text : String} (held : tree.readText path = .ok text) :
    loadConfig tree path =
      (Config.read {} text (suffixOf path.text)).mapError (configStop path) := by
  unfold loadConfig
  rw [Tree.holds_of_readText held, held]
  dsimp only [Except.mapError, bind, Except.bind]
  rw [if_pos rfl]

/-- A file that is there and cannot be read as text is none to complain of. -/
theorem loadConfig_of_unreadable
    (unreadable : tree.holds path = .error cause ∨
      tree.holds path = .ok true ∧ tree.readText path = .error cause) :
    loadConfig tree path = .error (.fault cause) := by
  unfold loadConfig
  rcases unreadable with failed | ⟨there, failed⟩
  · rw [failed]
    rfl
  · rw [there, failed]
    rfl

/-- A configuration is loaded exactly if there is no file, or one whose text is a mapping. -/
theorem loadConfig_ok_iff :
    (∃ found, loadConfig tree path = .ok found) ↔
      tree.holds path = .ok false ∨
        ∃ text found, tree.readText path = .ok text ∧
          Config.read {} text (suffixOf path.text) = .ok found := by
  constructor
  · rintro ⟨found, loaded⟩
    cases there : tree.holds path with
    | error cause =>
      rw [loadConfig_of_unreadable (.inl there)] at loaded
      cases loaded
    | ok isThere =>
      cases isThere with
      | false => exact .inl rfl
      | true =>
        cases held : tree.readText path with
        | error cause =>
          rw [loadConfig_of_unreadable (.inr ⟨there, held⟩)] at loaded
          cases loaded
        | ok text =>
          rw [loadConfig_of_readText held] at loaded
          cases read : Config.read {} text (suffixOf path.text) with
          | error cause =>
            rw [read] at loaded
            cases loaded
          | ok entries => exact .inr ⟨text, entries, rfl, read⟩
  · rintro (missing | ⟨text, found, held, read⟩)
    · refine ⟨([], {}), ?_⟩
      rw [loadConfig, missing]
      rfl
    · refine ⟨found, ?_⟩
      rw [loadConfig_of_readText held, read]
      rfl

/-- Nothing but the fault of the configuration is heard of a run that stops there. -/
theorem run_of_loadConfig_error (now : DateTime)
    (named : Line.read [Flag.config] {} arguments = .ok line)
    (isPath : Path.ofText line.settings.config = path) {stop : Stop}
    (stopped : loadConfig tree path = .error stop) :
    run tree now arguments = .stopped tree stop := by
  have unset : readSettings tree arguments = .error stop := by
    rw [readSettings, named]
    change (loadConfig tree (Path.ofText line.settings.config) >>= _) = _
    rw [isPath, stopped]
    rfl
  rw [run, unset]

end

/-- A project that holds nothing but a configuration. -/
def configProject (text : String) : Tree :=
  Tree.ofList ["project"] [(["project", "site.yaml"], .file (Utf8.encode text))]

end Command

end StaticSite
