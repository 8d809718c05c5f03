import StaticSite.Command.Flag

/-!
# Command lines

An argument that starts with a hyphen names a flag, in full or by an unambiguous beginning; its own
argument follows after an equals sign or as the next word. Words after two hyphens name no flags. A
number below zero, and a text with a space, count as words.
-/

namespace StaticSite.Command

/-- Why a command line is refused, or asks for help instead of a run. -/
inductive Usage where
  | help
  | ambiguous (argument : String) (names : List String)
  | argumentExpected (names : List String)
  | argumentIgnored (names : List String) (text : String)
  | invalidInteger (names : List String) (text : String)
  | invalidNumber (names : List String) (text : String)
  | invalidChoice (names : List String) (text : String) (choices : List String)
  | unrecognized (arguments : List String)
deriving DecidableEq, Repr

namespace Usage

def about (names : List String) (problem : String) : String :=
  "argument " ++ "/".intercalate names ++ ": " ++ problem

def message : Usage → String
  | .help => ""
  | .ambiguous argument names =>
    "ambiguous option: " ++ argument ++ " could match " ++ ", ".intercalate names
  | .argumentExpected names => about names "expected one argument"
  | .argumentIgnored names text =>
    about names ("ignored explicit argument " ++ Text.quotedString text)
  | .invalidInteger names text => about names ("invalid int value: " ++ Text.quotedString text)
  | .invalidNumber names text => about names ("invalid float value: " ++ Text.quotedString text)
  | .invalidChoice names text choices =>
    about names ("invalid choice: " ++ Text.quotedString text ++ " (choose from " ++
      ", ".intercalate (choices.map Text.quotedString) ++ ")")
  | .unrecognized arguments => "unrecognized arguments: " ++ " ".intercalate arguments

end Usage

/-- An argument as it is understood before any flag takes effect. -/
inductive Word where
  | named (flag : Flag) (name : String) (attached : Option String)
  | unknown (text : String)
  | plain (text : String)
  | separator

namespace Word

/-- A flag with the name by which it was found. -/
def find? (flags : List Flag) (name : String) : Option Flag :=
  flags.find? fun flag => name ∈ flag.names

def allNames (flags : List Flag) : List (Flag × String) :=
  flags.flatMap fun flag => flag.names.map fun name => (flag, name)

/-- The text before an equals sign, and the text after it if there is one. -/
def cutAtEquals (s : List Char) : List Char × Option (List Char) :=
  match Text.splitAtMark? ['='] s with
  | some (before, after) => (before, some after)
  | none => (s, none)

/-- The flags whose names begin as an argument with two hyphens does. -/
def longMatches (flags : List Flag) (s : List Char) : List Word :=
  let (start, attached) := cutAtEquals s
  (allNames flags).filterMap fun (flag, name) =>
    if Text.startsWith start name.toList then
      some (.named flag name (attached.map String.ofList))
    else none

/-- The flags that an argument with one hyphen names by its letter, or begins to name. -/
def shortMatches (flags : List Flag) (s : List Char) : List Word :=
  (allNames flags).filterMap fun (flag, name) =>
    if name.toList = s.take 2 then some (.named flag name (some (String.ofList (s.drop 2))))
    else if Text.startsWith s name.toList then some (.named flag name none)
    else none

def matched (flags : List Flag) : List Char → List Word
  | '-' :: '-' :: s => longMatches flags ('-' :: '-' :: s)
  | s => shortMatches flags s

/-- A run of decimal digits that is not empty. -/
def isDigits (s : List Char) : Bool := !s.isEmpty && s.all fun c => (Text.digitValue? c).isSome

/-- A number below zero; a line feed may follow it. -/
def isNegativeNumber : List Char → Bool
  | '-' :: s =>
    let s := if s.getLast? = some '\n' then s.dropLast else s
    match Text.splitAtMark? ['.'] s with
    | none => isDigits s
    | some (whole, decimals) => (whole.isEmpty || isDigits whole) && isDigits decimals
  | _ => false

/-- What an argument is that names no flag in full. -/
def abbreviated (flags : List Flag) (argument : String) : Except Usage Word :=
  match matched flags argument.toList with
  | [word] => .ok word
  | [] =>
    if isNegativeNumber argument.toList || ' ' ∈ argument.toList then .ok (.plain argument)
    else .ok (.unknown argument)
  | words =>
    .error (.ambiguous argument (words.filterMap fun word =>
      match word with
      | .named _ name _ => some name
      | _ => none))

/-- The flag that an argument names in full before an equals sign. -/
def assigned? (flags : List Flag) (argument : String) : Option Word :=
  match cutAtEquals argument.toList with
  | (_, none) => none
  | (name, some text) =>
    (find? flags (String.ofList name)).map fun flag =>
      .named flag (String.ofList name) (some (String.ofList text))

def ofArgument (flags : List Flag) (argument : String) : Except Usage Word :=
  if argument.toList.head? ≠ some '-' then .ok (.plain argument)
  else
    match find? flags argument with
    | some flag => .ok (.named flag argument none)
    | none =>
      if argument = "-" then .ok (.plain argument)
      else
        match assigned? flags argument with
        | some word => .ok word
        | none => abbreviated flags argument

/-- The words of a command line; after two hyphens all of them are plain. -/
def ofArguments (flags : List Flag) : List String → Except Usage (List Word)
  | [] => .ok []
  | argument :: arguments =>
    if argument = "--" then .ok (.separator :: arguments.map .plain)
    else do
      let word ← ofArgument flags argument
      let words ← ofArguments flags arguments
      return word :: words

end Word

namespace Flag

/-- The settings after a flag was given an argument. -/
def assign (flag : Flag) (text : String) (settings : Settings) : Except Usage Settings :=
  match flag.action with
  | .text set => .ok (set text settings)
  | .choice choices set =>
    if text ∈ choices then .ok (set text settings)
    else .error (.invalidChoice flag.names text choices)
  | .integer set =>
    match Number.readInt? text with
    | some n => .ok (set n settings)
    | none => .error (.invalidInteger flag.names text)
  | .number set =>
    match Number.readFloat? text with
    | some x => .ok (set x settings)
    | none => .error (.invalidNumber flag.names text)
  | _ => .error (.argumentIgnored flag.names text)

/-- The settings after a flag was given without an argument. -/
def raise (flag : Flag) (name : String) (settings : Settings) : Except Usage Settings :=
  match flag.action with
  | .switch set => .ok (set (!Text.startsWith "--no-".toList name.toList) settings)
  | .mark set => .ok (set settings)
  | .help => .error .help
  | _ => .error (.argumentExpected flag.names)

/-- The flags that letters behind a flag of one letter name. -/
def grouped (flags : List Flag) (flag : Flag) : List Char → Except Usage (List Flag)
  | [] => .ok [flag]
  | c :: s =>
    match Word.find? flags (String.ofList ['-', c]) with
    | some next => do
      let others ← grouped flags next s
      return flag :: others
    | none => .error (.argumentIgnored flag.names (String.ofList (c :: s)))

def hasLetterName (name : String) : Bool :=
  match name.toList with
  | ['-', _] => true
  | _ => false

/-- The settings after a flag that takes no argument was found with a text attached. -/
def raiseGroup (flags : List Flag) (flag : Flag) (name text : String) (settings : Settings) :
    Except Usage Settings :=
  if hasLetterName name && text != "" then do
    let group ← grouped flags flag text.toList
    group.foldlM (fun settings flag => flag.raise name settings) settings
  else .error (.argumentIgnored flag.names text)

end Flag

/-- What a command line leaves: the settings, and the arguments that no flag took. -/
structure Line where
  settings : Settings
  extras : List String
deriving DecidableEq, Repr

namespace Line

def addExtra (line : Line) (text : String) : Line := { line with extras := line.extras ++ [text] }

/-- Lets the words take effect one after the other. -/
def apply (flags : List Flag) (line : Line) : List Word → Except Usage Line
  | [] => .ok line
  | .plain text :: words => apply flags (line.addExtra text) words
  | .unknown text :: words => apply flags (line.addExtra text) words
  | .separator :: words => apply flags (line.addExtra "--") words
  | .named flag name (some text) :: words => do
    let settings ←
      if flag.takesArgument then flag.assign text line.settings
      else flag.raiseGroup flags name text line.settings
    apply flags { line with settings } words
  | .named flag name none :: words =>
    if flag.takesArgument then
      match words with
      | .plain text :: words => do
        let settings ← flag.assign text line.settings
        apply flags { line with settings } words
      | _ => .error (.argumentExpected flag.names)
    else do
      let settings ← flag.raise name line.settings
      apply flags { line with settings } words

/-- Reads a command line over the given settings. -/
def read (flags : List Flag) (settings : Settings) (arguments : List String) :
    Except Usage Line := do
  let words ← Word.ofArguments flags arguments
  apply flags ⟨settings, []⟩ words

/-- The settings of a command line that leaves nothing over. -/
def readAll (flags : List Flag) (settings : Settings) (arguments : List String) :
    Except Usage Settings := do
  let line ← read flags settings arguments
  if line.extras.isEmpty then return line.settings
  else throw (.unrecognized line.extras)

end Line

end StaticSite.Command
