import AccessibleMarkup.Level
import AccessibleMarkup.Text.Numeral
import AccessibleMarkup.Text.Quoted

/-!
The arguments of the command line: options of the program, a command, and the command's own input
and options. Options may be abbreviated, joined to their value or to each other, and may follow the
input; behind two hyphens nothing is an option. Two hyphens are no value either: an option that they
are joined to is left without one.
-/
namespace AccessibleMarkup.CommandLine

open AccessibleMarkup.Text

/-- The options of the program and of its commands. -/
inductive Flag where
  | help
  | verbose
  | version
  | output
  | maxHeadingJump
  | format
  | level
  deriving DecidableEq

namespace Flag

/-- How an option is written, in its short and its long form. -/
def names : Flag → List String
  | .help => ["-h", "--help"]
  | .verbose => ["-v", "--verbose"]
  | .version => ["--version"]
  | .output => ["-o", "--output"]
  | .maxHeadingJump => ["--max-heading-jump"]
  | .format => ["-f", "--format"]
  | .level => ["--level"]

def label (flag : Flag) : String := "/".intercalate flag.names

def takesValue : Flag → Bool
  | .help | .verbose | .version => false
  | _ => true

end Flag

inductive Format where
  | json
  | text
  deriving DecidableEq

/-- What the program is asked to do. A number or a level is missing if its option was left without
a value. -/
inductive Command where
  | enhance (input : String) (output : Option String)
  | audit (input : String) (maxHeadingJump : Option Int)
  | validate (input : String) (format : Format) (level : Option Level)
  deriving DecidableEq

namespace Command

def input : Command → String
  | .enhance input _ => input
  | .audit input _ => input
  | .validate input _ _ => input

end Command

/-- What the arguments ask for. -/
inductive Request where
  | run (verbose : Bool) (command : Command)
  | version
  | help

/-- Arguments that ask for nothing, and the part of the program that refuses them. -/
structure UsageError where
  program : String
  problem : String
  deriving DecidableEq

def UsageError.message (error : UsageError) : String :=
  error.program ++ ": error: " ++ error.problem

def programName : String := "aria-enhancer"

def shown (text : String) : String := String.ofList (quoted text.toList)

def problemOf (label problem : String) : String := "argument " ++ label ++ ": " ++ problem

def invalidChoice (given : String) (choices : List String) : String :=
  "invalid choice: " ++ shown given ++ " (choose from " ++
    ", ".intercalate (choices.map shown) ++ ")"

/-- What an argument is. -/
inductive Word where
  | operand (text : String)
  /-- Two hyphens. -/
  | separator
  /-- An option under one of its names, with a value or further options joined to it. -/
  | option (flag : Flag) (name : String) (joined : Option String)
  | unknownOption (text : String)
  deriving DecidableEq

/-- The options with their names, in the order of the options. -/
def spellings (flags : List Flag) : List (Flag × String) :=
  flags.flatMap fun flag => flag.names.map fun name => (flag, name)

/-- The text before and behind its first equals sign. -/
def splitEquals? (text : String) : Option (String × String) :=
  (splitAtFirst? text).map fun split => (String.ofList split.1, String.ofList split.2)
where
  /-- The characters before and behind the first equals sign. -/
  splitAtFirst? (text : String) : Option (List Char × List Char) :=
    match text.toList.span (· ≠ '=') with
    | (before, _ :: rest) => some (before, rest)
    | (_, []) => none

/-- All options that an argument could abbreviate or be joined to. -/
def abbreviated (flags : List Flag) (text : String) : List (Flag × String × Option String) :=
  match text.toList with
  | '-' :: '-' :: _ =>
    let (start, joined) := match splitEquals? text with
      | some (start, joined) => (start, some joined)
      | none => (text, none)
    (spellings flags).filterMap fun spelling =>
      if start.toList.isPrefixOf spelling.2.toList then some (spelling.1, spelling.2, joined)
      else none
  | '-' :: c :: rest =>
    (spellings flags).filterMap fun spelling =>
      if spelling.2.toList = ['-', c] then some (spelling.1, spelling.2, some (String.ofList rest))
      else none
  | _ => []

/-- A negative number: a hyphen, digits, and perhaps a point with digits behind it. A line feed may
end it. -/
def isNegativeNumber (text : String) : Bool :=
  match text.toList with
  | '-' :: rest =>
    let body := if rest.getLast? = some '\n' then rest.dropLast else rest
    let isDigit := fun c => (digitValue? c).isSome
    let whole := body.takeWhile isDigit
    match body.drop whole.length with
    | [] => !whole.isEmpty
    | '.' :: fraction => !fraction.isEmpty && fraction.all isDigit
    | _ => false
  | _ => false

/-- What an argument is that is not two hyphens, or the names it could abbreviate if there are
several. -/
def classify (flags : List Flag) (text : String) : Except (List String) Word :=
  match text.toList with
  | '-' :: _ :: _ =>
    let known := fun (name : String) => (spellings flags).find? fun spelling => spelling.2 = name
    match known text with
    | some (flag, name) => .ok (.option flag name none)
    | none =>
      match (splitEquals? text).bind fun split => (known split.1).map fun found =>
          (found, split.2) with
      | some ((flag, name), joined) => .ok (.option flag name (some joined))
      | none =>
        match abbreviated flags text with
        | [(flag, name, joined)] => .ok (.option flag name joined)
        | [] =>
          if isNegativeNumber text || text.contains ' ' then .ok (.operand text)
          else .ok (.unknownOption text)
        | several => .error (several.map fun found => found.2.1)
  | _ => .ok (.operand text)

def classifyAll (program : String) (flags : List Flag) :
    List String → Except UsageError (List Word)
  | [] => .ok []
  | text :: rest =>
    if text = "--" then .ok (.separator :: rest.map .operand)
    else
      match classify flags text with
      | .error names =>
        .error ⟨program,
          "ambiguous option: " ++ text ++ " could match " ++ ", ".intercalate names⟩
      | .ok word => do
        let words ← classifyAll program flags rest
        pure (word :: words)

abbrev Setting := Flag × Option String

/-- The options joined in one argument, and whether the last of them takes the next argument as its
value. -/
def unjoin (flags : List Flag) (done : List Setting) (flag : Flag) (name : List Char) :
    Option (List Char) → Except String (List Setting × Option Flag)
  | none =>
    if flag.takesValue then .ok (done.reverse, some flag)
    else .ok (((flag, none) :: done).reverse, none)
  | some joined =>
    if flag.takesValue then
      .ok (((flag, some (String.ofList joined)) :: done).reverse, none)
    else
      let refused := Except.error <| problemOf flag.label
        ("ignored explicit argument " ++ shown (String.ofList joined))
      match name, joined with
      | '-' :: '-' :: _, _ => refused
      | _, [] => refused
      | _, c :: rest =>
        match (spellings flags).find? fun spelling => spelling.2.toList = ['-', c] with
        | none => refused
        | some (next, _) =>
          match rest with
          | [] => unjoin flags ((flag, none) :: done) next ['-', c] none
          | d :: rest => unjoin flags ((flag, none) :: done) next ['-', c] (some (d :: rest))
termination_by joined => (joined.map List.length).getD 0 + if joined.isSome then 1 else 0

/-- The options that one argument gives, with the arguments behind it that are not used up. -/
def takeOption (flags : List Flag) (flag : Flag) (name : String) (joined : Option String)
    (rest : List Word) : Except String (List Setting × List Word) := do
  let (settings, open?) ← unjoin flags [] flag name.toList (joined.map String.toList)
  match open?, rest with
  | none, rest => pure (settings, rest)
  | some flag, .operand value :: rest => pure (settings ++ [(flag, some value)], rest)
  | some flag, _ => .error (problemOf flag.label "expected one argument")

/-- What is known of a command while its arguments are read. -/
structure Draft where
  input : Option String := none
  output : Option String := none
  maxHeadingJump : Option Int := some 1
  format : Format := .text
  level : Option Level := some .aa
  help : Bool := false
  /-- Arguments that mean nothing here, last first. -/
  extras : List String := []

def Draft.set (draft : Draft) (setting : Setting) : Except String Draft :=
  let refuse := fun problem => Except.error (problemOf setting.1.label problem)
  match setting.1, setting.2.filter (· ≠ "--") with
  | .output, value => .ok { draft with output := value }
  | .maxHeadingJump, none => .ok { draft with maxHeadingJump := none }
  | .maxHeadingJump, some value =>
    match readInteger? value.toList with
    | some number => .ok { draft with maxHeadingJump := some number }
    | none => refuse ("invalid int value: " ++ shown value)
  | .format, none => .ok { draft with format := .text }
  | .format, some value =>
    if value = "json" then .ok { draft with format := .json }
    else if value = "text" then .ok { draft with format := .text }
    else refuse (invalidChoice value ["json", "text"])
  | .level, none => .ok { draft with level := none }
  | .level, some value =>
    match Level.ofName? value with
    | some level => .ok { draft with level := some level }
    | none => refuse (invalidChoice value (Level.all.map Level.name))
  | .help, _ => .ok { draft with help := true }
  | .verbose, _ | .version, _ => .ok draft

/-- The draft with several options set. A call for help ends the reading. -/
def Draft.setAll (draft : Draft) (settings : List Setting) : Except String Draft :=
  settings.foldlM (fun draft setting => if draft.help then pure draft else draft.set setting)
    draft

/-- The draft that the arguments of a command give. Every argument uses up fuel. -/
def readDraft (flags : List Flag) : Nat → Draft → List Word → Except String Draft
  | 0, draft, _ => .ok draft
  | _ + 1, draft, [] => .ok draft
  | fuel + 1, draft, word :: rest =>
    if draft.help then .ok draft
    else
      match word with
      | .operand text =>
        match draft.input with
        | some _ => readDraft flags fuel { draft with extras := text :: draft.extras } rest
        | none =>
          let draft := { draft with input := some text }
          match rest with
          | .separator :: rest => readDraft flags fuel draft rest
          | rest => readDraft flags fuel draft rest
      | .separator =>
        match draft.input, rest with
        | none, _ :: _ => readDraft flags fuel draft rest
        | _, _ => readDraft flags fuel { draft with extras := "--" :: draft.extras } rest
      | .unknownOption text =>
        readDraft flags fuel { draft with extras := text :: draft.extras } rest
      | .option flag name joined => do
        let (settings, rest) ← takeOption flags flag name joined rest
        let draft ← draft.setAll settings
        readDraft flags fuel draft rest

def commandNames : List String := ["enhance", "audit", "validate"]

def commandFlags (name : String) : List Flag :=
  match name with
  | "enhance" => [.help, .output]
  | "audit" => [.help, .maxHeadingJump]
  | _ => [.help, .format, .level]

/-- The command of a name that a finished draft describes. -/
def Draft.command (draft : Draft) (name input : String) : Command :=
  match name with
  | "enhance" => .enhance input draft.output
  | "audit" => .audit input draft.maxHeadingJump
  | _ => .validate input draft.format draft.level

/-- What a command and its arguments ask for. `extras` are arguments before it that mean
nothing. -/
def readCommand (verbose : Bool) (extras : List String) (name : String)
    (arguments : List String) : Except UsageError Request :=
  if !commandNames.contains name then
    .error ⟨programName, problemOf "command" (invalidChoice name commandNames)⟩
  else do
    let program := programName ++ " " ++ name
    let flags := commandFlags name
    let words ← classifyAll program flags arguments
    match readDraft flags (words.length + 1) {} words with
    | .error problem => .error ⟨program, problem⟩
    | .ok draft =>
      if draft.help then pure .help
      else
        match draft.input with
        | none => .error ⟨program, "the following arguments are required: input"⟩
        | some input =>
          match extras ++ draft.extras.reverse with
          | [] => pure (.run verbose (draft.command name input))
          | extras =>
            .error ⟨programName, "unrecognized arguments: " ++ " ".intercalate extras⟩

def programFlags : List Flag := [.help, .verbose, .version]

/-- The first of the options that asks for something by itself. -/
def immediate? (settings : List Setting) : Option Request :=
  settings.findSome? fun setting =>
    match setting.1 with
    | .help => some .help
    | .version => some .version
    | _ => none

/-- What arguments ask for, given word by word and as they were written. -/
def readWords (verbose : Bool) (extras : List String) :
    List Word → List String → Except UsageError Request
  | .operand text :: _, _ :: arguments => readCommand verbose extras text arguments
  | .separator :: _ :: _, _ :: arguments => readCommand verbose extras "--" arguments
  | .unknownOption text :: words, _ :: arguments =>
    readWords verbose (extras ++ [text]) words arguments
  | .option flag name joined :: words, _ :: arguments =>
    match unjoin programFlags [] flag name.toList (joined.map String.toList) with
    | .error problem => .error ⟨programName, problem⟩
    | .ok (settings, _) =>
      match immediate? settings with
      | some request => .ok request
      | none => readWords true extras words arguments
  | _, _ => .error ⟨programName, "the following arguments are required: command"⟩

def readArguments (arguments : List String) : Except UsageError Request := do
  let words ← classifyAll programName programFlags arguments
  readWords false [] words arguments

end AccessibleMarkup.CommandLine
