import Cmm.Settings
import Cmm.Text.Integer
import Cmm.Text.Quoted

/-!
The options of the command line.

An argument is an option if it starts with a dash, unless it is a dash alone, looks like a
negative number, or holds a space and begins no option.  A long option may be cut short as long as
one option alone begins so, and takes its value from the same argument after `=` or from the next
one.  A short option may also have its value glued to it, and a flag of one letter may be followed
by the letters of further options, with or without a `=` before them.  After `--` nothing is an
option any more; an option whose value in the same argument is `--` is set to nothing.

The arguments are taken from left to right; the first fault ends the reading, and so does the
request for help.  Whether a source is given, and whether every argument was of use, is asked at
the end.
-/

namespace Cmm

structure Options where
  source : String
  output : Option String
  tab : TabChoice
  outline : Bool
  deriving DecidableEq, Repr

namespace Options

/-! ## The options -/

inductive Flag where
  | help
  | output
  | tab
  | outline
  deriving DecidableEq, Repr

def spellings : List (String × Flag) :=
  [("-h", .help), ("--help", .help), ("-o", .output), ("--tab", .tab), ("--ast", .outline)]

def Flag.label : Flag → String
  | .help => "-h/--help"
  | .output => "-o"
  | .tab => "--tab"
  | .outline => "--ast"

def Flag.takesValue : Flag → Bool
  | .output | .tab => true
  | .help | .outline => false

inductive UsageError where
  | ambiguous (text : String) (candidates : List String)
  | missingValue (flag : Flag)
  | uselessValue (flag : Flag) (value : String)
  | notAnInteger (value : String)
  | missingSource
  | unrecognized (extras : List String)
  deriving DecidableEq, Repr

def UsageError.message : UsageError → String
  | .ambiguous text candidates =>
    s!"ambiguous option: {text} could match " ++ ", ".intercalate candidates
  | .missingValue flag => s!"argument {flag.label}: expected one argument"
  | .uselessValue flag value =>
    s!"argument {flag.label}: ignored explicit argument {Text.quoted value}"
  | .notAnInteger value => s!"argument --tab: invalid int value: {Text.quoted value}"
  | .missingSource => "the following arguments are required: source"
  | .unrecognized extras => "unrecognized arguments: " ++ " ".intercalate extras

/-! ## Kinds of arguments -/

/-- What an argument is; a value that stands in the same argument as its option is attached. -/
inductive Argument where
  | operand (text : String)
  | separator
  | flag (flag : Flag) (short : Bool) (attached : Option (List Char))
  | unknown (text : String)
  deriving DecidableEq, Repr

/-- Whether a text is a dash and digits, one point among or before them allowed, and possibly a
line feed at the end. -/
def isNegativeNumber (text : List Char) : Bool :=
  let isDigit := fun c => (Text.digitValue? c).isSome
  let body := if text.getLast? = some '\n' then text.dropLast else text
  match body with
  | '-' :: rest =>
    let whole := rest.takeWhile isDigit
    match rest.drop whole.length with
    | [] => whole ≠ []
    | '.' :: fraction => fraction ≠ [] && fraction.all isDigit
    | _ => false
  | _ => false

def splitValue (text : List Char) : List Char × Option (List Char) :=
  match text.dropWhile (· ≠ '=') with
  | [] => (text, none)
  | _ :: value => (text.takeWhile (· ≠ '='), some value)

def isShort (spelling : String) : Bool := !spelling.startsWith "--"

/-- The options that an argument may mean which spells none of them in full. -/
def candidates (text : List Char) : List (String × Argument) :=
  let (start, value) := splitValue text
  spellings.filterMap fun (spelling, flag) =>
    if text.take 2 = ['-', '-'] then
      if start.isPrefixOf spelling.toList then
        some (spelling, .flag flag (isShort spelling) value)
      else none
    else if spelling.toList = text.take 2 then
      some (spelling, .flag flag true (some (text.drop 2)))
    else none

def classify (text : String) : Except UsageError Argument :=
  let chars := text.toList
  let (start, value) := splitValue chars
  if chars.head? ≠ some '-' ∨ chars = ['-'] then .ok (.operand text)
  else match spellings.lookup text with
    | some flag => .ok (.flag flag (isShort text) none)
    | none =>
      let exact := if value.isSome then spellings.lookup (String.ofList start) else none
      match exact with
      | some flag => .ok (.flag flag (isShort text) value)
      | none =>
        match candidates chars with
        | [(_, argument)] => .ok argument
        | [] =>
          if isNegativeNumber chars ∨ ' ' ∈ chars then .ok (.operand text)
          else .ok (.unknown text)
        | several => .error (.ambiguous text (several.map Prod.fst))

def classifyAll : List String → Except UsageError (List Argument)
  | [] => .ok []
  | "--" :: rest => .ok (.separator :: rest.map .operand)
  | text :: rest => do
    let argument ← classify text
    let more ← classifyAll rest
    return argument :: more

/-! ## Taking the arguments -/

structure State where
  source : Option String
  output : Option String
  tab : TabChoice
  outline : Bool
  extras : List String
  deriving DecidableEq, Repr

inductive Stop where
  | help
  | usage (error : UsageError)
  deriving DecidableEq, Repr

def State.addExtra (s : State) (text : String) : State := { s with extras := s.extras ++ [text] }

def State.raise (s : State) : Flag → Except Stop State
  | .help => .error .help
  | .outline => .ok { s with outline := true }
  | flag => .error (.usage (.missingValue flag))

def State.set (s : State) (flag : Flag) (value : Option String) : Except Stop State :=
  match flag, value with
  | .output, value => .ok { s with output := value }
  | .tab, none => .ok { s with tab := .none }
  | .tab, some value =>
    match Text.readInteger? value with
    | some width => .ok { s with tab := .width width }
    | none => .error (.usage (.notAnInteger value))
  | flag, value => .error (.usage (.uselessValue flag (value.getD "")))

/-- The value that is attached to an option; `--` is none. -/
def attachedValue (value : List Char) : Option String :=
  if value = ['-', '-'] then none else some (String.ofList value)

/-- Letters attached to a flag: each must be an option of one letter, and the first that takes a
value has the others for it.  `next` says whether an operand follows the argument. -/
def checkLetters (next : Bool) (flag : Flag) : List Char → Except UsageError Unit
  | [] => .ok ()
  | c :: rest =>
    match spellings.lookup (String.ofList ['-', c]) with
    | none => .error (.uselessValue flag (String.ofList (c :: rest)))
    | some letter =>
      if !letter.takesValue then checkLetters next letter rest
      else if rest = [] ∧ !next then .error (.missingValue letter)
      else .ok ()

def State.take (s : State) : List Argument → Except Stop State
  | [] => .ok s
  | .operand text :: rest =>
    match s.source, rest with
    | some _, rest => (s.addExtra text).take rest
    | none, .separator :: rest => { s with source := some text }.take rest
    | none, rest => { s with source := some text }.take rest
  | .separator :: rest =>
    match s.source, rest with
    | none, .operand text :: rest => { s with source := some text }.take rest
    | _, rest => (s.addExtra "--").take rest
  | .unknown text :: rest => (s.addExtra text).take rest
  | .flag flag short attached :: rest =>
    match attached with
    | none =>
      if flag.takesValue then
        match rest with
        | .operand value :: rest => do
          let s ← s.set flag (some value)
          s.take rest
        | _ => .error (.usage (.missingValue flag))
      else do
        let s ← s.raise flag
        s.take rest
    | some value =>
      if flag.takesValue then do
        let s ← s.set flag (attachedValue value)
        s.take rest
      else if !short ∨ value = [] then
        .error (.usage (.uselessValue flag (String.ofList value)))
      else
        let next := match rest with
          | .operand _ :: _ => true
          | _ => false
        match checkLetters next flag value with
        | .error e => .error (.usage e)
        | .ok () => do
          let s ← s.raise flag
          s.take rest

def read (arguments : List String) : Except Stop Options := do
  let classified ← (classifyAll arguments).mapError .usage
  let s ← State.take ⟨none, none, .unset, false, []⟩ classified
  match s.source with
  | none => .error (.usage .missingSource)
  | some source =>
    if s.extras = [] then .ok ⟨source, s.output, s.tab, s.outline⟩
    else .error (.usage (.unrecognized s.extras))

/-! ## Texts -/

def usage : String := "usage: pycmm [-h] [-o OUTPUT] [--tab TAB] [--ast] source\n"

def help : String :=
  usage ++
  "\nC-- parser and unparser\n\npositional arguments:\n" ++
  "  source      Input C-- source file\n\noptions:\n" ++
  "  -h, --help  show this help message and exit\n" ++
  "  -o OUTPUT   Write the unparsed program here (default: stdout)\n" ++
  "  --tab TAB   Indentation width (default: $PYCMM_TAB_WIDTH or 4)\n" ++
  "  --ast       Print the syntax tree instead of source text\n"

def UsageError.text (e : UsageError) : String := usage ++ "pycmm: error: " ++ e.message ++ "\n"

end Options

end Cmm
