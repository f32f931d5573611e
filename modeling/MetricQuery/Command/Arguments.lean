import MetricQuery.Settings.OutputFormat

/-!
# Command line arguments

A command line names one command, with options before and after it. An option has a long name or a
letter; its value stands in the same argument (`--range=5m`, `-fjson`, `-f=json`) or in the next one,
which then does not start with a hyphen unless it is just that. Two hyphens end the options.

The options for the output format and the configuration belong to every command and may also stand
before it; the one behind the command wins. Apart from that an option is given once, except for
labels, which add up.

Arguments are looked at from left to right, and the first one that is wrong, or that asks for help or
the version, settles the matter. A value in an argument of its own is looked at later than the option
that it belongs to: only when the next option or operand comes, or when all arguments are read, and
before the command only after everything behind it. So a request for help in the place of the command
or behind it comes before a bad value in front of it.
-/

set_option autoImplicit false

namespace MetricQuery

/-- What the program can do. -/
inductive Verb where
  | render | vector | demo | config
deriving DecidableEq, Repr

instance : Vocabulary Verb where
  all := [.render, .vector, .demo, .config]
  name
    | .render => "render"
    | .vector => "vector"
    | .demo => "demo"
    | .config => "config"

/-- How many operands a command takes, all of which it needs. -/
def Verb.operands : Verb → Nat
  | render => 1
  | vector => 1
  | demo => 0
  | config => 0

/-- What an option with a value gives. -/
inductive Field where
  | format | config | label | range | offset | instant | output
deriving DecidableEq, Repr

namespace Field

/-- The long name of an option. -/
def longName : Field → String
  | format => "format"
  | config => "config"
  | label => "label"
  | range => "range"
  | offset => "offset"
  | instant => "at"
  | output => "output"

/-- Labels add up; all else is given once. -/
def addsUp : Field → Bool
  | label => true
  | _ => false

/-- Whether a value makes sense by itself. -/
def accepts (field : Field) (value : String) : Bool :=
  match field with
  | format => (OutputFormat.ofText? value).isSome
  | config => decide (value ≠ "")
  | output => decide (value ≠ "")
  | _ => true

end Field

/-- What an option asks for. -/
inductive Flag where
  | value (field : Field)
  | help
  | version

namespace Flag

/-- Options that stand before a command and behind any. -/
def sharedLong? (name : String) : Option Flag :=
  match name with
  | "format" => some (.value .format)
  | "config" => some (.value .config)
  | "help" => some .help
  | _ => none

/-- The letters of the options for all commands. -/
def sharedShort? (letter : Char) : Option Flag :=
  match letter with
  | 'f' => some (.value .format)
  | 'c' => some (.value .config)
  | 'h' => some .help
  | _ => none

/-- The option of a long name, before a command or behind it. -/
def long? (verb : Option Verb) (name : String) : Option Flag :=
  match sharedLong? name with
  | some flag => some flag
  | none =>
    match verb, name with
    | none, "version" => some .version
    | some .vector, "label" => some (.value .label)
    | some .vector, "range" => some (.value .range)
    | some .vector, "offset" => some (.value .offset)
    | some .vector, "at" => some (.value .instant)
    | some .config, "output" => some (.value .output)
    | _, _ => none

/-- The option of a letter, before a command or behind it. -/
def short? (verb : Option Verb) (letter : Char) : Option Flag :=
  match sharedShort? letter with
  | some flag => some flag
  | none =>
    match verb, letter with
    | none, 'V' => some .version
    | some .vector, 'l' => some (.value .label)
    | some .config, 'o' => some (.value .output)
    | _, _ => none

end Flag

/-- The shape of an argument. -/
inductive Word where
  /-- An operand, a command or a value. -/
  | plain (text : String)
  /-- The two hyphens that end the options. -/
  | escape
  | long (name : String) (value : Option String)
  /-- A letter and what stands behind it in the same argument. -/
  | short (letter : Char) (rest : List Char)

/-- What an argument looks like, before it is known what it stands for. -/
def Word.of (arg : String) : Word :=
  match arg.toList with
  | ['-', '-'] => escape
  | '-' :: '-' :: text =>
    let value :=
      match text.dropWhile fun c => decide (c ≠ '=') with
      | [] => none
      | _ :: value => some (String.ofList value)
    long (String.ofList (text.takeWhile fun c => decide (c ≠ '='))) value
  | '-' :: letter :: rest => short letter rest
  | _ => plain arg

/-- The value that stands behind a letter, less an equals sign. -/
def attached : List Char → Option String
  | [] => none
  | '=' :: value => some (String.ofList value)
  | value => some (String.ofList value)

/-- What is wrong with a command line. -/
inductive Misuse where
  /-- An option that is not known in its place, or an operand too many. -/
  | unexpected (arg : String)
  /-- A word in the place of the command that names none. -/
  | unknownCommand (word : String)
  | missingCommand
  | missingOperand (verb : Verb)
  /-- An option without its value. -/
  | missingValue (field : Field)
  | badValue (field : Field) (value : String)
  /-- A value for an option that takes none. -/
  | needlessValue (option value : String)
  /-- An option that is given again. -/
  | repeated (field : Field)
deriving DecidableEq, Repr

/-- Why a command line is not carried out. -/
inductive Refusal where
  /-- It asks for help, on a command or on the program. -/
  | help (command : Option String)
  /-- It asks for the version. -/
  | version
  /-- It asks for nothing at all. -/
  | empty
  | misuse (fault : Misuse)
deriving DecidableEq, Repr

/-- Options with their values, and operands, in the order given. -/
structure Given where
  values : List (Field × String) := []
  operands : List String := []
  /-- The option that was named last, as long as its value is not looked at, with the value once it is
  there. -/
  pending : Option (Field × Option String) := none

namespace Given

/-- The value of an option that is given once at most. -/
def get? (given : Given) (field : Field) : Option String :=
  given.values.lookup field

/-- The values of an option that may be given any number of times. -/
def all (given : Given) (field : Field) : List String :=
  (given.values.filter fun entry => decide (entry.1 = field)).map Prod.snd

/-- Adds an option with its value, which has to make sense. Most options can be given once only. -/
def put (given : Given) (field : Field) (value : String) : Except Refusal Given :=
  if !field.addsUp && (given.get? field).isSome then .error (.misuse (.repeated field))
  else if field.accepts value then .ok { given with values := given.values ++ [(field, value)] }
  else .error (.misuse (.badValue field value))

/-- The option whose value comes next. -/
def awaits? (given : Given) : Option Field :=
  match given.pending with
  | some (field, none) => some field
  | _ => none

/-- Looks at the value of the option that was named last. -/
def settle (given : Given) : Except Refusal Given :=
  match given.pending with
  | none => .ok given
  | some (field, none) => .error (.misuse (.missingValue field))
  | some (field, some value) => { given with pending := none }.put field value

/-- One more option, with its value if that stands in the same argument. -/
def option (given : Given) (field : Field) (value : Option String) : Except Refusal Given := do
  let given ← given.settle
  match value with
  | some value => given.put field value
  | none => return { given with pending := some (field, none) }

/-- Adds an operand behind a command. -/
def operand (given : Given) (text : String) : Except Refusal Given := do
  let given ← given.settle
  return { given with operands := given.operands ++ [text] }

end Given

/-- A command line as far as it is read. -/
structure Reading where
  /-- What stands before the command. -/
  before : Given := {}
  verb : Option Verb := none
  /-- What stands behind the command. -/
  behind : Given := {}
  /-- Whether the options have ended. -/
  ended : Bool := false

namespace Reading

/-- The side of the command that is being read. -/
def given (r : Reading) : Given :=
  match r.verb with
  | none => r.before
  | some _ => r.behind

/-- Goes on with the side of the command that is being read. -/
def resume (r : Reading) (given : Given) : Reading :=
  match r.verb with
  | none => { r with before := given }
  | some _ => { r with behind := given }

/-- Whether a word stands where a command is named: one of the commands, or the word for help. -/
def isCommand (word : String) : Bool :=
  decide (word = "help" ∨ word ∈ Vocabulary.names Verb)

/-- An argument that is no option. -/
def operand (r : Reading) (text : String) : Except Refusal Reading :=
  match r.verb with
  | none =>
    -- Behind the end of the options even a command is out of place.
    if r.ended && isCommand text then .error (.misuse (.unexpected text))
    else .error (.misuse (.unknownCommand text))
  | some verb =>
    if r.behind.operands.length < verb.operands then do
      return { r with behind := ← r.behind.operand text }
    else .error (.misuse (.unexpected text))

/-- An option, with its value if that stands in the same argument. -/
def option (r : Reading) (flag : Flag) (value : Option String) : Except Refusal Reading := do
  match flag with
  | .value field => return r.resume (← r.given.option field value)
  | .help =>
    let _ ← r.given.settle
    throw (.help (r.verb.map Vocabulary.name))
  | .version =>
    let _ ← r.given.settle
    throw .version

/-- An argument with a long name. -/
def long (r : Reading) (name : String) (value : Option String) : Except Refusal Reading :=
  match Flag.long? r.verb name, value with
  | none, _ => .error (.misuse (.unexpected ("--" ++ name)))
  | some (.value field), value => r.option (.value field) value
  | some flag, none => r.option flag none
  | some _, some value => .error (.misuse (.needlessValue ("--" ++ name) value))

/-- An argument with a letter. What stands behind the letter of an option without a value does not
matter any more. -/
def short (r : Reading) (letter : Char) (rest : List Char) : Except Refusal Reading :=
  match Flag.short? r.verb letter with
  | none => .error (.misuse (.unexpected (String.ofList ['-', letter])))
  | some flag => r.option flag (attached rest)

/-- An argument without a hyphen in front: a value, the command, or an operand. -/
def plain (r : Reading) (text : String) : Except Refusal Reading :=
  match r.given.awaits? with
  | some field => .ok (r.resume { r.given with pending := some (field, some text) })
  | none =>
    match r.verb, Vocabulary.ofName? text with
    | none, some verb => .ok { r with verb := some verb }
    | _, _ => r.operand text

/-- Takes one more argument. -/
def step (r : Reading) (arg : String) : Except Refusal Reading :=
  if r.ended then r.operand arg
  else
    match Word.of arg with
    | .escape => .ok { r with ended := true }
    | .long name value => r.long name value
    | .short letter rest => r.short letter rest
    | .plain text => r.plain text

/-- Whether an argument is the word that asks for help on the commands that follow it. -/
def asksForHelp (r : Reading) (arg : String) : Bool :=
  !r.ended && r.before.awaits?.isNone && r.verb.isNone && decide (arg = "help")

/-- Help is on the program or on one command, which has none below it. -/
def helpOn (topics : List String) : Refusal :=
  match topics with
  | [] => .help none
  | topic :: rest =>
    if isCommand topic then
      match rest with
      | [] => .help (some topic)
      | word :: _ => .misuse (.unknownCommand word)
    else .misuse (.unknownCommand topic)

/-- Reads the arguments from first to last, unless one asks for help. -/
def readAll : Reading → List String → Except Refusal Reading
  | r, [] => .ok r
  | r, arg :: args =>
    if r.asksForHelp arg then .error (helpOn args)
    else do readAll (← r.step arg) args

end Reading

/-- What to do. -/
inductive Request where
  /-- Print the tree that a file holds. -/
  | render (input : String)
  /-- Print a selector. -/
  | vector (metric : String) (labels : List String) (range offset instant : Option String)
  /-- Print examples. -/
  | demo
  /-- Print or write a configuration with all defaults. -/
  | config (output : Option String)
deriving DecidableEq, Repr

/-- A command line that can be carried out: what is asked for, and the options for all commands. -/
structure Invocation where
  request : Request
  format : Option OutputFormat
  config : Option String
deriving DecidableEq, Repr

namespace Invocation

/-- The request of a command with what stands behind it. -/
def request? (verb : Verb) (given : Given) : Option Request :=
  match verb, given.operands with
  | .render, [input] => some (.render input)
  | .vector, [metric] =>
    some (.vector metric (given.all .label) (given.get? .range) (given.get? .offset)
      (given.get? .instant))
  | .demo, [] => some .demo
  | .config, [] => some (.config (given.get? .output))
  | _, _ => none

/-- The value of an option that may stand before the command and behind it. -/
def shared? (before behind : Given) (field : Field) : Option String :=
  behind.get? field <|> before.get? field

/-- The invocation that a complete command line stands for. What stands behind the command is
finished first. -/
def ofReading (r : Reading) : Except Refusal Invocation := do
  match r.verb with
  | none =>
    let before ← r.before.settle
    if before.values = [] then throw .empty else throw (.misuse .missingCommand)
  | some verb =>
    let behind ← r.behind.settle
    match request? verb behind with
    | none => throw (.misuse (.missingOperand verb))
    | some request =>
      let before ← r.before.settle
      return ⟨request, (shared? before behind .format).bind OutputFormat.ofText?,
        shared? before behind .config⟩

/-- The invocation that a command line stands for. -/
def parse (args : List String) : Except Refusal Invocation := do
  ofReading (← Reading.readAll {} args)

end Invocation

end MetricQuery
