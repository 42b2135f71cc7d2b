import CrewChart.Decimal.Reading
import CrewChart.Graph.Basic

/-!
# The command line

A command line names a command and gives it operands, flags and options, in any order.  An option
takes the argument after it, or what follows an equals sign; no flag or option may be given twice,
and after `--` everything is an operand.  The settings file may be named before the command or
after it, where the later one counts.

A line is read from left to right, and a request for help ends it where it stands.
-/

set_option autoImplicit false

namespace CrewChart.Command

/-- What the commands are called. -/
inductive Name where
  | check
  | simulate
  | generate
  | presets
deriving DecidableEq, Repr

namespace Name

def text : Name → String
  | .check => "check"
  | .simulate => "simulate"
  | .generate => "generate"
  | .presets => "presets"

def all : List Name := [.check, .simulate, .generate, .presets]

def ofText? (s : String) : Option Name := all.find? fun c => c.text == s

/-- The flags and the options of a command, and whether it needs a chart. -/
def flags : Name → List String
  | .check | .simulate => ["json"]
  | .generate | .presets => []

def options : Name → List String
  | .check => ["config"]
  | .simulate => ["config", "delay-ms"]
  | .generate => ["config", "out"]
  | .presets => ["config", "kind"]

def takesChart : Name → Bool
  | .presets => false
  | .check | .simulate | .generate => true

end Name

inductive Request where
  | check (chart : String) (json : Bool)
  | simulate (chart : String) (delay : Option Nat) (json : Bool)
  | generate (chart : String) (out : Option String)
  | presets (kind : Option Kind)
deriving DecidableEq, Repr

/-- What a line may ask help about. -/
inductive Topic where
  | program
  | command (c : Name)
  | help
deriving DecidableEq, Repr

inductive Line where
  | run (config : Option String) (request : Request)
  | help (topic : Topic)
  | misuse
deriving DecidableEq, Repr

/-! ## Arguments -/

inductive Argument where
  | operand (s : String)
  | long (name : String) (value : Option String)
  | short
  | help
  | rest
deriving DecidableEq, Repr

/-- What an argument looks like.  A single dash is an operand. -/
def Argument.ofText (s : String) : Argument :=
  match s.toList with
  | ['-', '-'] => .rest
  | '-' :: '-' :: cs =>
    let name := String.ofList (cs.takeWhile (· != '='))
    let value := match cs.dropWhile (· != '=') with
      | _ :: value => some (String.ofList value)
      | [] => none
    if name = "help" ∧ value = none then .help else .long name value
  | '-' :: 'h' :: _ => .help
  | '-' :: _ :: _ => .short
  | _ => .operand s

/-- Whether an argument can be the value of the option before it. -/
def isValue (s : String) : Bool :=
  match Argument.ofText s with
  | .operand _ => true
  | _ => false

/-- What has been given so far. -/
structure Given where
  flags : List String := []
  options : List (String × String) := []
  operands : List String := []
deriving DecidableEq, Repr

/-- Whether an option may have this value. -/
def allowed (option value : String) : Bool :=
  match option with
  | "delay-ms" => (Decimal.word value).toOption.isSome
  | "kind" => (Kind.named.lookup value).isSome
  | _ => value != ""

namespace Given

def addOption (g : Given) (name value : String) : Option Given :=
  if (g.options.lookup name).isSome || !allowed name value then none
  else some { g with options := (name, value) :: g.options }

def addFlag (g : Given) (name : String) : Option Given :=
  if g.flags.contains name then none else some { g with flags := name :: g.flags }

def addOperand (c : Name) (g : Given) (s : String) : Option Given :=
  if c.takesChart && g.operands.isEmpty && s != "" then some { g with operands := [s] } else none

end Given

/-- How reading the arguments of a command ends. -/
inductive Outcome where
  | given (g : Given)
  | help
  | misuse

def addOperands (c : Name) (g : Given) : List String → Outcome
  | [] => .given g
  | s :: rest =>
    match g.addOperand c s with
    | some g => addOperands c g rest
    | none => .misuse

/-- The arguments of a command. -/
def arguments (c : Name) (g : Given) : List String → Outcome
  | [] => .given g
  | s :: rest =>
    match Argument.ofText s with
    | .rest => addOperands c g rest
    | .help => .help
    | .short => .misuse
    | .operand s =>
      match g.addOperand c s with
      | some g => arguments c g rest
      | none => .misuse
    | .long name value =>
      if name ∈ c.flags ∧ value = none then
        match g.addFlag name with
        | some g => arguments c g rest
        | none => .misuse
      else if name ∈ c.options then
        match value, rest with
        | some value, rest =>
          match g.addOption name value with
          | some g => arguments c g rest
          | none => .misuse
        | none, [] => .misuse
        | none, value :: rest =>
          if isValue value then
            match g.addOption name value with
            | some g => arguments c g rest
            | none => .misuse
          else .misuse
      else .misuse

/-! ## Lines -/

/-- The request for a command with these arguments, unless it lacks its chart. -/
def request? (c : Name) (g : Given) : Option Request :=
  let json := g.flags.contains "json"
  match c, g.operands with
  | .check, chart :: _ => some (.check chart json)
  | .simulate, chart :: _ =>
    some (.simulate chart ((g.options.lookup "delay-ms").bind fun s => (Decimal.word s).toOption)
      json)
  | .generate, chart :: _ => some (.generate chart (g.options.lookup "out"))
  | .presets, _ => some (.presets ((g.options.lookup "kind").bind fun s => Kind.named.lookup s))
  | _, [] => none

/-- The line of a command, with the settings file that was named before it. -/
def command (config : Option String) (c : Name) (args : List String) : Line :=
  match arguments c {} args with
  | .misuse => .misuse
  | .help => .help (.command c)
  | .given g =>
    match request? c g with
    | some r => .run (g.options.lookup "config" <|> config) r
    | none => .misuse

/-- A line that asks for help by the command of that name. -/
def helpLine : List String → Line
  | [] => .help .program
  | [s] =>
    if s = "help" then .help .help
    else
      match Name.ofText? s with
      | some c => .help (.command c)
      | none => .misuse
  | _ => .misuse

/-- A line, after the settings file that has been named. -/
def line (config : Option String) : List String → Line
  | [] => .misuse
  | s :: rest =>
    match Argument.ofText s with
    | .help => .help .program
    | .rest | .short => .misuse
    | .operand s =>
      if s = "help" then helpLine rest
      else
        match Name.ofText? s with
        | some c => command config c rest
        | none => .misuse
    | .long name value =>
      if name = "config" ∧ config = none then
        match value, rest with
        | some path, rest => if path = "" then .misuse else line (some path) rest
        | none, [] => .misuse
        | none, path :: rest =>
          if isValue path && path != "" then line (some path) rest else .misuse
      else .misuse

/-- What the arguments of the program ask for. -/
def Line.ofArguments (args : List String) : Line := line none args

end CrewChart.Command
