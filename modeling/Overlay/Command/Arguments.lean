import Overlay.Settings.Basic
import Overlay.Topology.Shape

/-!
Command line arguments. Options may stand in any order; those of the program itself may stand
before or behind the name of the command.
-/

namespace Overlay

/-- The inputs of the commands that place a snapshot; what is missing is taken from the settings. -/
structure PlacementInputs where
  env : Option String
  ir : Option String
  target : Option Target
deriving DecidableEq

inductive Command
  /-- Generates a topology and stores its snapshot, and its drawing if `dot` is given. -/
  | topogen (shape : Shape) (hops : Option UInt32) (output dot : Option String) (plainDot : Bool)
  /-- Places a snapshot and stores the host configuration. -/
  | envgen (inputs : PlacementInputs) (output : Option String)
  /-- Places a snapshot and stores the plan. -/
  | deploy (inputs : PlacementInputs) (output : Option String)
deriving DecidableEq

/-- A command with the options of the program itself. -/
structure Invocation where
  conf : Option String
  debug : Bool
  command : Command
deriving DecidableEq

namespace Arguments

/-- Why arguments do not lead to an invocation. -/
inductive Halt
  /-- They cannot be understood. -/
  | usage
  /-- They ask for help or for the version. -/
  | info
deriving DecidableEq

inductive Opt
  | help
  | version
  | conf
  | debug
  | shape
  | hops
  | output
  | dot
  | plainDot
  | env
  | ir
  | target
deriving DecidableEq

/-- An option under its long name and, if it has one, its letter. -/
structure Spelling where
  opt : Opt
  long : String
  letter : Option Char
  takesValue : Bool

def helpOption : Spelling := ⟨.help, "help", some 'h', false⟩

/-- Options that may stand before and behind the name of the command. -/
def globalOptions : List Spelling :=
  [⟨.debug, "debug", none, false⟩, ⟨.conf, "conf", some 'c', true⟩, helpOption]

def programOptions : List Spelling :=
  globalOptions ++ [⟨.version, "version", some 'V', false⟩]

def topogenOptions : List Spelling :=
  globalOptions ++ [⟨.shape, "type", some 't', true⟩, ⟨.hops, "hops", none, true⟩,
    ⟨.output, "output", some 'o', true⟩, ⟨.dot, "dot", some 'd', true⟩,
    ⟨.plainDot, "plain-dot", none, false⟩]

def placementOptions : List Spelling :=
  globalOptions ++ [⟨.env, "env", some 'e', true⟩, ⟨.ir, "ir", some 'i', true⟩,
    ⟨.target, "target", some 't', true⟩, ⟨.output, "output", some 'o', true⟩]

/-- A 32-bit number in decimal with an optional sign; leading zeros are allowed. -/
def uint32? (s : String) : Option UInt32 :=
  let magnitude? (cs : List Char) := (Decimal.value? cs).filter (· < UInt32.size)
  match s.toList with
  | '+' :: cs => (magnitude? cs).map .ofNat
  | '-' :: cs => ((magnitude? cs).filter (· = 0)).map .ofNat
  | cs => (magnitude? cs).map .ofNat

/-- The option takes this value. -/
def accepts : Opt → String → Bool
  | .shape, v => (Shape.ofName? v).isSome
  | .hops, v => (uint32? v).isSome
  | .target, v => (Target.ofName? v).isSome
  | .conf, v | .output, v | .dot, v | .env, v | .ir, v => v ≠ ""
  | _, _ => true

/-- Options with their values, last first; the value of an option without one is empty. -/
abbrev Given :=
  List (Opt × String)

/-- Adds an option, which may be given only once. -/
def add (given : Given) (opt : Opt) (value : String) : Except Halt Given :=
  if given.any (·.1 = opt) || !accepts opt value then .error .usage
  else .ok ((opt, value) :: given)

/-- Adds an option without value; help and version end the reading. -/
def addFlag (given : Given) (opt : Opt) : Except Halt Given :=
  if opt = .help ∨ opt = .version then .error .info else add given opt ""

/-- An argument that starts an option. -/
def isOption (arg : String) : Bool :=
  arg.startsWith "-" && arg ≠ "-"

/-- How far options have been read. The value of an option that is an argument of its own is checked
only when the reading goes on behind it, so a command that asks for help comes first. -/
inductive Reading
  | between (given : Given)
  /-- The next argument is the value of this option. -/
  | awaiting (given : Given) (opt : Opt)
  /-- The option has its value, which has not been checked. -/
  | held (given : Given) (opt : Opt) (value : String)

/-- Checks what has been read. -/
def Reading.settle : Reading → Except Halt Given
  | .between given => .ok given
  | .awaiting _ _ => .error .usage
  | .held given opt value => add given opt value

/-- Reads one or more letters behind a hyphen; the first option with a value takes the rest, from
which an equals sign is dropped. -/
def letters (options : List Spelling) (given : Given) : List Char → Except Halt Reading
  | [] => .ok (.between given)
  | c :: cs =>
    match options.find? fun o => o.letter = some c with
    | none => .error .usage
    | some o =>
      if o.takesValue then
        match cs with
        | [] => .ok (.awaiting given o.opt)
        | '=' :: cs => (add given o.opt (.ofList cs)).map .between
        | cs => (add given o.opt (.ofList cs)).map .between
      else
        match addFlag given o.opt with
        | .ok given => letters options given cs
        | .error h => .error h

/-- Reads a long name, with a value if there is an equals sign. -/
def longName (options : List Spelling) (given : Given) (text : List Char) : Except Halt Reading :=
  let name := text.takeWhile (· ≠ '=')
  match options.find? fun o => o.long.toList = name with
  | none => .error .usage
  | some o =>
    match o.takesValue, text.dropWhile (· ≠ '=') with
    | true, [] => .ok (.awaiting given o.opt)
    | true, _ :: value => (add given o.opt (.ofList value)).map .between
    | false, [] => (addFlag given o.opt).map .between
    | false, _ :: _ => .error .usage

/-- Reads the option that starts with a hyphen in front of `text`. -/
def option (known : List Spelling) (reading : Reading) (text : List Char) :
    Except Halt Reading := do
  let given ← reading.settle
  match text with
  | '-' :: name => longName known given name
  | _ => letters known given text

/-- Reads options up to the first other argument; behind `--` there are none. -/
def options (known : List Spelling) : Reading → List String → Except Halt (Reading × List String)
  | reading, [] => .ok (reading, [])
  | .awaiting given opt, arg :: args =>
    if isOption arg then .error .usage else options known (.held given opt arg) args
  | reading, arg :: args =>
    match arg.toList with
    | ['-'] => .ok (reading, arg :: args)
    | ['-', '-'] => if args = [] then .ok (reading, []) else .error .usage
    | '-' :: text =>
      match option known reading text with
      | .ok reading => options known reading args
      | .error h => .error h
    | _ => .ok (reading, arg :: args)

/-- The options behind the name of a command, where no other argument may stand. -/
def commandOptions (known : List Spelling) (args : List String) : Except Halt Given := do
  match ← options known (.between []) args with
  | (reading, []) => reading.settle
  | _ => throw .usage

/-- The value of an option. -/
def value? (given : Given) (opt : Opt) : Option String :=
  given.lookup opt

def placementInputs (given : Given) : PlacementInputs :=
  ⟨value? given .env, value? given .ir, value? given .target >>= Target.ofName?⟩

/-- The command of a name. -/
def command (name : String) (args : List String) : Except Halt (Command × Given) := do
  match name with
  | "topogen" =>
    let given ← commandOptions topogenOptions args
    let dot := value? given .dot
    let plainDot := (value? given .plainDot).isSome
    if plainDot && dot.isNone then throw .usage
    match value? given .shape >>= Shape.ofName? with
    | some shape =>
      let hops := value? given .hops >>= uint32?
      return (.topogen shape hops (value? given .output) dot plainDot, given)
    | none => throw .usage
  | "envgen" =>
    let given ← commandOptions placementOptions args
    return (.envgen (placementInputs given) (value? given .output), given)
  | "deploy" =>
    let given ← commandOptions placementOptions args
    return (.deploy (placementInputs given) (value? given .output), given)
  | _ => throw .usage

/-- Whether help can be given: for the program, or for one command. -/
def helpTopic (names : List String) : Halt :=
  match names with
  | [] => .info
  | [name] => if ["topogen", "envgen", "deploy", "help"].contains name then .info else .usage
  | _ => .usage

/-- Reads the arguments. An option of the program itself that is given twice, before and behind the
name of the command, counts as given behind. -/
def parse (args : List String) : Except Halt Invocation := do
  match ← options programOptions (.between []) args with
  | (_, "help" :: names) => throw (helpTopic names)
  | (reading, name :: args) =>
    let (command, inner) ← command name args
    let outer ← reading.settle
    let conf := value? inner .conf <|> value? outer .conf
    let debug := (value? inner .debug <|> value? outer .debug).isSome
    return ⟨conf, debug, command⟩
  | (_, []) => throw .usage

end Arguments

end Overlay
