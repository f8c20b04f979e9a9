/-
PageWalk/CommandLine/Options.lean

Long options at the start of an argument list.  A value follows its option
as the next argument or after an equals sign; as the next argument it must
not look like an option itself.  No option is given twice.
-/
import PageWalk.Path

namespace PageWalk.CommandLine

/-- An option that is known. -/
structure OptionSpec where
  name : String
  /-- Whether a value follows the option. -/
  hasValue : Bool := true

/-- The options that are given, with their values. -/
abbrev Options := List (String × String)

/-- The name of a long option, with the value after its equals sign. -/
def longOption? (arg : String) : Option (String × Option String) :=
  match arg.toList with
  | '-' :: '-' :: c :: cs =>
    let name := String.ofList ((c :: cs).takeWhile (· != '='))
    match (c :: cs).dropWhile (· != '=') with
    | _ :: value => some (name, some (String.ofList value))
    | [] => some (name, none)
  | _ => none

/-- Whether an argument can be the value of the option before it. -/
def isValue (arg : String) : Bool := arg == "-" || arg.toList.head? != some '-'

/-- The options at the start of some arguments, and the arguments from the
first on that is none. -/
def scan (known : List OptionSpec) : List String → Option (Options × List String)
  | [] => some ([], [])
  | arg :: args =>
    match longOption? arg with
    | none => some ([], arg :: args)
    | some (name, attached) =>
      let go (value : String) (rest : Option (Options × List String)) :=
        rest.map fun (options, rest) => ((name, value) :: options, rest)
      match known.find? (·.name == name), attached, args with
      | some { hasValue := false, .. }, none, args => go "" (scan known args)
      | some { hasValue := true, .. }, some value, args => go value (scan known args)
      | some { hasValue := true, .. }, none, value :: args =>
        if isValue value then go value (scan known args) else none
      | _, _, _ => none

/-- The same, if no option is given twice. -/
def scanOnce (known : List OptionSpec) (args : List String) : Option (Options × List String) := do
  let (options, rest) ← scan known args
  if (options.map (·.1)).Nodup then return (options, rest) else none

namespace Options

/-- The value of an option, if it is given. -/
def value? (options : Options) (name : String) : Option String := options.lookup name

/-- Whether an option is given. -/
def has (options : Options) (name : String) : Bool := (options.value? name).isSome

/-- The value of an option by `read`, if it is given; `none` if it cannot
be read. -/
def read? {α : Type} (options : Options) (name : String) (read : String → Option α) :
    Option (Option α) :=
  match options.value? name with
  | none => some none
  | some value => (read value).map some

/-- The path that an option gives.  No path is empty. -/
def path? (options : Options) (name : String) : Option (Option Path) :=
  options.read? name fun value => if value.isEmpty then none else some (.ofString value)

end Options

end PageWalk.CommandLine
