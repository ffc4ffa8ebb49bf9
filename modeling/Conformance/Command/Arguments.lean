/-!
# Options and operands

Arguments that start with a dash are options, all others are operands. An option is written with its long name, which
may have a value after an equals sign, or with a letter; letters can be bundled. An option that takes a value has it
after the equals sign or as the next argument, whatever that looks like. Two dashes end the options.
-/

namespace Conformance

/-- An option that may be given. -/
structure OptionForm where
  /-- The name, with its dashes. -/
  name : String
  /-- The letter, for an option without a value. -/
  letter : Option Char := none
  takesValue : Bool := false
deriving DecidableEq, Repr

/-- Arguments that were read. -/
structure Arguments where
  /-- The names of the options in the order in which they are given, each with its value if it takes one. -/
  options : List (String × Option String) := []
  operands : List String := []
deriving DecidableEq, Repr

namespace Arguments

/-- An argument that may be an option; a single dash is none. -/
def isOption (arg : String) : Bool :=
  arg.toList.head? = some '-' && arg != "-"

/-- The name of an option and the value after its equals sign. -/
def splitValue (arg : String) : String × Option String :=
  let cs := arg.toList
  match cs.dropWhile (· != '=') with
  | [] => (arg, none)
  | _ :: value => (.ofList (cs.takeWhile (· != '=')), some (.ofList value))

/-- The options of bundled letters, if there are such options. -/
def bundled? (forms : List OptionForm) (letters : List Char) : Option (List (String × Option String)) :=
  letters.mapM fun c => (forms.find? (·.letter == some c)).map fun f => (f.name, none)

/-- The arguments behind the given options. -/
def addOptions (options : List (String × Option String)) (a : Arguments) : Arguments :=
  { a with options := options ++ a.options }

/-- The arguments behind an operand. -/
def addOperand (operand : String) (a : Arguments) : Arguments :=
  { a with operands := operand :: a.operands }

/-- The arguments from here on; `pending` is the name of an option whose value comes next. -/
def readFrom? (forms : List OptionForm) (mixed : Bool) (pending : Option String) : List String → Option Arguments
  | [] => if pending.isSome then none else some {}
  | arg :: rest =>
    match pending with
    | some name => (readFrom? forms mixed none rest).map (addOptions [(name, some arg)])
    | none =>
      if arg = "--" then some { operands := rest }
      else if !isOption arg then
        if mixed then (readFrom? forms mixed none rest).map (addOperand arg) else some { operands := arg :: rest }
      else
        let (name, value?) := splitValue arg
        match forms.find? (·.name == name) with
        | some f =>
          if f.takesValue && value?.isNone then readFrom? forms mixed (some f.name) rest
          else if f.takesValue = value?.isSome then
            (readFrom? forms mixed none rest).map (addOptions [(f.name, value?)])
          else none
        | none =>
          if "--".toList.isPrefixOf arg.toList then none
          else (bundled? forms (arg.toList.drop 1)).bind fun options =>
            (readFrom? forms mixed none rest).map (addOptions options)

/-- The arguments that are given, if all options are known and used as they must be. Unless options and operands may be
mixed, everything from the first operand on is an operand. -/
def read? (forms : List OptionForm) (mixed : Bool) (args : List String) : Option Arguments :=
  readFrom? forms mixed none args

/-- Whether an option is given. -/
def has (a : Arguments) (name : String) : Bool := a.options.any (·.1 == name)

/-- The last value of an option. -/
def value? (a : Arguments) (name : String) : Option String :=
  (a.options.reverse.find? (·.1 == name)).bind (·.2)

end Arguments

end Conformance
