import Scaffold.Text.Basic

/-!
# Command-line grammars

A grammar says which parameters and subcommands a command has; `Grammar.read` sorts the arguments of
a command line into values of parameters, or says what is wrong with them.

Values are checked when the next parameter starts, so of two mistakes the first one counts, except
that an argument that belongs to nothing counts before the value in front of it.
-/

namespace Scaffold.Command

/-- Why a command line is not carried out: it is wrong, or it asks for help or the version. -/
inductive Usage where
  | invalidValue
  | valueValidation
  | unknownArgument
  | tooManyValues
  | argumentConflict
  | missingRequiredArgument
  | invalidSubcommand
  | missingSubcommand
  | missingArguments
  /-- Help on the command that a path leads to, in brief or in full. -/
  | help (brief : Bool) (path : List Text)
  | version
  deriving DecidableEq, Repr

/-- The exit code; asking for help or the version is no mistake. -/
def Usage.exitCode : Usage → Nat
  | help .. | version => 0
  | _ => 2

/-- What a parameter is for. -/
inductive Role where
  /-- A named parameter without a value. -/
  | flag
  /-- A named parameter with one value. -/
  | named
  /-- A parameter that is known by its place; the last one may have several values. -/
  | positional (several : Bool)
  deriving DecidableEq, Repr

/-- A parameter of a command. -/
structure Parameter where
  name : Text
  short : Option Char := none
  role : Role
  /-- What is wrong with a value, if it is. -/
  check : Text → Option Usage := fun _ => none
  required : Bool := false
  /-- What the parameter is good for. -/
  about : Text := []
  /-- What stands for the value in help; otherwise it is the name. -/
  valueName : Option Text := none
  /-- The variable of the process environment that may give the value. -/
  environment : Option Text := none
  /-- The value when none is given. -/
  fallback : Option Text := none
  /-- The words that the value may be, each with what it means. -/
  words : List (Text × Text) := []
  /-- The place of a named parameter among those that it was declared with. -/
  rank : Nat := 0

/-- A command with its parameters and subcommands. -/
structure Grammar where
  name : Text
  /-- What the command does. -/
  about : Text := []
  parameters : List Parameter := []
  subcommands : List Grammar := []
  /-- The command has a parameter that asks for help. -/
  hasHelp : Bool := true
  /-- The command knows its version. -/
  hasVersion : Bool := false
  /-- Two parameters of which exactly one is needed. -/
  alternatives : Option (Text × Text) := none

/-- The values of parameters, by name, in the order in which they were read. -/
abbrev Values := List (Text × List Text)

namespace Parameter

/-- The parameter has a value. -/
def takesValue (p : Parameter) : Bool := p.role != .flag

/-- The parameter may have several values. -/
def isSeveral (p : Parameter) : Bool := p.role == .positional true

/-- The parameter is known by its place. -/
def isPositional (p : Parameter) : Bool := p.role == .positional false || p.isSeveral

/-- The values with those of one more parameter. -/
def store (p : Parameter) (new : List Text) (values : Values) : Except Usage Values :=
  if p.takesValue && new.isEmpty then .error .invalidValue
  else if !p.isSeveral && (values.lookup p.name).isSome then .error .argumentConflict
  else
    match new.findSome? p.check with
    | some usage => .error usage
    | none => .ok (values ++ [(p.name, new)])

end Parameter

namespace Grammar

/-- The named parameters. -/
def named (g : Grammar) : List Parameter := g.parameters.filter fun p => !p.isPositional

/-- The parameters that are known by their place. -/
def positional (g : Grammar) : List Parameter := g.parameters.filter Parameter.isPositional

/-- The parameters of one declaration, the named ones with their places. -/
def ranked (parameters : List Parameter) : List Parameter :=
  go 0 parameters
where
  /-- The next named parameter has the place `n`. -/
  go (n : Nat) : List Parameter → List Parameter
    | [] => []
    | p :: ps => if p.isPositional then p :: go n ps else { p with rank := n } :: go (n + 1) ps

/-- The subcommand with a name. -/
def subcommand? (g : Grammar) (name : Text) : Option Grammar :=
  g.subcommands.find? fun sub => sub.name == name

/-- The subcommand that every command with subcommands has besides them. -/
def helpName : Text := "help"

/-- The command that the names of subcommands lead to. -/
def follow? (g : Grammar) : List Text → Option Grammar
  | [] => some g
  | name :: path => (g.subcommand? name).bind fun sub => follow? sub path

/-- An argument names a subcommand. -/
def isSubcommand (g : Grammar) (arg : Text) : Bool :=
  !g.subcommands.isEmpty && (arg == helpName || (g.subcommand? arg).isSome)

/-- The full help on the subcommand that the arguments lead to. -/
def helpOf (g : Grammar) (path : List Text) : List Text → Usage
  | [] => .help false path
  | arg :: args =>
    match g.subcommand? arg with
    | some sub => helpOf sub (path ++ [arg]) args
    | none =>
      if g.isSubcommand arg && args.isEmpty then .help false (path ++ [arg]) else .invalidSubcommand

/-! ## Reading -/

/-- What has been read of the arguments of a command. -/
structure Reading where
  values : Values := []
  /-- The parameter that was read last, whose values have not been stored yet. -/
  pending : Option (Parameter × List Text) := none
  /-- The number of positional parameters that are complete. -/
  place : Nat := 0
  /-- Two dashes have been read, and all that follows is positional. -/
  onlyPositional : Bool := false

namespace Reading

/-- The reading with the values of the last parameter stored. -/
def settle (r : Reading) : Except Usage Reading :=
  match r.pending with
  | none => .ok r
  | some (p, new) => do return { r with values := ← p.store new r.values, pending := none }

/-- The next argument is the value of the parameter that was read last. -/
def awaitsValue (r : Reading) : Bool :=
  !r.onlyPositional && r.pending.any fun (p, new) => p.role == .named && new.isEmpty

/-- The reading behind a parameter and its values. -/
def add (r : Reading) (p : Parameter) (new : List Text) : Except Usage Reading := do
  let r ← r.settle
  return { r with values := ← p.store new r.values }

/-- The reading behind a parameter whose value is still to come. -/
def await (r : Reading) (p : Parameter) : Except Usage Reading := do
  return { ← r.settle with pending := some (p, []) }

end Reading

/-- The path to a command, and its grammar. -/
structure Place where
  path : List Text
  grammar : Grammar

/-- The reading behind an argument with a long name, which may have its value attached. -/
def readLong (here : Place) (r : Reading) (body : Text) : Except Usage Reading := do
  let (name, attached) : Text × Option Text :=
    match breakAt? (· == '=') body with
    | some (name, _, value) => (name, some value)
    | none => (body, none)
  let asksHelp := name == "help"
  let asksVersion := here.grammar.hasVersion && name == "version"
  if asksHelp || asksVersion then
    if attached.isSome then .error .tooManyValues
    else
      let _ ← r.settle
      .error (if asksHelp then .help false here.path else .version)
  else
    match here.grammar.named.find? fun p => p.name == name, attached with
    | none, _ => .error .unknownArgument
    | some p, some value => if p.takesValue then r.add p [value] else .error .tooManyValues
    | some p, none => if p.takesValue then r.await p else r.add p []

/-- The reading behind short names, of which the last may have its value attached. -/
def readShort (here : Place) (r : Reading) : Text → Except Usage Reading
  | [] => .ok r
  | c :: t => do
    if c == 'h' || (here.grammar.hasVersion && c == 'V') then
      let _ ← r.settle
      .error (if c == 'h' then .help true here.path else .version)
    else
      match here.grammar.named.find? fun p => p.short == some c with
      | none => .error .unknownArgument
      | some p =>
        if p.takesValue then
          if t.isEmpty then r.await p
          else r.add p [if t.head? == some '=' then t.drop 1 else t]
        else readShort here (← r.add p []) t

/-- The reading behind an argument that has no name. -/
def readPositional (g : Grammar) (r : Reading) (arg : Text) : Except Usage Reading :=
  match g.positional[r.place]? with
  | none =>
    if g.subcommands.isEmpty || (r.onlyPositional && g.isSubcommand arg) then
      .error .unknownArgument
    else .error .invalidSubcommand
  | some p => do
    match r.pending with
    | some (q, new) =>
      if p.isSeveral && q.name == p.name then return { r with pending := some (p, new ++ [arg]) }
    | none => pure ()
    let r ← r.settle
    return { r with
      pending := some (p, [arg])
      place := if p.isSeveral then r.place else r.place + 1 }

/-- What is missing or too much in the values of a command without subcommand. -/
def validate (g : Grammar) (values : Values) : Except Usage Values :=
  let isGiven (name : Text) : Bool := (values.lookup name).isSome
  if !g.subcommands.isEmpty then
    .error (if values.isEmpty then .missingArguments else .missingSubcommand)
  else
    match g.alternatives with
    | some (a, b) =>
      if isGiven a && isGiven b then .error .argumentConflict
      else if g.parameters.any (fun p => p.required && !isGiven p.name) || !(isGiven a || isGiven b)
      then .error .missingRequiredArgument
      else .ok values
    | none =>
      if g.parameters.any fun p => p.required && !isGiven p.name then
        .error .missingRequiredArgument
      else .ok values

/-- The names of the subcommands and the values that arguments stand for.  What a subcommand says
counts before what stands in front of it. -/
def readFrom (g : Grammar) (path : List Text) (r : Reading) :
    List Text → Except Usage (List Text × Values)
  | [] => do return (path, ← g.validate (← r.settle).values)
  | arg :: args => do
    let here : Place := ⟨path, g⟩
    if !r.onlyPositional && !r.awaitsValue && g.isSubcommand arg then
      match g.subcommand? arg with
      | none => .error (g.helpOf path args)
      | some sub =>
        let (path, values) ← readFrom sub (path ++ [arg]) {} args
        return (path, values ++ (← r.settle).values)
    else if r.onlyPositional then readFrom g path (← g.readPositional r arg) args
    else
      match arg with
      | ['-', '-'] => readFrom g path { r with onlyPositional := true } args
      | '-' :: '-' :: body => readFrom g path (← readLong here r body) args
      | '-' :: c :: t => readFrom g path (← readShort here r (c :: t)) args
      | arg =>
        match r.awaitsValue, r.pending with
        | true, some (p, _) => readFrom g path { r with pending := some (p, [arg]) } args
        | _, _ => readFrom g path (← g.readPositional r arg) args

/-- The names of the subcommands and the values that a command line stands for. -/
def read (g : Grammar) (args : List Text) : Except Usage (List Text × Values) :=
  g.readFrom [] {} args

end Grammar

end Scaffold.Command
