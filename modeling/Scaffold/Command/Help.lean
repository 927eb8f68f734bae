import Scaffold.Command.Run

/-!
# Help

What the program says about itself when it is asked, or when a command line is wrong: the usage of
a command, its subcommands and its parameters, each with what it is good for.

Help is given in brief or in full.  In full every parameter has a paragraph of its own, which also
says what the words mean that its value may be.  Help and version that were asked for are output;
what a wrong command line is told stands beside the output.
-/

namespace Scaffold.Command

/-! ## Parameters -/

/-- A name as it stands for a value: in capitals, with underscores. -/
def placeholder (name : Text) : Text :=
  name.map fun c => if c == '-' then '_' else c.toUpper

/-- What stands for the value of a parameter. -/
def Parameter.valueTerm (p : Parameter) : Text :=
  let name := p.valueName.getD (placeholder p.name)
  let value : Text :=
    if p.isPositional && !p.required then '[' :: name ++ [']'] else '<' :: name ++ ['>']
  if p.isSeveral then value ++ "..." else value

/-- A parameter as it stands on a command line. -/
def Parameter.longTerm (p : Parameter) : Text :=
  if p.isPositional then p.valueTerm
  else "--" ++ p.name ++ if p.takesValue then ' ' :: p.valueTerm else []

/-- A parameter as it stands in a list, where long names stand below one another. -/
def Parameter.term (p : Parameter) : Text :=
  let short : Text :=
    match p.short with
    | some c => ['-', c, ',', ' ']
    | none => Text.spaces 4
  if p.isPositional then p.valueTerm else short ++ p.longTerm

/-- What is noted on the value of a parameter: what stands in for it, and in brief its words. -/
def Parameter.notes (brief : Bool) (p : Parameter) : List Text :=
  let words : Option Text :=
    if brief && !p.words.isEmpty then some ([',', ' '].intercalate (p.words.map (·.1))) else none
  let note (title : Text) (value : Text) : Text := '[' :: title ++ ':' :: ' ' :: value ++ [']']
  (p.environment.map fun name => note "env" (name ++ ['='])).toList ++
    (p.fallback.map (note "default")).toList ++ (words.map (note "possible values")).toList

/-- What a parameter is good for and the notes on it, in brief. -/
def Parameter.summary (p : Parameter) : Text := [' '].intercalate (p.about :: p.notes true)

/-- Named parameters are listed by their places, and those with one place by their names; a short
name counts without its case. -/
def Parameter.precedes (p q : Parameter) : Bool :=
  let key (p : Parameter) : Text :=
    match p.short with
    | some c => [c.toLower, if c.isLower then '0' else '1']
    | none => p.name
  p.rank < q.rank || (p.rank == q.rank && Text.le (key p) (key q))

/-! ## Lists -/

/-- The number of columns that help fits into. -/
def helpWidth : Nat := 100

/-- How far the paragraph of a parameter is indented. -/
def paragraphIndent : Nat := 10

/-- The longest of several terms. -/
def widest (terms : List Text) : Nat := terms.foldl (fun n term => max n term.length) 0

/-- A term with what it means behind it, `width` columns further on. -/
def alignedRow (width : Nat) (term meaning : Text) : Text :=
  Text.spaces 2 ++ term ++ Text.spaces (width - term.length + 2) ++ meaning

/-- A term with what it means below it. -/
def paragraphRow (term meaning : Text) : Text :=
  Text.spaces 2 ++ term ++ '\n' :: Text.spaces paragraphIndent ++ meaning

/-- Lines below one another, each as far indented as a paragraph. -/
def paragraphLines (lines : List Text) : Text :=
  lines.flatMap fun line => '\n' :: Text.spaces paragraphIndent ++ line

/-- The words that a value may be, each with what it means. -/
def wordLines (words : List (Text × Text)) : List Text :=
  let width := widest (words.map (·.1))
  "Possible values:".toList :: words.map fun (word, meaning) =>
    "- " ++ word ++ ": " ++ Text.spaces (width - word.length) ++ meaning

/-- The paragraph of a parameter. -/
def Parameter.paragraph (p : Parameter) : Text :=
  let notes := p.notes false
  paragraphRow p.term <|
    p.about ++ (if p.words.isEmpty then [] else '\n' :: paragraphLines (wordLines p.words)) ++
      if notes.isEmpty then [] else paragraphLines ([] :: notes)

/-- The terms of a list leave too little room for what one of the parameters means. -/
def isCrowded (width : Nat) (ps : List Parameter) : Bool :=
  let taken := width + 12
  taken ≤ helpWidth && 40 < taken && ps.any fun p =>
    helpWidth - taken < p.about.length + ([' '].intercalate (p.notes true)).length

/-- A list of parameters. -/
def parameterList (brief : Bool) (ps : List Parameter) : Text :=
  let width := widest (ps.map Parameter.term)
  if !brief then "\n\n".toList.intercalate (ps.map Parameter.paragraph)
  else
    let row := if isCrowded width ps then paragraphRow else alignedRow width
    ['\n'].intercalate (ps.map fun p => row p.term p.summary)

/-! ## Commands -/

/-- The parameters that commands have of themselves: help, and perhaps the version. -/
def Grammar.ownParameters (g : Grammar) (brief : Bool) : List Parameter :=
  let help : Parameter :=
    { flag "help" <|
        if brief then "Print help (see more with '--help')"
        else "Print help (see a summary with '-h')" with
      short := some 'h' }
  let version : Parameter := { flag "version" "Print version" with short := some 'V' }
  (if g.hasHelp then [help] else []) ++ if g.hasVersion then [version] else []

/-- The command that helps with the others. -/
def helpGrammar : Grammar where
  name := Grammar.helpName
  about := "Print this message or the help of the given subcommand(s)"
  parameters := [
    { name := "command", role := .positional true, about := "Print help for the subcommand(s)" }]
  hasHelp := false

/-- How a command is called; `path` leads to it from the program. -/
def Grammar.usage (g : Grammar) (path : List Text) : Text :=
  let words : List Text :=
    programName :: path ++ (if g.named.isEmpty then [] else ["[OPTIONS]".toList]) ++
      (g.named.filter (·.required)).map Parameter.longTerm ++ g.positional.map Parameter.term ++
      if g.subcommands.isEmpty then [] else ["<COMMAND>".toList]
  "Usage: " ++ [' '].intercalate words

/-- All that is said about a command.  One without words to explain has only brief help. -/
def Grammar.help (g : Grammar) (brief : Bool) (path : List Text) : Text :=
  let brief := brief || g.parameters.all (·.words.isEmpty)
  let commands := if g.subcommands.isEmpty then [] else g.subcommands ++ [helpGrammar]
  let width := widest (commands.map (·.name))
  let options := g.named.mergeSort Parameter.precedes ++ g.ownParameters brief
  let sections : List (Text × Text) := [
    ("Commands", ['\n'].intercalate (commands.map fun sub => alignedRow width sub.name sub.about)),
    ("Arguments", parameterList brief g.positional),
    ("Options", parameterList brief options)]
  let shown := sections.filter fun s => !s.2.isEmpty
  "\n\n".toList.intercalate
    (g.about :: g.usage path :: shown.map fun (title, rows) => title ++ ":\n" ++ rows) ++ ['\n']

/-- The help on the command that a path leads to. -/
def helpText (brief : Bool) (path : List Text) : Text :=
  match grammar.follow? path with
  | some g => g.help brief path
  | none => helpGrammar.help brief path

/-! ## Command lines that are not carried out -/

/-- What is wrong with a command line. -/
def Usage.complaint : Usage → Text
  | invalidValue => "a value is missing or is none of the possible ones"
  | valueValidation => "a value is not valid"
  | unknownArgument => "unexpected argument found"
  | tooManyValues => "a flag takes no value"
  | argumentConflict => "an argument cannot be used with another one or twice"
  | missingRequiredArgument => "a required argument was not provided"
  | invalidSubcommand => "unrecognized subcommand"
  | missingSubcommand | missingArguments => "a subcommand is required but was not provided"
  | help .. | version => []

/-- What a command line that is not carried out prints. -/
def Usage.output : Usage → Text
  | help brief path => helpText brief path
  | version => programName ++ ' ' :: programVersion ++ ['\n']
  | _ => []

/-- What a command line that is not carried out reports beside the output. -/
def Usage.report : Usage → Text
  | help .. | version => []
  | missingArguments => helpText true []
  | usage => "error: " ++ usage.complaint ++ "\n\n" ++ grammar.usage [] ++ ['\n']

end Scaffold.Command
