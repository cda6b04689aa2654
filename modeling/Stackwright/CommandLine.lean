/-!
# Command lines

A command line mixes options and positional arguments in any order. Options have a
long name after two dashes and possibly a letter after one. Some are flags, others
take a value: in the same argument after an equals sign, directly after the letter,
or as the next argument. Letters of flags can be put together. After `--` everything
is positional.

An argument that looks like an option is never the value of one. Nothing may be
given twice. Requests for help or for the version are granted as soon as they are
met, so mistakes count only if they come before.
-/

namespace Stackwright

/-- What an option does. -/
inductive OptionForm where
  /-- it is given or not -/
  | flag
  /-- it takes a value of the accepted kind -/
  | value (accepts : String → Bool)
  /-- it asks for help -/
  | help
  /-- it asks for the version -/
  | version

/-- An option. -/
structure OptionSpec where
  /-- the long name -/
  name : String
  /-- the letter, if there is one -/
  letter : Option Char
  /-- what the option does -/
  form : OptionForm

/-- What can be written on a command line. -/
structure CommandGrammar where
  /-- the options -/
  options : List OptionSpec
  /-- the positional arguments, each with its name and the values it accepts -/
  positionals : List (String × (String → Bool))

/-- What was given: flags with an empty text, all else with the value. -/
abbrev Given : Type := List (String × String)

namespace Given

/-- Whether a flag was given. -/
def has (given : Given) (name : String) : Bool := given.any (·.1 == name)

/-- The value that was given. -/
def value? (given : Given) (name : String) : Option String := given.lookup name

end Given

/-- What comes of a command line. -/
inductive CommandReading where
  /-- it makes no sense -/
  | refused
  /-- it asks for help -/
  | help
  /-- it asks for the version -/
  | version
  /-- it gives these flags and values -/
  | given (given : Given)

namespace CommandGrammar

/-- Accept every value. -/
def anyText : String → Bool := fun _ => true

/-- Accept every value that can be a path. -/
def anyPath (text : String) : Bool := !text.isEmpty

/-- The option with a long name. -/
def named? (g : CommandGrammar) (name : List Char) : Option OptionSpec :=
  g.options.find? (·.name.toList == name)

/-- The option with a letter. -/
def lettered? (g : CommandGrammar) (letter : Char) : Option OptionSpec :=
  g.options.find? (·.letter == some letter)

/-- Add something that was given, if it is acceptable and not there yet. -/
def add (given : Given) (name : String) (accepts : String → Bool) (value : String) :
    Option Given :=
  if given.has name || !accepts value then none else some (given ++ [(name, value)])

/-- Whether an argument looks like an option. -/
def looksLikeOption (argument : String) : Bool :=
  argument.toList.head? == some '-' && argument != "-"

/-- What comes of one argument. -/
inductive Progress where
  /-- the command line is decided -/
  | decided (reading : CommandReading)
  /-- the argument is dealt with -/
  | advanced (given : Given)
  /-- the next argument has to be a value -/
  | wanting (given : Given) (name : String) (accepts : String → Bool)

/-- The outcome of adding, as progress. -/
def Progress.ofAdd : Option Given → Progress
  | some given => advanced given
  | none => decided .refused

/-- Deal with an option by its long name. -/
def readLong (g : CommandGrammar) (given : Given) (argument : List Char) : Progress :=
  let name := argument.takeWhile (· != '=')
  let value := (argument.dropWhile (· != '=')).tail
  let hasValue := argument.contains '='
  match g.named? name with
  | none => .decided .refused
  | some option =>
    match option.form with
    | .value accepts =>
      if hasValue then .ofAdd (add given option.name accepts (String.ofList value))
      else .wanting given option.name accepts
    | _ =>
      if hasValue then .decided .refused
      else
        match option.form with
        | .help => .decided .help
        | .version => .decided .version
        | _ => .ofAdd (add given option.name anyText "")

/-- Deal with options by their letters. -/
def readLetters (g : CommandGrammar) (given : Given) : List Char → Progress
  | [] => .advanced given
  | letter :: rest =>
    match g.lettered? letter with
    | none => .decided .refused
    | some option =>
      match option.form with
      | .help => .decided .help
      | .version => .decided .version
      | .flag =>
        match add given option.name anyText "" with
        | none => .decided .refused
        | some given => readLetters g given rest
      | .value accepts =>
        match rest with
        | [] => .wanting given option.name accepts
        | '=' :: value => .ofAdd (add given option.name accepts (String.ofList value))
        | value => .ofAdd (add given option.name accepts (String.ofList value))

/-- Deal with a positional argument: it belongs to the first name without a value. -/
def readPositional (g : CommandGrammar) (given : Given) (argument : String) : Option Given :=
  match g.positionals.find? fun p => !given.has p.1 with
  | none => none
  | some (name, accepts) => add given name accepts argument

/-- Deal with arguments that are all positional. -/
def readPositionals (g : CommandGrammar) (given : Given) : List String → CommandReading
  | [] => .given given
  | argument :: rest =>
    match g.readPositional given argument with
    | none => .refused
    | some given => readPositionals g given rest

/-- Deal with one argument before `--`. -/
def readArgument (g : CommandGrammar) (given : Given) (argument : String) : Progress :=
  if looksLikeOption argument then
    match argument.toList with
    | '-' :: '-' :: name => g.readLong given name
    | _ :: letters => g.readLetters given letters
    | [] => .decided .refused
  else .ofAdd (g.readPositional given argument)

/-- Read the rest of a command line, given what came before. -/
def readFrom (g : CommandGrammar) (given : Given) : List String → CommandReading
  | [] => .given given
  | argument :: rest =>
    if argument == "--" then g.readPositionals given rest
    else
      match g.readArgument given argument with
      | .decided reading => reading
      | .advanced given => readFrom g given rest
      | .wanting given name accepts =>
        match rest with
        | [] => .refused
        | value :: rest =>
          if looksLikeOption value then .refused
          else
            match add given name accepts value with
            | none => .refused
            | some given => readFrom g given rest

/-- Read a command line. -/
def read (g : CommandGrammar) (arguments : List String) : CommandReading :=
  g.readFrom [] arguments

/-- The options that every command line has: help, by name or letter. -/
def helpOption : OptionSpec := ⟨"help", some 'h', .help⟩

end CommandGrammar

end Stackwright
