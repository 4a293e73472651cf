/-!
The arguments of the command line. Options may be written in any order, short flags may be joined,
and a value may follow its option or stand in the same argument.
-/

namespace Strapdown.CommandLine

/-- What help is given on. -/
inductive Topic
  | program
  | run
  | exampleConfig
  | help
deriving DecidableEq

/-- What a call of the program asks for. -/
inductive Request
  | run (config : Option String) (yaml verbose : Bool)
  | exampleConfig
  | version
  | help (topic : Topic)
  /-- The arguments make no sense. -/
  | misuse
deriving DecidableEq

/-- An argument by its form. -/
inductive Argument
  | long (name : String) (value : Option String)
  | short (flags : List Char)
  /-- From here on everything is a plain word. -/
  | separator
  | word (text : String)
deriving DecidableEq

namespace Argument

/-- Splits a long option at its first equals sign. -/
def ofLong (cs : List Char) : Argument :=
  let name := cs.takeWhile (· ≠ '=')
  match cs.drop name.length with
  | [] => .long (String.ofList name) none
  | _ :: value => .long (String.ofList name) (some (String.ofList value))

def ofString (s : String) : Argument :=
  match s.toList with
  | ['-', '-'] => .separator
  | '-' :: '-' :: cs => ofLong cs
  | '-' :: c :: cs => .short (c :: cs)
  | _ => .word s

end Argument

/-- The options of a command so far. Only the run command has the first two. -/
structure Options where
  config : Option String
  yaml : Bool
  verbose : Bool

namespace Options

def none : Options := ⟨.none, false, false⟩

/-- Each option may be given once, and a path is never empty. -/
def setConfig? (o : Options) (path : String) : Option Options :=
  if o.config.isSome || path.isEmpty then .none else some { o with config := some path }

def setYaml? (o : Options) : Option Options :=
  if o.yaml then .none else some { o with yaml := true }

def setVerbose? (o : Options) : Option Options :=
  if o.verbose then .none else some { o with verbose := true }

end Options

/-- What reading one argument leads to. -/
inductive Progress
  | more (options : Options)
  /-- The next argument has to be the path of a scenario. -/
  | wantsPath (options : Options)
  | done (request : Request)

def Progress.ofOption : Option Options → Progress
  | some options => .more options
  | none => .done .misuse

/-- Whether a command has the options of the run command. -/
def flies : Topic → Bool
  | .run => true
  | _ => false

/-- A long option of a command. -/
def readLong (topic : Topic) (o : Options) (name : String) (value : Option String) : Progress :=
  match name, value with
  | "verbose", none => .ofOption o.setVerbose?
  | "help", none => .done (.help topic)
  | "version", none => if topic = .program then .done .version else .done .misuse
  | "yaml", none => if flies topic then .ofOption o.setYaml? else .done .misuse
  | "config", none => if flies topic then .wantsPath o else .done .misuse
  | "config", some path => if flies topic then .ofOption (o.setConfig? path) else .done .misuse
  | _, _ => .done .misuse

/-- Joined short flags of a command. What follows the flag for the path is the path itself. -/
def readShort (topic : Topic) (o : Options) : List Char → Progress
  | [] => .more o
  | 'v' :: cs =>
    match o.setVerbose? with
    | some o => readShort topic o cs
    | none => .done .misuse
  | 'h' :: _ => .done (.help topic)
  | 'V' :: _ => if topic = .program then .done .version else .done .misuse
  | 'c' :: cs =>
    if !flies topic then .done .misuse
    else match cs with
      | [] => .wantsPath o
      | '=' :: path => .ofOption (o.setConfig? (String.ofList path))
      | path => .ofOption (o.setConfig? (String.ofList path))
  | _ => .done .misuse

def request (topic : Topic) (o : Options) : Request :=
  match topic with
  | .run => .run o.config o.yaml o.verbose
  | .exampleConfig => .exampleConfig
  | _ => .misuse

/-- Reads the arguments after a command; `awaiting` tells that a path has to come first. -/
def readCommand (topic : Topic) (o : Options) (awaiting : Bool) : List String → Request
  | [] => if awaiting then .misuse else request topic o
  | arg :: args =>
    match Argument.ofString arg with
    | .word path =>
      if awaiting then
        match o.setConfig? path with
        | some o => readCommand topic o false args
        | none => .misuse
      else .misuse
    | .separator => if awaiting || !args.isEmpty then .misuse else request topic o
    | .long name value =>
      if awaiting then .misuse else proceed args (readLong topic o name value)
    | .short flags => if awaiting then .misuse else proceed args (readShort topic o flags)
where
  proceed (args : List String) : Progress → Request
    | .more o => readCommand topic o false args
    | .wantsPath o => readCommand topic o true args
    | .done request => request

def commands : List (String × Topic) :=
  [("run", .run), ("example-config", .exampleConfig), ("help", .help)]

/-- The commands that help is asked on: none, or one. -/
def readHelp : List String → Request
  | [] => .help .program
  | [name] => match commands.lookup name with
    | some topic => .help topic
    | none => .misuse
  | _ => .misuse

/-- Reads all arguments: options of the program, then a command with its own. -/
def readProgram (o : Options) : List String → Request
  | [] => .misuse
  | arg :: args =>
    match Argument.ofString arg with
    | .word name =>
      match commands.lookup name with
      | some .help => readHelp args
      | some topic => withVerbose o.verbose (readCommand topic .none false args)
      | none => .misuse
    | .separator => .misuse
    | .long name value => proceed args (readLong .program o name value)
    | .short flags => proceed args (readShort .program o flags)
where
  proceed (args : List String) : Progress → Request
    | .more o => readProgram o args
    | .wantsPath _ => .misuse
    | .done request => request
  withVerbose (verbose : Bool) : Request → Request
    | .run config yaml v => .run config yaml (verbose || v)
    | request => request

def Request.ofArguments (args : List String) : Request := readProgram .none args

end Strapdown.CommandLine
