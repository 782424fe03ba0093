/-
# Arguments of a command

A command takes options: switches, and options with a value. An option has a long name, as in `--name value`
or `--name=value`, and perhaps a letter, as in `-n value`, `-nvalue` or `-n=value`; letters of switches can be
joined. The arguments are read from left to right, and the first mistake counts. A value is looked at only when the
next known option or the end is reached, so an unknown option behind a bad value is the mistake that is found.
-/
namespace DocMesh

/-- Why arguments are not obeyed. -/
inductive UsageError where
  /-- There is no such option, or there is a word too many. -/
  | unknownArgument
  /-- An option that must be there is missing. -/
  | missingArgument
  /-- The value of an option cannot be read. -/
  | badValue
  /-- An option stands without its value. -/
  | missingValue
  /-- An option that may be there once is there twice. -/
  | repeated
  /-- A switch stands with a value. -/
  | unexpectedValue
  /-- The caller asks for help. -/
  | help
  /-- The caller asks for the version of the program. -/
  | version
  /-- There is no command, or no such command. -/
  | noCommand
  deriving DecidableEq, Inhabited

namespace UsageError

/-- The text of the error. -/
def message : UsageError → String
  | unknownArgument => "unexpected argument"
  | missingArgument => "a required argument was not provided"
  | badValue => "invalid value for an argument"
  | missingValue => "a value is required for an argument but none was supplied"
  | repeated => "an argument cannot be used multiple times"
  | unexpectedValue => "unexpected value for an argument"
  | help => "see the description of the commands"
  | version => "see the version"
  | noCommand => "a known command is required"

end UsageError

/-- How often an option may be there, and whether it takes a value. -/
inductive OptionShape where
  /-- Once, without a value. -/
  | switch
  /-- Once, with a value. -/
  | single
  /-- Any number of times, with a value each. -/
  | multiple
  /-- It ends the reading. -/
  | request (e : UsageError)
  deriving DecidableEq, Inhabited

namespace OptionShape

/-- Does the option take a value? -/
def takesValue : OptionShape → Bool
  | single | multiple => true
  | switch | request _ => false

end OptionShape

/-- An option of a command whose options make up a value of type `σ`. -/
structure CommandOption (σ : Type) where
  /-- The long name, without the dashes. -/
  name : String
  letter : Option Char := none
  shape : OptionShape := .single
  /-- Takes the value of the option in, if it can be read. -/
  apply : String → σ → Option σ

namespace CommandOption

variable {σ : Type}

/-- A switch. -/
def switch (name : String) (letter : Option Char) (set : σ → σ) : CommandOption σ :=
  ⟨name, letter, .switch, fun _ s => some (set s)⟩

/-- An option with a value that is read by `read?`. -/
def single {α : Type} (name : String) (letter : Option Char) (read? : String → Option α) (set : α → σ → σ) :
    CommandOption σ :=
  ⟨name, letter, .single, fun text s => (read? text).map (set · s)⟩

/-- An option with any text, which may be there more than once. -/
def multiple (name : String) (add : String → σ → σ) : CommandOption σ :=
  ⟨name, none, .multiple, fun text s => some (add text s)⟩

/-- The option that asks for help. -/
def help : CommandOption σ := ⟨"help", some 'h', .request .help, fun _ _ => none⟩

/-- The option that asks for the version. -/
def version : CommandOption σ := ⟨"version", some 'V', .request .version, fun _ _ => none⟩

end CommandOption

/-! ## Reading arguments -/

/-- How far the arguments of a command have been read. -/
structure Reading (σ : Type) where
  /-- What the options have made up. -/
  value : σ
  /-- The names of the options that were there. -/
  seen : List String := []
  /-- An option whose value was not looked at, with the value if it was there. -/
  pending : Option (CommandOption σ × Option String) := none

namespace Reading

variable {σ : Type}

/-- Takes an option in. -/
def accept (r : Reading σ) (o : CommandOption σ) (text : String) : Except UsageError (Reading σ) :=
  match o.shape with
  | .request e => .error e
  | _ =>
    if o.shape ≠ .multiple ∧ r.seen.contains o.name then .error .repeated
    else
      match o.apply text r.value with
      | some value => .ok { r with value := value, seen := o.name :: r.seen }
      | none => .error .badValue

/-- Takes the pending option in, if there is one. -/
def flush (r : Reading σ) : Except UsageError (Reading σ) :=
  match r.pending with
  | none => .ok r
  | some (_, none) => .error .missingValue
  | some (o, some text) => accept { r with pending := none } o text

/-- Takes an option in whose value, if it has one, is known. -/
def take (r : Reading σ) (o : CommandOption σ) (text : String) : Except UsageError (Reading σ) :=
  match r.flush with
  | .ok r => r.accept o text
  | .error e => .error e

/-- Waits for the value of an option. -/
def await (r : Reading σ) (o : CommandOption σ) : Except UsageError (Reading σ) :=
  match r.flush with
  | .ok r => .ok { r with pending := some (o, none) }
  | .error e => .error e

/-- Reads a long option, with what follows the equals sign in it. -/
def readLong (options : List (CommandOption σ)) (r : Reading σ) (name : String) (attached : Option String) :
    Except UsageError (Reading σ) :=
  match options.find? (·.name = name) with
  | none => .error .unknownArgument
  | some o =>
    match o.shape.takesValue, attached with
    | true, some text => r.take o text
    | true, none => r.await o
    | false, some _ => .error .unexpectedValue
    | false, none => r.take o ""

/-- The value that follows a letter directly, without the equals sign in front of it. -/
def attachedValue : List Char → Option String
  | [] => none
  | '=' :: cs => some (String.ofList cs)
  | cs => some (String.ofList cs)

/-- Reads letters that are joined. What follows the letter of an option with a value is the value. -/
def readLetters (options : List (CommandOption σ)) : List Char → Reading σ → Except UsageError (Reading σ)
  | [], r => .ok r
  | c :: cs, r =>
    match options.find? (·.letter = some c) with
    | none => .error .unknownArgument
    | some o =>
      if o.shape.takesValue then
        match attachedValue cs with
        | some text => r.take o text
        | none => r.await o
      else
        match r.take o "" with
        | .ok r => readLetters options cs r
        | .error e => .error e

/-- The parts of a text before and after the first equals sign. -/
def splitValue : List Char → List Char × Option (List Char)
  | [] => ([], none)
  | '=' :: cs => ([], some cs)
  | c :: cs => let (name, value) := splitValue cs; (c :: name, value)

/-- What reading the arguments comes to: the end, or a word that belongs to no option. -/
inductive Stop (σ : Type) where
  /-- All arguments were read. -/
  | finished (value : σ)
  /-- The word stands where an option could stand. -/
  | word (text : String) (rest : List String) (value : σ)

/-- Reads arguments up to the first word that belongs to no option. -/
def scan (options : List (CommandOption σ)) : List String → Reading σ → Except UsageError (Stop σ)
  | [], r =>
    match r.flush with
    | .ok r => .ok (.finished r.value)
    | .error e => .error e
  | a :: as, r =>
    match a.toList with
    | ['-', '-'] =>
      match as with
      | [] =>
        match r.flush with
        | .ok r => .ok (.finished r.value)
        | .error e => .error e
      | _ :: _ => .error .unknownArgument
    | '-' :: '-' :: cs =>
      let (name, attached) := splitValue cs
      match readLong options r (String.ofList name) (attached.map String.ofList) with
      | .ok r => scan options as r
      | .error e => .error e
    | '-' :: c :: cs =>
      match readLetters options (c :: cs) r with
      | .ok r => scan options as r
      | .error e => .error e
    | _ =>
      match r.pending with
      | some (o, none) => scan options as { r with pending := some (o, some a) }
      | _ => .ok (.word a as r.value)

/-- Reads all arguments. -/
def all (options : List (CommandOption σ)) (args : List String) (s : σ) : Except UsageError σ :=
  match scan options args { value := s } with
  | .ok (.finished s) => .ok s
  | .ok (.word _ _ _) => .error .unknownArgument
  | .error e => .error e

end Reading

end DocMesh
