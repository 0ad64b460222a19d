/-! The words of a command line.

A command may be preceded and followed by `-v`, once or several times; the count that
stands behind the command wins over the one before it. Words are taken from the left
and the first that cannot stand where it does is refused, except that a request for
help or for the version is granted as soon as it is met. Behind `--` every word is a
file. -/
namespace QuadAsm.CommandLine

inductive Command where
  /-- Run a program, for so many steps at most. -/
  | run (limit : Option Nat)
  | check
  | dump
  deriving DecidableEq, Repr

structure Invocation where
  command : Command
  file : String
  verbosity : Nat
  deriving DecidableEq, Repr

/-- What a command line asks for. -/
inductive Request where
  | invoke (invocation : Invocation)
  | version
  | help
  deriving DecidableEq, Repr

/-- Why a command line is refused. -/
inductive Misuse where
  | noCommand
  | unknownCommand (word : String)
  | unexpectedArgument (word : String)
  | noFile
  | noLimit
  | badLimit (word : String)
  | repeatedLimit
  deriving DecidableEq, Repr

def Misuse.text : Misuse → String
  | noCommand => "a command is required: run, check, dump"
  | unknownCommand word => s!"unrecognized command '{word}'"
  | unexpectedArgument word => s!"unexpected argument '{word}'"
  | noFile => "a file is required"
  | noLimit => "--max-steps needs a value"
  | badLimit word => s!"invalid step limit '{word}'"
  | repeatedLimit => "--max-steps cannot be used twice"

/-- What a word is by its looks. -/
inductive Word where
  /-- `--` alone. -/
  | separator
  /-- Two dashes and a name, perhaps with a value behind an equals sign. -/
  | long (name : String) (value? : Option String)
  /-- One dash and letters. -/
  | cluster (letters : List Char)
  | plain
  deriving DecidableEq, Repr

def Word.of (text : String) : Word :=
  match text.toList with
  | ['-', '-'] => .separator
  | '-' :: '-' :: rest =>
    let name := rest.takeWhile (· != '=')
    match rest.drop name.length with
    | [] => .long (String.ofList name) none
    | _ :: value => .long (String.ofList name) (some (String.ofList value))
  | '-' :: c :: rest => .cluster (c :: rest)
  | _ => .plain

/-- What a cluster of letters comes to. -/
inductive Letters where
  | verbose (count : Nat)
  | help
  | version
  | unknown
  deriving DecidableEq, Repr

/-- A `V` asks for the version only where `versioned` says so. -/
def Letters.of (versioned : Bool) : List Char → Letters
  | [] => .verbose 0
  | 'v' :: rest =>
    match of versioned rest with
    | .verbose count => .verbose (count + 1)
    | other => other
  | 'h' :: _ => .help
  | 'V' :: _ => if versioned then .version else .unknown
  | _ => .unknown

/-- A step limit: decimal digits, perhaps behind a plus sign, for a number of 64 bits. -/
def limit? (text : String) : Option Nat :=
  let digits :=
    match text.toList with
    | '+' :: rest => rest
    | digits => digits
  if digits.isEmpty || !digits.all Char.isDigit then none
  else
    let value := digits.foldl (fun value c => 10 * value + (c.toNat - '0'.toNat)) 0
    if value < UInt64.size then some value else none

/-! ### Behind the command -/

/-- What has been gathered behind a command. -/
structure Gathered where
  file? : Option String := none
  /-- `none` for a command that takes no limit. -/
  limit? : Option (Option Nat)
  verbose : Nat := 0

namespace Gathered

def setFile (g : Gathered) (word : String) : Except Misuse Gathered :=
  if g.file?.isSome then .error (.unexpectedArgument word)
  else if word.isEmpty then .error .noFile
  else .ok { g with file? := some word }

def setLimit (g : Gathered) (word : String) : Except Misuse Gathered :=
  match g.limit?, CommandLine.limit? word with
  | some (some _), _ => .error .repeatedLimit
  | _, none => .error (.badLimit word)
  | _, some limit => .ok { g with limit? := some (some limit) }

/-- Every word is a file. -/
def files (g : Gathered) (words : List String) : Except Misuse Gathered :=
  words.foldlM setFile g

/-- Takes the words behind a command; `none` when help is asked for. -/
def gather (g : Gathered) : List String → Except Misuse (Option Gathered)
  | [] => .ok (some g)
  | word :: rest =>
    match Word.of word with
    | .separator => (g.files rest).map some
    | .long "help" none => .ok none
    | .long "verbose" none => gather { g with verbose := g.verbose + 1 } rest
    | .long "max-steps" value? =>
      if g.limit?.isNone then .error (.unexpectedArgument word)
      else
        match value? with
        | some value => do gather (← g.setLimit value) rest
        | none =>
          match rest with
          | [] => .error .noLimit
          | value :: rest =>
            if Word.of value = .plain then do gather (← g.setLimit value) rest
            else .error .noLimit
    | .long _ _ => .error (.unexpectedArgument word)
    | .cluster letters =>
      match Letters.of false letters with
      | .verbose count => gather { g with verbose := g.verbose + count } rest
      | .help => .ok none
      | .version | .unknown => .error (.unexpectedArgument word)
    | .plain => do gather (← g.setFile word) rest

end Gathered

/-- The request of a command with the words behind it. -/
def commandRequest (command : Command) (verbosity : Nat) (words : List String) :
    Except Misuse Request := do
  let limit? :=
    match command with
    | .run limit => some limit
    | _ => none
  match ← Gathered.gather { limit? } words with
  | none => return .help
  | some g =>
    let some file := g.file? | throw .noFile
    let command :=
      match g.limit? with
      | some limit => .run limit
      | none => command
    let verbosity := if g.verbose = 0 then verbosity else g.verbose
    return .invoke { command, file, verbosity }

/-- The command of a name. -/
def command? : String → Option Command
  | "run" => some (.run none)
  | "check" => some .check
  | "dump" => some .dump
  | _ => none

/-- Help on nothing in particular or on one command. -/
def helpRequest : List String → Except Misuse Request
  | [] => .ok .help
  | [word] =>
    if word = "help" || (command? word).isSome then .ok .help else .error (.unknownCommand word)
  | _ :: word :: _ => .error (.unknownCommand word)

/-- The request of a command line, after so many `-v`. -/
def requestFrom (verbosity : Nat) : List String → Except Misuse Request
  | [] => .error .noCommand
  | word :: rest =>
    match Word.of word with
    | .separator =>
      match rest with
      | [] => .error .noCommand
      | word :: _ => .error (.unexpectedArgument word)
    | .long "help" none => .ok .help
    | .long "version" none => .ok .version
    | .long "verbose" none => requestFrom (verbosity + 1) rest
    | .long _ _ => .error (.unexpectedArgument word)
    | .cluster letters =>
      match Letters.of true letters with
      | .verbose count => requestFrom (verbosity + count) rest
      | .help => .ok .help
      | .version => .ok .version
      | .unknown => .error (.unexpectedArgument word)
    | .plain =>
      if word = "help" then helpRequest rest
      else
        match command? word with
        | some command => commandRequest command verbosity rest
        | none => .error (.unknownCommand word)

/-- The request of a command line. -/
def request (words : List String) : Except Misuse Request := requestFrom 0 words

end QuadAsm.CommandLine
