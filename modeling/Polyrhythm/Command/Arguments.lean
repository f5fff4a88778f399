import Polyrhythm.Number.Decimal
import Polyrhythm.Setting

/-!
# The arguments of the command

The command takes one notation and three options, each with a value: `--config`, `--output` and
`--unit-time`. Options and the notation may come in any order, and the last of several equal
options counts. The name of an option can be shortened as long as only one option starts with it,
and its value is either the next argument or follows an equals sign. After `--` no argument is an
option. An argument that looks like a negative number is none either. A value of two dashes behind
an equals sign is no value: it is dropped, and the option is left with an empty one, which is of no
use but stands in the way only of what needs it.

Arguments are first sorted into words (`Word.ofArgument`) and then taken one after another
(`Taken.take`). A help option ends this at once; whatever is left over makes the whole command
unusable, but only at the end.
-/

namespace Polyrhythm

/-- What the command is to do: the notation to read, the configuration, the file to write, and the
unit of time if it was given. A path is missing if its value was dropped. -/
structure Options where
  notationPath : String
  configPath : Option String
  outputPath : Option String
  unitTime : Option Setting

/-- Why the command does not run: help was asked for, or the arguments cannot be used. -/
inductive Halt
  | help
  | usage
deriving DecidableEq, Repr

/-- The options by meaning. -/
inductive Switch
  | help
  | config
  | output
  | unitTime
deriving DecidableEq, Repr

/-- The names of the options. -/
def switchNames : List (List Char × Switch) :=
  [("-h".toList, .help), ("--help".toList, .help), ("--config".toList, .config),
   ("--output".toList, .output), ("--unit-time".toList, .unitTime)]

/-- A value that is part of the argument of an option: after a long name and an equals sign, or
joined to a short name, between them an equals sign or nothing. -/
inductive Attached
  | none
  | equals (value : List Char)
  | joined (value : List Char)
deriving DecidableEq, Repr

/-- What an argument is taken for. -/
inductive Word
  | plain (argument : String)
  | separator
  | switch (meaning : Switch) (attached : Attached)
  | unknown
deriving DecidableEq, Repr

namespace Word

/-- The part of an argument before the first equals sign, and the value after it. -/
def splitEquals (argument : List Char) : List Char × Attached :=
  match argument.span (· != '=') with
  | (name, _ :: value) => (name, .equals value)
  | (name, []) => (name, .none)

/-- The options that an argument can be an abbreviation of. A long name may be cut short; a short
one may have its value joined to it. -/
def candidates (argument : List Char) : List Word :=
  if "--".toList.isPrefixOf argument then
    let (name, attached) := splitEquals argument
    (switchNames.filter fun entry => name.isPrefixOf entry.1).map fun entry =>
      switch entry.2 attached
  else switchNames.filterMap fun entry =>
    if entry.1 = argument.take 2 then some (switch entry.2 (.joined (argument.drop 2)))
    else if argument.isPrefixOf entry.1 then some (switch entry.2 .none)
    else none

/-- Whether an argument is a minus sign with a whole number or with a decimal that has digits after
its point. A line feed may follow. -/
def looksNegative (argument : List Char) : Bool :=
  let cs := if argument.getLast? = some '\n' then argument.dropLast else argument
  match cs with
  | '-' :: rest =>
    match Number.digitRun rest with
    | (whole, []) => !whole.isEmpty
    | (_, '.' :: fraction) => !fraction.isEmpty && fraction.all Text.isDigit
    | _ => false
  | _ => false

/-- What an argument that starts with a dash and is not just a dash is taken for. -/
def ofDashed (argument : List Char) : Except Halt Word :=
  match switchNames.lookup argument with
  | some meaning => .ok (switch meaning .none)
  | none =>
    let (name, attached) := splitEquals argument
    match attached, switchNames.lookup name with
    | .equals value, some meaning =>
      .ok (switch meaning (if name.length = 2 then .joined value else .equals value))
    | _, _ =>
      match candidates argument with
      | [word] => .ok word
      | _ :: _ => .error .usage
      | [] =>
        if looksNegative argument || argument.contains ' ' then
          .ok (plain (String.ofList argument))
        else .ok unknown

/-- What an argument is taken for, before any separator. -/
def ofArgument (argument : String) : Except Halt Word :=
  match argument.toList with
  | '-' :: c :: rest => ofDashed ('-' :: c :: rest)
  | _ => .ok (plain argument)

/-- What arguments are taken for. Behind the first `--` all of them are plain. -/
def ofArguments : List String → Except Halt (List Word)
  | [] => .ok []
  | argument :: rest =>
    if argument = "--" then .ok (separator :: rest.map plain)
    else do
      let word ← ofArgument argument
      return word :: (← ofArguments rest)

end Word

/-- What the words so far have set, and whether something among them is of no use. -/
structure Taken where
  notationPath : Option String
  configPath : Option String
  outputPath : Option String
  unitTime : Option Setting
  hasExtra : Bool

namespace Taken

/-- The defaults. -/
def initial : Taken := ⟨none, some "config.yaml", some "out.mid", none, false⟩

/-- The value that is attached to an option, unless it is dropped. -/
def attachedValue (value : List Char) : Option String :=
  if value = ['-', '-'] then none else some (String.ofList value)

/-- Sets an option to a value. A unit of time must be a number; a dropped one is an empty list. -/
def set (taken : Taken) (meaning : Switch) (value : Option String) : Except Halt Taken :=
  match meaning, value with
  | .help, _ => .error .help
  | .config, value => .ok { taken with configPath := value }
  | .output, value => .ok { taken with outputPath := value }
  | .unitTime, none => .ok { taken with unitTime := some (.list []) }
  | .unitTime, some value =>
    match Number.readReal? value with
    | some x => .ok { taken with unitTime := some (.number (.real x)) }
    | none => .error .usage

/-- How a help option ends. It takes no value; letters joined to its short name are read as further
short options, of which there is only the same one. -/
def helpHalt : Attached → Halt
  | .none => .help
  | .equals _ => .usage
  | .joined letters => if !letters.isEmpty && letters.all (· = 'h') then .help else .usage

/-- Takes words one after another. The notation is the first plain word that is no value; a
separator next to it belongs to it. -/
def take (taken : Taken) : List Word → Except Halt Taken
  | [] => .ok taken
  | .unknown :: rest => take { taken with hasExtra := true } rest
  | .switch .help attached :: _ => .error (helpHalt attached)
  | .switch meaning (.equals value) :: rest
  | .switch meaning (.joined value) :: rest => do
    take (← taken.set meaning (attachedValue value)) rest
  | .switch meaning .none :: .plain value :: rest => do take (← taken.set meaning (some value)) rest
  | .switch _ .none :: _ => .error .usage
  | .separator :: .plain argument :: rest =>
    if taken.notationPath.isNone then take { taken with notationPath := some argument } rest
    else take { taken with hasExtra := true } rest
  | .separator :: rest => take { taken with hasExtra := true } rest
  | .plain argument :: .separator :: rest =>
    if taken.notationPath.isNone then take { taken with notationPath := some argument } rest
    else take { taken with hasExtra := true } rest
  | .plain argument :: rest =>
    if taken.notationPath.isNone then take { taken with notationPath := some argument } rest
    else take { taken with hasExtra := true } rest

end Taken

/-- The options that arguments set. -/
def Options.ofArguments (arguments : List String) : Except Halt Options := do
  let taken ← Taken.initial.take (← Word.ofArguments arguments)
  match taken.notationPath, taken.hasExtra with
  | some path, false => return ⟨path, taken.configPath, taken.outputPath, taken.unitTime⟩
  | _, _ => .error .usage

end Polyrhythm
