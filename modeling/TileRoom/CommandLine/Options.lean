import TileRoom.Text.Cut
import TileRoom.Text.Numeral

/-! Options of a command line. An option has a long name and perhaps a short one, is
given once at most, and has a value: in the same argument, with or without an equals
sign before it, or as the next argument. -/

namespace TileRoom

inductive CommandLineStop where
  | usage
  | help
  | version
deriving DecidableEq

/-- An option and what its value does to the settings; nothing is made of a value it
does not accept. -/
structure OptionForm (settings : Type) where
  short : Option Char := none
  long : String
  enter : List Char → settings → Option settings

namespace OptionForm

variable {settings : Type}

inductive Argument (settings : Type) where
  | stop (cause : CommandLineStop)
  | lastOption
  | withValue (form : OptionForm settings) (value : List Char)
  | beforeValue (form : OptionForm settings)

def longArgument (forms : List (OptionForm settings)) (text : List Char) : Argument settings :=
  let find (name : List Char) := forms.find? fun form => form.long.toList = name
  match Cut.first? '=' text with
  | some (name, value) => (find name).elim (.stop .usage) (.withValue · value)
  | none =>
      match String.ofList text with
      | "help" => .stop .help
      | "version" => .stop .version
      | _ => (find text).elim (.stop .usage) .beforeValue

def shortArgument (forms : List (OptionForm settings)) (name : Char) (rest : List Char) :
    Argument settings :=
  match name, forms.find? fun form => form.short = some name with
  | _, some form =>
      match rest with
      | [] => .beforeValue form
      | '=' :: value => .withValue form value
      | value => .withValue form value
  | 'h', none => .stop .help
  | 'V', none => .stop .version
  | _, none => .stop .usage

def argument (forms : List (OptionForm settings)) : List Char → Argument settings
  | ['-', '-'] => .lastOption
  | '-' :: '-' :: text => longArgument forms text
  | '-' :: name :: rest => shortArgument forms name rest
  | _ => .stop .usage

def isValue : List Char → Bool
  | '-' :: _ :: _ => false
  | _ => true

def give (form : OptionForm settings) (given : List String) (value : List Char)
    (known : settings) : Except CommandLineStop settings :=
  if form.long ∈ given then .error .usage
  else (form.enter value known).elim (.error .usage) .ok

/-- Reads arguments in order; the first fault decides. -/
def readFrom (forms : List (OptionForm settings)) (given : List String) (known : settings) :
    List (List Char) → Except CommandLineStop settings
  | [] => .ok known
  | text :: rest =>
      match argument forms text with
      | .stop cause => .error cause
      | .lastOption => if rest.isEmpty then .ok known else .error .usage
      | .withValue form value => do
          readFrom forms (form.long :: given) (← form.give given value known) rest
      | .beforeValue form =>
          match rest with
          | [] => .error .usage
          | value :: rest =>
              if isValue value then do
                readFrom forms (form.long :: given) (← form.give given value known) rest
              else .error .usage

def read (forms : List (OptionForm settings)) (defaults : settings) (arguments : List String) :
    Except CommandLineStop settings :=
  readFrom forms [] defaults (arguments.map String.toList)

/-- A port of 16 bits; a sign may stand before it. -/
def port? : List Char → Option UInt16
  | '-' :: digits => ((Numeral.value? 10 digits).filter (· = 0)).map UInt16.ofNat
  | text => (Numeral.readBelow? 10 UInt16.size text).map UInt16.ofNat

end OptionForm

end TileRoom
