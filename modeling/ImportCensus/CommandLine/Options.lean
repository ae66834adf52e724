import ImportCensus.Config
import ImportCensus.Log
import ImportCensus.Text.Lines

/-!
The options of the command line. Arguments are read from left to right. An option that takes a
value from the next argument waits for it, and whatever was waiting is settled as soon as another
known option comes up or the arguments end; only an argument that nothing accepts is refused
before that. A request for help or for the version ends the reading where it stands.
-/

namespace ImportCensus

structure Options where
  config : Config
  verbosity : Verbosity
deriving DecidableEq

namespace CommandLine

inductive Setting where
  | root
  | extension
  | exclude
deriving DecidableEq

inductive Switch where
  | skipMalformed
  | quiet
  | verbose
deriving DecidableEq

inductive Flag where
  | setting (s : Setting)
  | switch (s : Switch)
  | help
  | version
deriving DecidableEq

def Setting.long : Setting → Text
  | root => "root".toList
  | extension => "ext".toList
  | exclude => "exclude".toList

def Setting.valueName : Setting → Text
  | root => "DIR".toList
  | extension => "EXT".toList
  | exclude => "NAMESPACE".toList

def Flag.long : Flag → Text
  | setting s => s.long
  | switch .skipMalformed => "skip-malformed".toList
  | switch .quiet => "quiet".toList
  | switch .verbose => "verbose".toList
  | help => "help".toList
  | version => "version".toList

def Flag.short? : Flag → Option Char
  | switch .quiet => some 'q'
  | switch .verbose => some 'v'
  | help => some 'h'
  | version => some 'V'
  | setting _ | switch .skipMalformed => none

def Flag.all : List Flag :=
  [.setting .root, .setting .extension, .setting .exclude, .switch .skipMalformed, .switch .quiet,
    .switch .verbose, .help, .version]

def Flag.ofLong? (name : Text) : Option Flag := Flag.all.find? fun f => f.long == name

def Flag.ofShort? (letter : Char) : Option Flag := Flag.all.find? fun f => f.short? == some letter

def Flag.shown (f : Flag) : Text :=
  "--".toList ++ f.long ++
    match f with
    | setting s => " <".toList ++ s.valueName ++ ['>']
    | _ => []

inductive Refusal where
  | unknownArgument (argument : Text)
  | missingValue (setting : Setting)
  | unexpectedValue (value : Text) (flag : Flag)
  | repeated (flag : Flag)
  | conflict (first second : Flag)
  | invalidUtf8
deriving DecidableEq

def inQuotes (t : Text) : Text := ['\''] ++ t ++ ['\'']

def Refusal.words (form : Text → Text) : Refusal → Text
  | unknownArgument argument =>
    "error: unexpected argument ".toList ++ inQuotes (form argument) ++ " found".toList
  | missingValue setting =>
    "error: a value is required for ".toList ++ inQuotes (Flag.setting setting).shown ++
      " but none was supplied".toList
  | unexpectedValue value flag =>
    "error: unexpected value ".toList ++ inQuotes (form value) ++ " for ".toList ++
      inQuotes flag.shown ++ " found; no more were expected".toList
  | repeated flag =>
    "error: the argument ".toList ++ inQuotes flag.shown ++ " cannot be used multiple times".toList
  | conflict first second =>
    "error: the argument ".toList ++ inQuotes first.shown ++ " cannot be used with ".toList ++
      inQuotes second.shown
  | invalidUtf8 => "error: invalid UTF-8 was detected in one or more arguments".toList

def Refusal.message (r : Refusal) : Text := r.words Text.seen

def Refusal.report (r : Refusal) : Text := r.words Text.streamed

/-- The first line of the message of a refusal. Those behind it come from arguments with line feeds
in them. -/
def Refusal.headline (r : Refusal) : Text := (Lines.split '\n' '\r' r.message).headD []

inductive Halt where
  | refused (r : Refusal)
  | help (long : Bool)
  | version
deriving DecidableEq

/-- What has been read of a command line: the values given, the switches in the order given, and
the setting that waits, with its value once that has come. -/
structure Reading where
  root : Option Path
  extension : Option Text
  exclude : Option Text
  switches : List Switch
  waiting : Option (Setting × Option Bytes)
deriving DecidableEq

namespace Reading

def start : Reading := ⟨none, none, none, [], none⟩

def isGiven (r : Reading) : Setting → Bool
  | .root => r.root.isSome
  | .extension => r.extension.isSome
  | .exclude => r.exclude.isSome

def give (r : Reading) (s : Setting) (value : Bytes) : Except Halt Reading :=
  if r.isGiven s then .error (.refused (.repeated (.setting s)))
  else
    match s with
    | .root =>
      if value.isEmpty then .error (.refused (.missingValue .root))
      else .ok { r with root := some value }
    | .extension =>
      match Utf8.decode? value with
      | some text => .ok { r with extension := some text }
      | none => .error (.refused .invalidUtf8)
    | .exclude =>
      match Utf8.decode? value with
      | some text => .ok { r with exclude := some text }
      | none => .error (.refused .invalidUtf8)

def settle (r : Reading) : Except Halt Reading :=
  match r.waiting with
  | none => .ok r
  | some (s, none) => .error (.refused (.missingValue s))
  | some (s, some value) => { r with waiting := none }.give s value

def takeFlag (r : Reading) (long : Bool) (f : Flag) : Except Halt Reading :=
  match r.settle with
  | .error halt => .error halt
  | .ok r =>
    match f with
    | .setting s => .ok { r with waiting := some (s, none) }
    | .switch s =>
      if r.switches.contains s then .error (.refused (.repeated (.switch s)))
      else .ok { r with switches := r.switches ++ [s] }
    | .help => .error (.help long)
    | .version => .error .version

def takeLong (r : Reading) (name : Bytes) (value : Option Bytes) : Except Halt Reading :=
  match (Utf8.decode? name).bind Flag.ofLong? with
  | none => .error (.refused (.unknownArgument ("--".toList ++ Utf8.decode name)))
  | some f =>
    match f, value with
    | .setting s, some value =>
      match r.settle with
      | .error halt => .error halt
      | .ok r => r.give s value
    | f, some value => .error (.refused (.unexpectedValue (Utf8.decode value) f))
    | f, none => r.takeFlag true f

def takeLetters (r : Reading) (behind : Text) : List (Option Char) → Except Halt Reading
  | [] => .ok r
  | none :: _ => .error (.refused (.unknownArgument ('-' :: behind)))
  | some c :: rest =>
    match Flag.ofShort? c with
    | none => .error (.refused (.unknownArgument ['-', c]))
    | some f =>
      match r.takeFlag false f with
      | .error halt => .error halt
      | .ok r => r.takeLetters behind.tail rest

def takePlain (r : Reading) (argument : Bytes) : Except Halt Reading :=
  match r.waiting with
  | some (s, none) => .ok { r with waiting := some (s, some argument) }
  | _ => .error (.refused (.unknownArgument (Utf8.decode argument)))

def splitValue (argument : Bytes) : Bytes × Option Bytes :=
  match argument.dropWhile (fun b => decide (b ≠ 0x3D)) with
  | [] => (argument, none)
  | _ :: value => (argument.takeWhile (fun b => decide (b ≠ 0x3D)), some value)

def takeArgument (r : Reading) (argument : Bytes) : Except Halt Reading :=
  match argument with
  | 0x2D :: 0x2D :: rest => r.takeLong (splitValue rest).1 (splitValue rest).2
  | 0x2D :: b :: rest => r.takeLetters (Utf8.decode (b :: rest)) (Utf8.units (b :: rest))
  | _ => r.takePlain argument

def takeAll (r : Reading) : List Bytes → Except Halt Reading
  | [] => r.settle
  | [0x2D, 0x2D] :: [] => r.settle
  | [0x2D, 0x2D] :: argument :: _ => .error (.refused (.unknownArgument (Utf8.decode argument)))
  | argument :: rest =>
    match r.takeArgument argument with
    | .error halt => .error halt
    | .ok r => r.takeAll rest

/-- The options that were read, with the default for each setting that was not given. Quiet and
verbose exclude each other. -/
def options (r : Reading) : Except Halt Options :=
  match r.switches.filter fun s => s = .quiet || s = .verbose with
  | first :: second :: _ => .error (.refused (.conflict (.switch first) (.switch second)))
  | chosen =>
    .ok
      { config :=
          { root := r.root.getD Config.default.root
            extension := (r.extension.map Config.bareExtension).getD Config.default.extension
            excludedNamespace := r.exclude.getD Config.default.excludedNamespace
            malformed := if r.switches.contains .skipMalformed then .skip else .abort }
        verbosity :=
          match chosen with
          | [.quiet] => .quiet
          | [.verbose] => .verbose
          | _ => .normal }

end Reading

def parse (arguments : List Bytes) : Except Halt Options :=
  match Reading.start.takeAll arguments with
  | .error halt => .error halt
  | .ok r => r.options

end CommandLine

end ImportCensus
