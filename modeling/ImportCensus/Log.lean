import ImportCensus.Tally
import ImportCensus.Text.Blank
import ImportCensus.Text.Terminal
import ImportCensus.Tree.Path

namespace ImportCensus

inductive Event where
  | scanning (root : Path) (suffix : Text)
  | reading (path : Path)
  | skippingMalformed (path : Path) (line : Nat) (text : Text)
  | scanComplete (stats : Stats)
  | nothingFound
deriving DecidableEq

inductive Level where
  | debug
  | warn
deriving DecidableEq

inductive FieldValue where
  | text (t : Text)
  | number (n : Nat)
deriving DecidableEq

def FieldValue.shown : FieldValue → Text
  | text t => t
  | number n => decimal n

def Level.label : Level → Text
  | debug => "DEBUG".toList
  | warn => " WARN".toList

namespace Event

def level : Event → Level
  | skippingMalformed _ _ _ => .warn
  | _ => .debug

def message : Event → Text
  | scanning _ _ => "scanning".toList
  | reading _ => "reading".toList
  | skippingMalformed _ _ text => "skipping malformed import: ".toList ++ text.trim
  | scanComplete _ => "scan complete".toList
  | nothingFound => "no references found".toList

def fields : Event → List (Text × FieldValue)
  | scanning root suffix =>
    [("root".toList, .text root.normalized), ("suffix".toList, .text suffix)]
  | reading path => [("path".toList, .text path.normalized)]
  | skippingMalformed path line _ =>
    [("path".toList, .text path.normalized), ("line".toList, .number line)]
  | scanComplete stats =>
    [("files".toList, .number stats.filesScanned), ("matched".toList, .number stats.linesMatched),
      ("kept".toList, .number stats.referencesKept),
      ("duplicates".toList, .number stats.duplicatesDropped),
      ("excluded".toList, .number stats.excluded),
      ("malformed".toList, .number stats.malformedSkipped)]
  | nothingFound => []

def line (e : Event) : Text :=
  e.level.label ++ [' '] ++ e.message.spelledOut ++
    e.fields.flatMap fun (name, value) => [' '] ++ name ++ ['='] ++ value.shown

end Event

inductive Verbosity where
  | quiet
  | normal
  | verbose
deriving DecidableEq

namespace Verbosity

def shows : Verbosity → Level → Bool
  | quiet, _ => false
  | normal, level => level == .warn
  | verbose, _ => true

def filter (v : Verbosity) (log : List Event) : List Event := log.filter fun e => v.shows e.level

end Verbosity

end ImportCensus
