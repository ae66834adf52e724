import ImportCensus.Tree.Path

namespace ImportCensus

inductive MalformedPolicy where
  | abort
  | skip
deriving DecidableEq

structure Config where
  root : Path
  extension : Text
  excludedNamespace : Text
  malformed : MalformedPolicy
deriving DecidableEq

namespace Config

def default : Config where
  root := Utf8.encode "wahlzeit".toList
  extension := "java".toList
  excludedNamespace := "org.wahlzeit".toList
  malformed := .abort

def bareExtension : Text → Text
  | '.' :: rest => rest
  | extension => extension

def suffix (c : Config) : Text := '.' :: c.extension

end Config

end ImportCensus
