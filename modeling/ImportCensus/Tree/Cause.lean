import ImportCensus.Text.Basic

namespace ImportCensus

inductive Cause where
  | notFound
  | permissionDenied
  | notDirectory
  | isDirectory
  | noSpace
  | brokenPipe
  | nameTooLong
  | linkLoop
  | nulInPath
  | noRoom
  | flushFailed
deriving DecidableEq

namespace Cause

def description : Cause → Text
  | notFound => "No such file or directory".toList
  | permissionDenied => "Permission denied".toList
  | notDirectory => "Not a directory".toList
  | isDirectory => "Is a directory".toList
  | noSpace => "No space left on device".toList
  | brokenPipe => "Broken pipe".toList
  | nameTooLong => "File name too long".toList
  | linkLoop => "Too many levels of symbolic links".toList
  | nulInPath => "file name contained an unexpected NUL byte".toList
  | noRoom => "no room".toList
  | flushFailed => "flush failed".toList

def code? : Cause → Option Nat
  | notFound => some 2
  | permissionDenied => some 13
  | notDirectory => some 20
  | isDirectory => some 21
  | noSpace => some 28
  | brokenPipe => some 32
  | nameTooLong => some 36
  | linkLoop => some 40
  | nulInPath | noRoom | flushFailed => none

def numbered : List Cause :=
  [notFound, permissionDenied, notDirectory, isDirectory, noSpace, brokenPipe, nameTooLong,
    linkLoop]

def ofCode? (code : Nat) : Option Cause := numbered.find? fun c => c.code? == some code

def text (c : Cause) : Text :=
  match c.code? with
  | some code => c.description ++ " (os error ".toList ++ decimal code ++ [')']
  | none => c.description

end Cause

end ImportCensus
