import ScriptSymbols.Glob.Basic
import ScriptSymbols.Uri

/-!
# What can go wrong

Outlining a script never fails. Finding and reading the files of a workspace can: `IoError` says why
the file system refused, `IndexError` what could not be done for that reason.
-/

namespace ScriptSymbols

/-- Why the file system, or another source of texts, refuses a request. -/
inductive IoError
  | notFound
  | notDirectory
  | isDirectory
  | tooManyLinks
  | nulInName
  | other (reason : String)
  deriving DecidableEq

/-- The error in words. -/
def IoError.message : IoError → String
  | .notFound => "No such file or directory (os error 2)"
  | .notDirectory => "Not a directory (os error 20)"
  | .isDirectory => "Is a directory (os error 21)"
  | .tooManyLinks => "Too many levels of symbolic links (os error 40)"
  | .nulInName => "file name contained an unexpected NUL byte"
  | .other reason => reason

/-- What could not be done: list a directory, read a pattern, read the text of a script, find a local
file behind a URI, find any source of texts, or come to the end of a directory tree. -/
inductive IndexError
  | unlisted (dir : Path) (cause : IoError)
  | badGlob (pattern : String) (cause : Glob.Error)
  | unreadable (uri : Uri) (cause : IoError)
  | notLocal (uri : Uri)
  | noTextSource (uri : Uri)
  | endless (root : Path)
  deriving DecidableEq

/-- The error in words. -/
def IndexError.message : IndexError → String
  | .unlisted dir cause => "cannot list directory " ++ dir.text ++ ": " ++ cause.message
  | .badGlob pattern cause => "invalid glob pattern '" ++ pattern ++ "': " ++ cause.message
  | .unreadable uri cause => "cannot read " ++ uri.text ++ ": " ++ cause.message
  | .notLocal uri => uri.text ++ " is not a local file"
  | .noTextSource uri => "no text source configured to parse " ++ uri.text
  | .endless root => "directory tree has no end: " ++ root.text

/-- The error in words that an error was caused by, where it is an error of its own kind. -/
def IndexError.source? : IndexError → Option String
  | .unlisted _ cause => some cause.message
  | .badGlob _ cause => some cause.message
  | .unreadable _ cause => some cause.message
  | .notLocal _ => none
  | .noTextSource _ => none
  | .endless _ => none

end ScriptSymbols
