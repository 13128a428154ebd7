/-!
# Errors of the file system

What keeps a single file operation from being carried out, with the text the system has for it.

## Main definitions

* `SystemError`: the causes
* `SystemError.message`: their texts
-/

namespace SourceCoding

/-- **Why a file operation was refused.** -/
inductive SystemError where
  /-- Nothing has that name. -/
  | notFound
  /-- Something has that name already. -/
  | alreadyExists
  /-- A directory is needed and something else is there. -/
  | notDirectory
  /-- A file is needed and a directory is there. -/
  | isDirectory
  /-- A name or a whole path is too long. -/
  | nameTooLong
  /-- Symbolic links lead on and on. -/
  | tooManyLinks
  /-- The path holds a zero byte, which no path may. -/
  | zeroByte
  /-- The content is not text. -/
  | notText
  /-- Any other cause, by its text. -/
  | other (text : String)
  deriving DecidableEq, Repr

/-- The text of a cause; those the operating system reports have their number in it. -/
def SystemError.message : SystemError → String
  | .notFound => "No such file or directory (os error 2)"
  | .alreadyExists => "File exists (os error 17)"
  | .notDirectory => "Not a directory (os error 20)"
  | .isDirectory => "Is a directory (os error 21)"
  | .nameTooLong => "File name too long (os error 36)"
  | .tooManyLinks => "Too many levels of symbolic links (os error 40)"
  | .zeroByte => "file name contained an unexpected NUL byte"
  | .notText => "stream did not contain valid UTF-8"
  | .other text => text

end SourceCoding
