/-!
# Failures of file operations

A `FileError` is the reason why a file could not be read or changed; `message` is the wording the
operating system gives it.
-/

namespace SheetGraph

/-- Why a file operation failed. -/
inductive FileError where
  | notFound
  | permissionDenied
  | alreadyExists
  | notDirectory
  | isDirectory
  | tooManyLinks
  | notUtf8
  | other (text : String)
  deriving DecidableEq

namespace FileError

/-- The wording of the failure. -/
def message : FileError → String
  | notFound => "No such file or directory (os error 2)"
  | permissionDenied => "Permission denied (os error 13)"
  | alreadyExists => "File exists (os error 17)"
  | notDirectory => "Not a directory (os error 20)"
  | isDirectory => "Is a directory (os error 21)"
  | tooManyLinks => "Too many levels of symbolic links (os error 40)"
  | notUtf8 => "stream did not contain valid UTF-8"
  | other text => text

instance : ToString FileError := ⟨message⟩

end FileError

end SheetGraph
