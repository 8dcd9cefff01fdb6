/-!
# Faults of files

Why a path does not lead to what is asked for, or why what it leads to cannot be read or written.
-/

namespace Runbook

/-- Why a file or a folder cannot be used. -/
inductive FileFault where
  /-- There is nothing. -/
  | absent
  /-- There is a file in place of a folder. -/
  | notFolder
  /-- There is a folder in place of a file. -/
  | isFolder
  /-- There is a file where a folder is to be made. -/
  | isTaken
  /-- A name or the whole path is too long. -/
  | nameTooLong
  /-- The path holds a null character. -/
  | nullCharacter
  /-- The bytes of the file are no text. -/
  | notText
  /-- Any other reason, in the words of the machine. -/
  | other (reason : String)
deriving DecidableEq, Repr

namespace FileFault

/-- The fault in words. -/
def reason : FileFault → String
  | .absent => "No such file or directory (os error 2)"
  | .notFolder => "Not a directory (os error 20)"
  | .isFolder => "Is a directory (os error 21)"
  | .isTaken => "File exists (os error 17)"
  | .nameTooLong => "File name too long (os error 36)"
  | .nullCharacter => "file name contained an unexpected NUL byte"
  | .notText => "stream did not contain valid UTF-8"
  | .other reason => reason

end FileFault

end Runbook
