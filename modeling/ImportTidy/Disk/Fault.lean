/-
# ImportTidy.Disk.Fault — why the system refuses something

The causes that the operating system gives, with the words and numbers it gives for them.
-/
import ImportTidy.Text.Basic

namespace ImportTidy

/-- Why an operation on the disk, or on a pipe, fails. -/
inductive DiskFault where
  | notFound
  | permissionDenied
  | notDirectory
  | isDirectory
  | brokenPipe
  | nameTooLong
  | tooManyLinks
  /-- The bytes of a file are no text. -/
  | notText
  /-- Any other cause, in the words that it comes with. -/
  | other (words : Text)
  deriving DecidableEq, Repr

/-- The cause in words. -/
def DiskFault.message : DiskFault → Text
  | .notFound => "No such file or directory (os error 2)".toList
  | .permissionDenied => "Permission denied (os error 13)".toList
  | .notDirectory => "Not a directory (os error 20)".toList
  | .isDirectory => "Is a directory (os error 21)".toList
  | .brokenPipe => "Broken pipe (os error 32)".toList
  | .nameTooLong => "File name too long (os error 36)".toList
  | .tooManyLinks => "Too many levels of symbolic links (os error 40)".toList
  | .notText => "stream did not contain valid UTF-8".toList
  | .other words => words

end ImportTidy
