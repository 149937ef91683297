/-!
# Errors of the file system
-/

namespace PhpOutline

inductive SystemError where
  | notFound
  | notADirectory
  | isADirectory
  | nameTooLong
  | tooManyLinks
  /-- A path has the character 0 in it, with which no request gets as far as the file system. -/
  | zeroInPath
deriving DecidableEq, Repr, Inhabited

namespace SystemError

/-- The number of the error, if the file system gives one. -/
def code? : SystemError → Option Nat
  | notFound => some 2
  | notADirectory => some 20
  | isADirectory => some 21
  | nameTooLong => some 36
  | tooManyLinks => some 40
  | zeroInPath => none

def reason : SystemError → String
  | notFound => "No such file or directory"
  | notADirectory => "Not a directory"
  | isADirectory => "Is a directory"
  | nameTooLong => "File name too long"
  | tooManyLinks => "Too many levels of symbolic links"
  | zeroInPath => "file name contained an unexpected NUL byte"

def message (error : SystemError) : String :=
  match error.code? with
  | some code => error.reason ++ " (os error " ++ toString code ++ ")"
  | none => error.reason

end SystemError

end PhpOutline
