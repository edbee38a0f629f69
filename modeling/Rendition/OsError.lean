/-!
# Rendition.OsError

Why the operating system refuses a call. The ones that the library meets have names; each is
reported with its reason and its number.
-/

namespace Rendition

/-- A refusal of the operating system. -/
inductive OsError where
  /-- There is no entry of that name. -/
  | noEntry
  /-- A name is looked for in something that is no directory. -/
  | notDirectory
  /-- A directory stands where a file is needed. -/
  | isDirectory
  /-- A name or a path is too long. -/
  | nameTooLong
  /-- Following links does not come to an end. -/
  | tooManyLinks
  /-- Another program listens at the address. -/
  | addressInUse
  /-- The machine does not have the address. -/
  | addressUnavailable
  /-- A path holds a NUL, which the system cannot be given. -/
  | nulInPath
  /-- Any other refusal. -/
  | other (reason : String) (code : Nat)
  deriving DecidableEq, Repr

namespace OsError

/-- The refusal of a number; the reason counts only if the number has no name here. -/
def ofCode (code : Nat) (reason : String) : OsError :=
  match code with
  | 2 => noEntry
  | 20 => notDirectory
  | 21 => isDirectory
  | 36 => nameTooLong
  | 40 => tooManyLinks
  | 98 => addressInUse
  | 99 => addressUnavailable
  | _ => other reason code

/-- A reason with its number. -/
def numbered (reason : String) (code : Nat) : String :=
  reason ++ " (os error " ++ toString code ++ ")"

/-- The refusal as it is reported. -/
def text : OsError → String
  | noEntry => numbered "No such file or directory" 2
  | notDirectory => numbered "Not a directory" 20
  | isDirectory => numbered "Is a directory" 21
  | nameTooLong => numbered "File name too long" 36
  | tooManyLinks => numbered "Too many levels of symbolic links" 40
  | addressInUse => numbered "Address already in use" 98
  | addressUnavailable => numbered "Cannot assign requested address" 99
  | nulInPath => "file name contained an unexpected NUL byte"
  | other reason code => numbered reason code

end OsError

end Rendition
