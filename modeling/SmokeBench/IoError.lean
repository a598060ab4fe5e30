/-!
Why an operation on the outside world failed. `message` is the wording the bench prints.
-/

namespace SmokeBench

inductive IoError
  | notPermitted
  | notFound
  | noSuchProcess
  | tooLongArguments
  | execFormat
  | noChild
  | permissionDenied
  | alreadyExists
  | crossDevice
  | notADirectory
  | isADirectory
  | invalidArgument
  | noSpace
  | brokenPipe
  | nameTooLong
  | directoryNotEmpty
  | linkLoop
  | notSupported
  | nulInName
  | nulInArgument
  | text (message : String)
  deriving DecidableEq, Repr

namespace IoError

/-- The system's error number and its text, for the causes the system reports. -/
def system : IoError → Option (Nat × String)
  | notPermitted => some (1, "Operation not permitted")
  | notFound => some (2, "No such file or directory")
  | noSuchProcess => some (3, "No such process")
  | tooLongArguments => some (7, "Argument list too long")
  | execFormat => some (8, "Exec format error")
  | noChild => some (10, "No child processes")
  | permissionDenied => some (13, "Permission denied")
  | alreadyExists => some (17, "File exists")
  | crossDevice => some (18, "Invalid cross-device link")
  | notADirectory => some (20, "Not a directory")
  | isADirectory => some (21, "Is a directory")
  | invalidArgument => some (22, "Invalid argument")
  | noSpace => some (28, "No space left on device")
  | brokenPipe => some (32, "Broken pipe")
  | nameTooLong => some (36, "File name too long")
  | notSupported => some (38, "Function not implemented")
  | directoryNotEmpty => some (39, "Directory not empty")
  | linkLoop => some (40, "Too many levels of symbolic links")
  | nulInName | nulInArgument | text _ => none

/-- The system's wording alone, as command-line tools print it. -/
def strerror (e : IoError) : String :=
  match e, e.system with
  | text wording, _ | _, some (_, wording) => wording
  | _, none => "Invalid argument"

def message (e : IoError) : String :=
  match e with
  | nulInName => "file name contained an unexpected NUL byte"
  | nulInArgument => "nul byte found in provided data"
  | text m => m
  | e =>
    match e.system with
    | some (number, wording) => s!"{wording} (os error {number})"
    | none => ""

end IoError

end SmokeBench
