/-
Errors of input and output.

Such an error is of a kind. It either stands for the kind alone, whose text it
then has, or wraps an error of its own: then it shows that error's text as its
own, and is due to what that error is due to.
-/
import LowPass.Cause

namespace LowPass

/-- The kinds of errors that reading, writing and opening can meet. -/
inductive IoError.Kind where
  | addressInUse
  | addressNotAvailable
  | alreadyExists
  | argumentListTooLong
  | brokenPipe
  | connectionAborted
  | connectionRefused
  | connectionReset
  | crossesDevices
  | deadlock
  | directoryNotEmpty
  | executableFileBusy
  | fileTooLarge
  | filesystemLoop
  | hostUnreachable
  | inProgress
  | interrupted
  | invalidData
  | invalidFilename
  | invalidInput
  | isADirectory
  | networkDown
  | networkUnreachable
  | notADirectory
  | notConnected
  | notFound
  | notSeekable
  | other
  | outOfMemory
  | permissionDenied
  | quotaExceeded
  | readOnlyFilesystem
  | resourceBusy
  | staleFileHandle
  | storageFull
  | timedOut
  | tooManyLinks
  | uncategorized
  | unexpectedEof
  | unsupported
  | wouldBlock
  | writeZero
  deriving DecidableEq

/-- The text of an error that is nothing but its kind. -/
def IoError.Kind.text : Kind → String
  | .addressInUse => "address in use"
  | .addressNotAvailable => "address not available"
  | .alreadyExists => "entity already exists"
  | .argumentListTooLong => "argument list too long"
  | .brokenPipe => "broken pipe"
  | .connectionAborted => "connection aborted"
  | .connectionRefused => "connection refused"
  | .connectionReset => "connection reset"
  | .crossesDevices => "cross-device link or rename"
  | .deadlock => "deadlock"
  | .directoryNotEmpty => "directory not empty"
  | .executableFileBusy => "executable file busy"
  | .fileTooLarge => "file too large"
  | .filesystemLoop => "filesystem loop or indirection limit (e.g. symlink loop)"
  | .hostUnreachable => "host unreachable"
  | .inProgress => "in progress"
  | .interrupted => "operation interrupted"
  | .invalidData => "invalid data"
  | .invalidFilename => "invalid filename"
  | .invalidInput => "invalid input parameter"
  | .isADirectory => "is a directory"
  | .networkDown => "network down"
  | .networkUnreachable => "network unreachable"
  | .notADirectory => "not a directory"
  | .notConnected => "not connected"
  | .notFound => "entity not found"
  | .notSeekable => "seek on unseekable file"
  | .other => "other error"
  | .outOfMemory => "out of memory"
  | .permissionDenied => "permission denied"
  | .quotaExceeded => "quota exceeded"
  | .readOnlyFilesystem => "read-only filesystem or storage medium"
  | .resourceBusy => "resource busy"
  | .staleFileHandle => "stale network file handle"
  | .storageFull => "no storage space"
  | .timedOut => "timed out"
  | .tooManyLinks => "too many links"
  | .uncategorized => "uncategorized error"
  | .unexpectedEof => "unexpected end of file"
  | .unsupported => "unsupported"
  | .wouldBlock => "operation would block"
  | .writeZero => "write zero"

/-- An error of input or output. -/
structure IoError where
  kind : IoError.Kind
  wrapped : Option Cause
  deriving DecidableEq

namespace IoError

/-- An error with a text but no cause. -/
def saying (kind : Kind) (text : String) : IoError := ⟨kind, some (.root text)⟩

/-- An error with messages, each due to the next; without any it is nothing but its kind. -/
def wrapping (kind : Kind) : List String → IoError
  | [] => ⟨kind, none⟩
  | first :: rest => ⟨kind, some (.ofTexts first rest)⟩

def text (e : IoError) : String :=
  match e.wrapped with
  | none => e.kind.text
  | some inner => inner.text

/-- What the error is due to: it takes the place of the error that it wraps. -/
def cause? (e : IoError) : Option Cause := e.wrapped.bind Cause.cause?

/-- A line that is no UTF-8. -/
def notText : IoError := .saying .invalidData "stream did not contain valid UTF-8"

/-- A file name with a NUL byte, which no call can pass on. -/
def nulInName : IoError := .saying .invalidInput "file name contained an unexpected NUL byte"

/-- A sink that takes nothing and gives no reason. -/
def nothingWritten : IoError := .saying .writeZero "failed to write the buffered data"

/-- The kind of the error that has a number in the operating system. -/
def Kind.ofNumber : Nat → Kind
  | 1 | 13 => .permissionDenied
  | 2 => .notFound
  | 4 => .interrupted
  | 7 => .argumentListTooLong
  | 11 => .wouldBlock
  | 12 => .outOfMemory
  | 16 => .resourceBusy
  | 17 => .alreadyExists
  | 18 => .crossesDevices
  | 20 => .notADirectory
  | 21 => .isADirectory
  | 22 => .invalidInput
  | 26 => .executableFileBusy
  | 27 => .fileTooLarge
  | 28 => .storageFull
  | 29 => .notSeekable
  | 30 => .readOnlyFilesystem
  | 31 => .tooManyLinks
  | 32 => .brokenPipe
  | 35 => .deadlock
  | 36 => .invalidFilename
  | 38 | 95 => .unsupported
  | 39 => .directoryNotEmpty
  | 40 => .filesystemLoop
  | 98 => .addressInUse
  | 99 => .addressNotAvailable
  | 100 => .networkDown
  | 101 => .networkUnreachable
  | 103 => .connectionAborted
  | 104 => .connectionReset
  | 107 => .notConnected
  | 110 => .timedOut
  | 111 => .connectionRefused
  | 113 => .hostUnreachable
  | 115 => .inProgress
  | 116 => .staleFileHandle
  | 122 => .quotaExceeded
  | _ => .uncategorized

/-- An error that the operating system numbers. -/
def numbered (number : Nat) (text : String) : IoError :=
  .saying (.ofNumber number) (text ++ " (os error " ++ toString number ++ ")")

def noSuchFile : IoError := numbered 2 "No such file or directory"
def notADirectory : IoError := numbered 20 "Not a directory"
def isADirectory : IoError := numbered 21 "Is a directory"
def noSpace : IoError := numbered 28 "No space left on device"
def nameTooLong : IoError := numbered 36 "File name too long"
def tooManyLinks : IoError := numbered 40 "Too many levels of symbolic links"

end IoError
end LowPass
