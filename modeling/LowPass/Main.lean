/-
The program: what `LowPass.Invocation` says of a call, done with the files, the
environment and the streams of the process.
-/
import LowPass.CommandLine.Invocation
import LowPass.Log.Json

namespace LowPass

/-- The error that a call to the system has ended with. -/
def IoError.ofSystem : IO.Error → IoError
  | .unexpectedEof => ⟨.unexpectedEof, none⟩
  | .userError text => .saying .other text
  | .alreadyExists _ number text | .otherError number text | .resourceBusy number text
  | .resourceVanished number text | .unsupportedOperation number text
  | .hardwareFault number text | .unsatisfiedConstraints number text
  | .illegalOperation number text | .protocolError number text | .timeExpired number text
  | .interrupted _ number text | .noFileOrDirectory _ number text
  | .invalidArgument _ number text | .permissionDenied _ number text
  | .resourceExhausted _ number text | .inappropriateType _ number text
  | .noSuchThing _ number text => .numbered number.toNat text

/-- Calls the system and catches its error. -/
def attempt {α : Type} (call : IO α) : IO (Except IoError α) := do
  match ← call.toBaseIO with
  | .ok a => return .ok a
  | .error e => return .error (.ofSystem e)

/-- Opens a file by its path, which has to be text. -/
def openFile (path : Bytes) (mode : IO.FS.Mode) : IO (Except IoError IO.FS.Handle) :=
  match path.text? with
  | some name => attempt (IO.FS.Handle.mk name mode)
  | none => return .error ⟨.invalidFilename, none⟩

/-- All that a file still brings, up to its end or an error. -/
partial def arrivalsFrom (h : IO.FS.Handle) : IO (List Arrival) := do
  match ← attempt (h.read 8192) with
  | .error e => return [.error e]
  | .ok bs =>
    if bs.isEmpty then return []
    return Arrival.together bs.toList (← arrivalsFrom h)

/-- The files of the process. What can be opened with `/.` after its name is a
directory. An error of the real file is reported as that of a sink is, in the
place of any outcome. -/
def systemFiles : Host IO where
  File := IO.FS.Handle
  openInput path := do
    match ← openFile path .read with
    | .error e => return .error (.unopened e)
    | .ok h =>
      match ← openFile (path ++ [slash, 0x2E]) .read with
      | .ok _ => return .error .directory
      | .error _ => return .ok h
  create path := openFile path .write
  smooth input output := do
    let (outcome, sink) := LowPass.smooth (← arrivalsFrom input) {}
    match ← attempt (do output.write ⟨sink.taken⟩; output.flush) with
    | .ok () => return outcome
    | .error e => return .error (.io e)

/-- The arguments of the process, as the system keeps them: each with a NUL
after it. -/
def rawArguments (bs : Bytes) : List Bytes :=
  match bs with
  | [] => []
  | b :: rest =>
    (b :: rest).takeWhile (· ≠ 0) :: rawArguments (((b :: rest).dropWhile (· ≠ 0)).drop 1)
termination_by bs.length
decreasing_by
  have := (List.dropWhile_sublist (l := b :: rest) (· ≠ 0)).length_le
  simp only [List.length_drop, List.length_cons] at *
  omega

/-- The variables that the program looks at. -/
def readEnvironment : IO Variables := do
  let names := [Variables.logName, "CLICOLOR_FORCE", "NO_COLOR", "CLICOLOR"]
  let pairs ← names.mapM fun name => do
    return (← IO.getEnv name).map fun value => (name, Bytes.ofText value)
  return ⟨pairs.filterMap id⟩

end LowPass

open LowPass in
def main (args : List String) : IO UInt32 := do
  let known := (programName :: args).map Bytes.ofText
  let raw ← (IO.FS.readBinFile "/proc/self/cmdline").toBaseIO
  let call : Invocation :=
    { args := match raw with
        | .ok bs => rawArguments bs.toList
        | .error _ => known
      environment := ← readEnvironment
      terminal := ← (← IO.getStdout).isTty }
  let report ← call.run systemFiles
  IO.print report.printed
  for event in report.events do
    IO.eprintln event.record
  return .ofNat report.status
