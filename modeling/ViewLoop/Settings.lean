import ViewLoop.Settings.Source
import ViewLoop.Url.Parse

/-!
# Settings

What can be set about a running program, and how the settings are read. Every setting has a
default, so an empty document is valid; an unknown name, a value of the wrong kind and a value out
of range are refused.
-/

namespace ViewLoop

structure Settings where
  startUrl : String := "http://localhost/"
  pollInterval : Nat := 5
  maxMessages : Nat := 10000
  tracePatches : Bool := false
  deriving DecidableEq, Repr

inductive ReadFailure where
  | notFound
  | isDirectory
  | notDirectory
  | nameTooLong
  | embeddedNul
  deriving DecidableEq, Repr

def ReadFailure.message : ReadFailure → String
  | notFound => "No such file or directory (os error 2)"
  | isDirectory => "Is a directory (os error 21)"
  | notDirectory => "Not a directory (os error 20)"
  | nameTooLong => "File name too long (os error 36)"
  | embeddedNul => "file name contained an unexpected NUL byte"

/-- What reading a path comes to where there are no files: a path without names leads to a
directory, and any other to nothing. A name has at most 255 bytes and a path at most 4095. -/
def ReadFailure.ofMissing (path : String) : ReadFailure :=
  let names := (path.splitOn "/").filter fun name => name ≠ "" ∧ name ≠ "." ∧ name ≠ ".."
  if '\x00' ∈ path.toList then embeddedNul
  else if path.utf8ByteSize > 4095 then nameTooLong
  else if path ≠ "" ∧ names = [] then isDirectory
  else if names.head?.any fun name => name.utf8ByteSize > 255 then nameTooLong
  else notFound

namespace Settings

inductive Invalid where
  | noMessages
  | noInterval
  | startUrl (given : String) (cause : Url.UrlError)
  deriving DecidableEq, Repr

inductive Error where
  | unreadable (path : String) (cause : ReadFailure)
  | malformed
  | invalid (cause : Invalid)
  deriving DecidableEq, Repr

def Invalid.message : Invalid → String
  | noMessages => "max_messages must be at least 1"
  | noInterval => "poll_interval_ms must be at least 1"
  | startUrl given cause => "start_url '" ++ given ++ "': " ++ cause.message

/-- The text of an error; what is wrong with a malformed document is not said. -/
def Error.message : Error → String
  | unreadable path cause => "failed to read config file '" ++ path ++ "': " ++ cause.message
  | malformed => "failed to parse runtime config"
  | invalid cause => "invalid runtime config: " ++ cause.message

def start (s : Settings) : Except Error Url :=
  match Url.parse s.startUrl with
  | .ok u => .ok u
  | .error cause => .error (.invalid (.startUrl s.startUrl cause))

def isUnsigned64 (n : Int) : Bool := 0 ≤ n && n < 0x10000000000000000

def set (s : Settings) : String × Scalar → Except Error Settings
  | ("start_url", .text u) => .ok { s with startUrl := u }
  | ("poll_interval_ms", .integer n) =>
    if isUnsigned64 n then .ok { s with pollInterval := n.toNat } else .error .malformed
  | ("max_messages", .integer n) =>
    if isUnsigned64 n then .ok { s with maxMessages := n.toNat } else .error .malformed
  | ("trace_patches", .flag b) => .ok { s with tracePatches := b }
  | _ => .error .malformed

def validate (s : Settings) : Except Error Settings :=
  if s.maxMessages = 0 then .error (.invalid .noMessages)
  else if s.pollInterval = 0 then .error (.invalid .noInterval)
  else s.start.map fun _ => s

def ofSource (document : String) : Except Error Settings :=
  match source? document with
  | none => .error .malformed
  | some pairs => (pairs.foldlM set {}).bind validate

/-- Reads settings from a file, given what reading it came to. -/
def ofFile (path : String) (contents : Except ReadFailure String) : Except Error Settings :=
  match contents with
  | .ok document => ofSource document
  | .error cause => .error (.unreadable path cause)

end Settings

end ViewLoop
