import ViewLoop.Url.Host

/-!
# Addresses

An address taken apart: scheme, user, host, port, path, query and fragment, each in the form in
which it is written. `Url.text` puts the parts together again.
-/

namespace ViewLoop

namespace Url

inductive Path where
  | flat (text : String)
  | segments (names : List String)
  deriving DecidableEq, Repr

def Path.text : Path → String
  | flat s => s
  | segments names => (names.map ("/" ++ ·)).foldr (· ++ ·) ""

end Url

structure Url where
  scheme : String
  username : String := ""
  password : String := ""
  /-- The host; an address without one has no two slashes after its scheme. -/
  host : Option Url.Host := none
  /-- The port, unless it is the one that the scheme has anyway. -/
  port : Option Nat := none
  path : Url.Path
  query : Option String := none
  fragment : Option String := none
  deriving DecidableEq, Repr

namespace Url

/-- Whether the address has a path without hierarchy, so that nothing can be relative to it. -/
def isOpaque (u : Url) : Bool :=
  match u.path with
  | .flat _ => true
  | .segments _ => false

def userText (u : Url) : String :=
  if u.username = "" ∧ u.password = "" then ""
  else if u.password = "" then u.username ++ "@"
  else u.username ++ ":" ++ u.password ++ "@"

/-- What stands between the scheme and the path. A path that would look like a host gets a dot
before it. -/
def authorityText (u : Url) : String :=
  match u.host with
  | some h =>
    let port := match u.port with
      | some p => ":" ++ toString p
      | none => ""
    "//" ++ u.userText ++ h.text ++ port
  | none =>
    match u.path with
    | .segments ("" :: _ :: _) => "/."
    | _ => ""

def pathText (u : Url) : String := u.path.text

def marked (mark : String) : Option String → String
  | some s => mark ++ s
  | none => ""

def text (u : Url) : String :=
  u.scheme ++ ":" ++ u.authorityText ++ u.pathText ++ marked "?" u.query ++ marked "#" u.fragment

end Url

end ViewLoop
