import ViewLoop.Identity
import ViewLoop.Url.Host

/-!
# Refusals of a surface

Why a surface refuses an operation.
-/

namespace ViewLoop

/-- Why a surface refuses an operation. -/
inductive SurfaceError where
  | versionMismatch (current given : Version)
  | notNextVersion (start stop : Version)
  | invalidKey (id : NodeId)
  /-- An identity that is live, or that occurs twice in what is inserted. -/
  | duplicateKey (id : NodeId)
  | missingKey (id : NodeId)
  /-- A text where an element belongs, or an element where a text belongs. -/
  | wrongNodeKind (id : NodeId)
  | invalidParent (id : NodeId)
  /-- A node that is not a child of the named parent. -/
  | invalidSibling (parent child : NodeId)
  | invalidIndex (parent : NodeId) (index length : Nat)
  | invalidReorder (parent : NodeId)
  | missingAttribute (element : NodeId) (name : String)
  | duplicateAttribute (element : NodeId) (name : String)
  | duplicateHeadKey (key : String)
  | missingHeadKey (key : String)
  | alreadyRendered
  | missingRoot
  | invalidUrl (url : String) (cause : Url.UrlError)
  deriving DecidableEq, Repr

def SurfaceError.message : SurfaceError → String
  | versionMismatch current given =>
    "surface is at " ++ current.token ++ ", batch starts at " ++ given.token
  | notNextVersion start stop =>
    "batch does not advance by one version (" ++ start.token ++ " -> " ++ stop.token ++ ")"
  | invalidKey _ => "node id must be assigned before it reaches a surface"
  | duplicateKey id => "node `" ++ id.token ++ "` is already live"
  | missingKey id => "node `" ++ id.token ++ "` is not live"
  | wrongNodeKind id => "node `" ++ id.token ++ "` has the wrong kind for this operation"
  | invalidParent id => "node `" ++ id.token ++ "` cannot be used as a parent"
  | invalidSibling parent child =>
    "node `" ++ child.token ++ "` is not a child of `" ++ parent.token ++ "`"
  | invalidIndex parent index length =>
    "index " ++ toString index ++ " is out of range for `" ++ parent.token ++ "` with "
      ++ toString length ++ " children"
  | invalidReorder parent =>
    "reorder of `" ++ parent.token ++ "` does not cover its current children"
  | missingAttribute element name =>
    "element `" ++ element.token ++ "` has no attribute `" ++ name ++ "`"
  | duplicateAttribute element name =>
    "element `" ++ element.token ++ "` already has attribute `" ++ name ++ "`"
  | duplicateHeadKey key => "head entry `" ++ key ++ "` is already present"
  | missingHeadKey key => "head entry `" ++ key ++ "` is not present"
  | alreadyRendered => "surface already holds a rendered tree"
  | missingRoot => "surface has no rendered tree"
  | invalidUrl url cause => "invalid url `" ++ url ++ "`: " ++ cause.message

end ViewLoop
