import ViewLoop.Session.Loop

/-!
# A small site with a sign-in

A site with a navigation bar: signing in asks a worker in the background who the user is and then
goes to that user's profile; signing out goes back to the start. `SignIn.tour` clicks through the
site and reports what it shows.
-/

namespace ViewLoop.SignIn

inductive Message where
  | signIn
  | signedIn (user : String)
  | signOut
  | urlChanged (path : String)
  | failed (reason : String)
  deriving DecidableEq, Repr

inductive Effect where
  | authenticate
  deriving DecidableEq, Repr

structure Model where
  user : Option String := none
  pending : Bool := false
  path : String
  errors : List String := []
  deriving DecidableEq, Repr

def update : Message → Model → Model × Command Effect
  | .signIn, m => ({ m with user := none, pending := true }, .effect .authenticate)
  | .signedIn user, m =>
    ({ m with user := some user, pending := false }, .pushUrl ("/profile/" ++ user))
  | .signOut, m => ({ m with user := none, pending := false }, .replaceUrl "/")
  | .urlChanged path, m => ({ m with path }, .none)
  | .failed reason, m => ({ m with pending := false, errors := m.errors ++ [reason] }, .none)

abbrev Reply := Response Empty Message

def navItem (key label : String) (onClick : Option Message) : Node Reply :=
  .element (.keyed key) "li"
    (.plain "class" "nav-item"
      :: onClick.toList.map fun m => .handler ⟨"click", .invalid, .message m⟩)
    [.text (.keyed (key ++ "-label")) label]

def userItems (m : Model) : List (Node Reply) :=
  match m.user with
  | some user =>
    [navItem ("nav-profile-" ++ user) user none, navItem "nav-sign-out" "Sign out" (some .signOut)]
  | none =>
    if m.pending then [navItem "nav-pending" "Signing in" none]
    else [navItem "nav-sign-in" "Sign in" (some .signIn)]

def view (m : Model) : Document Reply :=
  { title := match m.user with
      | some user => user ++ " | Demo"
      | none => "Demo"
    head := [.metadata "description" "MVU demo", .link "canonical" m.path]
    body := .element (.keyed "app") "div" []
      [.element (.keyed "nav") "ul" [] (navItem "nav-home" "Home" none :: userItems m),
        .text (.keyed "path") ("at " ++ m.path)] }

/-- Runs the effect: a worker reports the user. -/
def execute : Executor Effect Message Unit
  | .authenticate, () => { state := (), started := [[.signedIn "jake"]] }

def program : Program Unit Model Message Empty Effect Unit where
  init _ url := ({ path := url.pathText }, .none)
  update := update
  view := view
  urlChanged url := .urlChanged url.pathText
  effectFailed cause := .failed cause.message
  execute := some execute

/-! ### The tour -/

/-- What the tour does and finds out: a session of the site, and what is to be printed. -/
abbrev Tour (α : Type) := EStateM LoopError (Session Model Message Empty Unit) α

def click (key : String) : Tour Unit :=
  modify fun s =>
    match s.scene.surface.listener? (.keyed key) "click" with
    | some handler => (s.deliver handler none).2
    | none => s

def page : Tour String := do
  match (← get).scene.surface.documentHtml with
  | .ok html => return html
  | .error cause => throw (.surface cause)

/-- Clicks on the element of a key, waits until the site is at rest, and returns the page. -/
def visit (key : String) : Tour String := do
  click key
  let _ ← Session.quiesce program
  page

inductive Failure where
  | settings (cause : Settings.Error)
  | loop (cause : LoopError)
  deriving DecidableEq, Repr

def Failure.message : Failure → String
  | settings cause => cause.message
  | loop cause => cause.message

/-- What a tour prints, and why it ended early if it did. -/
structure Report where
  printed : List String
  failure : Option Failure
  deriving DecidableEq, Repr

/-- What is printed at the end: the page, and where the site has been. -/
def summary (html : String) (surface : Surface) : List String :=
  html :: surface.history.map fun u => "history: " ++ u.text

/-- Signs in and out, with given settings, from an address. -/
def tourFrom (settings : Settings) (start : Url) : Report :=
  match (do Session.start program (); visit "nav-sign-in" : Tour String).run
      (Session.fresh settings start ()) with
  | .error cause _ => ⟨[], some (.loop cause)⟩
  | .ok first s =>
    match (visit "nav-sign-out").run s with
    | .error cause _ => ⟨[first], some (.loop cause)⟩
    | .ok last s => ⟨first :: summary last s.scene.surface, none⟩

def tour (settings : Except Settings.Error Settings) : Report :=
  match settings with
  | .error cause => ⟨[], some (.settings cause)⟩
  | .ok settings =>
    match settings.start with
    | .error cause => ⟨[], some (.settings cause)⟩
    | .ok start => tourFrom settings start

end ViewLoop.SignIn
