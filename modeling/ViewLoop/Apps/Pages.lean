import ViewLoop.Session.Loop

/-!
# An application made of pages

An application that is data: named pages that it switches between, a log of what has happened,
and messages that spell out what is to be done. Titles and texts of a page have places for the
length of the log and for its last entry.

Everything that a program can ask of the loop can be asked by a message of this one: navigation,
effects that report back at once or later, effects that fail, and effects that keep their context
until it is released.
-/

namespace ViewLoop.Pages

/-! ### Messages and effects -/

/-- How an effect breaks off. -/
inductive Crash where
  | text (reason : String)
  | fixed
  | wordless
  deriving DecidableEq, Repr

mutual

inductive Message where
  | say (text : String)
  | visit (page : String)
  | run (command : Command Task)
  | loop (count : Nat)
  | url (address : String)
  | failed (reason : String)
  | got (tag text : String)

inductive Task where
  | send (messages : List Message)
  /-- Gives up the context and sends messages through a sender of its own. -/
  | relay (messages : List Message)
  | later (messages : List Message)
  | fail (reason : String)
  | disconnect
  | crash (how : Crash)
  | hold (name : String)
  /-- Sends messages through a context kept before, and gives it up. -/
  | release (name : String) (messages : List Message)

end

deriving instance Repr for Message

instance : Inhabited Message := ⟨.say ""⟩

instance : Inhabited Task := ⟨.disconnect⟩

mutual

def Message.decEq : (a b : Message) → Decidable (a = b)
  | .say s, .say t => decidable_of_decidable_of_iff (p := s = t) (by simp)
  | .visit s, .visit t => decidable_of_decidable_of_iff (p := s = t) (by simp)
  | .run c, .run d =>
    match commandDecEq c d with
    | isTrue h => isTrue (by rw [h])
    | isFalse h => isFalse (by simp [h])
  | .loop m, .loop n => decidable_of_decidable_of_iff (p := m = n) (by simp)
  | .url s, .url t => decidable_of_decidable_of_iff (p := s = t) (by simp)
  | .failed s, .failed t => decidable_of_decidable_of_iff (p := s = t) (by simp)
  | .got s t, .got u v => decidable_of_decidable_of_iff (p := s = u ∧ t = v) (by simp)
  | .say _, .visit _ | .say _, .run _ | .say _, .loop _ | .say _, .url _ | .say _, .failed _
  | .say _, .got .. | .visit _, .say _ | .visit _, .run _ | .visit _, .loop _
  | .visit _, .url _ | .visit _, .failed _ | .visit _, .got .. | .run _, .say _
  | .run _, .visit _ | .run _, .loop _ | .run _, .url _ | .run _, .failed _ | .run _, .got ..
  | .loop _, .say _ | .loop _, .visit _ | .loop _, .run _ | .loop _, .url _
  | .loop _, .failed _ | .loop _, .got .. | .url _, .say _ | .url _, .visit _
  | .url _, .run _ | .url _, .loop _ | .url _, .failed _ | .url _, .got ..
  | .failed _, .say _ | .failed _, .visit _ | .failed _, .run _ | .failed _, .loop _
  | .failed _, .url _ | .failed _, .got .. | .got .., .say _ | .got .., .visit _
  | .got .., .run _ | .got .., .loop _ | .got .., .url _ | .got .., .failed _ => isFalse nofun

def Task.decEq : (a b : Task) → Decidable (a = b)
  | .send as, .send bs =>
    match messagesDecEq as bs with
    | isTrue h => isTrue (by rw [h])
    | isFalse h => isFalse (by simp [h])
  | .relay as, .relay bs =>
    match messagesDecEq as bs with
    | isTrue h => isTrue (by rw [h])
    | isFalse h => isFalse (by simp [h])
  | .later as, .later bs =>
    match messagesDecEq as bs with
    | isTrue h => isTrue (by rw [h])
    | isFalse h => isFalse (by simp [h])
  | .fail s, .fail t => decidable_of_decidable_of_iff (p := s = t) (by simp)
  | .disconnect, .disconnect => isTrue rfl
  | .crash s, .crash t => decidable_of_decidable_of_iff (p := s = t) (by simp)
  | .hold s, .hold t => decidable_of_decidable_of_iff (p := s = t) (by simp)
  | .release s as, .release t bs =>
    match messagesDecEq as bs with
    | isTrue h => decidable_of_decidable_of_iff (p := s = t) (by simp [h])
    | isFalse h => isFalse (by simp [h])
  | .send _, .relay _ | .send _, .later _ | .send _, .fail _ | .send _, .disconnect
  | .send _, .crash _ | .send _, .hold _ | .send _, .release .. | .relay _, .send _
  | .relay _, .later _ | .relay _, .fail _ | .relay _, .disconnect | .relay _, .crash _
  | .relay _, .hold _ | .relay _, .release .. | .later _, .send _ | .later _, .relay _
  | .later _, .fail _ | .later _, .disconnect | .later _, .crash _ | .later _, .hold _
  | .later _, .release .. | .fail _, .send _ | .fail _, .relay _ | .fail _, .later _
  | .fail _, .disconnect | .fail _, .crash _ | .fail _, .hold _ | .fail _, .release ..
  | .disconnect, .send _ | .disconnect, .relay _ | .disconnect, .later _
  | .disconnect, .fail _ | .disconnect, .crash _ | .disconnect, .hold _
  | .disconnect, .release .. | .crash _, .send _ | .crash _, .relay _ | .crash _, .later _
  | .crash _, .fail _ | .crash _, .disconnect | .crash _, .hold _ | .crash _, .release ..
  | .hold _, .send _ | .hold _, .relay _ | .hold _, .later _ | .hold _, .fail _
  | .hold _, .disconnect | .hold _, .crash _ | .hold _, .release .. | .release .., .send _
  | .release .., .relay _ | .release .., .later _ | .release .., .fail _
  | .release .., .disconnect | .release .., .crash _ | .release .., .hold _ => isFalse nofun

def messagesDecEq : (as bs : List Message) → Decidable (as = bs)
  | [], [] => isTrue rfl
  | a :: as, b :: bs =>
    match Message.decEq a b, messagesDecEq as bs with
    | isTrue h, isTrue k => isTrue (by rw [h, k])
    | isFalse h, _ => isFalse (by simp [h])
    | _, isFalse k => isFalse (by simp [k])
  | [], _ :: _ => isFalse nofun
  | _ :: _, [] => isFalse nofun

def commandDecEq : (a b : Command Task) → Decidable (a = b)
  | .none, .none => isTrue rfl
  | .batch as, .batch bs =>
    match commandsDecEq as bs with
    | isTrue h => isTrue (by rw [h])
    | isFalse h => isFalse (by simp [h])
  | .pushUrl u, .pushUrl v => decidable_of_decidable_of_iff (p := u = v) (by simp)
  | .replaceUrl u, .replaceUrl v => decidable_of_decidable_of_iff (p := u = v) (by simp)
  | .loadUrl u, .loadUrl v => decidable_of_decidable_of_iff (p := u = v) (by simp)
  | .effect a, .effect b =>
    match Task.decEq a b with
    | isTrue h => isTrue (by rw [h])
    | isFalse h => isFalse (by simp [h])
  | .none, .batch _ | .none, .pushUrl _ | .none, .replaceUrl _ | .none, .loadUrl _
  | .none, .effect _ | .batch _, .none | .batch _, .pushUrl _ | .batch _, .replaceUrl _
  | .batch _, .loadUrl _ | .batch _, .effect _ | .pushUrl _, .none | .pushUrl _, .batch _
  | .pushUrl _, .replaceUrl _ | .pushUrl _, .loadUrl _ | .pushUrl _, .effect _
  | .replaceUrl _, .none | .replaceUrl _, .batch _ | .replaceUrl _, .pushUrl _
  | .replaceUrl _, .loadUrl _ | .replaceUrl _, .effect _ | .loadUrl _, .none
  | .loadUrl _, .batch _ | .loadUrl _, .pushUrl _ | .loadUrl _, .replaceUrl _
  | .loadUrl _, .effect _ | .effect _, .none | .effect _, .batch _ | .effect _, .pushUrl _
  | .effect _, .replaceUrl _ | .effect _, .loadUrl _ => isFalse nofun

def commandsDecEq : (as bs : List (Command Task)) → Decidable (as = bs)
  | [], [] => isTrue rfl
  | a :: as, b :: bs =>
    match commandDecEq a b, commandsDecEq as bs with
    | isTrue h, isTrue k => isTrue (by rw [h, k])
    | isFalse h, _ => isFalse (by simp [h])
    | _, isFalse k => isFalse (by simp [k])
  | [], _ :: _ => isFalse nofun
  | _ :: _, [] => isFalse nofun

end

instance : DecidableEq Message := Message.decEq

/-! ### Decoders -/

inductive Form where
  | text
  /-- A text, of which the message holds the letters of ASCII as capitals. -/
  | capitals
  | integer
  | byte
  | flag
  /-- A text in the field `name` of the records called `title`. -/
  | field (title name : String)
  | list
  | optional
  deriving DecidableEq, Repr

/-- A decoder: the form it reads, what messages call that form, and the tag of its messages. -/
structure Decoder where
  form : Form
  label : String
  tag : String
  deriving DecidableEq, Repr

def Form.read : Form → Value.Reader String
  | text, v => Value.asText v
  | capitals, v => (Value.asText v).map fun s => s.map Char.toUpper
  | integer, v => (Value.asInt64 v).map toString
  | byte, v => (Value.asByte v).map toString
  | flag, v => (Value.asFlag v).map toString
  | field title name, v => Value.asField title name Value.asText v
  | list, v => (Value.asList Value.asText v).map (",".intercalate ·)
  | optional, v => (Value.asOptional Value.asText v).map fun s => s.getD "-"

instance : Decodes Decoder Message where
  shape d := d.label
  decode d v := (d.form.read v).map (.got d.tag ·)

/-! ### Pages -/

abbrev Reply := Response Decoder Message

/-- A page, with places in its title and texts that are still to be filled. -/
structure Page where
  title : String
  head : List HeadEntry := []
  body : Node Reply

structure Model where
  page : String
  log : List String
  deriving DecidableEq, Repr

/-- A text in which `value` stands for every `name`; the first `skip` characters are part of a
name that was replaced. -/
def substitute (name value : List Char) : (skip : Nat) → List Char → List Char
  | _, [] => []
  | skip + 1, _ :: cs => substitute name value skip cs
  | 0, c :: cs =>
    if name.isPrefixOf (c :: cs) then value ++ substitute name value (name.length - 1) cs
    else c :: substitute name value 0 cs

/-- A text in which a value stands for every place of the given name. -/
def fillPlace (name value s : String) : String :=
  String.ofList (substitute ('\x7b' :: name.toList ++ ['\x7d']) value.toList 0 s.toList)

/-- A text with its places filled: first those for the length of the log, then those for its last
entry. -/
def fill (log : List String) (s : String) : String :=
  fillPlace "last" (log.head?.getD "") (fillPlace "n" (toString log.length) s)

mutual

def mapTexts {P : Type} (f : String → String) : Node P → Node P
  | .element id tag attributes children =>
    .element id tag attributes (mapForestTexts f children)
  | .text id s => .text id (f s)

def mapForestTexts {P : Type} (f : String → String) : List (Node P) → List (Node P)
  | [] => []
  | c :: cs => mapTexts f c :: mapForestTexts f cs

end

def Page.document (log : List String) (p : Page) : Document Reply :=
  { title := fill log p.title, head := p.head, body := mapTexts (fill log) p.body }

def Page.blank : Page := { title := "", body := .text .unassigned "" }

/-! ### The program -/

structure Opening where
  page : String
  command : Command Task := .none

def Model.record (m : Model) (entry : String) : Model := { m with log := entry :: m.log }

def update (pages : List (String × Page)) (message : Message) (m : Model) :
    Model × Command Task :=
  match message with
  | .say text => (m.record ("say " ++ text), .none)
  | .visit page =>
    match pages.lookup page with
    | some _ => ({ m with page }, .none)
    | none => (m.record ("no page " ++ page), .none)
  | .run command => (m, command)
  | .loop count =>
    (m.record ("loop " ++ toString count),
      if count = 0 then .none else .effect (.send [.loop (count - 1)]))
  | .url address => (m.record ("url " ++ address), .none)
  | .failed reason => (m.record ("failed " ++ reason), .none)
  | .got tag text => (m.record ("got " ++ tag ++ " " ++ text), .none)

def Crash.error : Crash → CommandError
  | text reason => .panicked reason
  | fixed => .panicked "static panic"
  | wordless => .unspoken

/-- Runs an effect; `held` are the names under which contexts are kept. -/
def execute : Executor Task Message (List String)
  | .send messages, held => { state := held, sent := messages }
  | .relay messages, held => { state := held, sent := messages }
  | .later messages, held => { state := held, started := [messages] }
  | .fail reason, held => { state := held, failure := some (.failed reason) }
  | .disconnect, held => { state := held, failure := some .disconnected }
  | .crash how, held => { state := held, failure := some how.error }
  | .hold name, held =>
    { state := name :: held.erase name
      retained := true
      released := if name ∈ held then 1 else 0 }
  | .release name messages, held =>
    if name ∈ held then { state := held.erase name, sent := messages, released := 1 }
    else { state := held, failure := some (.failed ("nothing held: " ++ name)) }

/-- The application with the given pages; it can do without an executor. -/
def program (pages : List (String × Page)) (withExecutor : Bool) :
    Program Opening Model Message Decoder Task (List String) where
  init opening url := (⟨opening.page, ["init " ++ url.text]⟩, opening.command)
  update := update pages
  view m := ((pages.lookup m.page).getD .blank).document m.log
  urlChanged url := .url url.text
  effectFailed cause := .failed cause.message
  execute := if withExecutor then some execute else none

abbrev Session := ViewLoop.Session Model Message Decoder (List String)

/-- Sends messages through a context that is kept under a name, and gives it up. Each message has
its own answer: the mailbox may be closed. -/
def release (name : String) (messages : List Message) (s : Session) :
    Option (List (Except CommandError Unit)) × Session :=
  if name ∈ s.executor then
    (some (messages.map fun _ => if s.mailbox.isOpen then .ok () else .error .disconnected),
      { s with
        executor := s.executor.erase name
        mailbox := (s.mailbox.sendAll messages).dropContext })
  else (none, s)

end ViewLoop.Pages
