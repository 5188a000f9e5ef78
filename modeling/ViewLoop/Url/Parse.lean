import ViewLoop.Url.Basic

/-!
# Reading addresses

`Url.parse` reads an absolute address and `Url.join` one that may be relative to another. Spaces
and controls around the text and tabs and line breaks inside it do not count.

Special schemes always have a host and a path, take a backslash for a slash, and have ports that
need not be said. Files may have an empty host, and the first segment of their path may be a
drive letter. Two dots never leave a segment that looks like one. A tab or line break right after
such a letter, in the middle of the first segment of a file's path, ends the drive.
-/

namespace ViewLoop.Url

/-! ### Schemes -/

/-- The three kinds of schemes. -/
inductive SchemeKind where
  | file
  | special
  | plain
  deriving DecidableEq, Repr

def defaultPort (scheme : String) : Option Nat :=
  if scheme = "http" ∨ scheme = "ws" then some 80
  else if scheme = "https" ∨ scheme = "wss" then some 443
  else if scheme = "ftp" then some 21
  else none

def SchemeKind.of (scheme : String) : SchemeKind :=
  if scheme = "file" then file
  else if (defaultPort scheme).isSome then special
  else plain

def SchemeKind.isSlash (k : SchemeKind) (c : Char) : Bool := c == '/' || (c == '\\' && k != plain)

def isAnySlash (c : Char) : Bool := c == '/' || c == '\\'

def SchemeKind.endsHost (k : SchemeKind) (c : Char) : Bool :=
  k.isSlash c || c == '?' || c == '#'

def inScheme (c : Char) : Bool := c.isAlphanum || c == '+' || c == '-' || c == '.'

def splitScheme (cs : List Char) : Option (String × List Char) :=
  match cs with
  | [] => none
  | c :: _ =>
    let front := cs.takeWhile inScheme
    match cs.dropWhile inScheme with
    | ':' :: rest =>
      if c.isAlpha then some (String.ofList (front.map Char.toLower), rest) else none
    | _ => none

/-! ### Breaks -/

/-- Whether a character is a tab or a line break. -/
def isBreak (c : Char) : Bool := c == '\t' || c == '\n' || c == '\r'

def unbroken (cs : List Char) : List Char := cs.filter fun c => !isBreak c

def startsTail (c : Char) : Bool := c == '?' || c == '#'

/-- Whether a text, last character first, ends with the letter and the colon of a drive that start
a segment or follow a scheme. -/
def endsWithDrive : List Char → Bool
  | ':' :: c :: before =>
    c.isAlpha && (before.head?.map fun d => isAnySlash d || d == ':').getD true
  | _ => false

def goesOn (cs : List Char) : Bool :=
  ((cs.dropWhile isBreak).head?.map fun c => !isAnySlash c && !startsTail c).getD false

/-- A text without its tabs and line breaks, but for one of them, as a line feed, between a drive
and the rest of its segment. The text before is given last character first. -/
def breakDrives (before : List Char) : List Char → List Char
  | [] => []
  | c :: rest =>
    if !isBreak c then c :: breakDrives (c :: before) rest
    else if endsWithDrive before && goesOn rest then '\n' :: breakDrives ('\n' :: before) rest
    else breakDrives before rest

/-- A text without the controls and spaces around it, whose tabs and line breaks are left out
where they do not end a drive. -/
def significant (s : String) : List Char :=
  let isBlank (c : Char) : Bool := c.toNat ≤ 0x20
  breakDrives [] ((s.toList.dropWhile isBlank).reverse.dropWhile isBlank).reverse

/-! ### Queries and fragments -/

/-- The parts of a text before its query, of its query, and of its fragment. -/
structure Tail where
  query : Option String
  fragment : Option String

/-- Reads the query and fragment at the start of a text; no breaks count there. -/
def Tail.read (k : SchemeKind) (cs : List Char) : Tail :=
  let set := if k = .plain then querySet else specialQuerySet
  let fragment (cs : List Char) : Option String :=
    match cs with
    | '#' :: rest => some (String.ofList (percentEncode fragmentSet rest))
    | _ => none
  match unbroken cs with
  | '?' :: rest =>
    ⟨some (String.ofList (percentEncode set (rest.takeWhile (· ≠ '#')))),
      fragment (rest.dropWhile (· ≠ '#'))⟩
  | cs => ⟨none, fragment cs⟩

def withTail (u : Url) (t : Tail) : Url := { u with query := t.query, fragment := t.fragment }

/-! ### Paths -/

/-- Whether a segment stands for the one it is in. -/
def isSingleDot (s : String) : Bool := [".", "%2e", "%2E"].contains s

/-- Whether a segment stands for the one above. -/
def isDoubleDot (s : String) : Bool :=
  ["..", "%2e%2e", "%2e%2E", "%2E%2e", "%2E%2E", "%2e.", "%2E.", ".%2e", ".%2E"].contains s

/-- Whether a text is a drive letter with a colon or a bar. -/
def isDriveLetter : List Char → Bool
  | [c, d] => c.isAlpha && (d == ':' || d == '|')
  | _ => false

def isNormalDriveLetter (s : String) : Bool :=
  match s.toList with
  | [c, ':'] => c.isAlpha
  | _ => false

/-- Whether a text starts with a drive letter that is a whole segment. -/
def startsWithDriveLetter : List Char → Bool
  | c :: d :: rest =>
    isDriveLetter [c, d] &&
      match rest with
      | [] => true
      | e :: _ => isAnySlash e || startsTail e
  | _ => false

/-- The path above. No path leaves a drive letter. -/
def shorten (path : List String) : List String :=
  match path.getLast? with
  | some s => if isDriveLetter s.toList then path else path.dropLast
  | none => []

/-- The name that a segment spells; no breaks count in it. -/
def nameOf (segment : List Char) : String :=
  String.ofList (percentEncode pathSet (unbroken segment))

/-- Goes one segment further along a path. The last segment, which no slash follows, leaves an
empty name where it only moves. The first segment of a file's path may be a drive letter, which
then has a colon. If a break stands after the letter and its colon, the rest of the segment is a
name, which does not move even if it is dots. -/
def step (k : SchemeKind) (path : List String) (segment : List Char) (last : Bool) : List String :=
  let s := nameOf segment
  if isDoubleDot s then
    if last then shorten path ++ [""] else shorten path
  else if isSingleDot s then
    if last then path ++ [""] else path
  else if k = .file ∧ path = [] then
    match segment with
    | c :: ':' :: '\n' :: rest => [String.ofList [c, ':'], nameOf rest]
    | segment => [if isDriveLetter segment then String.ofList (segment.take 1 ++ [':']) else s]
  else path ++ [s]

/-- Goes along the segments of a text, from a path on. -/
def walk (k : SchemeKind) (path : List String) : List (List Char) → List String
  | [] => path
  | s :: rest => walk k (step k path s rest.isEmpty) rest

/-- Whether the segments of a text lead from a path of a file to a drive that is a whole segment,
which is not so where a break ends the drive. -/
def entersDrive (path : List String) : List (List Char) → Bool
  | [] => false
  | s :: rest =>
    (path.isEmpty && isDriveLetter s) || entersDrive (step .file path s rest.isEmpty) rest

/-- A path without the empty names at its start, of which a last one stays. -/
def dropEmptyNames : List String → List String
  | "" :: s :: rest => dropEmptyNames (s :: rest)
  | path => path

def splitSegments (k : SchemeKind) (cs : List Char) : List (List Char) :=
  (cs.takeWhile fun c => !startsTail c).splitOnP k.isSlash

/-- The path that a text without its first slash leads to from `path`. -/
def extend (k : SchemeKind) (path : List String) (cs : List Char) : List String :=
  let walked := walk k path (splitSegments k cs)
  if k = .file then dropEmptyNames walked else walked

/-- The path that a text leads to from the place of a file. The last name of the place gives way
to the text, unless it is a drive letter with a colon: then the text goes on after it, as a
segment of its own if the drive is the whole place, and else within the same name, where two dots
change nothing. -/
def extendFile (place : List String) (cs : List Char) : List String :=
  match place.getLast? with
  | some drive =>
    if !isNormalDriveLetter drive then extend .file place.dropLast cs
    else
      match place, splitSegments .file cs with
      | _ :: _ :: _, first :: rest =>
        let s := nameOf first
        if isDoubleDot s then dropEmptyNames (walk .file place rest)
        else if isSingleDot s then extend .file place cs
        else dropEmptyNames (walk .file place.dropLast ((drive.toList ++ first) :: rest))
      | place, _ => extend .file place cs
  | none => extend .file [] cs

def afterPath (k : SchemeKind) (cs : List Char) : Tail :=
  Tail.read k (cs.dropWhile fun c => !startsTail c)

def segments (u : Url) : List String :=
  match u.path with
  | .segments names => names
  | .flat _ => []

def withPath (u : Url) (k : SchemeKind) (path : List String) (cs : List Char) : Url :=
  withTail { u with path := .segments (extend k path cs) } (afterPath k cs)

/-- The path right after a host: a text that does not start with a slash is its first segment,
and schemes that are not special may have none. -/
def withPathAfterHost (u : Url) (k : SchemeKind) (cs : List Char) : Url :=
  match cs with
  | [] =>
    { u with path := .segments (if k = .plain then [] else [""]), query := none, fragment := none }
  | c :: rest =>
    if k.isSlash c then u.withPath k [] rest
    else if k = .plain ∧ startsTail c then withTail { u with path := .segments [] } (Tail.read k cs)
    else u.withPath k [] cs

/-! ### Hosts -/

structure Userinfo where
  username : String := ""
  password : String := ""
  rest : List Char

def Userinfo.isGiven (u : Userinfo) : Bool := u.username != "" || u.password != ""

/-- Reads the user and password before the last at sign of an authority. -/
def Userinfo.read (k : SchemeKind) (cs : List Char) : Except UrlError Userinfo :=
  let authority := cs.takeWhile fun c => !k.endsHost c
  if !authority.contains '@' then .ok { rest := cs }
  else
    let host := (authority.reverse.takeWhile (· ≠ '@')).reverse
    let user := authority.take (authority.length - host.length - 1)
    let rest := cs.drop (user.length + 1)
    if user.isEmpty ∧ host.isEmpty ∧ !rest.isEmpty then .error .emptyHost
    else
      let encoded (cs : List Char) : String := String.ofList (percentEncode userinfoSet cs)
      .ok
        { username := encoded (user.takeWhile (· ≠ ':'))
          password := encoded ((user.dropWhile (· ≠ ':')).drop 1)
          rest := rest }

/-- Splits a text after its host. Colons between brackets belong to the host. -/
def splitHost (k : SchemeKind) (inBrackets : Bool) : List Char → List Char × List Char
  | [] => ([], [])
  | c :: rest =>
    if k.endsHost c || (c == ':' && !inBrackets) then ([], c :: rest)
    else
      let inside := if c = '[' then true else if c = ']' then false else inBrackets
      let r := splitHost k inside rest
      (c :: r.1, r.2)

def readPort (cs : List Char) : Except UrlError (Option Nat × List Char) :=
  let front := cs.takeWhile Char.isDigit
  let rest := cs.dropWhile Char.isDigit
  let stops : Bool := match rest with
    | [] => true
    | c :: _ => isAnySlash c || startsTail c
  match front, (numberInBase? 10 front).getD 0 with
  | [], _ => if stops then .ok (none, rest) else .error .badPort
  | _, n => if n < 65536 ∧ stops then .ok (some n, rest) else .error .badPort

def parseAuthority (scheme : String) (cs : List Char) : Except UrlError Url := do
  let k := SchemeKind.of scheme
  let user ← Userinfo.read k cs
  let (hostChars, rest) := splitHost k false user.rest
  if k = .special ∧ hostChars = [] then throw .emptyHost
  let host ← if k = .plain then opaqueHost hostChars else specialHost hostChars
  if host = .name "" ∧ rest.head? = some ':' then throw .emptyHost
  let (port, rest) ← match rest with
    | ':' :: digits => readPort digits
    | rest => pure (none, rest)
  if host = .name "" ∧ user.isGiven then throw .emptyHost
  let u : Url :=
    { scheme := scheme
      username := user.username
      password := user.password
      host := some host
      port := if port = defaultPort scheme then none else port
      path := .segments [] }
  return u.withPathAfterHost k rest

/-! ### Files -/

def emptyFile : Url := { scheme := "file", host := some (.name ""), path := .segments [] }

/-- Reads the host of a file; the local host is no host. -/
def fileHost (cs : List Char) : Except UrlError Host :=
  if cs = [] then .ok (.name "")
  else
    match specialHost cs with
    | .ok (.name s) => .ok (.name (if s = "localhost" then "" else s))
    | r => r

/-- A file address on a host, which is left out if the path after it leads to a drive. -/
def onHost (u : Url) (host : Host) (inside : List Char) : Url :=
  if entersDrive [] (splitSegments .file inside) then u else { u with host := some host }

/-- Reads what follows the scheme of a file, relative to `base` if there is one. Where no host
is said, the slash before the path belongs to it, so that its first segment is empty. -/
def parseFile (base : Option Url) (cs : List Char) : Except UrlError Url :=
  let k := SchemeKind.file
  match cs with
  | c :: d :: rest =>
    if isAnySlash c ∧ isAnySlash d then do
      let hostChars := rest.takeWhile fun c => !k.endsHost c
      if isDriveLetter hostChars then return emptyFile.withPath k [] rest
      let host ← fileHost (unbroken hostChars)
      let place := rest.drop hostChars.length
      if host = .name "" then return emptyFile.withPath k [] place
      let inside := if (place.head?.map isAnySlash).getD false then place.tail else place
      return (emptyFile.onHost host inside).withPath k [] inside
    else relative (c :: d :: rest)
  | cs => relative cs
where
  relative (cs : List Char) : Except UrlError Url :=
    let k := SchemeKind.file
    match base, cs with
    | none, c :: rest =>
      .ok (emptyFile.withPath k [] (if isAnySlash c then rest else c :: rest))
    | none, [] => .ok { emptyFile with path := .segments [""] }
    | some b, [] => .ok { b with fragment := none }
    | some b, c :: rest =>
      if isAnySlash c then
        match b.segments with
        | s :: _ =>
          if startsWithDriveLetter rest then .ok (emptyFile.withPath k [] rest)
          else if isNormalDriveLetter s then .ok (emptyFile.withPath k [s] rest)
          else .ok ({ emptyFile with host := b.host }.withPath k [] rest)
        | [] => .ok ({ emptyFile with host := b.host }.withPath k [] rest)
      else if c = '?' then .ok (b.withTail (Tail.read k (c :: rest)))
      else if c = '#' then .ok { b with fragment := (Tail.read k (c :: rest)).fragment }
      else if startsWithDriveLetter (c :: rest) then .ok (emptyFile.withPath k [] (c :: rest))
      else
        .ok
          (withTail { b with path := .segments (extendFile b.segments (c :: rest)) }
            (afterPath k (c :: rest)))

/-! ### Whole addresses -/

/-- Reads a text without scheme relative to a base with hierarchy that is no file. -/
def parseRelative (base : Url) (cs : List Char) : Except UrlError Url :=
  let k := SchemeKind.of base.scheme
  match cs with
  | [] => .ok { base with fragment := none }
  | c :: rest =>
    if c = '?' then .ok (base.withTail (Tail.read k cs))
    else if c = '#' then .ok { base with fragment := (Tail.read k cs).fragment }
    else if isAnySlash c then
      match rest with
      | d :: beyond =>
        if isAnySlash d then
          parseAuthority base.scheme
            (if c = '/' ∧ d = '/' then beyond else beyond.dropWhile isAnySlash)
        else .ok (base.withPath k [] rest)
      | [] => .ok (base.withPath k [] rest)
    else .ok (base.withPath k base.segments.dropLast cs)

/-- Reads what follows the scheme of an address that is neither special nor a file. -/
def parsePlain (scheme : String) (cs : List Char) : Except UrlError Url :=
  match cs with
  | '/' :: '/' :: rest => parseAuthority scheme rest
  | '/' :: rest => .ok ({ scheme := scheme, path := .segments [] : Url }.withPath .plain [] rest)
  | cs =>
    let front := cs.takeWhile fun c => !startsTail c
    .ok
      (withTail
        { scheme := scheme, path := .flat (String.ofList (percentEncode controls front)) }
        (afterPath .plain cs))

/-- Reads an address, relative to `base` if there is one. -/
def parseWith (base : Option Url) (s : String) : Except UrlError Url :=
  let cs := significant s
  match splitScheme cs with
  | some (scheme, rest) =>
    match SchemeKind.of scheme with
    | .file => parseFile (base.filter fun b => b.scheme = "file") rest
    | .plain => parsePlain scheme (unbroken rest)
    | .special =>
      let rest := unbroken rest
      let slashes := (rest.takeWhile isAnySlash).length
      match base.filter fun b => b.scheme = scheme ∧ slashes < 2 with
      | some b => parseRelative b rest
      | none => parseAuthority scheme (rest.dropWhile isAnySlash)
  | none =>
    match base with
    | none => .error .relativeToNothing
    | some b =>
      if cs.head? = some '#' then .ok { b with fragment := (Tail.read .plain cs).fragment }
      else if b.isOpaque then .error .relativeToOpaque
      else if b.scheme = "file" then parseFile (some b) cs
      else parseRelative b (unbroken cs)

def parse (s : String) : Except UrlError Url := parseWith none s

def join (base : Url) (s : String) : Except UrlError Url := parseWith (some base) s

end ViewLoop.Url
