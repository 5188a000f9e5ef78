import ViewLoop.Head

/-!
# Markup

Trees and head entries as HTML text. An element shows its identity token as its `id`; its own
identity attribute and its handlers are not written. Texts and attribute values are escaped, so
none of them can close a tag or a quoted value.
-/

namespace ViewLoop.Markup

def escapeChar : Char → List Char
  | '&' => ['&', 'a', 'm', 'p', ';']
  | '"' => ['&', 'q', 'u', 'o', 't', ';']
  | '<' => ['&', 'l', 't', ';']
  | '>' => ['&', 'g', 't', ';']
  | c => [c]

/-- A text without markup characters that shows as the given one. -/
def escape (s : String) : String := String.ofList (s.toList.flatMap escapeChar)

def written (name value : String) : String := " " ++ name ++ "=\"" ++ escape value ++ "\""

def ofAttribute {P : Type} : Attribute P → String
  | .plain name value => if name = Attribute.identityName then "" else written name value
  | .handler _ => ""

def concat (parts : List String) : String := parts.foldr (· ++ ·) ""

mutual

def ofNode {P : Type} : Node P → String
  | .element id tag attributes children =>
    "<" ++ tag ++ written "id" id.token ++ concat (attributes.map ofAttribute) ++ ">"
      ++ ofForest children ++ "</" ++ tag ++ ">"
  | .text _ s => escape s

def ofForest {P : Type} : List (Node P) → String
  | [] => ""
  | c :: cs => ofNode c ++ ofForest cs

end

/-- A head entry as HTML, tagged with its key. -/
def ofHeadEntry (e : HeadEntry) : String :=
  let tag (name : String) (first : String × String) (second : List (String × String)) : String :=
    "<" ++ name ++ written first.1 first.2 ++ concat (second.map fun p => written p.1 p.2)
      ++ written "data-head-key" e.key ++ ">"
  match e with
  | .metadata name content => tag "meta" ("name", name) [("content", content)]
  | .property name content => tag "meta" ("property", name) [("content", content)]
  | .link rel href => tag "link" ("rel", rel) [("href", href)]
  | .script src => tag "script" ("src", src) [] ++ "</script>"
  | .base href => tag "base" ("href", href) []

/-- A whole page: its title and head entries, then the HTML of its body. -/
def page (title : String) (head : List HeadEntry) (body : String) : String :=
  "<!DOCTYPE html>\n<html><head><title>" ++ escape title ++ "</title>"
    ++ concat (head.map ofHeadEntry) ++ "</head><body>" ++ body ++ "</body></html>"

end ViewLoop.Markup
