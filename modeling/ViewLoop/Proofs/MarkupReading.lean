import ViewLoop.Proofs.AlignedAttributes
import ViewLoop.Proofs.Representation

/-!
# Reading markup

The HTML of a tree can be read back (`Markup.read`). It is read from its end, so that an element is
complete when its opening tag is reached. What is read is what the tree shows
(`Markup.shownForest`): no text, key or value can pass for a tag or end one
(`Surface.html_readable`).
-/

namespace ViewLoop

variable {P : Type}

namespace Markup

/-! ### What markup shows -/

/-- What a page shows of its nodes: elements with their tokens and plain attributes, and texts. -/
inductive Item where
  | element (tag token : String) (attributes : List (String × String)) (content : List Item)
  | text (s : String)
  deriving Repr, BEq

/-- Content with a text put before it. An empty text leaves nothing, and a text runs on into a text
that follows. -/
def before (s : String) : List Item → List Item
  | .text t :: rest => .text (s ++ t) :: rest
  | rest => if s = "" then rest else .text s :: rest

/-- What an element shows of an attribute that is neither a handler nor its identity. -/
def shownAttribute : Attribute P → Option (String × String)
  | .plain name value => if name = Attribute.identityName then none else some (name, value)
  | .handler _ => none

mutual

/-- Content with what a tree shows put before it. -/
def shown : Node P → List Item → List Item
  | .element id tag as cs, rest =>
    .element tag id.token (as.filterMap shownAttribute) (shownForest cs) :: rest
  | .text _ s, rest => before s rest

def shownForest : List (Node P) → List Item
  | [] => []
  | c :: cs => shown c (shownForest cs)

end

theorem shownForest_eq_foldr (cs : List (Node P)) : shownForest cs = cs.foldr shown [] := by
  induction cs with
  | nil => rfl
  | cons c cs ih => rw [shownForest, ih, List.foldr_cons]

theorem before_append (s t : String) (rest : List Item) :
    before (s ++ t) rest = before s (before t rest) := by
  cases rest with
  | nil =>
    by_cases ht : t = ""
    · simp [before, ht]
    · by_cases hs : s = "" <;> simp [before, hs, ht]
  | cons item rest =>
    cases item with
    | text u => simp [before, String.append_assoc]
    | element tag token as content =>
      by_cases ht : t = ""
      · simp [before, ht]
      · by_cases hs : s = "" <;> simp [before, hs, ht]

theorem before_empty (rest : List Item) : before "" rest = rest := by
  cases rest with
  | nil => rfl
  | cons item rest => cases item <;> simp [before]

/-! ### Reading -/

/-- A text with the references in it replaced by the characters they stand for. -/
def unescape : List Char → List Char
  | '&' :: 'a' :: 'm' :: 'p' :: ';' :: rest => '&' :: unescape rest
  | '&' :: 'q' :: 'u' :: 'o' :: 't' :: ';' :: rest => '"' :: unescape rest
  | '&' :: 'l' :: 't' :: ';' :: rest => '<' :: unescape rest
  | '&' :: 'g' :: 't' :: ';' :: rest => '>' :: unescape rest
  | c :: rest => c :: unescape rest
  | [] => []

def readText (cs : List Char) : String := String.ofList (unescape cs)

/-- The attributes in a tag that is cut at its quotes: what leads to a value and the value, in
turns. -/
def readAttributes : List (List Char) → Option (List (String × String))
  | [] => none
  | [rest] => if rest = [] then some [] else none
  | lead :: value :: rest =>
    (readAttributes rest).map ((String.ofList (lead.drop 1).dropLast, readText value) :: ·)

/-- The tag, the token and the attributes of an opening tag. -/
def readOpening (body : List Char) : Option (String × String × List (String × String)) :=
  match body.splitOn '"' with
  | lead :: token :: rest =>
    (readAttributes rest).map fun as =>
      (String.ofList (lead.takeWhile (· ≠ ' ')), readText token, as)
  | _ => none

/-- What was read from a place on: the characters before the next tag, the content behind them up
to the end of the element around the place, and for each element around it, from the inside out, its
tag and the content behind it. -/
structure Reading where
  raw : List Char := []
  content : List Item := []
  enclosing : List (String × List Item) := []

/-- The characters before the next tag are read as a text. -/
def Reading.settled (r : Reading) : Reading :=
  { r with raw := [], content := before (readText r.raw) r.content }

def Reading.close (r : Reading) (tag : String) : Reading :=
  { enclosing := (tag, r.content) :: r.enclosing }

/-- Opens the innermost element, which must have the tag that it is closed with. -/
def Reading.open (r : Reading) (tag token : String) (as : List (String × String)) :
    Option Reading :=
  match r.enclosing with
  | [] => none
  | (closed, after) :: outer =>
    if closed = tag then
      some { content := .element tag token as r.content :: after, enclosing := outer }
    else none

def Reading.addTag (r : Reading) : List Char → Option Reading
  | '/' :: tag => some (r.close (String.ofList tag))
  | body => (readOpening body).bind fun o => r.open o.1 o.2.1 o.2.2

/-- A `<` makes a tag of the characters up to the next `>`. -/
def Reading.addStart (r : Reading) : Option Reading :=
  { r with raw := (r.raw.dropWhile (· ≠ '>')).drop 1 }.settled.addTag (r.raw.takeWhile (· ≠ '>'))

def Reading.addChar (r : Reading) (c : Char) : Option Reading :=
  if c = '<' then r.addStart else some { r with raw := c :: r.raw }

def readFrom : List Char → Option Reading
  | [] => some {}
  | c :: rest => (readFrom rest).bind fun r => r.addChar c

/-- What a page shows, read from its HTML. -/
def read (html : String) : Option (List Item) :=
  (readFrom html.toList).bind fun r =>
    if r.enclosing.isEmpty then some r.settled.content else none

/-! ### Escaped texts -/

theorem unescape_escapeChar (c : Char) (rest : List Char) :
    unescape (escapeChar c ++ rest) = c :: unescape rest := by
  unfold escapeChar
  split
  · rfl
  · rfl
  · rfl
  · rfl
  · next h _ _ _ =>
    show unescape (c :: rest) = _
    rw [unescape] <;> simp_all

theorem unescape_escape (s rest : List Char) :
    unescape (s.flatMap escapeChar ++ rest) = s ++ unescape rest := by
  induction s with
  | nil => rfl
  | cons c s ih =>
    rw [List.flatMap_cons, List.append_assoc, unescape_escapeChar, ih, List.cons_append]

theorem readText_append (s : String) (rest : List Char) :
    readText ((escape s).toList ++ rest) = s ++ readText rest := by
  rw [readText, escape, String.toList_ofList, unescape_escape, String.ofList_append,
    String.ofList_toList, readText]

theorem readText_escape (s : String) : readText (escape s).toList = s := by
  have hread := readText_append s []
  rwa [List.append_nil, show readText [] = "" from rfl, String.append_empty] at hread

/-- An escaped text has no character that could end a value or be part of a tag. -/
theorem not_mem_escape {c : Char} (hc : c ∈ ['<', '>', '"']) (s : String) :
    c ∉ (escape s).toList := by
  intro h
  rw [escape, String.toList_ofList, List.mem_flatMap] at h
  obtain ⟨d, -, hd⟩ := h
  unfold escapeChar at hd
  split at hd <;> simp_all <;> grind

/-! ### Names -/

/-- A name without a character that means something in a tag. -/
def IsName (s : String) : Prop :=
  s ≠ "" ∧ ∀ c ∈ s.toList, c.isWhitespace = false ∧ c ∉ ['<', '>', '"', '=', '/', '&']

instance (s : String) : Decidable (IsName s) :=
  @instDecidableAnd _ _ inferInstance (List.decidableBAll _ s.toList)

theorem IsName.not_mem {s : String} (h : IsName s) {c : Char} (hc : c ∈ ['<', '>', '"']) :
    c ∉ s.toList := by
  intro hm
  have := (h.2 c hm).2
  grind

theorem IsName.no_space {s : String} (h : IsName s) : ∀ c ∈ s.toList, c ≠ ' ' := by
  rintro c hc rfl
  simpa using (h.2 _ hc).1

/-- Every plain attribute has a name for its name. -/
def Named (as : List (Attribute P)) : Prop :=
  ∀ name ∈ as.filterMap Attribute.plainName?, IsName name

theorem Named.tail {a : Attribute P} {as : List (Attribute P)} (h : Named (a :: as)) : Named as :=
  fun name hm => h name (((List.sublist_cons_self a as).filterMap _).mem hm)

theorem Named.head {name value : String} {as : List (Attribute P)}
    (h : Named (.plain name value :: as)) : IsName name :=
  h name List.mem_cons_self

/-! ### Tags -/

theorem toList_written (name value : String) :
    (written name value).toList
      = ' ' :: (name.toList ++ '=' :: '"' :: ((escape value).toList ++ ['"'])) := by
  simp [written, String.toList_append]

theorem splitOn_written {lead : List Char} {name : String} (hl : '"' ∉ lead)
    (hn : '"' ∉ name.toList) (value : String) (rest : List Char) :
    (lead ++ ((written name value).toList ++ rest)).splitOn '"'
      = (lead ++ ' ' :: (name.toList ++ ['='])) :: (escape value).toList :: rest.splitOn '"' := by
  have hlead : '"' ∉ lead ++ ' ' :: (name.toList ++ ['=']) := by simp [hl, hn]
  have hsplit : lead ++ ((written name value).toList ++ rest)
      = (lead ++ ' ' :: (name.toList ++ ['=']))
        ++ '"' :: ((escape value).toList ++ '"' :: rest) := by
    rw [toList_written]
    simp
  rw [hsplit, List.splitOn_append_cons_self_of_not_mem hlead,
    List.splitOn_append_cons_self_of_not_mem (not_mem_escape (by simp) value)]

theorem readAttributes_concat {as : List (Attribute P)} (h : Named as) :
    readAttributes ((concat (as.map ofAttribute)).toList.splitOn '"')
      = some (as.filterMap shownAttribute) := by
  induction as with
  | nil => simp [concat, readAttributes]
  | cons a as ih =>
    have hconcat : (concat ((a :: as).map ofAttribute)).toList
        = (ofAttribute a).toList ++ (concat (as.map ofAttribute)).toList :=
      String.toList_append
    rw [hconcat]
    have hrest := ih h.tail
    cases a with
    | handler => simpa [ofAttribute, shownAttribute, List.filterMap_cons] using hrest
    | plain name value =>
      by_cases hid : name = Attribute.identityName
      · simpa [ofAttribute, shownAttribute, List.filterMap_cons, hid] using hrest
      · have hnil : '"' ∉ ([] : List Char) := List.not_mem_nil
        have hsplit := splitOn_written hnil (h.head.not_mem (by simp)) value
          (concat (as.map ofAttribute)).toList
        simp only [ofAttribute, if_neg hid, shownAttribute, List.filterMap_cons]
        rw [List.nil_append] at hsplit
        rw [hsplit, readAttributes, hrest, readText_escape]
        simp

/-- What stands between the brackets of an element's opening tag. -/
def opening (id : NodeId) (tag : String) (as : List (Attribute P)) : List Char :=
  tag.toList ++ ((written "id" id.token).toList ++ (concat (as.map ofAttribute)).toList)

theorem readOpening_opening (id : NodeId) {tag : String} {as : List (Attribute P)}
    (htag : IsName tag) (has : Named as) :
    readOpening (opening id tag as) = some (tag, id.token, as.filterMap shownAttribute) := by
  have htaken : (tag.toList ++ ' ' :: ("id".toList ++ ['='])).takeWhile (· ≠ ' ') = tag.toList := by
    rw [List.takeWhile_append_of_pos (by simpa using htag.no_space)]
    simp
  rw [readOpening, opening, splitOn_written (htag.not_mem (by simp)) (by decide)]
  simp only [readAttributes_concat has, Option.map_some, htaken, readText_escape,
    String.ofList_toList]

theorem not_mem_written {c : Char} (hc : c ∈ ['<', '>']) {name : String} (hn : c ∉ name.toList)
    (value : String) : c ∉ (written name value).toList := by
  have hvalue : c ∉ (escape value).toList := not_mem_escape (by grind) value
  rw [toList_written]
  grind

theorem not_mem_concat {c : Char} (hc : c ∈ ['<', '>']) {as : List (Attribute P)}
    (h : Named as) : c ∉ (concat (as.map ofAttribute)).toList := by
  induction as with
  | nil => simp [concat]
  | cons a as ih =>
    have hfirst : c ∉ (ofAttribute a).toList := by
      cases a with
      | handler => simp [ofAttribute]
      | plain name value =>
        by_cases hid : name = Attribute.identityName
        · simp [ofAttribute, hid]
        · simpa [ofAttribute, hid] using not_mem_written hc (h.head.not_mem (by grind)) value
    simpa [concat, String.toList_append] using ⟨hfirst, ih h.tail⟩

theorem not_mem_opening {c : Char} (hc : c ∈ ['<', '>']) (id : NodeId) {tag : String}
    {as : List (Attribute P)} (htag : IsName tag) (has : Named as) : c ∉ opening id tag as := by
  simp only [opening, List.mem_append, not_or]
  exact ⟨htag.not_mem (by grind), not_mem_written hc (by grind) id.token, not_mem_concat hc has⟩

/-! ### Reading what was written -/

/-- Read before anything that can be read, the characters `cs` put what `f` says before its
content, and leave what is around it. -/
def Adds (cs : List Char) (f : List Item → List Item) : Prop :=
  ∀ (rest : List Char) (r : Reading), readFrom rest = some r →
    ∃ r', readFrom (cs ++ rest) = some r'
      ∧ r'.settled = { r.settled with content := f r.settled.content }

theorem settled_of_raw {r : Reading} (h : r.raw = []) : r.settled = r := by
  have htext : readText [] = "" := rfl
  rw [Reading.settled, h, htext, before_empty, ← h]

theorem readFrom_append {cs : List Char} (h : '<' ∉ cs) (rest : List Char) :
    readFrom (cs ++ rest) = (readFrom rest).map fun r => { r with raw := cs ++ r.raw } := by
  induction cs with
  | nil => simp
  | cons c cs ih =>
    rw [List.mem_cons, not_or] at h
    rw [List.cons_append, readFrom, ih h.2]
    cases readFrom rest <;> simp [Reading.addChar, Ne.symm h.1]

/-- A `<`, a tag and a `>` are read as this tag, with the text behind it. -/
theorem readFrom_tag {tag : List Char} (hopen : '<' ∉ tag) (hclose : '>' ∉ tag) {rest : List Char}
    {r : Reading} (hr : readFrom rest = some r) :
    readFrom ('<' :: (tag ++ '>' :: rest)) = r.settled.addTag tag := by
  have hraw : readFrom (tag ++ '>' :: rest) = some { r with raw := tag ++ '>' :: r.raw } := by
    rw [show tag ++ '>' :: rest = (tag ++ ['>']) ++ rest by simp,
      readFrom_append (by simp [hopen]), hr]
    simp
  have hall : ∀ c ∈ tag, decide (c ≠ '>') = true := by grind
  rw [readFrom, hraw, Option.bind_some, Reading.addChar, if_pos rfl, Reading.addStart,
    List.dropWhile_append_of_pos hall, List.takeWhile_append_of_pos hall]
  simp [Reading.settled]

theorem adds_nil : Adds [] id := fun _ r hr => ⟨r, hr, rfl⟩

theorem Adds.append {cs ds : List Char} {f g : List Item → List Item} (hc : Adds cs f)
    (hd : Adds ds g) : Adds (cs ++ ds) (f ∘ g) := by
  intro rest r hr
  obtain ⟨r₁, h₁, hs₁⟩ := hd rest r hr
  obtain ⟨r₂, h₂, hs₂⟩ := hc _ r₁ h₁
  refine ⟨r₂, by rw [List.append_assoc, h₂], ?_⟩
  rw [hs₂, hs₁]
  rfl

theorem adds_escape (s : String) : Adds (escape s).toList (before s) := by
  intro rest r hr
  refine ⟨_, by rw [readFrom_append (not_mem_escape (by simp) s), hr, Option.map_some], ?_⟩
  simp only [Reading.settled, readText_append, before_append]

theorem addTag_opening (r : Reading) (id : NodeId) {tag : String} {as : List (Attribute P)}
    (htag : IsName tag) (has : Named as) :
    r.addTag (opening id tag as) = r.open tag id.token (as.filterMap shownAttribute) := by
  have hfirst : ∀ rest, opening id tag as ≠ '/' :: rest := by
    intro rest h
    rcases hchars : tag.toList with - | ⟨c, cs⟩
    · exact htag.1 (String.toList_eq_nil_iff.mp hchars)
    · have hc := (htag.2 c (by simp [hchars])).2
      simp only [opening, hchars, List.cons_append, List.cons.injEq] at h
      simp [h.1] at hc
  rw [Reading.addTag, readOpening_opening id htag has, Option.bind_some]
  exact hfirst

/-- A closing tag begins the content of an element, whose opening tag ends it. -/
theorem Adds.element (id : NodeId) {tag : String} {as : List (Attribute P)} (htag : IsName tag)
    (has : Named as) {cs : List Char}
    {f : List Item → List Item} (hc : Adds cs f) :
    Adds ('<' :: (opening id tag as ++ '>' :: (cs ++ '<' :: ('/' :: tag.toList ++ ['>']))))
      (.element tag id.token (as.filterMap shownAttribute) (f []) :: ·) := by
  intro rest r hr
  have hclosing : readFrom ('<' :: ('/' :: tag.toList ++ '>' :: rest))
      = some (r.settled.close tag) := by
    have hopen : '<' ∉ '/' :: tag.toList := by simp [htag.not_mem]
    have hclose : '>' ∉ '/' :: tag.toList := by simp [htag.not_mem]
    rw [readFrom_tag hopen hclose hr, Reading.addTag, String.ofList_toList]
  obtain ⟨inner, hinner, hsettled⟩ := hc _ _ hclosing
  have hopening := readFrom_tag (not_mem_opening (by simp) id htag has)
    (not_mem_opening (by simp) id htag has) hinner
  have hclosed : (r.settled.close tag).settled = r.settled.close tag := settled_of_raw rfl
  rw [hsettled, hclosed, addTag_opening _ id htag has] at hopening
  simp only [Reading.open, Reading.close, if_pos] at hopening
  have hraw : r.settled.raw = [] := rfl
  refine ⟨_, ?_, settled_of_raw rfl⟩
  simpa [hraw] using hopening

end Markup

/-! ### Trees -/

/-- Every tag and every name of a plain attribute is a name. -/
def Node.WellNamed (t : Node P) : Prop :=
  ∀ n ∈ t.subtrees, (∀ tag ∈ n.tag?, Markup.IsName tag)
    ∧ ∀ name ∈ n.attributes.filterMap Attribute.plainName?, Markup.IsName name

instance (t : Node P) : Decidable t.WellNamed :=
  inferInstanceAs (Decidable (∀ n ∈ t.subtrees, (∀ tag ∈ n.tag?, Markup.IsName tag)
    ∧ ∀ name ∈ n.attributes.filterMap Attribute.plainName?, Markup.IsName name))

theorem Node.WellNamed.child {id : NodeId} {tag : String} {as : List (Attribute P)}
    {cs : List (Node P)} (h : (Node.element id tag as cs).WellNamed) {c : Node P} (hc : c ∈ cs) :
    c.WellNamed :=
  fun n hn => h n (mem_subtrees_of_mem hc hn)

namespace Markup

theorem toList_ofNode_element (id : NodeId) (tag : String) (as : List (Attribute P))
    (cs : List (Node P)) :
    (ofNode (.element id tag as cs)).toList
      = '<' :: (opening id tag as
          ++ '>' :: ((ofForest cs).toList ++ '<' :: ('/' :: tag.toList ++ ['>']))) := by
  simp [ofNode, opening, String.toList_append]

theorem adds_ofForest {cs : List (Node P)} (h : ∀ c ∈ cs, Adds (ofNode c).toList (shown c)) :
    Adds (ofForest cs).toList (cs.foldr shown ·) := by
  induction cs with
  | nil => exact adds_nil
  | cons c cs ih =>
    have hrest := ih fun d hd => h d (List.mem_cons_of_mem c hd)
    rw [ofForest, String.toList_append]
    exact (h c List.mem_cons_self).append hrest

/-- The HTML of a tree is read as what the tree shows, whatever follows it. -/
theorem adds_ofNode {n : Node P} (hn : n.WellNamed) : Adds (ofNode n).toList (shown n) := by
  induction n with
  | text id s => exact adds_escape s
  | element id tag as cs ih =>
    have hself := hn _ (Node.self_mem_subtrees _)
    have hinner := adds_ofForest fun c hc => ih c hc (hn.child hc)
    rw [toList_ofNode_element]
    have hshown : shown (.element id tag as cs)
        = (.element tag id.token (as.filterMap shownAttribute) (cs.foldr shown []) :: ·) := by
      funext rest
      rw [shown, shownForest_eq_foldr]
    rw [hshown]
    exact hinner.element id (hself.1 tag rfl) hself.2

theorem read_ofNode {n : Node P} (hn : n.WellNamed) : read (ofNode n) = some (shownForest [n]) := by
  obtain ⟨r, hr, hsettled⟩ := adds_ofNode hn [] {} rfl
  rw [List.append_nil] at hr
  have henclosing : r.enclosing = [] := congrArg Reading.enclosing hsettled
  have hcontent : r.settled.content = shown n [] := congrArg Reading.content hsettled
  rw [read, hr, Option.bind_some, henclosing, hcontent]
  rfl

end Markup

/-- The HTML of a rendered surface can be read back: where tags and attribute names are names, it
gives the elements of the live tree with their nesting, tokens and plain attributes, and the texts
between them, whatever the texts, keys and values are. -/
theorem Surface.html_readable {s : Surface} (hs : s.Reachable) (hr : s.isRendered = true) :
    ∃ t html, s.tree = .ok t ∧ s.html = .ok html
      ∧ (t.WellNamed → Markup.read html = some (Markup.shownForest [t])) := by
  obtain ⟨t, htree, hhtml, -⟩ := hs.consistent.rendered hr
  exact ⟨t, _, htree, hhtml, Markup.read_ofNode⟩

/-- The key, the value and the texts are full of markup, an empty text stands between two others,
and a handler and a stale identity are not shown. -/
theorem Surface.html_readable_of_marked_up :
    let tree : Node Unit := .element (.keyed "\"><b>") "ul"
      [.plain "id" "old", .plain "title" "a\" onclick=\"&quot;<x>", .handler ⟨"click", ⟨1⟩, ()⟩]
      [.text (.generated 1) "</ul>", .text (.generated 2) "", .text (.generated 3) "&lt;li&gt;",
        .element (.generated 4) "li" [] [.text (.generated 5) ""]]
    let s := (Surface.fresh { scheme := "app", path := .segments [] }).after (.render Unit tree)
    (s.Reachable ∧ s.isRendered = true ∧ tree.WellNamed)
      ∧ ∃ html, s.html = .ok html ∧ Markup.read html = some
        [.element "ul" "\"><b>" [("title", "a\" onclick=\"&quot;<x>")]
          [.text "</ul>&lt;li&gt;", .element "li" "n4" [] []]] := by
  intro tree s
  have hs : s.Reachable := .after (.fresh _) _
  have hr : s.isRendered = true := rfl
  have hnamed : tree.WellNamed := by decide +kernel
  obtain ⟨t, html, htree, hhtml, hread⟩ := Surface.html_readable hs hr
  have ht : tree = t := Except.ok.inj ((show s.tree = .ok tree from rfl).symm.trans htree)
  subst ht
  exact ⟨⟨hs, hr, hnamed⟩, html, hhtml, hread hnamed⟩

end ViewLoop
