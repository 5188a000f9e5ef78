import Mathlib.Data.Set.Function
import ViewLoop.Proofs.QuotedText
import ViewLoop.Proofs.Tokens
import ViewLoop.Snapshot

/-!
# Reading the lines of a snapshot

The line of a node tells its kind, its tag or text, and its identity and attributes as far as they
are compared (`head_text_inj`, `head_element_inj`). It is read from its left end: a word ends at the
first character that lines are cut at, and a quoted text shows its own end. The entries of the
attributes are sorted, so their line tells them up to their order.
-/

namespace ViewLoop

def NodeId.key? : NodeId → Option String
  | keyed key => some key
  | _ => none

namespace Snapshot

variable {P Q : Type} {options : SnapshotOptions}

/-! ### What is compared -/

/-- What is compared of an attribute. -/
inductive Facet where
  | plain (name value : String)
  | handler (event : String) (id : Option HandlerId)
  deriving DecidableEq, Repr

def facet (options : SnapshotOptions) : Attribute P → Facet
  | .plain name value => .plain name value
  | .handler h => .handler h.event (if options.ignoreHandlerIds then none else some h.id)

def SameIdentity (options : SnapshotOptions) (i j : NodeId) : Prop :=
  options.ignoreIds = false → i.token = j.token

/-! ### Words -/

/-- The characters that a line is cut at. -/
def marks : List Char := [' ', '=', '"', '[']

def IsWord (s : String) : Prop := ∀ c ∈ s.toList, c ∉ marks

instance (s : String) : Decidable (IsWord s) := List.decidableBAll (· ∉ marks) s.toList

/-- Nothing is left, or one of the given characters comes next. -/
def Cut (stops cs : List Char) : Prop := ∀ c ∈ cs.head?, c ∈ stops

theorem Cut.marks {l : List Char} (hl : Cut [' '] l) : Cut marks l := by
  intro c hc
  rw [List.mem_singleton.mp (hl c hc)]
  decide

theorem takeWhile_append_cut {stops cs rest : List Char} (hcs : ∀ c ∈ cs, c ∉ stops)
    (hrest : Cut stops rest) : (cs ++ rest).takeWhile (· ∉ stops) = cs := by
  rw [List.takeWhile_append_of_pos fun c hc => decide_eq_true (hcs c hc)]
  cases rest with
  | nil => simp
  | cons c rest => simp [hrest c rfl]

theorem append_inj_of_cut {stops cs ds l m : List Char} (hcs : ∀ c ∈ cs, c ∉ stops)
    (hds : ∀ d ∈ ds, d ∉ stops) (hl : Cut stops l) (hm : Cut stops m) (h : cs ++ l = ds ++ m) :
    cs = ds ∧ l = m := by
  have hchars : cs = ds := by
    rw [← takeWhile_append_cut hcs hl, h, takeWhile_append_cut hds hm]
  rw [hchars] at h
  exact ⟨hchars, List.append_cancel_left h⟩

theorem isDigit_of_mem_toString {n : Nat} {c : Char} (h : c ∈ (toString n).toList) :
    c.isDigit = true := by
  rw [Nat.toString_eq_repr, Nat.toList_repr] at h
  exact Nat.isDigit_of_mem_toDigits (by omega) (by omega) h

theorem isWord_append {s t : String} (hs : IsWord s) (ht : IsWord t) : IsWord (s ++ t) := by
  intro c hc
  rw [String.toList_append, List.mem_append] at hc
  exact hc.elim (hs c) (ht c)

theorem isWord_toString (n : Nat) : IsWord (toString n) := by
  intro c hc hmark
  have hdigit := isDigit_of_mem_toString hc
  have hmarks : marks.all (!·.isDigit) = true := by decide
  have hother := List.all_eq_true.mp hmarks c hmark
  rw [hdigit] at hother
  exact nomatch hother

/-! ### Attributes -/

namespace Facet

def label : Facet → String
  | plain name _ => name
  | handler event _ => "on" ++ event

/-- What is written behind the label. -/
def rest : Facet → List Char
  | plain _ value => '=' :: (Text.quoted value).toList
  | handler _ none => []
  | handler _ (some id) => '[' :: (id.token.toList ++ [']'])

def text (f : Facet) : String := f.label ++ String.ofList f.rest

end Facet

theorem Facet.cut_rest (f : Facet) {l : List Char} (hl : Cut [' '] l) :
    Cut marks (f.rest ++ l) := by
  rcases f with ⟨name, value⟩ | ⟨event, _ | id⟩
  · simp [Facet.rest, Cut, marks]
  · exact hl.marks
  · simp [Facet.rest, Cut, marks]

theorem handlerToken_append_inj {i j : HandlerId} {l m : List Char}
    (h : i.token.toList ++ ']' :: l = j.token.toList ++ ']' :: m) : i = j ∧ l = m := by
  have hclosed : ∀ k : HandlerId, ∀ c ∈ k.token.toList, c ∉ [']'] := by
    intro k c hc hstop
    rw [List.mem_singleton.mp hstop, HandlerId.token, String.toList_append, List.mem_append] at hc
    rcases hc with hc | hc
    · exact absurd hc (by decide)
    · exact nomatch isDigit_of_mem_toString hc
  have hcut : ∀ rest : List Char, Cut [']'] (']' :: rest) := by simp [Cut]
  obtain ⟨htoken, hrest⟩ := append_inj_of_cut (hclosed i) (hclosed j) (hcut l) (hcut m) h
  have hnumber := (String.append_right_inj "h").mp (String.toList_inj.mp htoken)
  have hval := NodeId.token_generated_inj.mp (congrArg ("n" ++ ·) hnumber)
  exact ⟨congrArg HandlerId.mk hval, (List.cons.inj hrest).2⟩

/-- Behind equal labels, the first character tells what kind of attribute it is. -/
theorem Facet.rest_append_inj {f g : Facet} (hlabel : f.label = g.label) {l m : List Char}
    (hl : Cut [' '] l) (hm : Cut [' '] m) (h : f.rest ++ l = g.rest ++ m) : f = g ∧ l = m := by
  have hevent : ∀ {e e' : String}, "on" ++ e = "on" ++ e' → e = e' :=
    fun h => (String.append_right_inj "on").mp h
  rcases f with ⟨name, value⟩ | ⟨event, _ | i⟩ <;> rcases g with ⟨name', value'⟩ | ⟨event', _ | j⟩
  case plain.plain =>
    obtain ⟨hvalue, hrest⟩ := Text.quoted_append_inj (List.cons.inj h).2
    rw [show name = name' from hlabel, hvalue]
    exact ⟨rfl, hrest⟩
  case handler.none.handler.none =>
    rw [hevent hlabel]
    exact ⟨rfl, h⟩
  case handler.some.handler.some =>
    have htoken : i.token.toList ++ ']' :: l = j.token.toList ++ ']' :: m := by
      simpa [rest] using h
    obtain ⟨rfl, hrest⟩ := handlerToken_append_inj htoken
    rw [hevent hlabel]
    exact ⟨rfl, hrest⟩
  case plain.handler.some => exact nomatch congrArg List.head? h
  case handler.some.plain => exact nomatch congrArg List.head? h
  case plain.handler.none => exact absurd (hm '=' (congrArg List.head? h).symm) (by decide)
  case handler.none.plain => exact absurd (hl '=' (congrArg List.head? h)) (by decide)
  case handler.some.handler.none => exact absurd (hm '[' (congrArg List.head? h).symm) (by decide)
  case handler.none.handler.some => exact absurd (hl '[' (congrArg List.head? h)) (by decide)

/-- Where the text of an attribute ends can be seen from it, and it is the text of one attribute
only. -/
theorem Facet.text_append_inj {f g : Facet} (hf : IsWord f.label) (hg : IsWord g.label)
    {l m : List Char} (hl : Cut [' '] l) (hm : Cut [' '] m)
    (h : f.text.toList ++ l = g.text.toList ++ m) : f = g ∧ l = m := by
  simp only [text, String.toList_append, String.toList_ofList, List.append_assoc] at h
  obtain ⟨hlabel, hrest⟩ := append_inj_of_cut hf hg (f.cut_rest hl) (g.cut_rest hm) h
  exact rest_append_inj (String.toList_inj.mp hlabel) hl hm hrest

theorem Facet.text_inj {f g : Facet} (hf : IsWord f.label) (hg : IsWord g.label)
    (h : f.text = g.text) : f = g := by
  have hnil : Cut [' '] [] := by simp [Cut]
  exact (text_append_inj hf hg hnil hnil (congrArg (·.toList ++ []) h)).1

theorem attributeText_eq (options : SnapshotOptions) (a : Attribute P) :
    attributeText options a = (facet options a).text := by
  cases a with
  | plain name value =>
    simp [attributeText, facet, Facet.text, Facet.label, Facet.rest, ← String.toList_inj]
  | handler h =>
    cases hi : options.ignoreHandlerIds <;>
      simp [attributeText, facet, hi, Facet.text, Facet.label, Facet.rest, ← String.toList_inj]

theorem map_attributeText (options : SnapshotOptions) (as : List (Attribute P)) :
    as.map (attributeText options) = (as.map (facet options)).map Facet.text := by
  rw [List.map_map]
  exact List.map_congr_left fun a _ => attributeText_eq options a

/-- The attributes of which a line can be read back. -/
def Worded (fs : List Facet) : Prop := ∀ f ∈ fs, IsWord f.label

theorem perm_of_map_text {fs gs : List Facet} (hf : Worded fs) (hg : Worded gs)
    (h : (fs.map Facet.text).Perm (gs.map Facet.text)) : fs.Perm gs := by
  have hinj : Set.InjOn Facet.text { f | IsWord f.label } :=
    fun f hf g hg => Facet.text_inj hf hg
  have : Nonempty Facet := ⟨.plain "" ""⟩
  have hread : ∀ {l : List Facet}, Worded l →
      (l.map Facet.text).map (Function.invFunOn Facet.text { f | IsWord f.label }) = l := by
    intro l hl
    rw [List.map_map]
    exact (List.map_congr_left fun f hf => hinj.leftInvOn_invFunOn (hl f hf)).trans (List.map_id l)
  have hperm := h.map (Function.invFunOn Facet.text { f | IsWord f.label })
  rwa [hread hf, hread hg] at hperm

theorem sorted_perm (as : List String) : (sorted as).Perm as := List.mergeSort_perm _ _

theorem sorted_eq_iff {as bs : List String} : sorted as = sorted bs ↔ as.Perm bs := by
  have hpairwise : ∀ l : List String, (sorted l).Pairwise (· ≤ ·) := by
    intro l
    have hle : (sorted l).Pairwise fun a b => decide (a ≤ b) = true := by
      apply List.pairwise_mergeSort
      · simpa using fun a b c => String.le_trans
      · simpa using String.le_total
    exact hle.imp of_decide_eq_true
  constructor
  · intro h
    exact (sorted_perm as).symm.trans (h ▸ sorted_perm bs)
  · intro h
    exact List.Perm.eq_of_pairwise (fun a b _ _ => String.le_antisymm) (hpairwise as)
      (hpairwise bs) ((sorted_perm as).trans (h.trans (sorted_perm bs).symm))

/-- What is written of the attributes, each behind a space. -/
def spread (texts : List String) : List Char := texts.flatMap fun s => ' ' :: s.toList

theorem toList_attributesText (options : SnapshotOptions) (as : List (Attribute P)) :
    (attributesText options as).toList = spread (sorted (as.map (attributeText options))) := by
  unfold attributesText spread
  induction sorted (as.map (attributeText options)) with
  | nil => rfl
  | cons s ss ih => simp [String.toList_append, ih]

theorem cut_spread (texts : List String) : Cut [' '] (spread texts) := by
  cases texts <;> simp [Cut, spread]

theorem cut_attributesText (options : SnapshotOptions) (as : List (Attribute P)) :
    Cut [' '] (attributesText options as).toList := by
  rw [toList_attributesText]
  exact cut_spread _

/-- The text of an attribute with a word for its label. -/
def IsEntry (s : String) : Prop := ∃ f : Facet, IsWord f.label ∧ f.text = s

theorem spread_inj {ss ts : List String} (hs : ∀ s ∈ ss, IsEntry s) (ht : ∀ t ∈ ts, IsEntry t)
    (h : spread ss = spread ts) : ss = ts := by
  induction ss generalizing ts with
  | nil =>
    cases ts with
    | nil => rfl
    | cons t ts => exact nomatch h
  | cons s ss ih =>
    cases ts with
    | nil => exact nomatch h
    | cons t ts =>
      obtain ⟨f, hf, rfl⟩ := hs s List.mem_cons_self
      obtain ⟨g, hg, rfl⟩ := ht t List.mem_cons_self
      obtain ⟨rfl, hrest⟩ := Facet.text_append_inj hf hg (cut_spread ss) (cut_spread ts)
        (List.cons.inj h).2
      rw [ih (fun s hm => hs s (List.mem_cons_of_mem _ hm))
        (fun t hm => ht t (List.mem_cons_of_mem _ hm)) hrest]

theorem perm_of_attributesText {as : List (Attribute P)} {bs : List (Attribute Q)}
    (ha : Worded (as.map (facet options))) (hb : Worded (bs.map (facet options)))
    (h : attributesText options as = attributesText options bs) :
    (as.map (facet options)).Perm (bs.map (facet options)) := by
  have hentries : ∀ {fs : List Facet}, Worded fs → ∀ s ∈ sorted (fs.map Facet.text), IsEntry s := by
    intro fs hfs s hs
    obtain ⟨f, hf, rfl⟩ := List.mem_map.mp ((sorted_perm _).subset hs)
    exact ⟨f, hfs f hf, rfl⟩
  have hspread := congrArg String.toList h
  rw [toList_attributesText, toList_attributesText, map_attributeText, map_attributeText] at hspread
  exact perm_of_map_text ha hb
    (sorted_eq_iff.mp (spread_inj (hentries ha) (hentries hb) hspread))

/-! ### Lines -/

/-- The line of a node without its indentation. -/
def head (options : SnapshotOptions) : Node P → String
  | .element id tag as _ =>
    "<" ++ tag ++ identity options id ++ attributesText options as ++ ">"
  | .text id s => Text.quoted s ++ identity options id

theorem linesAt_eq (options : SnapshotOptions) (depth : Nat) (n : Node P) :
    linesAt options depth n
      = (indent depth ++ head options n) :: forestLinesAt options (depth + 1) n.children := by
  cases n with
  | element id tag as cs => simp [linesAt, head, Node.children, String.append_assoc]
  | text id s => simp [linesAt, head, Node.children, forestLinesAt, String.append_assoc]

/-- How deep the node of a line stands. -/
def depth (line : String) : Nat := (line.toList.takeWhile (· = ' ')).length / 2

theorem depth_line (options : SnapshotOptions) (d : Nat) (n : Node P) :
    depth (indent d ++ head options n) = d := by
  have hspaces : ∀ c ∈ List.replicate (2 * d) ' ', decide (c = ' ') = true := by
    intro c hc
    exact decide_eq_true (List.eq_of_mem_replicate hc)
  have hfirst : (head options n).toList.takeWhile (· = ' ') = [] := by
    cases n with
    | element id tag as cs => simp [head, String.toList_append]
    | text id s => simp [head, String.toList_append, Text.quoted]
  simp only [depth, indent, String.toList_append, String.toList_ofList]
  rw [List.takeWhile_append_of_pos hspaces, hfirst]
  simp

/-! ### Trees whose lines can be read back -/

/-- Keys, tags and names of attributes are words; a handler is named by `on` and its event. Texts
and values can be any. -/
def Readable (t : Node P) : Prop :=
  ∀ n ∈ t.subtrees, (∀ key ∈ n.id.key?, IsWord key) ∧ (∀ tag ∈ n.tag?, IsWord tag)
    ∧ ∀ a ∈ n.attributes, IsWord a.name

instance (t : Node P) : Decidable (Readable t) :=
  inferInstanceAs (Decidable (∀ n ∈ t.subtrees, (∀ key ∈ n.id.key?, IsWord key)
    ∧ (∀ tag ∈ n.tag?, IsWord tag) ∧ ∀ a ∈ n.attributes, IsWord a.name))

theorem Readable.child {id : NodeId} {tag : String} {as : List (Attribute P)}
    {cs : List (Node P)} (h : Readable (.element id tag as cs)) {c : Node P} (hc : c ∈ cs) :
    Readable c :=
  fun n hn => h n (Node.mem_subtrees_of_mem hc hn)

theorem Readable.token {n : Node P} (h : Readable n) : IsWord n.id.token := by
  have hkey := (h n n.self_mem_subtrees).1
  cases hid : n.id with
  | unassigned => decide
  | generated k => exact isWord_append (by decide) (isWord_toString k)
  | keyed key => exact hkey key (hid ▸ rfl)

theorem Readable.worded {n : Node P} (h : Readable n) :
    Worded (n.attributes.map (facet options)) := by
  intro f hf
  obtain ⟨a, ha, rfl⟩ := List.mem_map.mp hf
  have hname := (h n n.self_mem_subtrees).2.2 a ha
  cases a with
  | plain name value => exact hname
  | handler h => exact hname

theorem cut_identity (options : SnapshotOptions) (i : NodeId) {l : List Char} (hl : Cut [' '] l) :
    Cut [' '] ((identity options i).toList ++ l) := by
  unfold identity
  split
  · simpa using hl
  · simp [Cut, String.toList_append]

theorem identity_append_inj {i j : NodeId} (hi : IsWord i.token) (hj : IsWord j.token)
    {l m : List Char} (hl : Cut [' '] l) (hm : Cut [' '] m)
    (h : (identity options i).toList ++ l = (identity options j).toList ++ m) :
    SameIdentity options i j ∧ l = m := by
  unfold identity at h
  split at h
  · next hoff => exact ⟨fun hon => absurd (hoff.symm.trans hon) (by decide), by simpa using h⟩
  · have htoken : i.token.toList ++ l = j.token.toList ++ m := by
      simpa [String.toList_append] using h
    obtain ⟨hsame, hrest⟩ := append_inj_of_cut hi hj hl.marks hm.marks htoken
    exact ⟨fun _ => String.toList_inj.mp hsame, hrest⟩

theorem head_text_inj {i j : NodeId} {s t : String} (hi : IsWord i.token) (hj : IsWord j.token)
    (h : head options (.text i s : Node P) = head options (.text j t : Node Q)) :
    s = t ∧ SameIdentity options i j := by
  have hchars := congrArg String.toList h
  simp only [head, String.toList_append] at hchars
  obtain ⟨hs, hidentity⟩ := Text.quoted_append_inj hchars
  have hnil : Cut [' '] [] := by simp [Cut]
  exact ⟨hs, (identity_append_inj hi hj hnil hnil (by rw [hidentity])).1⟩

theorem head_element_inj {i j : NodeId} {tag other : String} {as : List (Attribute P)}
    {bs : List (Attribute Q)} {cs : List (Node P)} {ds : List (Node Q)}
    (hn : Readable (.element i tag as cs)) (hm : Readable (.element j other bs ds))
    (h : head options (.element i tag as cs) = head options (.element j other bs ds)) :
    tag = other ∧ SameIdentity options i j
      ∧ (as.map (facet options)).Perm (bs.map (facet options)) := by
  have htag : IsWord tag := (hn _ (Node.self_mem_subtrees _)).2.1 tag rfl
  have hother : IsWord other := (hm _ (Node.self_mem_subtrees _)).2.1 other rfl
  have has := cut_attributesText options as
  have hbs := cut_attributesText options bs
  have hchars : tag.toList ++ ((identity options i).toList ++ (attributesText options as).toList)
      = other.toList ++ ((identity options j).toList ++ (attributesText options bs).toList) := by
    have hclosed := congrArg String.toList ((String.append_left_inj ">").mp h)
    simpa [String.toList_append] using hclosed
  obtain ⟨hsame, hrest⟩ := append_inj_of_cut htag hother (cut_identity options i has).marks
    (cut_identity options j hbs).marks hchars
  obtain ⟨hidentity, hattributes⟩ := identity_append_inj hn.token hm.token has hbs hrest
  exact ⟨String.toList_inj.mp hsame, hidentity,
    perm_of_attributesText hn.worded hm.worded (String.toList_inj.mp hattributes)⟩

theorem head_text_ne_element {i j : NodeId} {s tag : String} {bs : List (Attribute Q)}
    {ds : List (Node Q)} :
    head options (.text i s : Node P) ≠ head options (.element j tag bs ds) := by
  intro h
  have hfirst := congrArg (·.toList.head?) h
  simp [head, Text.quoted, String.toList_append] at hfirst

end Snapshot

end ViewLoop
