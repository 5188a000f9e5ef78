import ViewLoop.Proofs.SnapshotLines

/-!
# What a comparison of snapshots tells

Two snapshots agree if and only if the trees agree in what the options compare
(`Snapshot.compare_faithful`), where keys, tags and names have none of the characters that lines are
cut at. Lines follow each other in pre-order and the indentation of a line tells its depth, so the
lines below an element end where one stands no deeper than the element itself.
-/

namespace ViewLoop.Snapshot

variable {P Q : Type} {options : SnapshotOptions}

/-! ### What is compared -/

/-- The trees agree in kinds, tags, texts and nesting, in the attributes of each element up to their
order, and in identities if these are compared. -/
inductive Same (options : SnapshotOptions) : Node P → Node Q → Prop
  | text {i j : NodeId} (s : String) (identity : SameIdentity options i j) :
      Same options (.text i s) (.text j s)
  | element {i j : NodeId} {as : List (Attribute P)} {bs : List (Attribute Q)}
      {cs : List (Node P)} {ds : List (Node Q)} (tag : String)
      (identity : SameIdentity options i j)
      (attributes : (as.map (facet options)).Perm (bs.map (facet options)))
      (children : List.Forall₂ (Same options) cs ds) :
      Same options (.element i tag as cs) (.element j tag bs ds)

theorem Same.children {n : Node P} {m : Node Q} (h : Same options n m) :
    List.Forall₂ (Same options) n.children m.children := by
  cases h with
  | text => exact .nil
  | element _ _ _ hchildren => exact hchildren

/-! ### Nesting -/

/-- The line that comes next, if any, does not stand deeper than this. -/
def Shallow (d : Nat) (lines : List String) : Prop := ∀ line ∈ lines.head?, depth line ≤ d

theorem shallow_append (options : SnapshotOptions) {d : Nat} (cs : List (Node P))
    {rest : List String} (h : Shallow d rest) : Shallow d (forestLinesAt options d cs ++ rest) := by
  cases cs with
  | nil => exact h
  | cons c cs =>
    intro line hline
    rw [forestLinesAt, linesAt_eq] at hline
    simp only [List.cons_append, List.head?_cons, Option.mem_some_iff] at hline
    rw [← hline, depth_line]

theorem not_shallow_append (options : SnapshotOptions) (d : Nat) (n : Node P)
    (rest : List String) : ¬Shallow d (linesAt options (d + 1) n ++ rest) := by
  intro h
  rw [linesAt_eq] at h
  have hdepth := h _ rfl
  rw [depth_line] at hdepth
  omega

/-- The lines of a tree, read before others that stand no deeper, are those of one tree only. -/
def Decodes (options : SnapshotOptions) (n : Node P) (m : Node Q) : Prop :=
  ∀ d ls ms, Shallow d ls → Shallow d ms →
    linesAt options d n ++ ls = linesAt options d m ++ ms → Same options n m ∧ ls = ms

/-- A line that stands deeper than the element is one of its next child, and otherwise it has no
further child. -/
theorem forestLinesAt_append_inj {cs : List (Node P)} {ds : List (Node Q)} {d : Nat}
    {ls ms : List String} (hchildren : ∀ c ∈ cs, ∀ m ∈ ds, Decodes options c m)
    (hl : Shallow d ls) (hm : Shallow d ms)
    (h : forestLinesAt options (d + 1) cs ++ ls = forestLinesAt options (d + 1) ds ++ ms) :
    List.Forall₂ (Same options) cs ds ∧ ls = ms := by
  have hdeeper : ∀ {lines : List String}, Shallow d lines → Shallow (d + 1) lines :=
    fun hs line hline => Nat.le_succ_of_le (hs line hline)
  induction cs generalizing ds with
  | nil =>
    cases ds with
    | nil => exact ⟨.nil, h⟩
    | cons m ds =>
      rw [forestLinesAt, List.nil_append, forestLinesAt, List.append_assoc] at h
      exact absurd (h ▸ hl) (not_shallow_append options d m _)
  | cons c cs ih =>
    cases ds with
    | nil =>
      rw [forestLinesAt, forestLinesAt, List.nil_append, List.append_assoc] at h
      exact absurd (h ▸ hm) (not_shallow_append options d c _)
    | cons m ds =>
      rw [forestLinesAt, forestLinesAt, List.append_assoc, List.append_assoc] at h
      obtain ⟨hfirst, hrest⟩ := hchildren c List.mem_cons_self m List.mem_cons_self (d + 1) _ _
        (shallow_append options cs (hdeeper hl)) (shallow_append options ds (hdeeper hm)) h
      obtain ⟨hothers, hend⟩ := ih (fun c hc m hm => hchildren c (List.mem_cons_of_mem _ hc) m
        (List.mem_cons_of_mem _ hm)) hrest
      exact ⟨.cons hfirst hothers, hend⟩

theorem linesAt_append_split {n : Node P} {m : Node Q} {d : Nat} {ls ms : List String}
    (h : linesAt options d n ++ ls = linesAt options d m ++ ms) :
    head options n = head options m
      ∧ forestLinesAt options (d + 1) n.children ++ ls
        = forestLinesAt options (d + 1) m.children ++ ms := by
  rw [linesAt_eq, linesAt_eq] at h
  obtain ⟨hline, hrest⟩ := List.cons.inj h
  exact ⟨(String.append_right_inj _).mp hline, hrest⟩

theorem decodes {n : Node P} {m : Node Q} (hn : Readable n) (hm : Readable m) :
    Decodes options n m := by
  induction n generalizing m with
  | text i s =>
    intro d ls ms hls hms h
    obtain ⟨hhead, hrest⟩ := linesAt_append_split h
    cases m with
    | element j tag bs ds => exact absurd hhead head_text_ne_element
    | text j t =>
      obtain ⟨rfl, hidentity⟩ := head_text_inj hn.token hm.token hhead
      exact ⟨.text s hidentity, hrest⟩
  | element i tag as cs ih =>
    intro d ls ms hls hms h
    obtain ⟨hhead, hrest⟩ := linesAt_append_split h
    cases m with
    | text j t => exact absurd hhead.symm head_text_ne_element
    | element j other bs ds =>
      obtain ⟨rfl, hidentity, hattributes⟩ := head_element_inj hn hm hhead
      obtain ⟨hchildren, hend⟩ := forestLinesAt_append_inj
        (fun c hc e he => ih c hc (hn.child hc) (hm.child he)) hls hms hrest
      exact ⟨.element tag hidentity hattributes hchildren, hend⟩

theorem head_eq_of_same {n : Node P} {m : Node Q} (h : Same options n m) :
    head options n = head options m := by
  have hsame : ∀ {i j : NodeId}, SameIdentity options i j →
      identity options i = identity options j := by
    intro i j hij
    unfold identity
    split
    · rfl
    · next hon => rw [hij (by simpa using hon)]
  cases h with
  | text s hidentity => rw [head, head, hsame hidentity]
  | element tag hidentity hattributes _ =>
    have hsorted := sorted_eq_iff.mpr (hattributes.map Facet.text)
    rw [← map_attributeText, ← map_attributeText] at hsorted
    rw [head, head, hsame hidentity, attributesText, attributesText, hsorted]

theorem forestLinesAt_congr {cs : List (Node P)} {ds : List (Node Q)} {d : Nat}
    (h : List.Forall₂ (fun c m => linesAt options d c = linesAt options d m) cs ds) :
    forestLinesAt options d cs = forestLinesAt options d ds := by
  induction h with
  | nil => rfl
  | cons hfirst _ ih => rw [forestLinesAt, forestLinesAt, hfirst, ih]

theorem linesAt_eq_of_same {n : Node P} {m : Node Q} (h : Same options n m) (d : Nat) :
    linesAt options d n = linesAt options d m := by
  induction n generalizing m d with
  | text i s =>
    rw [linesAt_eq, linesAt_eq, head_eq_of_same h]
    cases h
    rfl
  | element i tag as cs ih =>
    have hlines : forestLinesAt options (d + 1) cs = forestLinesAt options (d + 1) m.children :=
      forestLinesAt_congr ((Node.forall₂_mem h.children).imp
        fun c m hcm => ih c hcm.1 hcm.2.2 (d + 1))
    rw [linesAt_eq, linesAt_eq, head_eq_of_same h, Node.children, hlines]

theorem lines_eq_iff {n : Node P} {m : Node Q} (hn : Readable n) (hm : Readable m) :
    lines options n = lines options m ↔ Same options n m := by
  constructor
  · intro h
    have hnil : Shallow 0 [] := by simp [Shallow]
    exact (decodes hn hm 0 [] [] hnil hnil (by simpa [lines] using h)).1
  · intro h
    exact linesAt_eq_of_same h 0

/-! ### Comparisons -/

theorem firstDifference_spec {as bs : List String} {line : Nat}
    (h : firstDifference as bs = some line) :
    as.take line = bs.take line ∧ as[line]? ≠ bs[line]? := by
  induction as generalizing bs line with
  | nil =>
    cases bs with
    | nil => exact nomatch h
    | cons b bs =>
      obtain rfl := Option.some.inj h
      simp
  | cons a as ih =>
    cases bs with
    | nil =>
      obtain rfl := Option.some.inj h
      simp
    | cons b bs =>
      rw [firstDifference] at h
      split at h
      · next hab =>
        obtain ⟨k, hk, rfl⟩ := Option.map_eq_some_iff.mp h
        simpa [hab] using ih hk
      · next hab =>
        obtain rfl := Option.some.inj h
        simpa using hab

theorem compare_eq_ok_iff (options : SnapshotOptions) (expected : Node P) (actual : Node Q) :
    compare options expected actual = .ok () ↔ lines options expected = lines options actual := by
  rw [← firstDifference_eq_none_iff]
  cases hline : firstDifference (lines options expected) (lines options actual) <;>
    simp [compare, hline]

/-- A comparison accepts a tree if and only if it is the expected one in what the options compare:
kinds, tags, texts and nesting, the attributes of each element up to their order, and identities if
they are not ignored. Otherwise it reports the first line on which the snapshots differ. Texts and
values of attributes can be any. -/
theorem compare_faithful (options : SnapshotOptions) {expected : Node P} {actual : Node Q}
    (he : Readable expected) (ha : Readable actual) :
    (compare options expected actual = .ok () ↔ Same options expected actual)
      ∧ (¬Same options expected actual → ∃ line, compare options expected actual
          = .error ⟨line, lines options expected, lines options actual⟩
        ∧ (lines options expected).take line = (lines options actual).take line
        ∧ (lines options expected)[line]? ≠ (lines options actual)[line]?) := by
  refine ⟨(compare_eq_ok_iff options expected actual).trans (lines_eq_iff he ha), fun h => ?_⟩
  cases hline : firstDifference (lines options expected) (lines options actual) with
  | none =>
    have hlines := (firstDifference_eq_none_iff _ _).mp hline
    exact absurd ((lines_eq_iff he ha).mp hlines) h
  | some line =>
    have herror : compare options expected actual
        = .error ⟨line, lines options expected, lines options actual⟩ := by
      simp only [compare, hline]
    exact ⟨line, herror, firstDifference_spec hline⟩

/-- Attributes in another order, other numbers and payloads make no difference, and a text that
reads like a line does not stand for one. The same text beside the paragraph instead of in it is
noticed. -/
theorem compare_faithful_of_paragraphs :
    let text := "<p>\n  \"x\" ="
    let expected : Node Unit := .element (.keyed "page") "div"
      [.plain "title" "a=\"b\" [", .handler ⟨"click", ⟨1⟩, ()⟩]
      [.element (.generated 1) "p" [] [.text (.generated 2) text]]
    let shuffled : Node Nat := .element (.keyed "page") "div"
      [.handler ⟨"click", ⟨7⟩, 5⟩, .plain "title" "a=\"b\" ["]
      [.element (.generated 8) "p" [] [.text (.generated 9) text]]
    let moved : Node Unit := .element (.keyed "page") "div"
      [.plain "title" "a=\"b\" [", .handler ⟨"click", ⟨1⟩, ()⟩]
      [.element (.generated 1) "p" [] [], .text (.generated 2) text]
    (Readable expected ∧ Readable shuffled ∧ Readable moved)
      ∧ compare {} expected shuffled = .ok ()
      ∧ ∃ line, compare {} expected moved = .error ⟨line, lines {} expected, lines {} moved⟩
        ∧ (lines {} expected).take line = (lines {} moved).take line
        ∧ (lines {} expected)[line]? ≠ (lines {} moved)[line]? := by
  intro text expected shuffled moved
  have he : Readable expected := by decide
  have hs : Readable shuffled := by decide
  have hm : Readable moved := by decide
  have htext : Same {} (Node.text (P := Unit) (.generated 2) text)
      (Node.text (P := Nat) (.generated 9) text) := .text text nofun
  have hsame : Same {} expected shuffled :=
    .element "div" nofun (.swap _ _ _) (.cons (.element "p" nofun .nil (.cons htext .nil)) .nil)
  have hmoved : ¬Same {} expected moved := fun h => nomatch h.children.length_eq
  have haccepted := (compare_faithful {} he hs).1.mpr hsame
  have hrefused := (compare_faithful {} he hm).2 hmoved
  exact ⟨⟨he, hs, hm⟩, haccepted, hrefused⟩

end ViewLoop.Snapshot
