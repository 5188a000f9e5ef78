import ViewLoop.Proofs.Reachable
import ViewLoop.Proofs.WellFormedTrees

/-!
# Tokens

The token of an identity is what a reader of the page sees of it. Two identities have one token
exactly where a key spells the token of a number (`NodeId.token_eq_iff`), which no supply looks out
for. So the nodes of a tree that was drawn from a supply are told apart by their tokens as far as no
key of the tree spells one of its numbers, on the page and in their identity attributes
(`Alignment.tokens_apart`).
-/

namespace ViewLoop

namespace NodeId

/-- The first identity is a key that reads like the second, a number. -/
def Spells (a b : NodeId) : Prop :=
  b.isAssigned = true ∧ b.isKeyed = false ∧ a = .keyed b.token

instance (a b : NodeId) : Decidable (a.Spells b) := inferInstanceAs (Decidable (_ ∧ _))

theorem token_generated_inj {n m : Nat} :
    (generated n).token = (generated m).token ↔ n = m := by
  refine ⟨fun h => ?_, fun h => h ▸ rfl⟩
  have htail : toString n = toString m := (String.append_right_inj "n").mp h
  have hdigits : Nat.toDigits 10 n = Nat.toDigits 10 m := by
    simpa only [Nat.toString_eq_repr, Nat.toList_repr] using congrArg String.toList htail
  simpa using congrArg (fun digits => Nat.ofDigitChars 10 digits 0) hdigits

theorem token_eq_iff {a b : NodeId} (ha : a.isAssigned = true) (hb : b.isAssigned = true) :
    a.token = b.token ↔ a = b ∨ a.Spells b ∨ b.Spells a := by
  cases a with
  | unassigned => cases ha
  | generated n =>
    cases b with
    | unassigned => cases hb
    | generated m => simp [token_generated_inj, Spells]
    | keyed key => simp [Spells, token, isAssigned, eq_comm]
  | keyed key =>
    cases b with
    | unassigned => cases hb
    | generated m => simp [Spells, token, isAssigned]
    | keyed other => simp [Spells, token]

/-- No key of the list spells one of its numbers. -/
def Unspelled (l : List NodeId) : Prop := ∀ a ∈ l, ∀ b ∈ l, ¬a.Spells b

instance (l : List NodeId) : Decidable (Unspelled l) :=
  inferInstanceAs (Decidable (∀ a ∈ l, ∀ b ∈ l, ¬a.Spells b))

theorem nodup_token_iff {l : List NodeId} (hnodup : l.Nodup)
    (hassigned : ∀ a ∈ l, a.isAssigned = true) : (l.map token).Nodup ↔ Unspelled l := by
  rw [List.nodup_map_iff_inj_on hnodup]
  constructor
  · intro h a ha b hb hspells
    have hab := h a ha b hb
      ((token_eq_iff (hassigned a ha) (hassigned b hb)).mpr (Or.inr (Or.inl hspells)))
    obtain ⟨-, hnumber, hkey⟩ := hspells
    rw [← hab, hkey] at hnumber
    cases hnumber
  · intro h a ha b hb htoken
    rcases (token_eq_iff (hassigned a ha) (hassigned b hb)).mp htoken with hab | hab | hba
    · exact hab
    · exact absurd hab (h a ha b hb)
    · exact absurd hba (h b hb a ha)

end NodeId

/-! ### Elements of a page -/

namespace Node

variable {P Q : Type}

/-- The identities of the elements of a tree in pre-order. -/
def elementIds (t : Node P) : List NodeId := (t.subtrees.filter fun m => !m.isText).map id

theorem elementIds_element (i : NodeId) (tag : String) (as : List (Attribute P))
    (cs : List (Node P)) :
    (element i tag as cs).elementIds = i :: cs.flatMap elementIds := by
  have helement : (element i tag as cs).isText = false := rfl
  simp only [elementIds, subtrees_element, List.filter_cons, helement, Bool.not_false, if_true,
    List.map_cons, List.filter_flatMap, List.map_flatMap]
  rfl

theorem elementIds_sublist (t : Node P) : t.elementIds.Sublist t.ids := by
  rw [ids_eq_map_subtrees]
  exact List.filter_sublist.map id

theorem elementIds_map (f : P → Q) (t : Node P) : (t.map f).elementIds = t.elementIds := by
  induction t with
  | element i tag as cs ih =>
    rw [map_element, elementIds_element, elementIds_element, List.flatMap_map]
    exact congrArg (i :: ·) (List.flatMap_congr ih)
  | text i s => rfl

theorem Alike.elementIds_eq {n m : Node P} (h : n.Alike m) : n.elementIds = m.elementIds := by
  induction n generalizing m with
  | element i tag as cs ih =>
    obtain ⟨bs, ds, rfl, -, hf⟩ := alike_element_iff.mp h
    rw [elementIds_element, elementIds_element, List.flatMap_def, List.flatMap_def,
      map_eq_of_forall₂ hf fun c hc d hd => ih c hc hd]
  | text i s => rw [alike_text_iff.mp h]

end Node

/-! ### HTML in pieces -/

namespace Markup

variable {P : Type}

/-- A piece of HTML: some text, or an attribute that is written on an element. -/
inductive Piece where
  | text (s : String)
  | attribute (owner : NodeId) (name value : String)

def Piece.write : Piece → String
  | .text s => s
  | .attribute _ name value => written name value

/-- The element and the value of a piece that is an `id` attribute. -/
def Piece.shownId? : Piece → Option (NodeId × String)
  | .text _ => none
  | .attribute owner name value => if name = Attribute.identityName then some (owner, value) else none

/-- What is written of an attribute on an element. -/
def attributePieces (owner : NodeId) : Attribute P → List Piece
  | .plain name value =>
    if name = Attribute.identityName then [] else [.attribute owner name value]
  | .handler _ => []

mutual

/-- The pieces that the HTML of a tree consists of. -/
def pieces : Node P → List Piece
  | .element id tag attributes children =>
    .text ("<" ++ tag) :: .attribute id Attribute.identityName id.token
      :: (attributes.flatMap (attributePieces id) ++ .text ">"
        :: (forestPieces children ++ [.text ("</" ++ tag ++ ">")]))
  | .text _ s => [.text (escape s)]

def forestPieces : List (Node P) → List Piece
  | [] => []
  | c :: cs => pieces c ++ forestPieces cs

end

theorem forestPieces_eq_flatMap (cs : List (Node P)) : forestPieces cs = cs.flatMap pieces := by
  induction cs with
  | nil => rfl
  | cons c cs ih => simp only [forestPieces, ih, List.flatMap_cons]

def write (l : List Piece) : String := concat (l.map Piece.write)

theorem write_cons (p : Piece) (l : List Piece) : write (p :: l) = p.write ++ write l := rfl

theorem write_append (l m : List Piece) : write (l ++ m) = write l ++ write m := by
  induction l with
  | nil => simp [write, concat]
  | cons p l ih => rw [List.cons_append, write_cons, write_cons, ih, String.append_assoc]

theorem write_attributePieces (owner : NodeId) (as : List (Attribute P)) :
    write (as.flatMap (attributePieces owner)) = concat (as.map ofAttribute) := by
  induction as with
  | nil => rfl
  | cons a as ih =>
    have hone : write (attributePieces owner a) = ofAttribute a := by
      cases a with
      | plain name value =>
        simp only [attributePieces, ofAttribute]
        split <;> simp [write, concat, Piece.write]
      | handler h => rfl
    rw [List.flatMap_cons, write_append, hone, ih]
    rfl

/-- The HTML of a tree is written piece by piece. -/
theorem ofNode_eq (t : Node P) : ofNode t = write (pieces t) := by
  induction t with
  | element i tag as cs ih =>
    have hforest : ofForest cs = write (forestPieces cs) := by
      clear as
      induction cs with
      | nil => rfl
      | cons c cs ihs =>
        rw [ofForest, forestPieces, write_append, ih c List.mem_cons_self,
          ihs fun d hd => ih d (List.mem_cons_of_mem _ hd)]
    rw [ofNode, pieces, write_cons, write_cons, write_append, write_cons, write_append,
      write_attributePieces, hforest]
    simp [Piece.write, write, concat, String.append_assoc, Attribute.identityName]
  | text i s => simp [ofNode, pieces, write, concat, Piece.write]

/-- An element shows one `id` attribute, with its token. -/
theorem shownIds_pieces (t : Node P) :
    (pieces t).filterMap Piece.shownId? = t.elementIds.map fun x => (x, x.token) := by
  induction t with
  | element i tag as cs ih =>
    have hattributes : (as.flatMap (attributePieces i)).filterMap Piece.shownId? = [] := by
      simp only [List.filterMap_eq_nil_iff, List.mem_flatMap]
      rintro q ⟨a, -, hq⟩
      cases a with
      | plain name value =>
        simp only [attributePieces] at hq
        split at hq
        · cases hq
        · rename_i hname
          obtain rfl := List.mem_singleton.mp hq
          exact if_neg hname
      | handler h => cases hq
    have hforest : (forestPieces cs).filterMap Piece.shownId?
        = (cs.flatMap Node.elementIds).map fun x => (x, x.token) := by
      rw [forestPieces_eq_flatMap, List.filterMap_flatMap, List.map_flatMap]
      exact List.flatMap_congr ih
    rw [pieces, Node.elementIds_element]
    simp [List.filterMap_cons, Piece.shownId?, hattributes, hforest]
  | text i s => rfl

theorem escapeChar_append_inj {c d : Char} {l m : List Char}
    (h : escapeChar c ++ l = escapeChar d ++ m) : c = d ∧ l = m := by
  unfold escapeChar at h
  split at h <;> split at h <;>
    simp only [List.cons_append, List.nil_append, List.cons.injEq] at h <;> grind

theorem escapeChar_ne_nil (c : Char) : escapeChar c ≠ [] := by
  unfold escapeChar
  split <;> simp

/-- A text can be read back from what is written for it. -/
theorem escape_inj {s t : String} : escape s = escape t ↔ s = t := by
  have hlist : ∀ l m : List Char, l.flatMap escapeChar = m.flatMap escapeChar → l = m := by
    intro l
    induction l with
    | nil =>
      intro m h
      cases m with
      | nil => rfl
      | cons d m => simp [escapeChar_ne_nil] at h
    | cons c l ih =>
      intro m h
      cases m with
      | nil => simp [escapeChar_ne_nil] at h
      | cons d m =>
        obtain ⟨rfl, hrest⟩ := escapeChar_append_inj h
        rw [ih m hrest]
  refine ⟨fun h => String.toList_inj.mp (hlist _ _ ?_), fun h => h ▸ rfl⟩
  simpa [escape] using congrArg String.toList h

end Markup

/-! ### Tokens of drawn trees -/

namespace Alignment

variable {P : Type} {s : IdSupply} {t : Node P}

theorem WellFormed.nodup_token_iff (h : WellFormed s t) {l : List NodeId} (hl : l.Sublist t.ids) :
    (l.map NodeId.token).Nodup ↔ NodeId.Unspelled l :=
  NodeId.nodup_token_iff (h.nodup.sublist hl) fun a ha => h.assigned a (hl.subset ha)

theorem WellFormed.identity_eq_iff (h : WellFormed s t) {m n : Node P} (hm : m ∈ t.subtrees)
    (hn : n ∈ t.subtrees) (hne : m.id ≠ n.id) {a b : Attribute P} (ha : a ∈ m.attributes)
    (hb : b ∈ n.attributes) (hi : a.isIdentity = true) (hj : b.isIdentity = true) :
    a = b ↔ m.id.Spells n.id ∨ n.id.Spells m.id := by
  have hassigned : ∀ x ∈ t.subtrees, x.id.isAssigned = true := fun x hx =>
    h.assigned x.id (Node.mem_ids_iff.mpr ⟨x, hx, rfl⟩)
  have htoken := NodeId.token_eq_iff (hassigned m hm) (hassigned n hn)
  rw [h.identity m hm a ha hi, h.identity n hn b hb hj]
  simp only [Attribute.identity, Attribute.plain.injEq, true_and, htoken, hne, false_or]

/-- Of a tree that was drawn from a supply, the nodes have different tokens exactly if no key spells
one of its numbers. A surface that shows the tree writes one `id` attribute for each element, with
the token, and what it writes is different exactly if no key of an element spells the number of
one. The identity attributes of two nodes are equal exactly if the key of one spells the number of
the other. -/
theorem tokens_apart {ts : List (Node P)} (h : Drawn s ts) (ht : t ∈ ts) :
    (t.ids.Nodup ∧ ((t.ids.map NodeId.token).Nodup ↔ NodeId.Unspelled t.ids))
    ∧ (∀ (f : Surface) (u : Node Unit), f.tree = .ok u → u.Alike t.erased →
      f.html = .ok (Markup.write (Markup.pieces u))
      ∧ (Markup.pieces u).filterMap Markup.Piece.shownId?
        = t.elementIds.map (fun x => (x, x.token))
      ∧ ((((Markup.pieces u).filterMap Markup.Piece.shownId?).map fun w =>
        Markup.escape w.2).Nodup ↔ NodeId.Unspelled t.elementIds))
    ∧ ∀ m ∈ t.subtrees, ∀ n ∈ t.subtrees, m.id ≠ n.id →
      ∀ a ∈ m.attributes, ∀ b ∈ n.attributes, a.isIdentity = true → b.isIdentity = true →
        (a = b ↔ m.id.Spells n.id ∨ n.id.Spells m.id) := by
  have hwell := h.wellFormed t ht
  refine ⟨⟨hwell.nodup, hwell.nodup_token_iff (List.Sublist.refl _)⟩, fun f u hu halike => ?_,
    fun m hm n hn hne a ha b hb hi hj => hwell.identity_eq_iff hm hn hne ha hb hi hj⟩
  have hids : u.elementIds = t.elementIds :=
    halike.elementIds_eq.trans (Node.elementIds_map _ t)
  have hshown := Markup.shownIds_pieces u
  rw [hids] at hshown
  refine ⟨?_, hshown, ?_⟩
  · rw [Surface.html, hu, ← Markup.ofNode_eq]
    rfl
  · have hescape : Function.Injective Markup.escape := fun a b => Markup.escape_inj.mp
    have hwritten : (t.elementIds.map fun x => (x, x.token)).map (fun w => Markup.escape w.2)
        = (t.elementIds.map NodeId.token).map Markup.escape := by
      simp only [List.map_map, Function.comp_def]
    rw [hshown, hwritten, List.nodup_map_iff hescape]
    exact hwell.nodup_token_iff (Node.elementIds_sublist t)

/-- A list of which one item has a key that reads like a number, but like none of the list. -/
theorem tokens_apart_of_list :
    let fresh : Node Empty := .element .unassigned "ul" [.plain "id" "menu"]
      [.element (.keyed "n7") "li" [.plain "id" "first"] [], .text .unassigned "rest"]
    let r := run none fresh {}
    let f := finalState ((Surface.render r.1).run
      (Surface.fresh { scheme := "app", path := .segments [] }))
    Drawn r.2.supply [r.1] ∧ r.1.ids.map NodeId.token = ["n1", "n7", "n2"]
      ∧ (r.1.ids.map NodeId.token).Nodup
      ∧ f.html = .ok "<ul id=\"n1\"><li id=\"n7\"></li>rest</ul>"
      ∧ ((Markup.pieces r.1.erased).filterMap Markup.Piece.shownId?).map Prod.snd = ["n1", "n7"]
      ∧ (Attribute.plain "id" "n1" : Attribute Empty) ≠ .plain "id" "n7" := by
  intro fresh r f
  have hdrawn : Drawn r.2.supply [r.1] :=
    .next (.start {}) none nofun fresh (by decide)
  obtain ⟨⟨-, htokens⟩, hshown, hidentity⟩ := tokens_apart hdrawn (List.mem_singleton_self r.1)
  have htree : f.tree = .ok r.1.erased := by decide +kernel
  obtain ⟨-, hids, -⟩ := hshown f r.1.erased htree (.refl _)
  refine ⟨hdrawn, rfl, htokens.mpr (by decide), by decide +kernel, ?_, fun h => ?_⟩
  · rw [hids]
    rfl
  · have hspells := (hidentity r.1 (Node.self_mem_subtrees r.1)
      (.element (.keyed "n7") "li" [.plain "id" "n7"] []) (by decide +kernel) (by decide)
      _ (by decide) _ List.mem_cons_self rfl rfl).mp h
    exact absurd hspells (by decide)

/-- The first number that is drawn and the key `n1` are two identities with one token: a page has
two elements with the same `id`, and two nodes with the same identity attribute. -/
theorem token_shared :
    let fresh : Node Empty := .element .unassigned "div" [.plain "id" "box"]
      [.element (.keyed "n1") "p" [.plain "id" "note"] []]
    let r := run none fresh {}
    let f := finalState ((Surface.render r.1).run
      (Surface.fresh { scheme := "app", path := .segments [] }))
    fresh.DistinctKeys ∧ Drawn r.2.supply [r.1]
      ∧ r.1.ids = [.generated 1, .keyed "n1"] ∧ r.1.ids.map NodeId.token = ["n1", "n1"]
      ∧ f.html = .ok "<div id=\"n1\"><p id=\"n1\"></p></div>"
      ∧ r.1.subtrees.map Node.attributes = [[.plain "id" "n1"], [.plain "id" "n1"]] := by
  intro fresh r f
  have hkeys : fresh.DistinctKeys := by decide
  exact ⟨hkeys, .next (.start {}) none nofun fresh hkeys, rfl, rfl, by decide +kernel, rfl⟩

end Alignment

end ViewLoop
