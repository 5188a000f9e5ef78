import Mathlib.Data.List.Flatten
import ViewLoop.Proofs.AlignmentSteps
import ViewLoop.Proofs.Retention

/-!
# Aligned trees

What alignment makes of an admissible tree: it says the same (`Alignment.described_run`), it is
grounded in the supply (`Alignment.grounded_run`), and its handlers are retained from the tree
before it (`Alignment.revision_run`).
-/

namespace ViewLoop

variable {P : Type}

namespace Node

/-- No key occurs twice in the tree. -/
def DistinctKeys (n : Node P) : Prop := (n.ids.filter NodeId.isKeyed).Nodup

instance (n : Node P) : Decidable n.DistinctKeys :=
  inferInstanceAs (Decidable (n.ids.filter NodeId.isKeyed).Nodup)

theorem DistinctKeys.child {i : NodeId} {tag : String} {as : List (Attribute P)}
    {cs : List (Node P)} (h : (element i tag as cs).DistinctKeys) {c : Node P} (hc : c ∈ cs) :
    c.DistinctKeys := by
  rw [DistinctKeys, ids_element] at h
  obtain ⟨pre, post, rfl⟩ := List.append_of_mem hc
  refine h.sublist (List.Sublist.filter _ (.cons _ ?_))
  rw [List.flatMap_append, List.flatMap_cons]
  exact (List.sublist_append_left _ _).trans (List.sublist_append_right _ _)

/-- The keys among the children of a fresh element. -/
theorem DistinctKeys.children {i : NodeId} {tag : String} {as : List (Attribute P)}
    {cs : List (Node P)} (h : (element i tag as cs).DistinctKeys) :
    ((cs.map id).filter NodeId.isKeyed).Nodup := by
  rw [DistinctKeys, ids_element] at h
  exact h.sublist (List.Sublist.filter _ ((map_id_sublist cs).cons _))

/-- What is asked of the body of a view: no key occurs twice in it, and no element has a plain
attribute twice. -/
structure Admissible (n : Node P) : Prop where
  keys : (n.ids.filter NodeId.isKeyed).Nodup
  names : ∀ m ∈ n.subtrees, (m.attributes.filterMap Attribute.plainName?).Nodup

instance (n : Node P) : Decidable n.Admissible :=
  decidable_of_iff ((n.ids.filter NodeId.isKeyed).Nodup
      ∧ ∀ m ∈ n.subtrees, (m.attributes.filterMap Attribute.plainName?).Nodup)
    ⟨fun h => ⟨h.1, h.2⟩, fun h => ⟨h.keys, h.names⟩⟩

theorem Admissible.child {i : NodeId} {tag : String} {as : List (Attribute P)}
    {cs : List (Node P)} (h : (element i tag as cs).Admissible) {c : Node P} (hc : c ∈ cs) :
    c.Admissible :=
  ⟨DistinctKeys.child h.keys hc,
    fun m hmc => h.names m (mem_subtrees_trans (mem_subtrees_child i tag as hc) hmc)⟩

theorem Admissible.own {i : NodeId} {tag : String} {as : List (Attribute P)}
    {cs : List (Node P)} (h : (element i tag as cs).Admissible) :
    (as.filterMap Attribute.plainName?).Nodup := h.names _ (self_mem_subtrees _)

mutual

/-- What a tree says: its kinds, tags, texts, keys and attributes, with the first handler for each
event, and without the identities that were not chosen by a view. -/
def described : Node P → Node P
  | element i tag as cs =>
    element (if i.isKeyed then i else .unassigned) tag (Alignment.describedAttributes as)
      (describedForest cs)
  | text i s => text (if i.isKeyed then i else .unassigned) s

def describedForest : List (Node P) → List (Node P)
  | [] => []
  | c :: cs => c.described :: describedForest cs

end

theorem describedForest_eq (cs : List (Node P)) : describedForest cs = cs.map described := by
  induction cs with
  | nil => rfl
  | cons c cs ih => rw [describedForest, List.map_cons, ih]

end Node

namespace Alignment

/-! ### What is said stays -/

theorem described_id (o : Option (Node P)) (fresh : Node P) (s : State) :
    (if (idFor (recognise o fresh) fresh.id s).1.isKeyed then
      (idFor (recognise o fresh) fresh.id s).1 else .unassigned)
      = if fresh.id.isKeyed then fresh.id else .unassigned := by
  rcases idFor_cases o fresh s with ⟨-, h⟩ | ⟨hk, p, hr, h⟩ | ⟨hk, -, h⟩
  · rw [h]
  · have hp := (recognised_same hr).2.2.1
    rw [h, hk, hp, hk]
    rfl
  · rw [h, hk]
    rfl

theorem described_node (o : Option (Node P)) (s : State) {fresh : Node P}
    (hf : fresh.Admissible) : (node o s fresh).1.described = fresh.described := by
  refine node_induct (R := fun _ _ fresh t _ => fresh.Admissible → t.described = fresh.described)
    ?_ ?_ o s fresh hf
  · intro o s i u _
    exact congrArg (Node.text · u) (described_id _ (.text i u) s)
  · rintro o s i tag fresh cs ts s' r own kept rfl rfl rfl hbelow hf
    have hid := described_id o (.element i tag fresh cs) s
    have hforest : ts.map Node.described = cs.map Node.described :=
      hbelow.map_eq fun _ _ c t _ hc ht => ht (hf.child hc)
    rw [Node.described, Node.described, Node.describedForest_eq, Node.describedForest_eq, hforest,
      described_attributes hf.own]
    exact congrArg (Node.element · tag _ _) hid

/-! ### Attributes of aligned trees -/

/-- The attributes of every element have distinct keys, and show its identity if they show any. -/
def WellLabelled (t : Node P) : Prop :=
  ∀ m ∈ t.subtrees, (m.attributes.map Attribute.key).Nodup
    ∧ ∀ a ∈ m.attributes, a.isIdentity = true → a = .identity m.id

theorem before_attributes (owner : NodeId) (previous fresh : List (Attribute P)) (s : State) :
    s.supply.Before (attributes owner previous fresh s).2.supply := (identified_of_mem _ _ _ _).1

theorem before_idFor (o : Option (Node P)) (fresh : Node P) (s : State) :
    s.supply.Before (idFor (recognise o fresh) fresh.id s).2.supply := by
  rcases idFor_cases o fresh s with ⟨-, h⟩ | ⟨-, p, -, h⟩ | ⟨-, -, h⟩
  · exact h ▸ .refl _
  · exact h ▸ .refl _
  · exact h ▸ IdSupply.before_mintNode _

/-- Induction along alignment for what holds of every node, whatever its candidate. -/
theorem node_induct_before {R : Option (Node P) → IdSupply → Node P → Node P → IdSupply → Prop}
    (text : ∀ o s i u, R o s.supply (.text i u)
      (.text (idFor (recognise o (.text i u)) i s).1 u)
      (idFor (recognise o (.text i u)) i s).2.supply)
    (element : ∀ o s i tag fresh cs ts s' r own kept,
      recognise o (.element i tag fresh cs) = r → idFor r i s = own →
      attributes own.1 ((r.map Node.attributes).getD []) fresh own.2 = kept →
      s.supply.Before kept.2.supply →
      (∀ t ∈ ts, ∃ o ∈ candidates (r.map Siblings.below) cs, ∃ c ∈ cs, ∃ s₁ s₂,
        kept.2.supply.Before s₁ ∧ R o s₁ c t s₂) →
      R o s.supply (.element i tag fresh cs) (.element own.1 tag kept.1 ts) s')
    (o : Option (Node P)) (s : State) (fresh : Node P) :
    R o s.supply fresh (node o s fresh).1 (node o s fresh).2.supply := by
  have hboth := node_induct (R := fun o s fresh t s' => s.Before s' ∧ R o s fresh t s')
    (fun o s i u => ⟨before_idFor o (.text i u) s, text o s i u⟩) ?_ o s fresh
  · exact hboth.2
  · intro o s i tag fresh cs ts s' r own kept hr hown hkept hbelow
    have hle : s.supply.Before kept.2.supply := by
      rw [← hkept, ← hown, ← hr]
      exact (before_idFor o (.element i tag fresh cs) s).trans (before_attributes _ _ _ _)
    have hR : ∀ (o : Option (Node P)) s c t s', (s.Before s' ∧ R o s c t s') → s.Before s' :=
      fun _ _ _ _ _ h => h.1
    refine ⟨hle.trans (hbelow.before hR), ?_⟩
    refine element o s i tag fresh cs ts s' r own kept hr hown hkept hle fun t ht => ?_
    obtain ⟨o', ho, c, hc, s₁, s₂, hle', -, h⟩ := hbelow.exists_of_mem hR ht
    exact ⟨o', ho, c, hc, s₁, s₂, hle', h⟩

/-- The attributes of every aligned node are those of a fresh node, aligned with some previous
ones. -/
theorem attributes_of_mem (o : Option (Node P)) (s : State) (fresh : Node P) :
    ∀ m ∈ (node o s fresh).1.subtrees, ∃ f ∈ fresh.subtrees, ∃ previous s',
      m.attributes = (attributes m.id previous f.attributes s').1 := by
  refine node_induct_before (R := fun _ _ fresh t _ => ∀ m ∈ t.subtrees, ∃ f ∈ fresh.subtrees,
    ∃ previous s', m.attributes = (attributes m.id previous f.attributes s').1) ?_ ?_ o s fresh
  · intro o s i u m hm
    obtain rfl := List.mem_singleton.mp hm
    exact ⟨_, Node.self_mem_subtrees _, [], s, rfl⟩
  · rintro o s i tag fresh cs ts s' r own kept - - rfl - hbelow m hm
    rw [Node.subtrees_element, List.mem_cons] at hm
    rcases hm with rfl | hm
    · exact ⟨_, Node.self_mem_subtrees _, _, _, rfl⟩
    · obtain ⟨t, ht, hmt⟩ := List.mem_flatMap.mp hm
      obtain ⟨_, -, c, hc, _, _, -, h⟩ := hbelow t ht
      obtain ⟨f, hf, hm⟩ := h m hmt
      exact ⟨f, Node.mem_subtrees_of_mem hc hf, hm⟩

theorem wellLabelled_node (o : Option (Node P)) (s : State) {fresh : Node P}
    (hf : fresh.Admissible) : WellLabelled (node o s fresh).1 := by
  intro m hm
  obtain ⟨f, hmem, previous, s', he⟩ := attributes_of_mem o s fresh m hm
  rw [he]
  exact ⟨keys_attributes (hf.names f hmem), fun a ha hi => identity_of_mem_attributes ha hi⟩

/-! ### Marks of aligned trees -/

/-- Previous nodes that may be recognised: their marks are distinct and were drawn before. -/
structure Offered (s : IdSupply) (l : List (Node P)) : Prop where
  nodup : (l.flatMap (Node.marks true)).Nodup
  below : ∀ x ∈ l.flatMap (Node.marks true), s.Below x

theorem Offered.mono {s s' : IdSupply} {l : List (Node P)} (h : Offered s l) (hs : s.Before s') :
    Offered s' l := ⟨h.nodup, fun x hx => (h.below x hx).mono hs⟩

theorem Offered.of_mem {s : IdSupply} {l : List (Node P)} (h : Offered s l) {p : Node P}
    (hp : p ∈ l) : Offered s [p] := by
  have hsub : ∀ x ∈ p.marks true, x ∈ l.flatMap (Node.marks true) := fun x hx =>
    List.mem_flatMap.mpr ⟨p, hp, hx⟩
  refine ⟨?_, ?_⟩
  · rw [List.flatMap_singleton]
    exact (List.nodup_flatMap.mp h.nodup).1 p hp
  · rw [List.flatMap_singleton]
    exact fun x hx => h.below x (hsub x hx)

theorem nodup_flatMap_of_subset {α β : Type} {f : α → List β} {l l' : List α}
    (h : (l.flatMap f).Nodup) (hn : l'.Nodup) (hl : l' ⊆ l) : (l'.flatMap f).Nodup := by
  obtain ⟨m, hperm, hsub⟩ := List.subperm_of_subset hn hl
  exact (hperm.flatMap_right _).nodup_iff.mp (h.sublist (hsub.flatMap f))

theorem supplied_idFor (o : Option (Node P)) (s : State) (fresh : Node P) :
    Supplied [fresh.id] ((recognise o fresh).toList.map fun p => .node p.id) s.supply
      (idFor (recognise o fresh) fresh.id s).2.supply
      [.node (idFor (recognise o fresh) fresh.id s).1] := by
  rcases idFor_cases o fresh s with ⟨hk, h⟩ | ⟨hk, p, hr, h⟩ | ⟨-, -, h⟩
  · rw [h]
    refine ⟨.refl _, List.nodup_singleton _, fun x hx => Or.inl ?_⟩
    exact ⟨fresh.id, List.mem_singleton_self _, hk, List.mem_singleton.mp hx⟩
  · have hp := (recognised_same hr).2.2.1
    rw [h, hr]
    refine ⟨.refl _, List.nodup_singleton _, fun x hx => Or.inr (Or.inr ⟨hx, ?_⟩)⟩
    rw [List.mem_singleton.mp hx]
    exact hp.trans hk
  · rw [h]
    refine ⟨IdSupply.before_mintNode _, List.nodup_singleton _, fun x hx => Or.inr (Or.inl ?_)⟩
    rw [List.mem_singleton.mp hx]
    exact IdSupply.minted_mintNode _

theorem reduceOption_candidates_none (cs : List (Node P)) :
    (candidates none cs).reduceOption = [] := by
  induction cs with
  | nil => rfl
  | cons c cs ih => exact ih

/-- The candidates for children are different children of the node that was recognised. -/
theorem reduceOption_candidates {p : Node P} {cs : List (Node P)}
    (hp : (p.children.map Node.id).Nodup) (hc : ((cs.map Node.id).filter NodeId.isKeyed).Nodup) :
    (candidates (some (Siblings.below p)) cs).reduceOption.Nodup
      ∧ (candidates (some (Siblings.below p)) cs).reduceOption ⊆ p.children := by
  have hsound := Siblings.sound_below hp
  refine ⟨Siblings.nodup_candidates hsound hc, fun q hq => ?_⟩
  exact (Siblings.mem_candidates hsound (List.reduceOption_mem_iff.mp hq)).1

/-- The old marks from which the parts of an element are supplied. -/
def partMarks (r : Option (Node P)) (cs : List (Node P)) : List Mark :=
  r.toList.map (fun p => .node p.id)
    ++ (((r.map Node.attributes).getD []).flatMap (Attribute.marks true)
      ++ (candidates (r.map Siblings.below) cs).reduceOption.flatMap (Node.marks true))

theorem partMarks_of_recognised {s : IdSupply} {o : Option (Node P)} (fresh : Node P)
    {cs : List (Node P)} (ho : Offered s o.toList)
    (hc : ((cs.map Node.id).filter NodeId.isKeyed).Nodup) :
    (partMarks (recognise o fresh) cs).Nodup
      ∧ partMarks (recognise o fresh) cs ⊆ o.toList.flatMap (Node.marks true) := by
  cases hr : recognise o fresh with
  | none =>
    have hnil : partMarks (none : Option (Node P)) cs = [] := by
      rw [partMarks, Option.map_none, Option.map_none, reduceOption_candidates_none]
      rfl
    rw [hnil]
    exact ⟨List.nodup_nil, List.nil_subset _⟩
  | some p =>
    obtain rfl := (recognised_same hr).1
    have hmarks := ho.nodup
    simp only [Option.toList_some, List.flatMap_singleton] at hmarks ⊢
    have hchildren : (p.children.map Node.id).Nodup := by
      cases p with
      | text i u => exact List.nodup_nil
      | element i tag as ds => exact Node.nodup_children_of_marks hmarks
    obtain ⟨hnd, hsub⟩ := reduceOption_candidates hchildren hc
    rw [Node.marks_eq, Node.ownMarks, List.cons_append] at hmarks ⊢
    obtain ⟨hnode, hrest⟩ := List.nodup_cons.mp hmarks
    rw [List.nodup_append] at hrest
    obtain ⟨hattributes, hbelow, hdis⟩ := hrest
    have hsub' : (candidates (some (Siblings.below p)) cs).reduceOption.flatMap (Node.marks true)
        ⊆ p.children.flatMap (Node.marks true) := by
      intro x hx
      obtain ⟨q, hq, hxq⟩ := List.mem_flatMap.mp hx
      exact List.mem_flatMap.mpr ⟨q, hsub hq, hxq⟩
    have hparts : partMarks (some p) cs = .node p.id
        :: (p.attributes.flatMap (Attribute.marks true)
          ++ (candidates (some (Siblings.below p)) cs).reduceOption.flatMap (Node.marks true)) :=
      rfl
    have hall : p.attributes.flatMap (Attribute.marks true)
          ++ (candidates (some (Siblings.below p)) cs).reduceOption.flatMap (Node.marks true)
        ⊆ p.attributes.flatMap (Attribute.marks true) ++ p.children.flatMap (Node.marks true) :=
      List.append_subset.mpr ⟨List.subset_append_left _ _,
        fun x hx => List.mem_append_right _ (hsub' hx)⟩
    rw [hparts]
    refine ⟨List.nodup_cons.mpr ⟨fun hm => hnode (hall hm), ?_⟩, List.cons_subset_cons _ hall⟩
    refine List.nodup_append.mpr ⟨hattributes, nodup_flatMap_of_subset hbelow hnd hsub, ?_⟩
    exact fun x hx y hy => hdis x hx y (hsub' hy)

theorem Threaded.supplied {os : List (Option (Node P))} {s s' : IdSupply} {cs ts : List (Node P)}
    (h : Threaded (fun o s fresh t s' => fresh.DistinctKeys → Offered s o.toList →
      Supplied fresh.ids (o.toList.flatMap (Node.marks true)) s s' (t.marks true)) os s cs ts s')
    (hc : ∀ c ∈ cs, c.DistinctKeys) (hk : ((cs.flatMap Node.ids).filter NodeId.isKeyed).Nodup)
    (ho : Offered s os.reduceOption) :
    Supplied (cs.flatMap Node.ids) (os.reduceOption.flatMap (Node.marks true)) s s'
      (ts.flatMap (Node.marks true)) := by
  induction h with
  | nil => exact .nil _
  | @cons o os s s₁ s' c t cs ts first _ ih =>
    have hsplit : (o :: os).reduceOption = o.toList ++ os.reduceOption := by
      cases o with
      | none => exact List.reduceOption_cons_of_none os
      | some p => exact List.reduceOption_cons_of_some p os
    rw [hsplit] at ho ⊢
    rw [List.flatMap_append]
    obtain ⟨hnd, hbelow⟩ := ho
    rw [List.flatMap_append] at hnd hbelow
    obtain ⟨hfirst, hrest, hdis⟩ := List.nodup_append.mp hnd
    have hbelowFirst := fun x hx => hbelow x (List.mem_append_left _ hx)
    have hbelowRest := fun x hx => hbelow x (List.mem_append_right _ hx)
    rw [List.flatMap_cons, List.filter_append] at hk
    obtain ⟨-, hkrest, hkdis⟩ := List.nodup_append.mp hk
    have h1 := first (hc c List.mem_cons_self) ⟨hfirst, hbelowFirst⟩
    have h2 := ih (fun d hd => hc d (List.mem_cons_of_mem _ hd)) hkrest
      ((⟨hrest, hbelowRest⟩ : Offered s os.reduceOption).mono h1.before)
    rw [List.flatMap_cons, List.flatMap_cons]
    refine h1.append h2 (fun k hk hkey hk' => ?_) (fun x hx _ hx' => hdis x hx x hx' rfl)
      hbelowFirst hbelowRest
    exact hkdis k (List.mem_filter.mpr ⟨hk, hkey⟩) k (List.mem_filter.mpr ⟨hk', hkey⟩) rfl

theorem supplied_node (o : Option (Node P)) (s : State) {fresh : Node P}
    (hf : fresh.DistinctKeys) (ho : Offered s.supply o.toList) :
    Supplied fresh.ids (o.toList.flatMap (Node.marks true)) s.supply (node o s fresh).2.supply
      ((node o s fresh).1.marks true) := by
  -- What a node offers and what is asked of it is part of the motive, as both are passed on to its
  -- children.
  refine node_induct (R := fun o s fresh t s' => fresh.DistinctKeys → Offered s o.toList →
    Supplied fresh.ids (o.toList.flatMap (Node.marks true)) s s' (t.marks true)) ?_ ?_ o s fresh hf ho
  · intro o s i u _ ho
    have hparts := (@partMarks_of_recognised _ s.supply o (.text i u) [] ho List.nodup_nil).2
    refine (supplied_idFor o s (.text i u)).mono (List.Subset.refl _) ?_
    exact fun x hx => hparts (List.mem_append_left _ hx)
  · rintro o s i tag fresh cs ts s' r own kept hr rfl rfl hbelow hf ho
    have hkeys := hf
    rw [Node.DistinctKeys, Node.ids_element] at hkeys
    obtain ⟨hnd, hsub⟩ := partMarks_of_recognised (.element i tag fresh cs) ho hf.children
    rw [hr] at hnd hsub
    have hall : ∀ x ∈ partMarks r cs, s.supply.Below x := fun x hx => ho.below x (hsub hx)
    rw [partMarks] at hnd hall hsub
    obtain ⟨-, hnd', hdis⟩ := List.nodup_append.mp hnd
    obtain ⟨hattributes, hcandidates, hdis'⟩ := List.nodup_append.mp hnd'
    have hbelowAttributes := fun x hx =>
      hall x (List.mem_append_right _ (List.mem_append_left _ hx))
    have hbelowCandidates := fun x hx =>
      hall x (List.mem_append_right _ (List.mem_append_right _ hx))
    -- The three parts are drawn one after another: the identity, the attributes, the children.
    have h1 := supplied_idFor o s (.element i tag fresh cs)
    rw [hr] at h1
    have h2 := supplied_attributes (idFor r i s).1 fresh (s := (idFor r i s).2) hattributes
      fun x hx => (hbelowAttributes x hx).mono h1.before
    have h3 := hbelow.supplied (fun c hc => hf.child hc)
      (hkeys.sublist (List.Sublist.filter _ (List.sublist_cons_self _ _)))
      ⟨hcandidates, fun x hx => (hbelowCandidates x hx).mono (h1.before.trans h2.before)⟩
    have h23 := h2.append h3 (fun k hk => absurd hk List.not_mem_nil)
      (fun x hx _ hx' => hdis' x hx x hx' rfl)
      (fun x hx => (hbelowAttributes x hx).mono h1.before)
      (fun x hx => (hbelowCandidates x hx).mono h1.before)
    have h123 := h1.append h23 (fun k hk hkey hk' => ?_) (fun x hx _ hx' => hdis x hx x hx' rfl)
      (fun x hx => hall x (List.mem_append_left _ hx))
      (fun x hx => hall x (List.mem_append_right _ hx))
    · rw [Node.marks_element, Node.ids_element]
      exact h123.mono (List.Subset.refl _) hsub
    · obtain rfl := List.mem_singleton.mp hk
      rw [List.filter_cons_of_pos hkey, List.nodup_cons] at hkeys
      exact hkeys.1 (List.mem_filter.mpr ⟨hk', hkey⟩)

/-! ### Retained handlers -/

/-- The handlers of an aligned node are retained from its candidate, or are all new. -/
def Settled (bound : Nat) (l : List (Node P)) (t : Node P) : Prop :=
  (∃ p ∈ l, p.id = t.id ∧ Node.Retains (fun x => x.val ≤ bound) p t)
    ∨ ∀ k ∈ t.handlers, ¬k.2.id.val ≤ bound

theorem Settled.mono {bound : Nat} {l l' : List (Node P)} {t : Node P} (h : Settled bound l t)
    (hl : l ⊆ l') : Settled bound l' t := by
  refine h.imp_left ?_
  rintro ⟨p, hp, hid, hr⟩
  exact ⟨p, hl hp, hid, hr⟩

/-- An element that was recognised keeps the handlers of its attributes and of its children. -/
theorem retains_of_settled {bound : Nat} {i : NodeId} {tag : String}
    {previous fresh : List (Attribute P)} {pcs ts : List (Node P)} {s : State}
    (hpcs : (pcs.map Node.id).Nodup) (hb : bound ≤ s.supply.handlers)
    (hts : ∀ t ∈ ts, Settled bound pcs t) :
    Node.Retains (fun x => x.val ≤ bound) (.element i tag previous pcs)
      (.element i tag (attributes i previous fresh s).1 ts) := by
  refine .inPlace (fun k hk hknown => ?_) (fun c hc d hd hid => ?_) fun d hd hid k hk => ?_
  · exact retained_attribute hk (Nat.le_trans hknown hb)
  · rcases hts d hd with ⟨p, hp, hpd, hr⟩ | hnew
    · obtain rfl := List.inj_on_of_nodup_map hpcs hp hc (hpd.trans hid.symm)
      exact hr
    · exact .apart hnew
  · rcases hts d hd with ⟨p, hp, hpd, -⟩ | hnew
    · exact absurd (hpd ▸ List.mem_map_of_mem hp) hid
    · exact hnew k hk

/-- An element that was not recognised has new handlers only. -/
theorem new_of_settled {bound : Nat} {i : NodeId} {tag : String} {fresh : List (Attribute P)}
    {ts : List (Node P)} {s : State} (hb : bound ≤ s.supply.handlers)
    (hts : ∀ t ∈ ts, Settled bound [] t) :
    ∀ k ∈ (Node.element i tag (attributes i [] fresh s).1 ts).handlers, ¬k.2.id.val ≤ bound := by
  intro k hk hknown
  obtain ⟨m, hm, hid, ha⟩ := Node.mem_handlers_iff.mp hk
  rw [Node.subtrees_element, List.mem_cons] at hm
  rcases hm with rfl | hm
  · obtain ⟨j, hj, -⟩ := retained_attribute ha (Nat.le_trans hknown hb)
    exact absurd hj List.not_mem_nil
  · obtain ⟨t, ht, hmt⟩ := List.mem_flatMap.mp hm
    rcases hts t ht with ⟨p, hp, -⟩ | hnew
    · exact absurd hp List.not_mem_nil
    · exact hnew k (Node.mem_handlers_iff.mpr ⟨m, hmt, hid, ha⟩) hknown

theorem settled_node (bound : Nat) (o : Option (Node P)) (s : State) {fresh : Node P}
    (hf : fresh.DistinctKeys) (ho : Offered s.supply o.toList) (hb : bound ≤ s.supply.handlers) :
    Settled bound o.toList (node o s fresh).1 := by
  refine node_induct_before (R := fun o s fresh t s' => fresh.DistinctKeys → Offered s o.toList →
    bound ≤ s.handlers → Settled bound o.toList t) ?_ ?_ o s fresh hf ho hb
  · exact fun _ _ _ _ _ _ _ => Or.inr fun k hk => absurd hk List.not_mem_nil
  · rintro o s i tag fresh cs ts s' r own kept hr rfl rfl hle hbelow hf ho hb
    have hb' : bound ≤ (idFor r i s).2.supply.handlers := by
      have := before_idFor o (.element i tag fresh cs) s
      rw [hr] at this
      exact Nat.le_trans hb this.handlers
    have hchildren := hf.children
    obtain ⟨hnd, hsub⟩ := partMarks_of_recognised (.element i tag fresh cs) ho hchildren
    rw [hr, partMarks, ← List.append_assoc] at hnd hsub
    have hoffered : Offered s.supply (candidates (r.map Siblings.below) cs).reduceOption :=
      ⟨hnd.of_append_right, fun x hx => ho.below x (hsub (List.mem_append_right _ hx))⟩
    have hts : ∀ t ∈ ts,
        Settled bound (candidates (r.map Siblings.below) cs).reduceOption t := by
      intro t ht
      obtain ⟨q, hq, c, hc, s₁, s₂, hle', h⟩ := hbelow t ht
      have hb₁ := Nat.le_trans hb (hle.trans hle').handlers
      cases q with
      | none => exact (h (hf.child hc) ⟨List.nodup_nil, by simp⟩ hb₁).mono (List.nil_subset _)
      | some q =>
        have hq' := List.reduceOption_mem_iff.mpr hq
        refine (h (hf.child hc) ((hoffered.of_mem hq').mono (hle.trans hle')) hb₁).mono ?_
        exact List.cons_subset.mpr ⟨hq', List.nil_subset _⟩
    -- Handlers are retained where the element was recognised; elsewhere there are no candidates below
    -- it, so that nothing can be retained.
    cases r with
    | none =>
      rw [Option.map_none, reduceOption_candidates_none] at hts
      exact Or.inr (new_of_settled hb' hts)
    | some p =>
      obtain ⟨rfl, hshape, -⟩ := recognised_same hr
      have hown := idFor_of_recognised s hr
      cases p with
      | text j u => exact absurd hshape (by simp [Node.SameShape, Node.tag?])
      | element j other pas pcs =>
        obtain rfl : other = tag := Option.some.inj hshape
        have hpcs : (pcs.map Node.id).Nodup := by
          have := ho.nodup
          simp only [Option.toList_some, List.flatMap_singleton] at this
          exact Node.nodup_children_of_marks this
        rw [show idFor (some (Node.element j other pas pcs)) i s = (j, s) from hown]
        refine Or.inl ⟨_, List.mem_singleton_self _, rfl, ?_⟩
        refine retains_of_settled hpcs hb fun t ht => (hts t ht).mono ?_
        exact (reduceOption_candidates (p := .element j other pas pcs) hpcs hchildren).2

/-! ### Runs of alignment -/

/-- A tree that may be live with the supply in the state: it is tidy, its marks are distinct, and
what was drawn for it was drawn before. -/
structure Grounded (s : IdSupply) (t : Node P) : Prop where
  tidy : t.Tidy
  marks : (t.marks true).Nodup
  below : ∀ x ∈ t.marks true, s.Below x

variable {previous : Option (Node P)} {fresh p : Node P} {supply : IdSupply}

theorem offered_of_forall
    (h : ∀ p ∈ previous, (p.marks true).Nodup ∧ ∀ x ∈ p.marks true, supply.Below x) :
    Offered supply previous.toList := by
  cases previous with
  | none => exact ⟨List.nodup_nil, by simp⟩
  | some p =>
    obtain ⟨hmarks, hbelow⟩ := h p rfl
    refine ⟨?_, ?_⟩ <;> rw [Option.toList_some, List.flatMap_singleton]
    · exact hmarks
    · exact hbelow

theorem offered_of_grounded (h : ∀ p ∈ previous, Grounded supply p) :
    Offered supply previous.toList :=
  offered_of_forall fun p hp => ⟨(h p hp).marks, (h p hp).below⟩

theorem described_run (hf : fresh.Admissible) :
    (run previous fresh supply).1.described = fresh.described := described_node _ _ hf

/-- Identities that were supplied are assigned, if the old ones are. -/
theorem assigned_of_supplied {t : Node P} {keys : List NodeId} {old : List Mark}
    {s s' : IdSupply} (h : Supplied keys old s s' (t.marks true))
    (hold : ∀ x, .node x ∈ old → x.isAssigned = true) : ∀ x ∈ t.ids, x.isAssigned = true := by
  intro x hx
  rcases h.origin (.node x) (Node.node_mem_marks_iff.mpr hx) with ⟨k, -, hk, he⟩ | hm | ⟨hxo, -⟩
  · rw [Mark.node.inj he]
    exact NodeId.isAssigned_of_isKeyed hk
  · cases x with
    | generated n => rfl
    | keyed k => rfl
    | unassigned => exact hm.elim
  · exact hold x hxo

/-- An admissible tree that is aligned with a grounded one is grounded. -/
theorem grounded_run (previous : Option (Node P)) (supply : IdSupply) (hf : fresh.Admissible)
    (hp : ∀ p ∈ previous, Grounded supply p) :
    Grounded (run previous fresh supply).2.supply (run previous fresh supply).1 := by
  have hoffered := offered_of_grounded hp
  have hsupplied := supplied_node previous { supply := supply } hf.keys hoffered
  have hlabels := wellLabelled_node previous { supply := supply } hf
  have hassigned : ∀ x ∈ (run previous fresh supply).1.ids, x.isAssigned = true := by
    refine assigned_of_supplied hsupplied fun x hx => ?_
    obtain ⟨p, hpp, hxp⟩ := List.mem_flatMap.mp hx
    exact (hp p (Option.mem_toList.mp hpp)).tidy.assigned x (Node.node_mem_marks_iff.mp hxp)
  refine ⟨⟨hassigned, Node.nodup_ids_of_marks hsupplied.nodup, fun m hm => (hlabels m hm).1,
    fun m hm => (hlabels m hm).2⟩, hsupplied.nodup, hsupplied.below hoffered.below⟩

/-- A tree and the aligned tree of the same root are a revision: handlers are retained where nodes
are changed in place. -/
theorem revision_run (hf : fresh.Admissible) (hp : Grounded supply p)
    (hid : p.id = (run (some p) fresh supply).1.id) :
    Revision true (fun x => x.val ≤ supply.handlers) (run (some p) fresh supply).1.ids p
      (run (some p) fresh supply).1 := by
  have hall : ∀ q ∈ some p, Grounded supply q := by
    rintro q hq
    exact Option.some.inj hq ▸ hp
  have hnew := grounded_run _ _ hf hall
  refine ⟨hp.tidy, hnew.tidy, hp.marks, hnew.marks, fun k hk _ => ?_, fun _ => ?_,
    List.Subset.refl _, hid⟩
  · exact hp.below _ (Node.handler_mem_marks_iff.mpr ⟨rfl, k, hk, rfl⟩)
  · rcases settled_node supply.handlers (some p) { supply := supply } hf.keys (offered_of_grounded hall)
      (Nat.le_refl _) with ⟨q, hq, -, hr⟩ | hnone
    · exact List.mem_singleton.mp hq ▸ hr
    · exact .apart hnone

end Alignment

end ViewLoop
