import ViewLoop.Proofs.Roles
import ViewLoop.Proofs.Silence

/-!
# Rendering the same view again

A tree that alignment made of a fresh tree is what it makes of that fresh tree again: every node is
recognised in the one that was made of it, and nothing is drawn (`Alignment.Made.again`). So a view
that says the same costs no patch and no identity (`Alignment.rerendering`).
-/

namespace ViewLoop

namespace Alignment

open Node

variable {P : Type} {c f t : Node P} {cs ts : List (Node P)} {i : Nat}

/-! ### Attributes -/

/-- Handlers that are found by their event keep their identities. -/
theorem identify_again {owner : NodeId} {previous before as : List (Attribute P)} {s : IdSupply}
    (r : IdSupply) (h : ∀ k, .handler k ∈ (identify owner before s as).1 →
      handlerId? previous k.event = some k.id) :
    identify owner previous r as = ((identify owner before s as).1, r) := by
  induction as generalizing s with
  | nil => rfl
  | cons a as ih =>
    cases a with
    | plain name value =>
      rw [identify_plain] at h ⊢
      rw [identify, ih fun k hk => h k (List.mem_cons_of_mem _ hk)]
      split <;> rfl
    | handler j =>
      rw [identify] at h ⊢
      have hown := handlerIdFor_some (h _ List.mem_cons_self) r
      dsimp only at hown
      rw [hown]
      dsimp only
      rw [ih fun k hk => h k (List.mem_cons_of_mem _ hk)]
      rfl

theorem attributes_again (owner : NodeId) (before fresh : List (Attribute P)) (s r : State) :
    (attributes owner (attributes owner before fresh s).1 fresh r).1
        = (attributes owner before fresh s).1
      ∧ (attributes owner (attributes owner before fresh s).1 fresh r).2.supply = r.supply := by
  have hagain :
      identify owner (attributes owner before fresh s).1 r.supply (dropRepeated [] fresh).1
        = ((attributes owner before fresh s).1, r.supply) :=
    identify_again r.supply fun k hk => handlerId?_of_mem (events_attributes _ _ _ _) hk
  rw [attributes, hagain]
  exact ⟨rfl, rfl⟩

/-! ### What is made of a fresh tree -/

/-- The tree is what alignment makes of the fresh one in some state, with some candidate. -/
def Made (f t : Node P) : Prop := ∃ o s, t = (node o s f).1

theorem Made.matches (h : Made f t) : Matches t f := by
  obtain ⟨o, s, rfl⟩ := h
  exact matches_node o s f

theorem Threaded.forall₂ {R : Option (Node P) → IdSupply → Node P → Node P → IdSupply → Prop}
    {Q : Node P → Node P → Prop} (hR : ∀ o s c t s', R o s c t s' → Q c t)
    {os : List (Option (Node P))} {s s' : IdSupply} (h : Threaded R os s cs ts s') :
    List.Forall₂ Q cs ts := by
  induction h with
  | nil => exact .nil
  | cons first rest ih => exact .cons (hR _ _ _ _ _ first) ih

theorem Made.element {tag : String} {x : NodeId} {as : List (Attribute P)}
    (h : Made (.element x tag as cs) t) : ∃ y before s ts,
      t = .element y tag (attributes y before as s).1 ts ∧ List.Forall₂ Made cs ts := by
  obtain ⟨o, s, rfl⟩ := h
  rw [node]
  refine ⟨_, _, _, _, rfl, ?_⟩
  refine (threaded_aligns _ _ _ cs).forall₂ ?_
  rintro o s c t s' ⟨r, -, rfl, -⟩
  exact ⟨o, r, rfl⟩

/-! ### Siblings -/

/-- The candidates for fresh siblings, among what was made of them, are just that. -/
theorem Siblings.candidates_again {siblings : Siblings P} (h : List.Forall₂ Made cs ts)
    (hu : siblings.unkeyed = ts.filter fun t => !t.id.isKeyed)
    (hall : ∀ t ∈ ts, siblings.all.find? (fun p => p.id = t.id) = some t) :
    siblings.candidates cs = ts.map some := by
  induction h generalizing siblings with
  | nil => rfl
  | @cons c t cs ts hct _ ih =>
    have hrest := fun u hu => hall u (List.mem_cons_of_mem t hu)
    have hid := hct.matches.2
    rw [candidates, candidate]
    split at hid
    · rename_i hk
      rw [List.filter_cons_of_neg (by simp [hid, hk])] at hu
      rw [if_pos hk, ih hu hrest, ← hid, hall t List.mem_cons_self]
      rfl
    · rename_i hk
      rw [List.filter_cons_of_pos (by simp [hid])] at hu
      rw [if_neg hk, hu]
      exact congrArg (some t :: ·) (ih rfl hrest)

theorem Threaded.again {R : Option (Node P) → IdSupply → Node P → Node P → IdSupply → Prop}
    {Q : Node P → Node P → Prop} {ts' : List (Node P)} {s s' : IdSupply}
    (hR : ∀ c t, Q c t → ∀ s t' s', R (some t) s c t' s' → t' = t ∧ s' = s)
    (hpairs : List.Forall₂ Q cs ts) (h : Threaded R (ts.map some) s cs ts' s') :
    ts' = ts ∧ s' = s := by
  induction hpairs generalizing s ts' with
  | nil =>
    cases h
    exact ⟨rfl, rfl⟩
  | cons hct _ ih =>
    cases h with
    | cons first rest =>
      obtain ⟨rfl, rfl⟩ := hR _ _ hct _ _ _ first
      obtain ⟨rfl, rfl⟩ := ih rest
      exact ⟨rfl, rfl⟩

/-! ### Trees -/

theorem node_of_matches {p : Node P} {x : NodeId} {tag : String} {as : List (Attribute P)}
    (h : Matches p (.element x tag as cs)) (r : State) :
    node (some p) r (.element x tag as cs)
      = (.element p.id tag (attributes p.id p.attributes as r).1
          (forest (some (.below p)) [] (attributes p.id p.attributes as r).2 cs).1,
        (forest (some (.below p)) [] (attributes p.id p.attributes as r).2 cs).2) := by
  have hr := recognise_of_matches h
  have hid : idFor (some p) x r = (p.id, r) := idFor_of_recognised r hr
  rw [node, hr, hid]
  rfl

/-- What was made of a fresh tree is made of it again, and nothing is drawn. -/
theorem Made.again (h : Made f t) (hn : t.ids.Nodup) (r : State) :
    (node (some t) r f).1 = t ∧ (node (some t) r f).2.supply = r.supply := by
  induction f generalizing t r with
  | text x u =>
    have hr := recognise_of_matches h.matches
    obtain ⟨o, s, rfl⟩ := h
    have hid : idFor (some (node o s (.text x u)).1) x r = ((node o s (.text x u)).1.id, r) :=
      idFor_of_recognised r hr
    rw [node, hr, hid]
    exact ⟨rfl, rfl⟩
  | element x tag as cs ih =>
    have hmatches := h.matches
    obtain ⟨y, before, s, ts, rfl, hts⟩ := h.element
    rw [node_of_matches hmatches]
    have hids : (ts.map Node.id).Nodup := nodup_children hn
    have hcandidates :
        candidates (some (.below (.element y tag (attributes y before as s).1 ts))) cs
          = ts.map some :=
      Siblings.candidates_again hts rfl fun t ht => (find?_id_eq_some_iff hids).mpr ⟨ht, rfl⟩
    have hthread := threaded_aligns
      (some (.below (.element y tag (attributes y before as s).1 ts))) []
      (attributes y (attributes y before as s).1 as r).2 cs
    rw [hcandidates] at hthread
    have hfixed : ∀ c t, c ∈ cs ∧ t ∈ ts ∧ Made c t → ∀ s t' s', Aligns (some t) s c t' s' →
        t' = t ∧ s' = s := by
      rintro c t ⟨hc, ht, hmade⟩ _ _ _ ⟨r, rfl, rfl, rfl⟩
      exact ih c hc hmade (nodup_ids_of_mem hn (mem_subtrees_child y tag _ ht)) r
    obtain ⟨hchildren, hdrawn⟩ := hthread.again hfixed (forall₂_mem hts)
    obtain ⟨hattributes, hsupply⟩ := attributes_again y before as s r
    exact ⟨congr (congrArg (Node.element y tag) hattributes) hchildren, hdrawn.trans hsupply⟩

/-- Rendering the same view again is free: against the tree that was made of it, it gives that tree,
draws no identity of a node or of a handler, and needs no patch. -/
theorem rerendering [DecidableEq P] {previous : Option (Node P)} {fresh : Node P}
    {supply : IdSupply} (hp : ∀ p ∈ previous, WellFormed supply p) (hf : fresh.DistinctKeys) :
    let live := run previous fresh supply
    ∀ s, let again := run (some live.1) fresh s
      again.1 = live.1 ∧ again.2.supply = s ∧ Difference.patches live.1 again.1 = [] := by
  intro live s again
  have hnodup : live.1.ids.Nodup := (wellFormed_run hp hf).nodup
  have hmade : Made fresh live.1 := ⟨previous, { supply := supply }, rfl⟩
  obtain ⟨htree, hsupply⟩ := hmade.again hnodup { supply := s }
  refine ⟨htree, hsupply, ?_⟩
  rw [show again.1 = live.1 from htree]
  exact Difference.patches_self fun m hm => nodup_children (nodup_ids_of_mem hnodup hm)

/-- Keyed items stand between texts, one of them is a section now, and the second handler for a
click is dropped. The third rendering leaves the second one as it is. -/
theorem rerendering_of_items :
    let first : Node Nat := .element .unassigned "ul" [.plain "id" "old"]
      [.element (.keyed "a") "li" [.handler ⟨"click", ⟨0⟩, 5⟩] [], .text .unassigned "x",
        .element (.keyed "b") "li" [] []]
    let second : Node Nat := .element (.generated 1) "ul" [.plain "id" "stale"]
      [.text (.generated 9) "y", .element (.keyed "b") "section" [.plain "id" ""] [],
        .text .unassigned "z", .element (.keyed "a") "li"
          [.handler ⟨"click", ⟨1⟩, 6⟩, .handler ⟨"click", ⟨1⟩, 7⟩, .handler ⟨"input", ⟨0⟩, 8⟩] []]
    let r := run none first {}
    let live := run (some r.1) second r.2.supply
    let again := run (some live.1) second live.2.supply
    (WellFormed r.2.supply r.1 ∧ second.DistinctKeys)
      ∧ again.1 = live.1 ∧ again.2.supply = live.2.supply
      ∧ Difference.patches live.1 again.1 = [] := by
  intro first second r live again
  have hfirst : first.DistinctKeys := by decide
  have hsecond : second.DistinctKeys := by decide
  have hnone : ∀ p ∈ (none : Option (Node Nat)), WellFormed {} p := nofun
  have hr : WellFormed r.2.supply r.1 := wellFormed_run hnone hfirst
  have hp : ∀ p ∈ some r.1, WellFormed r.2.supply p := fun p hp => Option.some.inj hp ▸ hr
  exact ⟨⟨hr, hsecond⟩, rerendering hp hsecond live.2.supply⟩

end Alignment

end ViewLoop
