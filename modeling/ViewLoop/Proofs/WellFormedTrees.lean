import ViewLoop.Proofs.Aligned

/-!
# Well-formed trees

What alignment needs of the tree before, and what it makes of any fresh tree without a repeated key:
identities that are distinct and were drawn before, at most one handler for an event on an element,
and identity attributes that show their elements (`Alignment.WellFormed`). So all trees that are
drawn from one supply are well formed (`Alignment.Drawn.wellFormed`).
-/

namespace ViewLoop

namespace Alignment

variable {P : Type} {s s' supply : IdSupply} {t fresh : Node P} {previous : Option (Node P)}

/-- A tree that may be live with the supply: what was drawn for it lies below what is drawn next. -/
structure WellFormed (s : IdSupply) (t : Node P) : Prop where
  assigned : ∀ x ∈ t.ids, x.isAssigned = true
  nodup : t.ids.Nodup
  generated : ∀ k, .generated k ∈ t.ids → k < s.nodes + 1
  handlers : ∀ k ∈ t.handlers, k.2.id ≠ .invalid ∧ k.2.id.val < s.handlers + 1
  handlers_nodup : (t.handlers.map fun k => k.2.id).Nodup
  events : ∀ m ∈ t.subtrees, (Attribute.events m.attributes).Nodup
  identity : ∀ m ∈ t.subtrees, ∀ a ∈ m.attributes, a.isIdentity = true → a = .identity m.id

theorem WellFormed.mono (h : WellFormed s t) (hs : s.Before s') : WellFormed s' t := by
  refine ⟨h.assigned, h.nodup, fun k hk => ?_, fun k hk => ?_, h.handlers_nodup, h.events,
    h.identity⟩
  · exact Nat.lt_of_lt_of_le (h.generated k hk) (Nat.succ_le_succ hs.nodes)
  · obtain ⟨hne, hlt⟩ := h.handlers k hk
    exact ⟨hne, Nat.lt_of_lt_of_le hlt (Nat.succ_le_succ hs.handlers)⟩

/-! ### Marks of well-formed trees -/

theorem WellFormed.marks (h : WellFormed s t) : (t.marks true).Nodup :=
  Node.nodup_marks_iff.mpr ⟨h.nodup, h.handlers_nodup⟩

theorem WellFormed.below (h : WellFormed s t) : ∀ x ∈ t.marks true, s.Below x := by
  intro x hx
  cases x with
  | node y =>
    cases y with
    | generated k => exact Nat.lt_succ_iff.mp (h.generated k (Node.node_mem_marks_iff.mp hx))
    | keyed k => exact trivial
    | unassigned => exact trivial
  | handler y =>
    obtain ⟨-, k, hk, rfl⟩ := Node.handler_mem_marks_iff.mp hx
    exact Nat.lt_succ_iff.mp (h.handlers k hk).2

theorem WellFormed.offered (h : ∀ p ∈ previous, WellFormed supply p) :
    Offered supply previous.toList :=
  offered_of_forall fun p hp => ⟨(h p hp).marks, (h p hp).below⟩

/-! ### One alignment -/

theorem wellFormed_run (hp : ∀ p ∈ previous, WellFormed supply p) (hf : fresh.DistinctKeys) :
    WellFormed (run previous fresh supply).2.supply (run previous fresh supply).1 := by
  have hoffered := WellFormed.offered hp
  have hsupplied := supplied_node previous { supply := supply } hf hoffered
  have hbelow := hsupplied.below hoffered.below
  have hattributes := attributes_of_mem previous { supply := supply } fresh
  obtain ⟨hids, hhandlers⟩ := Node.nodup_marks_iff.mp hsupplied.nodup
  refine ⟨assigned_of_supplied hsupplied fun x hx => ?_, hids, fun k hk => ?_, fun k hk => ?_,
    hhandlers, fun m hm => ?_, fun m hm a ha hi => ?_⟩
  · obtain ⟨p, hpp, hxp⟩ := List.mem_flatMap.mp hx
    exact (hp p (Option.mem_toList.mp hpp)).assigned x (Node.node_mem_marks_iff.mp hxp)
  · exact Nat.lt_succ_iff.mpr (hbelow _ (Node.node_mem_marks_iff.mpr hk))
  · have hmark := Node.handler_mem_marks_iff.mpr ⟨rfl, k, hk, rfl⟩
    refine ⟨fun hzero => ?_, Nat.lt_succ_iff.mpr (hbelow _ hmark)⟩
    rcases hsupplied.origin _ hmark with ⟨_, -, -, he⟩ | hm | ⟨hold, -⟩
    · exact nomatch he
    · rw [hzero] at hm
      exact Nat.not_lt_zero _ hm.1
    · obtain ⟨p, hpp, hxp⟩ := List.mem_flatMap.mp hold
      obtain ⟨-, j, hj, hid⟩ := Node.handler_mem_marks_iff.mp hxp
      exact ((hp p (Option.mem_toList.mp hpp)).handlers j hj).1 (hid.trans hzero)
  · obtain ⟨f, -, before, s', he⟩ := hattributes m hm
    rw [he]
    exact events_attributes _ _ _ _
  · obtain ⟨f, -, before, s', he⟩ := hattributes m hm
    rw [he] at ha
    exact identity_of_mem_attributes ha hi

theorem before_run (hp : ∀ p ∈ previous, WellFormed supply p) (hf : fresh.DistinctKeys) :
    supply.Before (run previous fresh supply).2.supply :=
  (supplied_node previous { supply := supply } hf (WellFormed.offered hp)).before

/-! ### Many alignments -/

/-- The trees that were drawn from one supply, the latest first. Each is aligned with nothing or
with any of those before it, such as the one that was live when later ones had failed. -/
inductive Drawn : IdSupply → List (Node P) → Prop
  | start (s : IdSupply) : Drawn s []
  | next {s : IdSupply} {ts : List (Node P)} (h : Drawn s ts) (previous : Option (Node P))
      (among : ∀ p ∈ previous, p ∈ ts) (fresh : Node P) (keys : fresh.DistinctKeys) :
      Drawn (run previous fresh s).2.supply ((run previous fresh s).1 :: ts)

theorem Drawn.wellFormed {ts : List (Node P)} (h : Drawn s ts) : ∀ t ∈ ts, WellFormed s t := by
  induction h with
  | start s => exact fun t ht => absurd ht List.not_mem_nil
  | @next s ts h previous among fresh keys ih =>
    have hp : ∀ p ∈ previous, WellFormed s p := fun p hp => ih p (among p hp)
    intro t ht
    rcases List.mem_cons.mp ht with rfl | ht
    · exact wellFormed_run hp keys
    · exact (ih t ht).mono (before_run hp keys)

/-- Alignment keeps trees well formed: one fresh tree without a repeated key after a well-formed
one, and so all trees that are drawn from one supply. -/
theorem wellFormed_throughout :
    (∀ (previous : Option (Node P)) (fresh : Node P) (supply : IdSupply),
      (∀ p ∈ previous, WellFormed supply p) → fresh.DistinctKeys →
        WellFormed (run previous fresh supply).2.supply (run previous fresh supply).1)
    ∧ ∀ (s : IdSupply) (ts : List (Node P)), Drawn s ts → ∀ t ∈ ts, WellFormed s t :=
  ⟨fun _ _ _ hp hf => wellFormed_run hp hf, fun _ _ h => h.wellFormed⟩

/-- Items that change places, of which one becomes a section and loses a text, with stale numbers
and a handler too many. -/
theorem wellFormed_throughout_of_items :
    let first : Node Nat := .element .unassigned "ul" [.plain "id" "old"]
      [.element (.keyed "a") "li" [.handler ⟨"click", ⟨0⟩, 5⟩] [.text .unassigned "x"],
        .element (.keyed "b") "li" [] [], .text .unassigned "y"]
    let second : Node Nat := .element (.generated 7) "ul" [.plain "id" "stale"]
      [.text (.generated 1) "z", .element (.keyed "b") "section" [.handler ⟨"click", ⟨1⟩, 6⟩] [],
        .element (.keyed "a") "li"
          [.handler ⟨"click", ⟨9⟩, 7⟩, .handler ⟨"click", ⟨9⟩, 8⟩, .handler ⟨"input", ⟨0⟩, 9⟩] []]
    let r := run none first {}
    let r' := run (some r.1) second r.2.supply
    (first.DistinctKeys ∧ second.DistinctKeys ∧ Drawn r'.2.supply [r'.1, r.1])
      ∧ WellFormed r'.2.supply r'.1 ∧ ∀ t ∈ [r'.1, r.1], WellFormed r'.2.supply t := by
  intro first second r r'
  have hfirst : first.DistinctKeys := by decide
  have hsecond : second.DistinctKeys := by decide
  have hdrawn : Drawn r'.2.supply [r'.1, r.1] :=
    .next (.next (.start {}) none nofun first hfirst) (some r.1)
      (fun p hp => Option.some.inj hp ▸ List.mem_singleton_self _) second hsecond
  have h := wellFormed_throughout (P := Nat)
  have hr : WellFormed r.2.supply r.1 := h.1 none first {} nofun hfirst
  refine ⟨⟨hfirst, hsecond, hdrawn⟩, h.1 (some r.1) second r.2.supply ?_ hsecond, h.2 _ _ hdrawn⟩
  exact fun p hp => Option.some.inj hp ▸ hr

end Alignment

end ViewLoop
