import ViewLoop.Proofs.Roles

/-!
# Lineages of trees

The trees that cycles align one after another, from one supply. Each is aligned with the tree that is
live by then, and goes live itself unless its cycle fails, so that failed cycles use up identities
without a trace. An identity that is no key stands for the same thing in all trees of a lineage
(`Lineage.role_eq`), and once it is in no live tree any more, it never occurs again (`Lineage.lost`).
-/

namespace ViewLoop

/-- What is left of a cycle: the tree that it aligned, and the tree that is live after it. -/
structure Cycle (P : Type) where
  tree : Node P
  live : Option (Node P)

namespace Alignment

open Node

variable {P : Type} {s : IdSupply} {log later earlier : List (Cycle P)} {a b c : Cycle P} {x : Mark}
  {r r' : Role}

/-- The tree that is live after the cycles, of which the latest is the first. -/
def liveAfter : List (Cycle P) → Option (Node P)
  | [] => none
  | c :: _ => c.live

/-- The cycles that came about while the supply got to its state. -/
inductive Lineage : IdSupply → List (Cycle P) → Prop
  | start (s : IdSupply) : Lineage s []
  | next {s : IdSupply} {log : List (Cycle P)} (h : Lineage s log) (fresh : Node P)
      (keys : fresh.DistinctKeys) (live : Option (Node P))
      (commits : live = liveAfter log ∨ live = some (run (liveAfter log) fresh s).1) :
      Lineage (run (liveAfter log) fresh s).2.supply (⟨(run (liveAfter log) fresh s).1, live⟩ :: log)

namespace Lineage

theorem exists_of_live (h : Lineage s log) : ∀ t ∈ liveAfter log, ∃ c ∈ log, c.tree = t := by
  induction h with
  | start s => exact fun t ht => nomatch ht
  | next h fresh keys live commits ih =>
    intro t ht
    have hlive : live = some t := ht
    rcases commits with hold | hnew
    · obtain ⟨c, hc, rfl⟩ := ih t (hold.symm.trans hlive)
      exact ⟨c, List.mem_cons_of_mem _ hc, rfl⟩
    · exact ⟨_, List.mem_cons_self, Option.some.inj (hnew.symm.trans hlive)⟩

theorem drawn (h : Lineage s log) : Drawn s (log.map Cycle.tree) := by
  induction h with
  | start s => exact .start s
  | next h fresh keys live commits ih =>
    refine .next ih _ (fun p hp => ?_) fresh keys
    obtain ⟨c, hc, rfl⟩ := h.exists_of_live p hp
    exact List.mem_map_of_mem hc

theorem wellFormed (h : Lineage s log) (hc : c ∈ log) : WellFormed s c.tree :=
  h.drawn.wellFormed _ (List.mem_map_of_mem hc)

theorem wellFormed_live (h : Lineage s log) : ∀ t ∈ liveAfter log, WellFormed s t := by
  intro t ht
  obtain ⟨c, hc, rfl⟩ := h.exists_of_live t ht
  exact h.wellFormed hc

theorem upTo (h : Lineage s (later ++ earlier)) : ∃ s', Lineage s' earlier := by
  induction later generalizing s with
  | nil => exact ⟨s, h⟩
  | cons c later ih =>
    cases h with
    | next h fresh keys live commits => exact ih h

theorem exists_of_mem_live (h : Lineage s log) (ha : a ∈ log) :
    ∀ t ∈ a.live, ∃ d ∈ log, d.tree = t := by
  obtain ⟨later, earlier, rfl⟩ := List.append_of_mem ha
  obtain ⟨s', h'⟩ := h.upTo
  intro t ht
  obtain ⟨d, hd, rfl⟩ := h'.exists_of_live t ht
  exact ⟨d, List.mem_append_right _ hd, rfl⟩

/-- What occurred before keeps its role in the tree that is aligned next, which has it from the live
tree. -/
theorem role_of_occurs (h : Lineage s log) (hc : c ∈ log) (hxc : x ∈ c.tree.marks true)
    {fresh : Node P} (keys : fresh.DistinctKeys) (hx : x.isKeyed = false)
    (hr : (x, r) ∈ (run (liveAfter log) fresh s).1.roles) :
    ∃ t ∈ liveAfter log, (x, r) ∈ t.roles := by
  have hold := (h.wellFormed hc).below x hxc
  exact (minted_or_role h.wellFormed_live keys hx hr).resolve_left fun hm => hm.not_below hold

/-- An identity that is no key stands for the same thing wherever it occurs. -/
theorem role_eq (h : Lineage s log) (ha : a ∈ log) (hb : b ∈ log) (hx : x.isKeyed = false)
    (hr : (x, r) ∈ a.tree.roles) (hr' : (x, r') ∈ b.tree.roles) : r = r' := by
  induction h generalizing a b r r' with
  | start s => exact absurd ha List.not_mem_nil
  | @next s log h fresh keys live commits ih =>
    have hnext := wellFormed_run h.wellFormed_live keys
    have hacross : ∀ c ∈ log, ∀ {q q'}, (x, q) ∈ (run (liveAfter log) fresh s).1.roles →
        (x, q') ∈ c.tree.roles → q = q' := by
      intro c hc q q' hq hq'
      obtain ⟨t, ht, hqt⟩ :=
        h.role_of_occurs hc (mem_marks_iff_role.mpr ⟨q', hq'⟩) keys hx hq
      obtain ⟨d, hd, rfl⟩ := h.exists_of_live t ht
      exact ih hd hc hqt hq'
    rcases List.mem_cons.mp ha with rfl | ha <;> rcases List.mem_cons.mp hb with rfl | hb
    · exact Node.role_eq hnext.marks hr hr'
    · exact hacross b hb hr hr'
    · exact (hacross a ha hr' hr).symm
    · exact ih ha hb hr hr'

theorem mem_live_of_next (h : Lineage s log) (hc : c ∈ log) (hxc : x ∈ c.tree.marks true)
    {fresh : Node P} (keys : fresh.DistinctKeys) (hx : x.isKeyed = false)
    (hxt : x ∈ (run (liveAfter log) fresh s).1.marks true) :
    ∃ t ∈ liveAfter log, x ∈ t.marks true := by
  obtain ⟨r, hr⟩ := mem_marks_iff_role.mp hxt
  obtain ⟨t, ht, hrt⟩ := h.role_of_occurs hc hxc keys hx hr
  exact ⟨t, ht, mem_marks_iff_role.mpr ⟨r, hrt⟩⟩

/-- What occurred by some cycle and is not in the tree that is live after it is lost for good: no
later tree has it, and no later live tree. -/
theorem lost (h : Lineage s (later ++ c :: earlier)) (ha : a ∈ c :: earlier)
    (hx : x.isKeyed = false) (hxa : x ∈ a.tree.marks true)
    (hlost : ∀ t ∈ c.live, x ∉ t.marks true) :
    (∀ b ∈ later, x ∉ b.tree.marks true)
      ∧ ∀ t ∈ liveAfter (later ++ c :: earlier), x ∉ t.marks true := by
  induction later generalizing s with
  | nil => exact ⟨fun b hb => absurd hb List.not_mem_nil, hlost⟩
  | cons d later ih =>
    cases h with
    | @next s _ h fresh keys live commits =>
      obtain ⟨hlater, hlive⟩ := ih h
      -- the next tree has old identities from the live tree only
      have hnew : x ∉ (run (liveAfter (later ++ c :: earlier)) fresh s).1.marks true := by
        intro hxd
        obtain ⟨t, ht, hxt⟩ :=
          h.mem_live_of_next (List.mem_append_right _ ha) hxa keys hx hxd
        exact hlive t ht hxt
      constructor
      · exact List.forall_mem_cons.mpr ⟨hnew, hlater⟩
      · intro t ht
        have ht : live = some t := ht
        rcases commits with hold | hcommit
        · exact hlive t (hold.symm.trans ht)
        · obtain rfl := Option.some.inj (hcommit.symm.trans ht)
          exact hnew

/-- What occurs before and after some cycle is in the tree that is live after it. -/
theorem mem_live (h : Lineage s (later ++ c :: earlier)) (ha : a ∈ c :: earlier) (hb : b ∈ later)
    (hx : x.isKeyed = false) (hxa : x ∈ a.tree.marks true) (hxb : x ∈ b.tree.marks true) :
    ∃ t ∈ c.live, x ∈ t.marks true := by
  by_contra hno
  exact (h.lost ha hx hxa fun t ht hxt => hno ⟨t, ht, hxt⟩).1 b hb hxb

end Lineage

end Alignment

end ViewLoop
