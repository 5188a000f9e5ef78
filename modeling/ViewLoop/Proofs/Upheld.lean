import ViewLoop.Proofs.Carried
import ViewLoop.Proofs.Reachable

/-!
# Nodes that are upheld

A node of a tree is upheld by a set of identities that has it and all nodes above it
(`Node.Upheld`). A patch that takes none of the set away leaves upheld what was (`Upheld.edit`), on
a surface too, whether it is accepted or not (`Surface.Upholds.after_apply`). The nodes that stay
uphold each other, and the patches of a difference take none of them, so they are live all along
(`Difference.patches_spare`).
-/

namespace ViewLoop

namespace Node

variable {P Q : Type} {K L : NodeId → Prop} {n m c : Node P} {x : NodeId}

/-- The node of identity `x`, and every node above it, has an identity in `K`. -/
inductive Upheld (K : NodeId → Prop) : Node P → NodeId → Prop
  | root {n : Node P} (own : K n.id) : Upheld K n n.id
  | child {n c : Node P} {x : NodeId} (own : K n.id) (hc : c ∈ n.children) (under : Upheld K c x) :
    Upheld K n x

namespace Upheld

theorem own (h : Upheld K n x) : K n.id := by
  cases h with
  | root own => exact own
  | child own hc under => exact own

theorem mem_ids (h : Upheld K n x) : x ∈ n.ids := by
  induction h with
  | root own => exact mem_ids_iff.mpr ⟨_, self_mem_subtrees _, rfl⟩
  | child own hc under ih =>
    exact ids_subset_of_mem (mem_subtrees_of_mem_children (self_mem_subtrees _) hc) ih

theorem mono (h : Upheld K n x) (hKL : ∀ y, K y → L y) : Upheld L n x := by
  induction h with
  | root own => exact .root (hKL _ own)
  | child own hc under ih => exact .child (hKL _ own) hc ih

theorem map (h : Upheld K n x) (f : P → Q) : Upheld K (n.map f) x := by
  induction h with
  | @root n own =>
    have := Upheld.root (K := K) (n := n.map f) (by rwa [id_map])
    rwa [id_map] at this
  | child own hc under ih =>
    refine .child (by rwa [id_map]) ?_ ih
    rw [children_map]
    exact List.mem_map_of_mem hc

theorem alike (h : Upheld K n x) (ha : n.Alike m) : Upheld K m x := by
  induction h generalizing m with
  | root own => exact ha.id_eq ▸ .root (ha.id_eq ▸ own)
  | child own hc under ih =>
    obtain ⟨d, hd, hcd⟩ := exists_of_forall₂ ha.children hc
    exact .child (ha.id_eq ▸ own) hd (ih hcd)

/-- A node may be changed if it keeps its identity and its children in `K`. -/
theorem modify {y : NodeId} {f : Node P → Node P} (h : Upheld K n x)
    (hid : ∀ m : Node P, (f m).id = m.id)
    (hf : ∀ m ∈ n.subtrees, m.id = y → ∀ c ∈ m.children, K c.id → c ∈ (f m).children) :
    Upheld K (n.modify y f) x := by
  induction h with
  | @root n own =>
    have hroot := id_modify y hid n
    exact hroot ▸ .root (hroot.symm ▸ own)
  | @child n c x own hc under ih =>
    by_cases hy : n.id = y
    · subst hy
      rw [modify_of_id_eq]
      exact .child ((hid n).symm ▸ own) (hf n (self_mem_subtrees n) rfl c hc under.own) under
    · cases n with
      | text i s => exact absurd hc List.not_mem_nil
      | element i tag as cs =>
        have hi : i ≠ y := hy
        rw [modify_element_of_ne hi]
        have hbelow := ih fun m hm => hf m (mem_subtrees_trans (mem_subtrees_child i tag as hc) hm)
        exact .child own (List.mem_map_of_mem hc) hbelow

end Upheld

end Node

namespace Patch

variable {P Q : Type} {K : NodeId → Prop} {n t : Node P} {p : Patch P} {x : NodeId}

@[simp] theorem takes_map (f : P → Q) (p : Patch P) : (p.map f).takes = p.takes := by
  cases p <;> simp [map, takes, Node.ids_map]

@[simp] theorem replaced_map (f : P → Q) (p : Patch P) : (p.map f).replaced = p.replaced := by
  cases p <;> simp [map, replaced]

theorem map_reaches_iff {R : Type} (f : P → Q) (p : Patch P) (t : Node R) :
    (p.map f).Reaches t ↔ p.Reaches t := by
  have hallowed : ∀ n : Node R, (p.map f).Allowed n ↔ p.Allowed n := by
    intro n
    cases p <;> simp [map, Allowed]
  unfold Reaches
  rw [target_map, replaced_map]
  cases p.target <;> simp [hallowed]

theorem id_act (p : Patch P) (n : Node P) : (p.act n).id = n.id := by
  cases p <;> simp [act]

theorem mem_children_act {c : Node P} (hp : p.Allowed n) (hn : (n.children.map Node.id).Nodup)
    (hc : c ∈ n.children) (hno : c.id ∉ p.takes) : c ∈ (p.act n).children := by
  cases n with
  | text i s => exact absurd hc List.not_mem_nil
  | element i tag as cs =>
    cases p with
    | addChild y index child => exact (List.mem_insertIdx hp.2.2).mpr (Or.inr hc)
    | addText y index child => exact (List.mem_insertIdx hp.2.2).mpr (Or.inr hc)
    | removeChild y child =>
      refine List.mem_filter.mpr ⟨hc, decide_eq_true fun h => hno ?_⟩
      exact h ▸ Node.mem_ids_iff.mpr ⟨child, child.self_mem_subtrees, rfl⟩
    | removeText y z =>
      refine List.mem_filter.mpr ⟨hc, decide_eq_true fun h => hno ?_⟩
      exact List.mem_singleton.mpr h
    | replaceChild y old new =>
      refine List.mem_map.mpr ⟨c, hc, if_neg fun h => hno ?_⟩
      exact h ▸ Node.mem_ids_iff.mpr ⟨old, old.self_mem_subtrees, rfl⟩
    | reorderChildren y order => exact (map_id_find?_of_perm hp.2 hn).2.mem_iff.mpr hc
    | updateAttribute y old new => exact hc
    | addAttribute y a => exact hc
    | removeAttribute y a => exact hc
    | updateText y s => exact hc

end Patch

namespace Node

variable {P Q : Type} {K : NodeId → Prop} {t : Node P} {p : Patch P} {x : NodeId}

theorem Upheld.edit (h : Upheld K t x) (hp : p.Reaches t) (htakes : ∀ y ∈ p.takes, ¬K y)
    (ht : t.ids.Nodup) : Upheld K (p.edit t) x := by
  unfold Patch.Reaches at hp
  split at hp
  · rename_i y hy
    obtain ⟨n, hn, rfl, hallowed⟩ := hp
    rw [Patch.edit_of_target hy]
    refine h.modify p.id_act fun m hm hid c hc hK => ?_
    obtain rfl := eq_of_id_eq ht hm hn hid
    have hnd := nodup_children (nodup_ids_of_mem ht hn)
    exact Patch.mem_children_act hallowed hnd hc fun hmem => htakes _ hmem hK
  · cases p with
    | replaceChild parent old new =>
      have hid : old.id = t.id := Option.some.inj hp
      exact absurd h.own (htakes _ (hid ▸ mem_ids_iff.mpr ⟨old, old.self_mem_subtrees, rfl⟩))
    | _ => exact nomatch hp

theorem upheld_of_kept {old new : Node P} (h : Kept old new x) : Upheld (Kept old new) old x := by
  -- by induction on the old tree: what stays below two children stays below their parents
  obtain ⟨o, n, hstays, rfl⟩ := h
  induction old generalizing new with
  | text i s =>
    rcases hstays.root_or_below with ⟨rfl, rfl⟩ | ⟨c, hc, -⟩
    · exact .root (kept_root hstays.roots)
    · exact absurd hc List.not_mem_nil
  | element i tag as cs ih =>
    rcases hstays.root_or_below with ⟨rfl, rfl⟩ | ⟨c, hc, d, hd, hunder⟩
    · exact .root (kept_root hstays.roots)
    · have hbelow := (ih c hc hunder).mono fun y hy => hy.under hstays.roots hc hd
      exact .child (kept_root hstays.roots) hc hbelow

end Node

namespace Surface

variable {P : Type} {K : NodeId → Prop} {s : Surface} {p : Patch P}

/-- The surface shows a tree in which the nodes of the identities uphold each other. -/
def Upholds (K : NodeId → Prop) (s : Surface) : Prop := ∃ t, s.Shows t ∧ ∀ x, K x → t.Upheld K x

theorem Upholds.contains (h : s.Upholds K) {x : NodeId} (hx : K x) : s.contains x = true := by
  obtain ⟨t, ht, hK⟩ := h
  exact ht.contains_iff.mpr (hK x hx).mem_ids

theorem Upholds.after_apply (h : s.Upholds K) (hp : ∀ y ∈ p.takes, ¬K y) :
    (s.after (.apply P p)).Upholds K := by
  obtain ⟨t, ht, hK⟩ := h
  -- a refused patch leaves the surface as it was
  by_cases hfits : p.Fits t
  · refine ⟨_, ((apply_decides ht p).accepts hfits).finalState, fun x hx => ?_⟩
    refine (hK x hx).edit ((Patch.map_reaches_iff _ p t).mpr hfits.reaches) ?_ ht.nodup
    rwa [Patch.erased, Patch.takes_map]
  · have hrefused := ((apply_decides ht p).refuses hfits).finalState
    rw [after, hrefused]
    exact ⟨t, ht, hK⟩

theorem Upholds.foldl_after {ps : List (Patch P)} (h : s.Upholds K)
    (hps : ∀ p ∈ ps, ∀ y ∈ p.takes, ¬K y) :
    (ps.foldl (fun s p => s.after (.apply P p)) s).Upholds K := by
  induction ps generalizing s with
  | nil => exact h
  | cons p ps ih =>
    exact ih (h.after_apply (hps p List.mem_cons_self)) fun q hq => hps q (List.mem_cons_of_mem _ hq)

theorem Reachable.upholds {old new : Node P} {u : Node Unit} (hs : s.Reachable)
    (hu : s.tree = .ok u) (hlike : u.Alike old.erased) : s.Upholds (Node.Kept old new) :=
  ⟨u, hs.shows_of_tree hu, fun _ hx => ((Node.upheld_of_kept hx).map _).alike hlike.symm⟩

end Surface

namespace Difference

open Node

variable {P : Type} [DecidableEq P] {old new : Node P}

theorem countP_eq_one {α β : Type} [DecidableEq β] {f : α → List β} {l : List α}
    (hn : (l.flatMap f).Nodup) {x : β} (hx : x ∈ l.flatMap f) :
    l.countP (fun a => x ∈ f a) = 1 := by
  induction l with
  | nil => exact absurd hx List.not_mem_nil
  | cons a l ih =>
    rw [List.flatMap_cons] at hn hx
    by_cases ha : x ∈ f a
    · have hl : ∀ b ∈ l, x ∉ f b := fun b hb hxb =>
        List.disjoint_of_nodup_append hn ha (List.mem_flatMap.mpr ⟨b, hb, hxb⟩)
      rw [List.countP_cons_of_pos (by simpa using ha), List.countP_eq_zero.mpr (by simpa using hl)]
    · rw [List.countP_cons_of_neg (by simpa using ha)]
      exact ih hn.of_append_right ((List.mem_append.mp hx).resolve_left ha)

/-- No patch of a difference carries a node that stays, so all of them are live after any number of
the patches. Each other node of the new tree is brought in by exactly one patch, and each other
node of the old tree is taken away by some patch. -/
theorem patches_spare (ho : old.ids.Nodup) (hn : new.ids.Nodup) :
    (∀ p ∈ patches old new, ∀ x, Kept old new x → x ∉ p.brings ∧ x ∉ p.takes)
    ∧ (∀ (s : Surface) (u : Node Unit), s.Reachable → s.tree = .ok u → u.Alike old.erased →
        ∀ qs, qs <+: patches old new → ∀ x, Kept old new x →
          (qs.foldl (fun s p => s.after (.apply P p)) s).contains x = true)
    ∧ (∀ x ∈ new.ids, ¬Kept old new x →
        (patches old new).countP (fun p => x ∈ p.brings) = 1)
    ∧ (∀ x ∈ old.ids, ¬Kept old new x → ∃ p ∈ patches old new, x ∈ p.takes) := by
  have hbrings := brings_patches ho hn
  have htakes : ∀ p ∈ patches old new, ∀ x ∈ p.takes, ¬Kept old new x := by
    intro p hp x hx hk
    have hx := (mem_takes_patches_iff ho hn).mp (List.mem_flatMap.mpr ⟨p, hp, hx⟩)
    exact (mem_unkept_iff.mp hx).2 (kept_comm.mp hk)
  refine ⟨fun p hp x hk => ⟨fun hx => ?_, fun hx => htakes p hp x hx hk⟩, ?_, ?_, ?_⟩
  · have hx := hbrings.mem_iff.mp (List.mem_flatMap.mpr ⟨p, hp, hx⟩)
    exact (mem_unkept_iff.mp hx).2 hk
  · intro s u hs hu hlike qs hqs x hk
    exact ((hs.upholds hu hlike).foldl_after fun p hp => htakes p (hqs.subset hp)).contains hk
  · intro x hx hk
    refine countP_eq_one (hbrings.nodup_iff.mpr (hn.filter _)) ?_
    exact hbrings.mem_iff.mpr (mem_unkept_iff.mpr ⟨hx, hk⟩)
  · intro x hx hk
    refine List.mem_flatMap.mp ((mem_takes_patches_iff ho hn).mpr (mem_unkept_iff.mpr ⟨hx, ?_⟩))
    exact fun h => hk (kept_comm.mp h)

/-- A list keeps its two items, which change places, and their text; a paragraph moves into a new
item out of a section that becomes an article. -/
theorem patches_spare_of_detour :
    let old : Node Nat := .element (.keyed "page") "div" []
      [.element (.keyed "list") "ul" []
        [.element (.keyed "one") "li" [] [.text (.generated 1) "x"],
          .element (.keyed "two") "li" [] []],
        .element (.keyed "a") "section" [] [.element (.keyed "b") "p" [] []]]
    let new : Node Nat := .element (.keyed "page") "div" []
      [.element (.keyed "a") "article" [] [],
        .element (.keyed "list") "ul" []
          [.element (.keyed "two") "li" [] [],
            .element (.keyed "three") "li" [] [.element (.keyed "b") "p" [] []],
            .element (.keyed "one") "li" [] [.text (.generated 1) "y"]]]
    let s := (Surface.fresh { scheme := "app", path := .segments [] }).after (.render Nat old)
    (old.ids.Nodup ∧ new.ids.Nodup ∧ s.Reachable ∧ s.tree = .ok old.erased)
      ∧ (Kept old new (.generated 1) ∧ ¬Kept old new (.keyed "b"))
      ∧ (∀ p ∈ patches old new, .generated 1 ∉ p.brings ∧ .generated 1 ∉ p.takes)
      ∧ (∀ qs, qs <+: patches old new →
          (qs.foldl (fun s p => s.after (.apply Nat p)) s).contains (.generated 1) = true)
      ∧ (patches old new).countP (fun p => .keyed "b" ∈ p.brings) = 1
      ∧ ∃ p ∈ patches old new, .keyed "b" ∈ p.takes := by
  intro old new s
  have ho : old.ids.Nodup := by decide
  have hn : new.ids.Nodup := by decide
  have hs : s.Reachable := .after (.fresh _) _
  have hu : s.tree = .ok old.erased := by rfl
  obtain ⟨hspare, hlive, hbrought, htaken⟩ := patches_spare ho hn
  have hk : Kept old new (.generated 1) := by
    have hroot : Stays old new old new := .root rfl rfl
    have hlist := hroot.child List.mem_cons_self
      (List.mem_cons_of_mem _ List.mem_cons_self) rfl rfl
    have hone := hlist.child List.mem_cons_self
      (List.mem_cons_of_mem _ (List.mem_cons_of_mem _ List.mem_cons_self)) rfl rfl
    exact ⟨_, _, hone.child List.mem_cons_self List.mem_cons_self rfl rfl, rfl⟩
  have hb : ¬Kept old new (.keyed "b") := by
    intro h
    have hp : ∃ p ∈ patches old new, .keyed "b" ∈ p.takes := by decide
    obtain ⟨p, hp, hx⟩ := hp
    exact (hspare p hp _ h).2 hx
  exact ⟨⟨ho, hn, hs, hu⟩, ⟨hk, hb⟩, fun p hp => hspare p hp _ hk,
    fun qs hqs => hlive s _ hs hu (.refl _) qs hqs _ hk, hbrought _ (by decide) hb,
    htaken _ (by decide) hb⟩

end Difference

end ViewLoop
