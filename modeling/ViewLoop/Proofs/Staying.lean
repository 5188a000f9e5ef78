import ViewLoop.Proofs.Marks

/-!
# Nodes that stay

A node of an old tree stays in a new one if, level by level down to it, both trees have nodes of one
identity, kind and tag (`Node.Stays`). Where identities do not repeat, whether a node below a child
stays is decided by that child and its partner alone (`Node.kept_iff_of_mem_new`).
-/

namespace ViewLoop.Node

variable {P : Type} {old new o n a b c d : Node P} {x : NodeId}

/-! ### Couples of nodes -/

/-- The node `o` below the old root stays as `n` below the new one. -/
inductive Stays (old new : Node P) : Node P → Node P → Prop
  | root (id : old.id = new.id) (shape : old.SameShape new) : Stays old new old new
  | child {o n c d : Node P} (above : Stays old new o n) (hc : c ∈ o.children)
      (hd : d ∈ n.children) (id : c.id = d.id) (shape : c.SameShape d) : Stays old new c d

namespace Stays

theorem id_eq (h : Stays old new o n) : o.id = n.id := by
  cases h with
  | root id shape => exact id
  | child above hc hd id shape => exact id

theorem shape (h : Stays old new o n) : o.SameShape n := by
  cases h with
  | root id shape => exact shape
  | child above hc hd id shape => exact shape

theorem roots (h : Stays old new o n) : old.id = new.id ∧ old.SameShape new := by
  induction h with
  | root id shape => exact ⟨id, shape⟩
  | child above hc hd id shape ih => exact ih

theorem symm (h : Stays old new o n) : Stays new old n o := by
  induction h with
  | root id shape => exact .root id.symm (Eq.symm shape)
  | child above hc hd id shape ih => exact .child ih hd hc id.symm (Eq.symm shape)

theorem mem_old (h : Stays old new o n) : o ∈ old.subtrees := by
  induction h with
  | root id shape => exact self_mem_subtrees old
  | child above hc hd id shape ih => exact mem_subtrees_of_mem_children ih hc

theorem mem_new (h : Stays old new o n) : n ∈ new.subtrees := h.symm.mem_old

theorem trans (h : Stays old new o n) (h' : Stays o n a b) : Stays old new a b := by
  induction h' with
  | root id shape => exact h
  | child above hc hd id shape ih => exact .child ih hc hd id shape

theorem root_or_below (h : Stays old new o n) :
    o = old ∧ n = new ∨ ∃ c ∈ old.children, ∃ d ∈ new.children, Stays c d o n := by
  -- a couple is built from the root down; here it is read from the other end
  induction h with
  | root id shape => exact Or.inl ⟨rfl, rfl⟩
  | child above hc hd id shape ih =>
    rcases ih with ⟨rfl, rfl⟩ | ⟨e, he, f, hf, hstays⟩
    · exact Or.inr ⟨_, hc, _, hd, .root id shape⟩
    · exact Or.inr ⟨e, he, f, hf, .child hstays hc hd id shape⟩

theorem under (hroot : old.id = new.id ∧ old.SameShape new) (hc : c ∈ old.children)
    (hd : d ∈ new.children) (h : Stays c d o n) : Stays old new o n :=
  (child (.root hroot.1 hroot.2) hc hd h.roots.1 h.roots.2).trans h

end Stays

/-! ### Identities that stay -/

/-- The node of the identity stays. -/
def Kept (old new : Node P) (x : NodeId) : Prop := ∃ o n, Stays old new o n ∧ o.id = x

theorem kept_comm : Kept old new x ↔ Kept new old x := by
  constructor
  · rintro ⟨o, n, h, rfl⟩
    exact ⟨n, o, h.symm, h.id_eq.symm⟩
  · rintro ⟨o, n, h, rfl⟩
    exact ⟨n, o, h.symm, h.id_eq.symm⟩

theorem Kept.roots (h : Kept old new x) : old.id = new.id ∧ old.SameShape new := by
  obtain ⟨o, n, hstays, -⟩ := h
  exact hstays.roots

theorem kept_root (hroot : old.id = new.id ∧ old.SameShape new) : Kept old new old.id :=
  ⟨old, new, .root hroot.1 hroot.2, rfl⟩

theorem Kept.under (hroot : old.id = new.id ∧ old.SameShape new) (hc : c ∈ old.children)
    (hd : d ∈ new.children) (h : Kept c d x) : Kept old new x := by
  obtain ⟨o, n, hstays, hid⟩ := h
  exact ⟨o, n, .under hroot hc hd hstays, hid⟩

theorem id_not_mem_of_child (hn : n.ids.Nodup) (hd : d ∈ n.children) : n.id ∉ d.ids := by
  cases n with
  | element i tag as cs =>
    rw [ids_element] at hn
    exact fun hm => (List.nodup_cons.mp hn).1 (List.mem_flatMap.mpr ⟨d, hd, hm⟩)
  | text i s => exact absurd hd List.not_mem_nil

theorem not_mem_child_subtrees (hn : n.ids.Nodup) (hd : d ∈ n.children) : n ∉ d.subtrees :=
  fun hm => id_not_mem_of_child hn hd (mem_ids_iff.mpr ⟨n, hm, rfl⟩)

/-- A child is told by any identity below it. -/
theorem eq_of_mem_child_ids (hn : n.ids.Nodup) (hc : c ∈ n.children) (hd : d ∈ n.children)
    (hxc : x ∈ c.ids) (hxd : x ∈ d.ids) : d = c := by
  cases n with
  | element i tag as cs =>
    rw [ids_element] at hn
    exact eq_of_mem_flatMap (List.nodup_cons.mp hn).2 hc hd hxc hxd
  | text i s => exact absurd hd List.not_mem_nil

theorem kept_iff_of_mem_new (hn : new.ids.Nodup) (hd : d ∈ new.children) (hx : x ∈ d.ids)
    (hroot : old.id = new.id ∧ old.SameShape new) :
    Kept old new x ↔ ∃ c ∈ old.children, Kept c d x := by
  constructor
  · rintro ⟨o, n, h, rfl⟩
    rcases h.root_or_below with ⟨rfl, rfl⟩ | ⟨c, hc, e, he, hstays⟩
    · exact absurd (hroot.1 ▸ hx) (id_not_mem_of_child hn hd)
    · have hxe : o.id ∈ e.ids := mem_ids_iff.mpr ⟨n, hstays.mem_new, hstays.id_eq.symm⟩
      obtain rfl := eq_of_mem_child_ids hn hd he hx hxe
      exact ⟨c, hc, o, n, hstays, rfl⟩
  · rintro ⟨c, hc, h⟩
    exact h.under hroot hc hd

end ViewLoop.Node
