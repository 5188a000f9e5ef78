import ViewLoop.Proofs.Agreement
import ViewLoop.Proofs.HandlerTable

/-!
# Roles of identities

What an identity stands for in a tree: a text, an element of some tag, or the handler for some event
on some element (`Node.roles`). Alignment hands a role on unchanged or gives it to an identity that
was drawn for it (`Alignment.minted_or_role`); only keys, which views choose, may change theirs.
-/

namespace ViewLoop

/-- What an identity stands for. A node without a tag is a text. -/
inductive Role where
  | node (tag : Option String)
  | handler (owner : NodeId) (event : String)
  deriving DecidableEq, Repr

namespace Node

variable {P : Type} {t m : Node P} {x : Mark} {r r' : Role}

/-- The identities of a tree, each with what it stands for. -/
def roles (t : Node P) : List (Mark × Role) :=
  t.subtrees.map (fun m => (.node m.id, .node m.tag?))
    ++ t.handlers.map fun k => (.handler k.2.id, .handler k.1 k.2.event)

theorem mem_roles_iff : (x, r) ∈ t.roles
    ↔ (∃ m ∈ t.subtrees, x = .node m.id ∧ r = .node m.tag?)
      ∨ ∃ k ∈ t.handlers, x = .handler k.2.id ∧ r = .handler k.1 k.2.event := by
  simp only [roles, List.mem_append, List.mem_map, Prod.mk.injEq]
  simp only [eq_comm (a := x), eq_comm (a := r)]

theorem node_mem_roles (h : m ∈ t.subtrees) : (.node m.id, .node m.tag?) ∈ t.roles :=
  mem_roles_iff.mpr (Or.inl ⟨m, h, rfl, rfl⟩)

theorem handler_mem_roles {e : NodeId} {h : Handler P} (hk : (e, h) ∈ t.handlers) :
    (.handler h.id, .handler e h.event) ∈ t.roles :=
  mem_roles_iff.mpr (Or.inr ⟨(e, h), hk, rfl, rfl⟩)

theorem mem_marks_iff_role : x ∈ t.marks true ↔ ∃ r, (x, r) ∈ t.roles := by
  constructor
  · intro hx
    cases x with
    | node y =>
      obtain ⟨m, hm, rfl⟩ := mem_ids_iff.mp (node_mem_marks_iff.mp hx)
      exact ⟨_, node_mem_roles hm⟩
    | handler y =>
      obtain ⟨-, k, hk, rfl⟩ := handler_mem_marks_iff.mp hx
      exact ⟨_, handler_mem_roles hk⟩
  · rintro ⟨r, hr⟩
    rcases mem_roles_iff.mp hr with ⟨m, hm, rfl, -⟩ | ⟨k, hk, rfl, -⟩
    · exact node_mem_marks_iff.mpr (mem_ids_iff.mpr ⟨m, hm, rfl⟩)
    · exact handler_mem_marks_iff.mpr ⟨rfl, k, hk, rfl⟩

theorem role_eq (ht : (t.marks true).Nodup) (h : (x, r) ∈ t.roles) (h' : (x, r') ∈ t.roles) :
    r = r' := by
  rcases mem_roles_iff.mp h with ⟨m, hm, rfl, rfl⟩ | ⟨k, hk, rfl, rfl⟩ <;>
    rcases mem_roles_iff.mp h' with ⟨n, hn, hid, rfl⟩ | ⟨l, hl, hid, rfl⟩
  · rw [eq_of_id_eq (nodup_ids_of_marks ht) hm hn (Mark.node.inj hid)]
  · exact nomatch hid
  · exact nomatch hid
  · rw [handler_eq_of_id_eq ht hk hl (Mark.handler.inj hid)]

end Node

namespace Alignment

open Node

variable {P : Type} {supply : IdSupply} {previous : Option (Node P)} {fresh : Node P} {x : Mark}
  {r : Role}

/-! ### Nodes that were drawn before -/

/-- A child is aligned with a child of the node that its parent was recognised in, if with any. -/
theorem exists_of_mem_children {o : Option (Node P)} {st : State} {d : Node P}
    (hd : d ∈ (node o st fresh).1.children) : ∃ c ∈ fresh.children, ∃ (q : Option (Node P))
      (st' : State), st.supply.Before st'.supply ∧ d = (node q st' c).1
        ∧ ∀ p ∈ q, ∃ p', recognise o fresh = some p' ∧ p ∈ p'.children := by
  obtain ⟨i, hi⟩ := List.mem_iff_getElem?.mp hd
  obtain ⟨hlen, hchild⟩ := getElem?_children_node o st fresh
  have hlt : i < fresh.children.length := hlen ▸ (List.getElem?_eq_some_iff.mp hi).1
  obtain ⟨st', hle, ht⟩ := hchild i _ (List.getElem?_eq_getElem hlt)
  obtain rfl := Option.some.inj (hi.symm.trans ht)
  refine ⟨_, List.getElem_mem hlt, _, st', hle, rfl, fun p hp => ?_⟩
  obtain ⟨p', hr, hpartner⟩ := Option.bind_eq_some_iff.mp hp
  exact ⟨p', hr, mem_of_partner? hpartner⟩

theorem exists_stays_root {o : Option (Node P)} {st : State}
    (hk : (node o st fresh).1.id.isKeyed = false)
    (hb : st.supply.Below (.node (node o st fresh).1.id)) :
    ∃ q ∈ o, Stays q (node o st fresh).1 q (node o st fresh).1 := by
  rcases key_or_recognised hb rfl with ⟨hkey, he⟩ | ⟨-, q, rfl, hsame, -⟩
  · rw [he, hkey] at hk
    exact nomatch hk
  · obtain ⟨hid, hshape⟩ := roots_of_matches hsame st
    exact ⟨q, rfl, .root hid hshape⟩

/-- A node without a key whose identity was drawn before was recognised, and stays. -/
theorem exists_stays_of_below {o : Option (Node P)} {st : State} {m : Node P}
    (hm : m ∈ (node o st fresh).1.subtrees) (hk : m.id.isKeyed = false)
    (hb : st.supply.Below (.node m.id)) : ∃ q ∈ o, ∃ a, Stays q (node o st fresh).1 a m := by
  induction fresh generalizing o st m with
  | text i u =>
    obtain rfl := List.mem_singleton.mp hm
    have hroot : ∃ q ∈ o, Stays q (node o st (.text i u)).1 q (node o st (.text i u)).1 :=
      exists_stays_root hk hb
    obtain ⟨q, hq, hstays⟩ := hroot
    exact ⟨q, hq, q, hstays⟩
  | element i tag as cs ih =>
    rcases mem_subtrees_iff.mp hm with rfl | ⟨d, hd, hmd⟩
    · obtain ⟨q, hq, hstays⟩ := exists_stays_root hk hb
      exact ⟨q, hq, q, hstays⟩
    · -- what is below the supply here is below the supply that a child is aligned with
      obtain ⟨c, hc, q, st', hle, rfl, hparent⟩ := exists_of_mem_children hd
      obtain ⟨p, hp, a, hstays⟩ := ih c hc hmd hk (hb.mono hle)
      obtain ⟨p', hr, hpc⟩ := hparent p hp
      obtain ⟨rfl, hsame⟩ := recognise_eq_some_iff.mp hr
      exact ⟨p', rfl, a, .under (roots_of_matches hsame st) hpc hd hstays⟩

/-! ### One alignment -/

/-- An identity without a key was drawn for what it stands for, or stood for the same in the tree
before. -/
theorem minted_or_role (hp : ∀ q ∈ previous, WellFormed supply q) (hf : fresh.DistinctKeys)
    (hx : x.isKeyed = false) (h : (x, r) ∈ (run previous fresh supply).1.roles) :
    IdSupply.Minted supply (run previous fresh supply).2.supply x
      ∨ ∃ q ∈ previous, (x, r) ∈ q.roles := by
  have hsupplied := supplied_node previous { supply := supply } hf (WellFormed.offered hp)
  rcases hsupplied.origin x (mem_marks_iff_role.mpr ⟨r, h⟩) with ⟨k, -, hk, rfl⟩ | hm | ⟨hold, -⟩
  · exact absurd (hx.symm.trans hk) (by simp)
  · exact Or.inl hm
  · obtain ⟨q, hq, hxq⟩ := List.mem_flatMap.mp hold
    obtain rfl := Option.mem_toList.mp hq
    have hb := (hp q rfl).below x hxq
    refine Or.inr ⟨q, rfl, ?_⟩
    rcases mem_roles_iff.mp h with ⟨m, hm, rfl, rfl⟩ | ⟨k, hk, rfl, rfl⟩
    · obtain ⟨q', hq', a, hstays⟩ := exists_stays_of_below hm hx hb
      obtain rfl := Option.some.inj hq'
      have hrole := node_mem_roles hstays.mem_old
      rwa [hstays.id_eq, hstays.shape] at hrole
    · obtain ⟨a, b, hstays, hid, j, hj, hjid, hev⟩ :=
        (minted_or_stays (hp q rfl) hf hk).resolve_left fun hm => hm.not_below hb
      have hrole := handler_mem_roles (mem_handlers_iff.mpr ⟨a, hstays.mem_old, rfl, hj⟩)
      rwa [hjid, hev, hstays.id_eq, hid] at hrole

end Alignment

end ViewLoop
